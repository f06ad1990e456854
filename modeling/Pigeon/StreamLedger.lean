import Pigeon.GoSession
import Pigeon.Queues

/-!
What the lock `streamMu` of the Go session guards: the waiters of `AcceptStream` and the
parked streams, by name (`api.go`, `stream_lifecycle.go`). Every section keeps `Orderly`:
waiters and parked streams of one name never coexist, no more are parked than allowed, and
earlier calls get earlier streams.
-/
namespace Pigeon.StreamLedger
open Octets Sequence Queues List
open GoSession (reservedStreamName nameAllowed defaultMaxBufferedStreams)

/-- A stream that was given to a call of `AcceptStream`. -/
structure HandOut where
  name : Bytes
  (stream call : Nat)

structure Ledger where
  /-- The names of the streams so far. -/
  arrived : List Bytes
  /-- The names of the calls so far. -/
  called : List Bytes
  (pendingOpens bufferedStreams : List (Bytes × Nat))
  allowedStreams : Option (List Bytes)
  draining : Bool
  /-- Who was given what, in this order. -/
  handOuts : List HandOut

def empty : Ledger := ⟨[],[],[],[],none,false,[]⟩

/-- `Session.bufferedCap`. -/
def bufferedCap (maxBufferedPerName : Int) : Nat :=
  if maxBufferedPerName ≤ 0 then defaultMaxBufferedStreams else maxBufferedPerName.toNat

inductive Verdict
  | refused
  | waiter (call : Nat)
  | parked

namespace Ledger

/-- `Session.applyStreamPolicy`. -/
def applyStreamPolicy (l : Ledger) (names : List Bytes) : Ledger :=
  if names = [] then l else { l with allowedStreams := some (names.filter (· ≠ [])) }

def deliver (cap : Nat) (l : Ledger) (name : Bytes) : Ledger × Verdict :=
  let arrived := l.arrived ++ [name]
  if (l.draining || !nameAllowed l.allowedStreams name) && !reservedStreamName name then
    ({ l with arrived },.refused)
  else
    match queue l.pendingOpens name with
    | w :: _ =>
      ({ l with
          arrived
          pendingOpens := l.pendingOpens.erase (name,w)
          handOuts := l.handOuts ++ [⟨name,l.arrived.length,w⟩] },.waiter w)
    | [] =>
      if cap ≤ (queue l.bufferedStreams name).length then ({ l with arrived },.refused)
      else ({ l with arrived, bufferedStreams := l.bufferedStreams ++ [(name,l.arrived.length)] },.parked)

/-- `AcceptStream`. -/
def accept (l : Ledger) (name : Bytes) : Ledger × Option Nat :=
  let called := l.called ++ [name]
  match queue l.bufferedStreams name with
  | stream :: _ =>
    ({ l with
        called
        bufferedStreams := l.bufferedStreams.erase (name,stream)
        handOuts := l.handOuts ++ [⟨name,stream,l.called.length⟩] },some stream)
  | [] => ({ l with called, pendingOpens := l.pendingOpens ++ [(name,l.called.length)] },none)

/-- `Session.removePending`. -/
def removePending (l : Ledger) (call : Nat) : Ledger :=
  { l with pendingOpens := l.pendingOpens.erase (l.called.getD call [],call) }

/-- `expireBuffered`. -/
def expire (l : Ledger) (stream : Nat) : Ledger × Bool :=
  let entry := (l.arrived.getD stream [],stream)
  ({ l with bufferedStreams := l.bufferedStreams.erase entry },l.bufferedStreams.contains entry)

/-- `rejectParkedStreams`. -/
def rejectParked (l : Ledger) : Ledger × List Nat :=
  ({ l with bufferedStreams := [] },l.bufferedStreams.map Prod.snd)

def drain (l : Ledger) : Ledger := { l with draining := true }

end Ledger

structure Orderly (cap : Nat) (l : Ledger) : Prop where
  waiting : ∀ e ∈ l.pendingOpens, l.called[e.2]? = some e.1
  parked : ∀ e ∈ l.bufferedStreams, l.arrived[e.2]? = some e.1
  handed : ∀ h ∈ l.handOuts, l.arrived[h.stream]? = some h.name ∧ l.called[h.call]? = some h.name
  waitingSorted : l.pendingOpens.Pairwise (fun a b => a.2 < b.2)
  parkedSorted : l.bufferedStreams.Pairwise (fun a b => a.2 < b.2)
  apart : ∀ name, queue l.pendingOpens name = [] ∨ queue l.bufferedStreams name = []
  capped : ∀ name, (queue l.bufferedStreams name).length ≤ cap
  handedSorted : l.handOuts.Pairwise (fun a b => a.name = b.name → a.stream < b.stream ∧ a.call < b.call)
  beforeWaiting : ∀ h ∈ l.handOuts, ∀ w, (h.name,w) ∈ l.pendingOpens → h.call < w
  beforeParked : ∀ h ∈ l.handOuts, ∀ i, (h.name,i) ∈ l.bufferedStreams → h.stream < i

variable {name : Bytes} {cap : Nat} {l : Ledger}

theorem orderly_shrink (orderly : Orderly cap l) {pending buffered} (fewerPending : pending.Sublist l.pendingOpens)
    (fewerBuffered : buffered.Sublist l.bufferedStreams) (allowed : Option (List Bytes)) (draining : Bool) :
    Orderly cap { l with pendingOpens := pending, bufferedStreams := buffered, allowedStreams := allowed, draining } where
  waiting e mem := orderly.waiting e (fewerPending.subset mem)
  parked e mem := orderly.parked e (fewerBuffered.subset mem)
  handed := orderly.handed
  waitingSorted := orderly.waitingSorted.sublist fewerPending
  parkedSorted := orderly.parkedSorted.sublist fewerBuffered
  apart name := (orderly.apart name).imp (queue_nil_of_sublist fewerPending) (queue_nil_of_sublist fewerBuffered)
  capped name := (queue_sublist fewerBuffered name).length_le.trans (orderly.capped name)
  handedSorted := orderly.handedSorted
  beforeWaiting h mem w waits := orderly.beforeWaiting h mem w (fewerPending.subset waits)
  beforeParked h mem i parks := orderly.beforeParked h mem i (fewerBuffered.subset parks)

theorem orderly_refused (orderly : Orderly cap l) (name : Bytes) : Orderly cap { l with arrived := l.arrived ++ [name] } :=
  { orderly with
    parked := fun e mem => getElem?_append_some (orderly.parked e mem)
    handed := fun h mem => (orderly.handed h mem).imp_left getElem?_append_some }

theorem orderly_called (orderly : Orderly cap l) (name : Bytes) : Orderly cap { l with called := l.called ++ [name] } :=
  { orderly with
    waiting := fun e mem => getElem?_append_some (orderly.waiting e mem)
    handed := fun h mem => (orderly.handed h mem).imp_right getElem?_append_some }

/-- A stream and a call are later than those handed out before, and earlier than those that stay. -/
theorem orderly_handOut (orderly : Orderly cap l) {i w} (stream : l.arrived[i]? = some name)
    (call : l.called[w]? = some name) (last : ∀ h ∈ l.handOuts, h.name = name → h.stream < i ∧ h.call < w)
    (waits : ∀ v, (name,v) ∈ l.pendingOpens → w < v) (parks : ∀ j, (name,j) ∈ l.bufferedStreams → i < j) :
    Orderly cap { l with handOuts := l.handOuts ++ [⟨name,i,w⟩] } :=
  { orderly with
    handed := forall_mem_snoc.mpr ⟨orderly.handed,stream,call⟩
    handedSorted := pairwise_snoc.mpr ⟨orderly.handedSorted,last⟩
    beforeWaiting := forall_mem_snoc.mpr ⟨orderly.beforeWaiting,waits⟩
    beforeParked := forall_mem_snoc.mpr ⟨orderly.beforeParked,parks⟩ }

theorem orderly_waiter (orderly : Orderly cap l) {w rest} (head : queue l.pendingOpens name = w :: rest) :
    Orderly cap { l with
      arrived := l.arrived ++ [name]
      pendingOpens := l.pendingOpens.erase (name,w)
      handOuts := l.handOuts ++ [⟨name,l.arrived.length,w⟩] } := by
  have waits : (name,w) ∈ l.pendingOpens := mem_of_head head
  have fewer : (l.pendingOpens.erase (name,w)).Sublist l.pendingOpens := erase_sublist
  have base := orderly_shrink (orderly_refused orderly name) fewer (Sublist.refl _) l.allowedStreams l.draining
  refine orderly_handOut base getElem?_concat_length (orderly.waiting _ waits) ?_
    (fun _ => head_lt_of_sorted orderly.waitingSorted head) ?_
  · intro h old same
    exact ⟨lt_of_getElem? (orderly.handed h old).1,orderly.beforeWaiting h old w (same ▸ waits)⟩
  · intro i parks
    have inQueue := mem_queue.mpr parks
    rw [(orderly.apart name).resolve_left (by simp [head])] at inQueue
    cases inQueue

theorem orderly_parked (orderly : Orderly cap l) (noWaiter : queue l.pendingOpens name = [])
    (room : (queue l.bufferedStreams name).length < cap) : Orderly cap { l with
      arrived := l.arrived ++ [name]
      bufferedStreams := l.bufferedStreams ++ [(name,l.arrived.length)] } := by
  have base := orderly_refused orderly name
  refine { base with parked := ?_, parkedSorted := ?_, apart := ?_, capped := ?_, beforeParked := ?_ }
  · exact forall_mem_snoc.mpr ⟨base.parked,getElem?_concat_length⟩
  · exact pairwise_snoc.mpr ⟨orderly.parkedSorted,fun e mem => lt_of_getElem? (orderly.parked e mem)⟩
  · intro other
    rw [queue_append]
    by_cases same : name = other
    · exact Or.inl (same ▸ noWaiter)
    · rw [if_neg same,append_nil]
      exact orderly.apart other
  · intro other
    rw [queue_append]
    by_cases same : name = other
    · rw [if_pos same,length_append,← same]
      exact room
    · rw [if_neg same,append_nil]
      exact orderly.capped other
  · intro h mem i parks
    rcases mem_snoc.mp parks with old | new
    · exact orderly.beforeParked h mem i old
    · cases new
      exact lt_of_getElem? (orderly.handed h mem).1

theorem deliver_cases (cap : Nat) (l : Ledger) (name : Bytes) :
    l.deliver cap name = ({ l with arrived := l.arrived ++ [name] },.refused) ∨
    (∃ w rest, queue l.pendingOpens name = w :: rest ∧ l.deliver cap name = ({ l with
        arrived := l.arrived ++ [name]
        pendingOpens := l.pendingOpens.erase (name,w)
        handOuts := l.handOuts ++ [⟨name,l.arrived.length,w⟩] },.waiter w)) ∨
    (queue l.pendingOpens name = [] ∧ (queue l.bufferedStreams name).length < cap ∧ l.deliver cap name = ({ l with
        arrived := l.arrived ++ [name]
        bufferedStreams := l.bufferedStreams ++ [(name,l.arrived.length)] },.parked)) := by
  rw [Ledger.deliver]
  split
  · exact Or.inl rfl
  · split
    next w rest head => exact Or.inr (Or.inl ⟨w,rest,head,rfl⟩)
    next none =>
      split
      · exact Or.inl rfl
      · exact Or.inr (Or.inr ⟨none,by omega,rfl⟩)

theorem orderly_deliver (orderly : Orderly cap l) (name : Bytes) : Orderly cap (l.deliver cap name).1 := by
  rcases deliver_cases cap l name with refused | ⟨w,rest,head,given⟩ | ⟨noWaiter,room,parked⟩
  · rw [refused]
    exact orderly_refused orderly name
  · rw [given]
    exact orderly_waiter orderly head
  · rw [parked]
    exact orderly_parked orderly noWaiter room

theorem orderly_taken (orderly : Orderly cap l) {i rest} (head : queue l.bufferedStreams name = i :: rest) :
    Orderly cap { l with
      called := l.called ++ [name]
      bufferedStreams := l.bufferedStreams.erase (name,i)
      handOuts := l.handOuts ++ [⟨name,i,l.called.length⟩] } := by
  have parks : (name,i) ∈ l.bufferedStreams := mem_of_head head
  have fewer : (l.bufferedStreams.erase (name,i)).Sublist l.bufferedStreams := erase_sublist
  have base := orderly_shrink (orderly_called orderly name) (Sublist.refl _) fewer l.allowedStreams l.draining
  refine orderly_handOut base (orderly.parked _ parks) getElem?_concat_length ?_ ?_
    (fun _ => head_lt_of_sorted orderly.parkedSorted head)
  · intro h old same
    exact ⟨orderly.beforeParked h old i (same ▸ parks),lt_of_getElem? (orderly.handed h old).2⟩
  · intro w waits
    have inQueue := mem_queue.mpr waits
    rw [(orderly.apart name).resolve_right (by simp [head])] at inQueue
    cases inQueue

theorem orderly_waits (orderly : Orderly cap l) (noneParked : queue l.bufferedStreams name = []) :
    Orderly cap { l with
      called := l.called ++ [name]
      pendingOpens := l.pendingOpens ++ [(name,l.called.length)] } := by
  have base := orderly_called orderly name
  refine { base with waiting := ?_, waitingSorted := ?_, apart := ?_, beforeWaiting := ?_ }
  · exact forall_mem_snoc.mpr ⟨base.waiting,getElem?_concat_length⟩
  · exact pairwise_snoc.mpr ⟨orderly.waitingSorted,fun e mem => lt_of_getElem? (orderly.waiting e mem)⟩
  · intro other
    rw [queue_append]
    by_cases same : name = other
    · exact Or.inr (same ▸ noneParked)
    · rw [if_neg same,append_nil]
      exact orderly.apart other
  · intro h mem w waits
    rcases mem_snoc.mp waits with old | new
    · exact orderly.beforeWaiting h mem w old
    · cases new
      exact lt_of_getElem? (orderly.handed h mem).2

theorem accept_cases (l : Ledger) (name : Bytes) : (∃ i rest, queue l.bufferedStreams name = i :: rest ∧
      l.accept name = ({ l with
        called := l.called ++ [name]
        bufferedStreams := l.bufferedStreams.erase (name,i)
        handOuts := l.handOuts ++ [⟨name,i,l.called.length⟩] },some i)) ∨
    (queue l.bufferedStreams name = [] ∧ l.accept name = ({ l with
        called := l.called ++ [name]
        pendingOpens := l.pendingOpens ++ [(name,l.called.length)] },none)) := by
  rw [Ledger.accept]
  split
  next i rest head => exact Or.inl ⟨i,rest,head,rfl⟩
  next none => exact Or.inr ⟨none,rfl⟩

theorem orderly_accept (orderly : Orderly cap l) (name : Bytes) : Orderly cap (l.accept name).1 := by
  rcases accept_cases l name with ⟨i,rest,head,taken⟩ | ⟨noneParked,waits⟩
  · rw [taken]
    exact orderly_taken orderly head
  · rw [waits]
    exact orderly_waits orderly noneParked

theorem orderly_empty (cap : Nat) : Orderly cap empty where
  waiting _ mem := nomatch mem
  parked _ mem := nomatch mem
  handed _ mem := nomatch mem
  waitingSorted := Pairwise.nil
  parkedSorted := Pairwise.nil
  apart _ := Or.inl rfl
  capped _ := Nat.zero_le cap
  handedSorted := Pairwise.nil
  beforeWaiting _ mem := nomatch mem
  beforeParked _ mem := nomatch mem

theorem handed_order (orderly : Orderly cap l) {a b} (inA : a ∈ l.handOuts) (inB : b ∈ l.handOuts)
    (same : a.name = b.name) :
    a = b ∨ (a.stream < b.stream ∧ a.call < b.call) ∨ (b.stream < a.stream ∧ b.call < a.call) := by
  obtain ⟨m,insideA,rfl⟩ := getElem_of_mem inA
  obtain ⟨n,insideB,rfl⟩ := getElem_of_mem inB
  have sorted := pairwise_iff_getElem.mp orderly.handedSorted
  rcases Nat.lt_trichotomy m n with before | rfl | after
  · exact Or.inr (Or.inl (sorted m n insideA insideB before same))
  · exact Or.inl rfl
  · exact Or.inr (Or.inr (sorted n m insideB insideA after same.symm))

/-- No stream from number `first` on is given out or parked, unless its name is reserved. -/
structure Drained (first : Nat) (l : Ledger) : Prop where
  draining : l.draining = true
  arrived : first ≤ l.arrived.length
  handed : ∀ h ∈ l.handOuts, first ≤ h.stream → reservedStreamName h.name = true
  parked : ∀ e ∈ l.bufferedStreams, first ≤ e.2 → reservedStreamName e.1 = true

theorem drained_start (orderly : Orderly cap l) (draining : l.draining) : Drained l.arrived.length l where
  draining := draining
  arrived := Nat.le_refl _
  handed h mem late := absurd (lt_of_getElem? (orderly.handed h mem).1) (Nat.not_lt.mpr late)
  parked e mem late := absurd (lt_of_getElem? (orderly.parked e mem)) (Nat.not_lt.mpr late)

theorem drained_shrink {first} (drained : Drained first l) (pending : List (Bytes × Nat))
    {buffered} (fewer : buffered.Sublist l.bufferedStreams) (allowed : Option (List Bytes)) :
    Drained first { l with pendingOpens := pending, bufferedStreams := buffered, allowedStreams := allowed } where
  draining := drained.draining
  arrived := drained.arrived
  handed := drained.handed
  parked e mem := drained.parked e (fewer.subset mem)

theorem drained_deliver {first} (drained : Drained first l) (cap : Nat) (name : Bytes) :
    Drained first (l.deliver cap name).1 := by
  have longer : first ≤ (l.arrived ++ [name]).length := by
    rw [length_append]
    exact Nat.le_trans drained.arrived (Nat.le_add_right _ _)
  rw [Ledger.deliver]
  split
  · exact { drained with arrived := longer }
  next admitted =>
    have reserved : reservedStreamName name = true := by simpa [drained.draining] using admitted
    split
    · refine ⟨drained.draining,longer,?_,drained.parked⟩
      intro h mem late
      rcases mem_snoc.mp mem with old | rfl
      · exact drained.handed h old late
      · exact reserved
    · split
      · exact { drained with arrived := longer }
      · refine ⟨drained.draining,longer,drained.handed,?_⟩
        intro e mem late
        rcases mem_snoc.mp mem with old | rfl
        · exact drained.parked e old late
        · exact reserved

theorem drained_accept {first} (drained : Drained first l) (name : Bytes) : Drained first (l.accept name).1 := by
  rw [Ledger.accept]
  split
  next i rest head =>
    refine ⟨drained.draining,drained.arrived,?_,?_⟩
    · intro h mem late
      rcases mem_snoc.mp mem with old | rfl
      · exact drained.handed h old late
      · exact drained.parked _ (mem_of_head head) late
    · intro e mem
      exact drained.parked e (mem_of_mem_erase mem)
  · exact { drained with }

end Pigeon.StreamLedger
