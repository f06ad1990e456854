import Pigeon.Custody
import Pigeon.StreamLedger

/-!
The rendezvous of the Go session with all its goroutines: deliveries, `AcceptStream` calls,
ends of contexts, timers, go-away and close. An event is one step of one goroutine between
sections of `streamMu`. `owners` counts the places where a stream is, and stays one
(`Sound.owned`); at rest only returned, parked and reset remain (`ends`).
-/
namespace Pigeon.Rendezvous
open Octets Runs Sequence Queues StreamLedger List
open Custody (sum_map_set)
open GoSession (reservedStreamName)
open KeySchedule (ascii)

/-- About to put its stream on the waiter's channel, to look at `done`, or to take the stream back. -/
inductive Delivery
  | holding (call : Nat)
  | placed (call : Nat)
  | leaked (call : Nat)
  | finished

/-- In the `select`, on one of three steps of the way out, or back at the caller. -/
inductive Phase
  | waiting
  | leaving
  | removed
  | marked
  | returned (stream : Nat)
  | failed
deriving DecidableEq

/-- `streamWaiter`. -/
structure Waiter where
  ch : Option Nat
  done : Bool
  phase : Phase
deriving DecidableEq

structure State where
  ledger : Ledger
  deliveries : List Delivery
  waiters : List Waiter
  /-- How many calls of `rejectParkedStreams` are about to take the lock. -/
  rejecting : Nat
  closed : Bool
  /-- Streams that a goroutine has taken and resets next. -/
  (doomed resets : List Nat)

def start : State := ⟨empty,[],[],0,false,[],[]⟩

inductive Event
  | applyStreamPolicy (names : List Bytes)
  | deliver (name : Bytes)
  | place (stream : Nat)
  | loadDone (stream : Nat)
  | takeLeaked (stream : Nat)
  | accept (name : Bytes)
  | receive (call : Nat)
  /-- The context of the call or of the session is done, and `select` takes that. -/
  | cancel (call : Nat)
  | removePending (call : Nat)
  | storeDone (call : Nat)
  | drainWaiter (call : Nat)
  | expire (stream : Nat)
  | enterDrain
  | close
  | rejectParked
  | reset (stream : Nat)

namespace State

/-- `deliverIncomingStream`. -/
def deliver (cap : Nat) (s : State) (name : Bytes) : State :=
  let stream := s.deliveries.length
  match s.ledger.deliver cap name with
  | (ledger,.refused) =>
    { s with ledger, deliveries := s.deliveries ++ [.finished], doomed := stream :: s.doomed }
  | (ledger,.waiter w) => { s with ledger, deliveries := s.deliveries ++ [.holding w] }
  | (ledger,.parked) => { s with ledger, deliveries := s.deliveries ++ [.finished] }

def place (s : State) (stream : Nat) : State :=
  match s.deliveries[stream]? with
  | some (.holding w) =>
    match s.waiters[w]? with
    | some ⟨none,done,phase⟩ =>
      { s with
        deliveries := s.deliveries.set stream (.placed w)
        waiters := s.waiters.set w ⟨some stream,done,phase⟩ }
    | _ => s
  | _ => s

def loadDone (s : State) (stream : Nat) : State :=
  match s.deliveries[stream]? with
  | some (.placed w) =>
    match s.waiters[w]? with
    | some x => { s with deliveries := s.deliveries.set stream (if x.done then .leaked w else .finished) }
    | none => s
  | _ => s

def takeLeaked (s : State) (stream : Nat) : State :=
  match s.deliveries[stream]? with
  | some (.leaked w) =>
    match s.waiters[w]? with
    | some ⟨some leaked,done,phase⟩ =>
      { s with
        deliveries := s.deliveries.set stream .finished
        waiters := s.waiters.set w ⟨none,done,phase⟩
        doomed := leaked :: s.doomed }
    | _ => { s with deliveries := s.deliveries.set stream .finished }
  | _ => s

/-- `AcceptStream`. -/
def accept (s : State) (name : Bytes) : State :=
  if name = [] then s
  else
    match s.ledger.accept name with
    | (ledger,some stream) => { s with ledger, waiters := s.waiters ++ [⟨none,false,.returned stream⟩] }
    | (ledger,none) => { s with ledger, waiters := s.waiters ++ [⟨none,false,.waiting⟩] }

def receive (s : State) (call : Nat) : State :=
  match s.waiters[call]? with
  | some ⟨some stream,done,.waiting⟩ => { s with waiters := s.waiters.set call ⟨none,done,.returned stream⟩ }
  | _ => s

def cancel (s : State) (call : Nat) : State :=
  match s.waiters[call]? with
  | some ⟨ch,done,.waiting⟩ => { s with waiters := s.waiters.set call ⟨ch,done,.leaving⟩ }
  | _ => s

def removePending (s : State) (call : Nat) : State :=
  match s.waiters[call]? with
  | some ⟨ch,done,.leaving⟩ =>
    { s with ledger := s.ledger.removePending call, waiters := s.waiters.set call ⟨ch,done,.removed⟩ }
  | _ => s

/-- `abandonWaiter`. -/
def storeDone (s : State) (call : Nat) : State :=
  match s.waiters[call]? with
  | some ⟨ch,_,.removed⟩ => { s with waiters := s.waiters.set call ⟨ch,true,.marked⟩ }
  | _ => s

def drainWaiter (s : State) (call : Nat) : State :=
  match s.waiters[call]? with
  | some ⟨some stream,done,.marked⟩ =>
    { s with waiters := s.waiters.set call ⟨none,done,.failed⟩, doomed := stream :: s.doomed }
  | some ⟨none,done,.marked⟩ => { s with waiters := s.waiters.set call ⟨none,done,.failed⟩ }
  | _ => s

/-- `expireBuffered`. -/
def expire (s : State) (stream : Nat) : State :=
  match s.ledger.expire stream with
  | (ledger,true) => { s with ledger, doomed := stream :: s.doomed }
  | (ledger,false) => { s with ledger }

/-- `Session.enterDrain`. -/
def enterDrain (s : State) : State :=
  if s.ledger.draining then s else { s with ledger := s.ledger.drain, rejecting := s.rejecting + 1 }

def close (s : State) : State := if s.closed then s else { s with closed := true, rejecting := s.rejecting + 1 }

/-- `rejectParkedStreams`. -/
def rejectParked (s : State) : State :=
  if s.rejecting = 0 then s
  else
    let (ledger,streams) := s.ledger.rejectParked
    { s with ledger, rejecting := s.rejecting - 1, doomed := streams ++ s.doomed }

def reset (s : State) (stream : Nat) : State :=
  if stream ∈ s.doomed then { s with doomed := s.doomed.erase stream, resets := stream :: s.resets } else s

end State

def next (cap : Nat) (s : State) : Event → State
  | .applyStreamPolicy names => { s with ledger := s.ledger.applyStreamPolicy names }
  | .deliver name => s.deliver cap name
  | .place stream => s.place stream
  | .loadDone stream => s.loadDone stream
  | .takeLeaked stream => s.takeLeaked stream
  | .accept name => s.accept name
  | .receive call => s.receive call
  | .cancel call => s.cancel call
  | .removePending call => s.removePending call
  | .storeDone call => s.storeDone call
  | .drainWaiter call => s.drainWaiter call
  | .expire stream => s.expire stream
  | .enterDrain => s.enterDrain
  | .close => s.close
  | .rejectParked => s.rejectParked
  | .reset stream => s.reset stream

def step (cap : Nat) (s : State) (e : Event) : State × Unit := (next cap s e,())

def Delivery.held : Delivery → Nat
  | .holding _ => 1
  | _ => 0

def Waiter.owns (i : Nat) (x : Waiter) : Nat :=
  (if x.ch = some i then 1 else 0) + (if x.phase = .returned i then 1 else 0)

def heldAt (deliveries : List Delivery) (i : Nat) : Nat := ((deliveries[i]?).map Delivery.held).getD 0

def owners (s : State) (i : Nat) : Nat :=
  heldAt s.deliveries i + (s.waiters.map (Waiter.owns i)).sum + (s.ledger.bufferedStreams.map Prod.snd).count i +
    s.doomed.count i + s.resets.count i

def Logged (l : Ledger) (i w : Nat) : Prop := ∃ h ∈ l.handOuts, h.stream = i ∧ h.call = w

structure Attended (l : Ledger) (deliveries : List Delivery) (w : Nat) (x : Waiter) : Prop where
  onChannel : ∀ i, x.ch = some i → Logged l i w
  returned : ∀ i, x.phase = .returned i → Logged l i w
  done : x.phase = .marked ∨ x.phase = .failed → x.done = true
  rescued : ∀ i, x.ch = some i → x.phase = .failed →
    deliveries[i]? = some (.placed w) ∨ deliveries[i]? = some (.leaked w)

structure Sound (cap : Nat) (s : State) : Prop where
  orderly : Orderly cap s.ledger
  streams : s.deliveries.length = s.ledger.arrived.length
  calls : s.waiters.length = s.ledger.called.length
  owned : ∀ i, owners s i = if i < s.deliveries.length then 1 else 0
  held : ∀ i w, s.deliveries[i]? = some (.holding w) → Logged s.ledger i w
  attended : ∀ w x, s.waiters[w]? = some x → Attended s.ledger s.deliveries w x

theorem heldAt_append (deliveries : List Delivery) (d : Delivery) (i : Nat) :
    heldAt (deliveries ++ [d]) i = heldAt deliveries i + if i = deliveries.length then d.held else 0 := by
  rcases Nat.lt_trichotomy i deliveries.length with before | rfl | after
  · rw [if_neg (Nat.ne_of_lt before),heldAt,getElem?_append_left before]
    rfl
  · simp [heldAt]
  · rw [if_neg (Nat.ne_of_gt after),heldAt,heldAt,getElem?_eq_none (Nat.le_of_lt after),getElem?_eq_none]
    · rfl
    · rw [length_append]
      exact after

theorem heldAt_set {deliveries j old} (found : deliveries[j]? = some old) (new : Delivery) (i : Nat) :
    heldAt (deliveries.set j new) i + (if i = j then old.held else 0) =
      heldAt deliveries i + if i = j then new.held else 0 := by
  by_cases same : i = j
  · subst same
    rw [if_pos rfl,if_pos rfl,heldAt,heldAt,getElem?_set_found found,found]
    exact Nat.add_comm _ _
  · rw [if_neg same,if_neg same,heldAt,heldAt,getElem?_set_ne (Ne.symm same)]

variable {x : Waiter} {w i : Nat} {l : Ledger} {d : Delivery} {doomed : List Nat}

theorem Attended.grow {l' deliveries deliveries'} (attended : Attended l deliveries w x)
    (logs : ∀ i w, Logged l i w → Logged l' i w)
    (kept : ∀ i, x.ch = some i → x.phase = .failed →
      deliveries[i]? = some (.placed w) ∨ deliveries[i]? = some (.leaked w) →
        deliveries'[i]? = some (.placed w) ∨ deliveries'[i]? = some (.leaked w)) :
    Attended l' deliveries' w x where
  onChannel i on := logs i w (attended.onChannel i on)
  returned i back := logs i w (attended.returned i back)
  done := attended.done
  rescued i on failed := kept i on failed (attended.rescued i on failed)

section
variable {cap : Nat} (orderly : Orderly cap l)
include orderly

theorem handed_once {a b} (inA : a ∈ l.handOuts) (inB : b ∈ l.handOuts)
    (same : a.stream = b.stream ∨ a.call = b.call) : a = b := by
  obtain ⟨arrivedA,calledA⟩ := orderly.handed a inA
  obtain ⟨arrivedB,calledB⟩ := orderly.handed b inB
  have named : a.name = b.name := by
    rcases same with same | same
    · rw [same,arrivedB] at arrivedA
      exact (Option.some.inj arrivedA).symm
    · rw [same,calledB] at calledA
      exact (Option.some.inj calledA).symm
  rcases handed_order orderly inA inB named with equal | less | less
  · exact equal
  · omega
  · omega

theorem logged_call {j : Nat} (first : Logged l i w) (second : Logged l j w) : i = j := by
  obtain ⟨a,inA,rfl,rfl⟩ := first
  obtain ⟨b,inB,rfl,same⟩ := second
  rw [handed_once orderly inA inB (Or.inr same.symm)]

theorem logged_stream {v} (first : Logged l i w) (second : Logged l i v) : w = v := by
  obtain ⟨a,inA,rfl,rfl⟩ := first
  obtain ⟨b,inB,same,rfl⟩ := second
  rw [handed_once orderly inA inB (Or.inl same.symm)]

end

section
variable {cap : Nat} {s : State}

section
variable (sound : Sound cap s)
include sound

theorem sound_delivered (ordered : Orderly cap l) (arrived : l.arrived.length = s.ledger.arrived.length + 1)
    (called : l.called = s.ledger.called) (logs : ∀ i w, Logged s.ledger i w → Logged l i w)
    (new : ∀ w, d = .holding w → Logged l s.deliveries.length w)
    (one : ∀ i, (if i = s.deliveries.length then d.held else 0) + (l.bufferedStreams.map Prod.snd).count i +
      doomed.count i = (s.ledger.bufferedStreams.map Prod.snd).count i + s.doomed.count i +
        if i = s.deliveries.length then 1 else 0) :
    Sound cap { s with ledger := l, deliveries := s.deliveries ++ [d], doomed } where
  orderly := ordered
  streams := by rw [length_append,length_singleton,sound.streams,arrived]
  calls := by rw [called]; exact sound.calls
  owned i := by
    have before := sound.owned i
    have more := one i
    simp only [owners,heldAt_append,length_append,length_singleton] at before ⊢
    split_ifs at before more ⊢ <;> omega
  held i w found := by
    rcases getElem?_snoc_cases found with old | ⟨rfl,isNew⟩
    · exact logs i w (sound.held i w old)
    · exact new w isNew.symm
  attended w x found := by
    refine (sound.attended w x found).grow logs ?_
    intro i _ _ seen
    exact seen.imp getElem?_append_some getElem?_append_some

theorem sound_deliver (name : Bytes) : Sound cap (s.deliver cap name) := by
  have ordered := orderly_deliver sound.orderly name
  rcases deliver_cases cap s.ledger name with refused | ⟨w,rest,head,given⟩ | ⟨noWaiter,room,parked⟩
  · rw [refused] at ordered
    rw [State.deliver,refused]
    refine sound_delivered sound ordered (length_append ..) rfl (fun _ _ logged => logged) (by simp) ?_
    intro i
    rw [count_cons]
    by_cases isNew : i = s.deliveries.length
    · simp [isNew,Delivery.held]
      omega
    · simp [isNew,Ne.symm isNew]
  · rw [given] at ordered
    rw [State.deliver,given]
    refine sound_delivered sound ordered (length_append ..) rfl ?_ ?_ ?_
    · rintro i v ⟨h,mem,same⟩
      exact ⟨h,mem_append_left _ mem,same⟩
    · intro v same
      cases same
      exact ⟨_,mem_append_right _ mem_cons_self,sound.streams.symm,rfl⟩
    · intro i
      simp only [Delivery.held]
      omega
  · rw [parked] at ordered
    rw [State.deliver,parked]
    refine sound_delivered sound ordered (length_append ..) rfl (fun _ _ logged => logged) (by simp) ?_
    intro i
    simp only [map_append,map_cons,map_nil,count_append,count_singleton,Delivery.held,sound.streams]
    by_cases isNew : i = s.ledger.arrived.length
    · simp [isNew]
      omega
    · simp [isNew,Ne.symm isNew]

theorem sound_waiter {new pending} (found : s.waiters[w]? = some x) (fewer : pending.Sublist s.ledger.pendingOpens)
    (attends : Attended s.ledger s.deliveries w new)
    (one : ∀ i, new.owns i + doomed.count i = x.owns i + s.doomed.count i) : Sound cap { s with
      ledger := { s.ledger with pendingOpens := pending }
      waiters := s.waiters.set w new
      doomed } where
  orderly := orderly_shrink sound.orderly fewer (List.Sublist.refl _) s.ledger.allowedStreams s.ledger.draining
  streams := sound.streams
  calls := by rw [length_set]; exact sound.calls
  owned i := by
    have before := sound.owned i
    have change := sum_map_set (Waiter.owns i) found new
    have more := one i
    simp only [owners] at before ⊢
    omega
  held := sound.held
  attended v y at_v := by
    rcases getElem?_set_cases at_v with ⟨rfl,rfl⟩ | ⟨-,old⟩
    · exact attends.grow (fun _ _ logged => logged) (fun _ _ _ seen => seen)
    · exact (sound.attended v y old).grow (fun _ _ logged => logged) (fun _ _ _ seen => seen)

theorem sound_delivery {new} (found : s.deliveries[i]? = some d) (same : new.held = d.held)
    (notHolding : ∀ w, new ≠ .holding w)
    (seen : ∀ w x, s.waiters[w]? = some x → x.ch = some i → x.phase = .failed → d = .placed w ∨ d = .leaked w →
      new = .placed w ∨ new = .leaked w) :
    Sound cap { s with deliveries := s.deliveries.set i new } where
  orderly := sound.orderly
  streams := by rw [length_set]; exact sound.streams
  calls := sound.calls
  owned j := by
    have before := sound.owned j
    have change := heldAt_set found new j
    rw [same] at change
    simp only [owners,length_set] at before ⊢
    omega
  held j w at_j := by
    rcases getElem?_set_cases at_j with ⟨-,isNew⟩ | ⟨-,old⟩
    · exact absurd isNew.symm (notHolding w)
    · exact sound.held j w old
  attended w x at_w := by
    refine (sound.attended w x at_w).grow (fun _ _ logged => logged) ?_
    intro j on failed before
    by_cases here : j = i
    · subst here
      rw [getElem?_set_found found]
      rw [found] at before
      exact (seen w x at_w on failed (before.imp Option.some.inj Option.some.inj)).imp (congrArg some) (congrArg some)
    · rw [getElem?_set_ne (Ne.symm here)]
      exact before

theorem sound_both {newD newX} (foundD : s.deliveries[i]? = some d)
    (foundX : s.waiters[w]? = some x) (notHolding : ∀ v, newD ≠ .holding v)
    (own : ∀ v, v ≠ w → d ≠ .placed v ∧ d ≠ .leaked v) (attends : Attended s.ledger (s.deliveries.set i newD) w newX)
    (one : ∀ j, (if j = i then newD.held else 0) + newX.owns j + doomed.count j =
      (if j = i then d.held else 0) + x.owns j + s.doomed.count j) :
    Sound cap { s with deliveries := s.deliveries.set i newD, waiters := s.waiters.set w newX, doomed } where
  orderly := sound.orderly
  streams := by rw [length_set]; exact sound.streams
  calls := by rw [length_set]; exact sound.calls
  owned j := by
    have before := sound.owned j
    have changeD := heldAt_set foundD newD j
    have changeX := sum_map_set (Waiter.owns j) foundX newX
    have more := one j
    simp only [owners,length_set] at before ⊢
    omega
  held j v at_j := by
    rcases getElem?_set_cases at_j with ⟨-,isNew⟩ | ⟨-,old⟩
    · exact absurd isNew.symm (notHolding v)
    · exact sound.held j v old
  attended v y at_v := by
    rcases getElem?_set_cases at_v with ⟨rfl,rfl⟩ | ⟨other,old⟩
    · exact attends
    · refine (sound.attended v y old).grow (fun _ _ logged => logged) ?_
      intro j _ _ before
      have elsewhere : j ≠ i := by
        rintro rfl
        rw [foundD] at before
        rcases before with same | same
        · exact (own v other).1 (Option.some.inj same)
        · exact (own v other).2 (Option.some.inj same)
      rw [getElem?_set_ne (Ne.symm elsewhere)]
      exact before

theorem sound_called (ordered : Orderly cap l) (arrived : l.arrived = s.ledger.arrived)
    (called : l.called.length = s.ledger.called.length + 1) (logs : ∀ i w, Logged s.ledger i w → Logged l i w)
    (attends : Attended l s.deliveries s.waiters.length x)
    (one : ∀ i, x.owns i + (l.bufferedStreams.map Prod.snd).count i = (s.ledger.bufferedStreams.map Prod.snd).count i) :
    Sound cap { s with ledger := l, waiters := s.waiters ++ [x] } where
  orderly := ordered
  streams := by rw [arrived]; exact sound.streams
  calls := by rw [length_append,length_singleton,sound.calls,called]
  owned i := by
    have before := sound.owned i
    have more := one i
    simp only [owners,map_append,map_cons,map_nil,sum_append,sum_cons,sum_nil] at before ⊢
    omega
  held i w found := logs i w (sound.held i w found)
  attended w y found := by
    rcases getElem?_snoc_cases found with old | ⟨rfl,rfl⟩
    · exact (sound.attended w y old).grow logs (fun _ _ _ seen => seen)
    · exact attends

theorem sound_moved {buffered allowed draining closed}
    {rejecting resets} (fewer : buffered.Sublist s.ledger.bufferedStreams)
    (one : ∀ i, (buffered.map Prod.snd).count i + doomed.count i + resets.count i =
      (s.ledger.bufferedStreams.map Prod.snd).count i + s.doomed.count i + s.resets.count i) :
    Sound cap { s with
      ledger := { s.ledger with bufferedStreams := buffered, allowedStreams := allowed, draining }
      rejecting, closed, doomed, resets } where
  orderly := orderly_shrink sound.orderly (List.Sublist.refl _) fewer allowed draining
  streams := sound.streams
  calls := sound.calls
  owned i := by
    have before := sound.owned i
    have more := one i
    simp only [owners] at before ⊢
    omega
  held := sound.held
  attended w x found := (sound.attended w x found).grow (fun _ _ logged => logged) (fun _ _ _ seen => seen)

theorem sound_place (i : Nat) : Sound cap (s.place i) := by
  rw [State.place]
  split
  next w foundD =>
    split
    next done phase foundX =>
      have attended := sound.attended w _ foundX
      refine sound_both sound foundD foundX (by simp) (by simp) ⟨?_,attended.returned,attended.done,?_⟩ ?_
      · intro j same
        cases same
        exact sound.held i w foundD
      · intro j same _
        cases same
        exact Or.inl (getElem?_set_found foundD)
      · intro j
        by_cases same : j = i
        · simp [same,Delivery.held,Waiter.owns]
        · simp [same,Ne.symm same,Waiter.owns]
    next => exact sound
  next => exact sound

theorem sound_loadDone (i : Nat) : Sound cap (s.loadDone i) := by
  rw [State.loadDone]
  split
  next w foundD =>
    split
    next x foundX =>
      refine sound_delivery sound foundD ?_ ?_ ?_
      · split <;> rfl
      · intro v
        split <;> simp
      · intro v y at_v _ failed place
        have here : w = v := by simpa using place
        subst here
        cases foundX.symm.trans at_v
        rw [if_pos ((sound.attended w x foundX).done (Or.inr failed))]
        exact Or.inr rfl
    next => exact sound
  next => exact sound

theorem sound_takeLeaked (i : Nat) : Sound cap (s.takeLeaked i) := by
  rw [State.takeLeaked]
  split
  next w foundD =>
    split
    next leaked done phase foundX =>
      have attended := sound.attended w _ foundX
      refine sound_both sound foundD foundX (by simp) ?_ ⟨by simp,attended.returned,attended.done,by simp⟩ ?_
      · intro v other
        simp [Ne.symm other]
      · intro j
        by_cases same : j = leaked
        · simp [same,Delivery.held,Waiter.owns]
          omega
        · simp [Ne.symm same,Delivery.held,Waiter.owns]
    next empty =>
      refine sound_delivery sound foundD rfl (by simp) ?_
      intro v y at_v on _ place
      have here : w = v := by simpa using place
      subst here
      obtain ⟨ch,done,phase⟩ := y
      cases (on : ch = some i)
      exact absurd at_v (empty i done phase)
  next => exact sound

theorem sound_accept (name : Bytes) : Sound cap (s.accept name) := by
  rw [State.accept]
  split
  · exact sound
  have ordered := orderly_accept sound.orderly name
  rcases accept_cases s.ledger name with ⟨i,rest,head,taken⟩ | ⟨noneParked,waits⟩
  · rw [taken] at ordered ⊢
    refine sound_called sound ordered rfl (length_append ..) ?_ ⟨by simp,?_,by simp,by simp⟩ ?_
    · rintro j v ⟨h,mem,same⟩
      exact ⟨h,mem_append_left _ mem,same⟩
    · intro j same
      cases same
      exact ⟨_,mem_append_right _ mem_cons_self,rfl,sound.calls.symm⟩
    · intro j
      have fewer := count_values_erase (mem_of_head head) j
      simpa [Waiter.owns] using fewer
  · rw [waits] at ordered ⊢
    refine sound_called sound ordered rfl (length_append ..) (fun _ _ logged => logged)
      ⟨by simp,by simp,by simp,by simp⟩ ?_
    intro j
    simp [Waiter.owns]

theorem sound_receive (w : Nat) : Sound cap (s.receive w) := by
  rw [State.receive]
  split
  next i done found =>
    have attended := sound.attended w _ found
    refine sound_waiter sound found (List.Sublist.refl _) ⟨by simp,?_,by simp,by simp⟩ ?_
    · intro j same
      cases same
      exact attended.onChannel i rfl
    · intro j
      simp [Waiter.owns]
  next => exact sound

theorem sound_removePending (w : Nat) : Sound cap (s.removePending w) := by
  rw [State.removePending]
  split
  next ch done found =>
    have attended := sound.attended w _ found
    refine sound_waiter sound found erase_sublist ⟨attended.onChannel,by simp,by simp,by simp⟩ ?_
    intro j
    simp [Waiter.owns]
  next => exact sound

theorem sound_drainWaiter (w : Nat) : Sound cap (s.drainWaiter w) := by
  rw [State.drainWaiter]
  split
  next i done found =>
    have attended := sound.attended w _ found
    refine sound_waiter sound found (List.Sublist.refl _) ⟨by simp,by simp,?_,by simp⟩ ?_
    · intro _
      exact attended.done (Or.inl rfl)
    · intro j
      by_cases same : j = i
      · simp [same,Waiter.owns]
        omega
      · simp [Ne.symm same,Waiter.owns]
  next done found =>
    have attended := sound.attended w _ found
    refine sound_waiter sound found (List.Sublist.refl _) ⟨by simp,by simp,?_,by simp⟩ ?_
    · intro _
      exact attended.done (Or.inl rfl)
    · intro j
      simp [Waiter.owns]
  next => exact sound

theorem sound_expire (i : Nat) : Sound cap (s.expire i) := by
  rw [State.expire,Ledger.expire]
  cases parked : s.ledger.bufferedStreams.contains (s.ledger.arrived.getD i [],i) with
  | true =>
    refine sound_moved sound erase_sublist ?_
    intro j
    have fewer := count_values_erase (contains_iff_mem.mp parked) j
    simp only [count_cons,beq_iff_eq] at fewer ⊢
    omega
  | false =>
    refine sound_moved sound erase_sublist ?_
    intro j
    rw [erase_of_not_mem]
    intro mem
    rw [contains_iff_mem.mpr mem] at parked
    cases parked

theorem sound_rejectParked : Sound cap s.rejectParked := by
  rw [State.rejectParked]
  split
  · exact sound
  · refine sound_moved sound (nil_sublist _) ?_
    intro j
    simp only [count_append,map_nil,count_nil]
    omega

theorem sound_reset (i : Nat) : Sound cap (s.reset i) := by
  rw [State.reset]
  split
  next taken =>
    refine sound_moved sound (List.Sublist.refl _) ?_
    intro j
    show (s.ledger.bufferedStreams.map Prod.snd).count j + _ + _ = _
    have fewer := (perm_cons_erase taken).count_eq j
    simp only [count_cons] at fewer ⊢
    omega
  next => exact sound

theorem sound_next (e : Event) : Sound cap (next cap s e) := by
  cases e with
  | applyStreamPolicy names =>
    rw [next,Ledger.applyStreamPolicy]
    split
    · exact sound
    · exact sound_moved sound (List.Sublist.refl _) (fun _ => rfl)
  | deliver name => exact sound_deliver sound name
  | place i => exact sound_place sound i
  | loadDone i => exact sound_loadDone sound i
  | takeLeaked i => exact sound_takeLeaked sound i
  | accept name => exact sound_accept sound name
  | receive w => exact sound_receive sound w
  | cancel w | storeDone w =>
    simp only [next,State.cancel,State.storeDone]
    split
    next found =>
      have attended := sound.attended w _ found
      refine sound_waiter sound found (List.Sublist.refl _) ⟨attended.onChannel,by simp,by simp,by simp⟩ ?_
      simp [Waiter.owns]
    next => exact sound
  | removePending w => exact sound_removePending sound w
  | drainWaiter w => exact sound_drainWaiter sound w
  | expire i => exact sound_expire sound i
  | enterDrain | close =>
    simp only [next,State.enterDrain,State.close]
    split
    · exact sound
    · exact sound_moved sound (List.Sublist.refl _) (fun _ => rfl)
  | rejectParked => exact sound_rejectParked sound
  | reset i => exact sound_reset sound i

end

theorem sound_start : Sound cap start where
  orderly := orderly_empty cap
  streams := rfl
  calls := rfl
  owned _ := rfl
  held _ _ found := by cases found
  attended _ _ found := by cases found

theorem sound_final (sound : Sound cap s) (events : List Event) : Sound cap (final (step cap) s events) :=
  final_kept (I := Sound cap) (fun _ e before => sound_next before e) sound events

def Event.isOwn : Event → Bool
  | .place _ | .loadDone _ | .takeLeaked _ | .receive _ | .removePending _ | .storeDone _ | .drainWaiter _
  | .rejectParked | .reset _ => true
  | _ => false

def Quiet (cap : Nat) (s : State) : Prop := ∀ e : Event, e.isOwn = true → next cap s e = s

def Returned (s : State) (i w : Nat) : Prop := ∃ x, s.waiters[w]? = some x ∧ x.phase = .returned i

def Parked (s : State) (i : Nat) : Prop := ∃ name, i ∈ queue s.ledger.bufferedStreams name

def Reset (s : State) (i : Nat) : Prop := i ∈ s.resets

theorem owns_le_sum {waiters : List Waiter} (found : waiters[w]? = some x) (i : Nat) :
    x.owns i ≤ (waiters.map (Waiter.owns i)).sum := by
  have mem := mem_of_getElem? found
  exact le_sum_of_mem (mem_map_of_mem mem)

theorem owners_le_one (sound : Sound cap s) (i : Nat) : owners s i ≤ 1 := by
  rw [sound.owned i]
  split
  · exact Nat.le_refl 1
  · exact Nat.zero_le 1

theorem set_same {A : Type} {entries : List A} {n : Nat} {old new : A} (found : entries[n]? = some old)
    (same : entries.set n new = entries) : new = old := by
  have entry := getElem?_set_found (q := new) found
  rw [same,found] at entry
  exact (Option.some.inj entry).symm

theorem call_of_logged (sound : Sound cap s) (logged : Logged s.ledger i w) : ∃ x, s.waiters[w]? = some x := by
  obtain ⟨h,mem,-,rfl⟩ := logged
  have inside := lt_of_getElem? (sound.orderly.handed h mem).2
  rw [← sound.calls] at inside
  exact ⟨_,getElem?_eq_getElem inside⟩

theorem room_of_holding (sound : Sound cap s) (holding : s.deliveries[i]? = some (.holding w))
    (found : s.waiters[w]? = some x) : x.ch = none := by
  cases on : x.ch with
  | none => rfl
  | some j =>
    have same : i = j := logged_call sound.orderly (sound.held i w holding) ((sound.attended w x found).onChannel j on)
    subst same
    have held : heldAt s.deliveries i = 1 := by rw [heldAt,holding]; rfl
    have owns : 1 ≤ x.owns i := by rw [Waiter.owns,if_pos on]; exact Nat.le_add_right 1 _
    have more := owns_le_sum found i
    have most := owners_le_one sound i
    rw [owners] at most
    omega

theorem quiet_not_holding (sound : Sound cap s) (quiet : Quiet cap s) (i w : Nat) :
    s.deliveries[i]? ≠ some (.holding w) := by
  intro holding
  obtain ⟨⟨ch,done,phase⟩,found⟩ := call_of_logged sound (sound.held i w holding)
  cases (room_of_holding sound holding found : ch = none)
  have same := quiet (.place i) rfl
  simp only [next,State.place,holding,found] at same
  have entry := set_same holding (congrArg State.deliveries same)
  cases entry

theorem quiet_delivered (quiet : Quiet cap s) (found : s.waiters[w]? = some x) :
    s.deliveries[i]? ≠ some (.placed w) ∧ s.deliveries[i]? ≠ some (.leaked w) := by
  constructor
  · intro placed
    have same := quiet (.loadDone i) rfl
    simp only [next,State.loadDone,placed,found] at same
    have entry := set_same placed (congrArg State.deliveries same)
    split at entry
    · cases entry
    · cases entry
  · intro leaked
    have same := quiet (.takeLeaked i) rfl
    obtain ⟨ch,done,phase⟩ := x
    cases ch with
    | none | some =>
      simp only [next,State.takeLeaked,leaked,found] at same
      cases set_same leaked (congrArg State.deliveries same)

theorem quiet_channel (sound : Sound cap s) (quiet : Quiet cap s) (found : s.waiters[w]? = some x)
    (on : x.ch = some i) : Returned s i w := by
  have attended := sound.attended w x found
  obtain ⟨ch,done,phase⟩ := x
  cases (on : ch = some i)
  cases phase with
  | waiting =>
    have same := quiet (.receive w) rfl
    simp only [next,State.receive,found] at same
    cases set_same found (congrArg State.waiters same)
  | leaving =>
    have same := quiet (.removePending w) rfl
    simp only [next,State.removePending,found] at same
    cases set_same found (congrArg State.waiters same)
  | removed =>
    have same := quiet (.storeDone w) rfl
    simp only [next,State.storeDone,found] at same
    cases set_same found (congrArg State.waiters same)
  | marked =>
    have same := quiet (.drainWaiter w) rfl
    simp only [next,State.drainWaiter,found] at same
    cases set_same found (congrArg State.waiters same)
  | returned j =>
    have same : i = j := logged_call sound.orderly (attended.onChannel i rfl) (attended.returned j rfl)
    subst same
    exact ⟨_,found,rfl⟩
  | failed =>
    rcases attended.rescued i rfl rfl with placed | leaked
    · exact absurd placed (quiet_delivered quiet found).1
    · exact absurd leaked (quiet_delivered quiet found).2

theorem quiet_not_doomed (quiet : Quiet cap s) (i : Nat) : i ∉ s.doomed := by
  intro taken
  have same := congrArg State.resets (quiet (.reset i) rfl)
  simp only [next,State.reset,taken,if_true] at same
  exact absurd (congrArg List.length same) (by simp)

theorem ends (sound : Sound cap s) (quiet : Quiet cap s) (arrived : i < s.deliveries.length) :
    (∃ w, Returned s i w) ∨ Parked s i ∨ Reset s i := by
  have one := sound.owned i
  rw [if_pos arrived,owners] at one
  have notHeld : heldAt s.deliveries i = 0 := by
    rw [heldAt,getElem?_eq_getElem arrived]
    cases d : s.deliveries[i] with
    | holding w => exact absurd (List.getElem?_eq_some_iff.mpr ⟨arrived,d⟩) (quiet_not_holding sound quiet i w)
    | placed w => rfl
    | leaked w => rfl
    | finished => rfl
  have notDoomed : s.doomed.count i = 0 := count_eq_zero.mpr (quiet_not_doomed quiet i)
  by_cases isReset : i ∈ s.resets
  · exact Or.inr (Or.inr isReset)
  have notReset : s.resets.count i = 0 := count_eq_zero.mpr isReset
  by_cases isParked : i ∈ s.ledger.bufferedStreams.map Prod.snd
  · obtain ⟨e,mem,rfl⟩ := mem_map.mp isParked
    exact Or.inr (Or.inl ⟨e.1,mem_queue.mpr mem⟩)
  have notParked : (s.ledger.bufferedStreams.map Prod.snd).count i = 0 := count_eq_zero.mpr isParked
  have someOwns : (s.waiters.map (Waiter.owns i)).sum ≠ 0 := by omega
  obtain ⟨owns,mem,positive⟩ := exists_mem_ne_zero_of_sum_ne_zero someOwns
  obtain ⟨x,inWaiters,rfl⟩ := mem_map.mp mem
  obtain ⟨w,inside,found⟩ := getElem_of_mem inWaiters
  have at_w : s.waiters[w]? = some x := List.getElem?_eq_some_iff.mpr ⟨inside,found⟩
  refine Or.inl ⟨w,?_⟩
  by_cases on : x.ch = some i
  · exact quiet_channel sound quiet at_w on
  by_cases back : x.phase = .returned i
  · exact ⟨x,at_w,back⟩
  · rw [Waiter.owns,if_neg on,if_neg back] at positive
    exact absurd rfl positive

def Delivery.left : Delivery → Nat
  | .holding _ => 4
  | .placed _ => 3
  | .leaked _ => 2
  | .finished => 0

def Waiter.left (x : Waiter) : Nat :=
  match x.phase with
  | .waiting => 1
  | .leaving => 4
  | .removed => 3
  | .marked => 2
  | .returned _ | .failed => 0

def remaining (s : State) : Nat :=
  (s.deliveries.map Delivery.left).sum + (s.waiters.map Waiter.left).sum + s.rejecting +
    s.ledger.bufferedStreams.length + s.doomed.length

theorem remaining_waiter {new pending} (found : s.waiters[w]? = some x)
    (less : new.left + doomed.length < x.left + s.doomed.length) : remaining { s with
      ledger := { s.ledger with pendingOpens := pending }
      waiters := s.waiters.set w new
      doomed } < remaining s := by
  have change := sum_map_set Waiter.left found new
  simp only [remaining]
  omega

theorem remaining_delivery {new} (found : s.deliveries[i]? = some d) (less : new.left < d.left) :
    remaining { s with deliveries := s.deliveries.set i new } < remaining s := by
  have change := sum_map_set Delivery.left found new
  simp only [remaining]
  omega

theorem remaining_both {newD newX} (foundD : s.deliveries[i]? = some d) (foundX : s.waiters[w]? = some x)
    (same : newX.phase = x.phase) (less : newD.left + doomed.length < d.left + s.doomed.length) :
    remaining { s with deliveries := s.deliveries.set i newD, waiters := s.waiters.set w newX, doomed } <
      remaining s := by
  have changeD := sum_map_set Delivery.left foundD newD
  have changeX := sum_map_set Waiter.left foundX newX
  have unchanged : newX.left = x.left := by rw [Waiter.left,Waiter.left,same]
  simp only [remaining]
  omega

theorem place_decreases (i : Nat) : s.place i = s ∨ remaining (s.place i) < remaining s := by
  rw [State.place]
  split
  next w foundD =>
    split
    next foundX => exact Or.inr (remaining_both foundD foundX rfl (by simp [Delivery.left]))
    next => exact Or.inl rfl
  next => exact Or.inl rfl

theorem loadDone_decreases (i : Nat) : s.loadDone i = s ∨ remaining (s.loadDone i) < remaining s := by
  rw [State.loadDone]
  split
  next w foundD =>
    split
    next x _ =>
      refine Or.inr (remaining_delivery foundD ?_)
      cases x.done with
      | true => exact Nat.lt_succ_self 2
      | false => exact Nat.zero_lt_succ 2
    next => exact Or.inl rfl
  next => exact Or.inl rfl

theorem takeLeaked_decreases (i : Nat) : s.takeLeaked i = s ∨ remaining (s.takeLeaked i) < remaining s := by
  rw [State.takeLeaked]
  split
  next w foundD =>
    split
    next foundX =>
      refine Or.inr (remaining_both foundD foundX rfl ?_)
      simp only [Delivery.left,length_cons]
      omega
    next => exact Or.inr (remaining_delivery foundD (Nat.zero_lt_succ 1))
  next => exact Or.inl rfl

theorem drainWaiter_decreases (w : Nat) : s.drainWaiter w = s ∨ remaining (s.drainWaiter w) < remaining s := by
  rw [State.drainWaiter]
  split
  next found =>
    refine Or.inr (remaining_waiter found ?_)
    simp only [Waiter.left,length_cons]
    omega
  next found => exact Or.inr (remaining_waiter found (by simp [Waiter.left]))
  next => exact Or.inl rfl

theorem reset_decreases (i : Nat) : s.reset i = s ∨ remaining (s.reset i) < remaining s := by
  rw [State.reset]
  split
  next taken =>
    have fewer := length_erase_of_mem taken
    have positive := length_pos_of_mem taken
    simp only [remaining]
    omega
  next => exact Or.inl rfl

theorem own_decreases (s : State) (e : Event) (own : e.isOwn) :
    next cap s e = s ∨ remaining (next cap s e) < remaining s := by
  cases e with
  | applyStreamPolicy | deliver | accept | cancel | expire | enterDrain | close => cases own
  | place i => exact place_decreases i
  | loadDone i => exact loadDone_decreases i
  | takeLeaked i => exact takeLeaked_decreases i
  | receive | removePending | storeDone =>
    simp only [next,State.receive,State.removePending,State.storeDone]
    split
    next found => exact Or.inr (remaining_waiter found (by simp [Waiter.left]))
    next => exact Or.inl rfl
  | drainWaiter w => exact drainWaiter_decreases w
  | rejectParked =>
    rw [next,State.rejectParked]
    split
    · exact Or.inl rfl
    · simp only [remaining,Ledger.rejectParked,length_append,length_map,length_nil]
      omega
  | reset i => exact reset_decreases i

theorem settles (s : State) : ∃ events : List Event, (∀ e ∈ events, e.isOwn) ∧
    Quiet cap (final (step cap) s events) := by
  induction bound : remaining s using Nat.strong_induction_on generalizing s with
  | _ bound ih =>
    by_cases quiet : Quiet cap s
    · exact ⟨[],by simp,quiet⟩
    · rw [Quiet] at quiet
      push Not at quiet
      obtain ⟨e,own,moves⟩ := quiet
      have less := (own_decreases s e own).resolve_left moves
      obtain ⟨events,allOwn,rest⟩ := ih (remaining (next cap s e)) (by omega) (next cap s e) rfl
      exact ⟨e :: events,forall_mem_cons.mpr ⟨own,allOwn⟩,rest⟩

def Event.locks : Event → Bool
  | .applyStreamPolicy _ | .deliver _ | .accept _ | .removePending _ | .expire _ | .enterDrain | .rejectParked => true
  | _ => false

theorem next_ledger {e} (outside : e.locks = false) : (next cap s e).ledger = s.ledger := by
  cases e with
  | applyStreamPolicy | deliver | accept | removePending | expire | enterDrain | rejectParked => cases outside
  | place | loadDone | takeLeaked | receive | cancel | storeDone | drainWaiter | close | reset =>
    simp only [next,State.place,State.loadDone,State.takeLeaked,State.receive,State.cancel,State.storeDone,
      State.drainWaiter,State.close,State.reset]
    repeat' split
    all_goals rfl

theorem drained_next {first} (drained : Drained first s.ledger) (e : Event) :
    Drained first (next cap s e).ledger := by
  by_cases outside : e.locks = false
  · rw [next_ledger outside]
    exact drained
  cases e with
  | applyStreamPolicy names =>
    rw [next,Ledger.applyStreamPolicy]
    split
    · exact drained
    · exact drained_shrink drained _ (List.Sublist.refl _) _
  | deliver name =>
    have after := drained_deliver drained cap name
    rw [next,State.deliver]
    split
    next same => rwa [same] at after
    next same => rwa [same] at after
    next same => rwa [same] at after
  | accept name =>
    have after := drained_accept drained name
    rw [next,State.accept]
    split
    · exact drained
    · split
      next same => rwa [same] at after
      next same => rwa [same] at after
  | removePending w =>
    rw [next,State.removePending]
    split
    · exact drained_shrink drained _ (List.Sublist.refl _) _
    · exact drained
  | expire i =>
    have after := drained_shrink drained s.ledger.pendingOpens
      (erase_sublist : (s.ledger.bufferedStreams.erase (s.ledger.arrived.getD i [],i)).Sublist _)
      s.ledger.allowedStreams
    rw [next,State.expire,Ledger.expire]
    cases s.ledger.bufferedStreams.contains (s.ledger.arrived.getD i [],i) with
    | true | false => exact after
  | rejectParked =>
    rw [next,State.rejectParked]
    split
    · exact drained
    · exact drained_shrink drained _ (nil_sublist _) _
  | enterDrain =>
    rw [next,State.enterDrain,if_pos drained.draining]
    exact drained
  | place | loadDone | takeLeaked | receive | cancel | storeDone | drainWaiter | close | reset =>
    exact absurd rfl outside

theorem drained_final {first} (drained : Drained first s.ledger) (events : List Event) :
    Drained first (final (step cap) s events).ledger :=
  final_kept (I := fun s : State => Drained first s.ledger) (fun _ e before => drained_next before e) drained events

theorem returned_owns (returned : Returned s i w) : 1 ≤ (s.waiters.map (Waiter.owns i)).sum := by
  obtain ⟨x,found,back⟩ := returned
  have owns : 1 ≤ x.owns i := by rw [Waiter.owns,if_pos back]; exact Nat.le_add_left 1 _
  exact owns.trans (owns_le_sum found i)

theorem parked_count (parked : Parked s i) : 1 ≤ (s.ledger.bufferedStreams.map Prod.snd).count i := by
  obtain ⟨name,mem⟩ := parked
  exact one_le_count_iff.mpr (mem_map_of_mem (mem_queue.mp mem) (f := Prod.snd))

theorem logged_of_returned (sound : Sound cap s) (returned : Returned s i w) : Logged s.ledger i w := by
  obtain ⟨x,found,back⟩ := returned
  exact (sound.attended w x found).returned i back

theorem places_le_one (sound : Sound cap s) (i : Nat) :
    (s.waiters.map (Waiter.owns i)).sum + (s.ledger.bufferedStreams.map Prod.snd).count i + s.resets.count i ≤ 1 := by
  have most := owners_le_one sound i
  rw [owners] at most
  omega

theorem returned_order (sound : Sound cap s) {j v} (first : Returned s i w) (second : Returned s j v)
    (same : s.ledger.arrived[i]? = s.ledger.arrived[j]?) : i < j ↔ w < v := by
  obtain ⟨a,inA,rfl,rfl⟩ := logged_of_returned sound first
  obtain ⟨b,inB,rfl,rfl⟩ := logged_of_returned sound second
  rw [(sound.orderly.handed a inA).1,(sound.orderly.handed b inB).1] at same
  rcases handed_order sound.orderly inA inB (Option.some.inj same) with rfl | less | less
  · simp
  · omega
  · omega

structure Guaranteed (cap : Nat) (s : State) : Prop where
  /-- A stream is returned by one call, under the name that was asked for. -/
  oneCall : ∀ i w v, Returned s i w → Returned s i v → w = v
  named : ∀ i w, Returned s i w → ∃ name, s.ledger.arrived[i]? = some name ∧ s.ledger.called[w]? = some name
  returnedOnly : ∀ i w, Returned s i w → ¬ Parked s i ∧ ¬ Reset s i
  parkedOnly : ∀ i, Parked s i → ¬ Reset s i
  parkedOnce : (s.ledger.bufferedStreams.map Prod.snd).Nodup
  resetOnce : s.resets.Nodup
  /-- Nothing is dropped. -/
  kept : Quiet cap s → ∀ i < s.ledger.arrived.length, (∃ w, Returned s i w) ∨ Parked s i ∨ Reset s i
  apart : ∀ name, queue s.ledger.pendingOpens name = [] ∨ queue s.ledger.bufferedStreams name = []
  capped : ∀ name, (queue s.ledger.bufferedStreams name).length ≤ cap
  /-- Of two streams of one name, the earlier one goes to the earlier call. -/
  inOrder : ∀ i j w v, Returned s i w → Returned s j v → s.ledger.arrived[i]? = s.ledger.arrived[j]? → (i < j ↔ w < v)

theorem guaranteed_of_sound (sound : Sound cap s) : Guaranteed cap s where
  oneCall i w v first second :=
    logged_stream sound.orderly (logged_of_returned sound first) (logged_of_returned sound second)
  named i w returned := by
    obtain ⟨h,mem,rfl,rfl⟩ := logged_of_returned sound returned
    exact ⟨h.name,sound.orderly.handed h mem⟩
  returnedOnly i w returned := by
    have most := places_le_one sound i
    have owns := returned_owns returned
    constructor
    · intro parked
      have count := parked_count parked
      omega
    · intro reset
      have count := one_le_count_iff.mpr reset
      omega
  parkedOnly i parked reset := by
    have most := places_le_one sound i
    have count := parked_count parked
    have countReset := one_le_count_iff.mpr reset
    omega
  parkedOnce := by
    refine nodup_iff_count_le_one.mpr ?_
    intro i
    have most := places_le_one sound i
    omega
  resetOnce := by
    refine nodup_iff_count_le_one.mpr ?_
    intro i
    have most := places_le_one sound i
    omega
  kept quiet i arrived := ends sound quiet (sound.streams.symm ▸ arrived)
  apart := sound.orderly.apart
  capped := sound.orderly.capped
  inOrder _ _ _ _ first second same := returned_order sound first second same

end

/-- A stream is returned by one call, parked or reset, and only one of these; the goroutines come to rest. Names are
    apart, parked streams limited and in order; what arrives while draining is not returned unless its name is
    reserved. -/
theorem stream_rendezvous (maxBufferedPerName : Int) (before after : List Event) :
    Guaranteed (bufferedCap maxBufferedPerName) (final (step (bufferedCap maxBufferedPerName)) start before) ∧
    (∃ own : List Event, (∀ e ∈ own, e.isOwn = true) ∧ Quiet (bufferedCap maxBufferedPerName)
      (final (step (bufferedCap maxBufferedPerName)) start (before ++ own))) ∧
    ((final (step (bufferedCap maxBufferedPerName)) start before).ledger.draining = true →
      ∀ i w name, (final (step (bufferedCap maxBufferedPerName)) start before).ledger.arrived.length ≤ i →
        (final (step (bufferedCap maxBufferedPerName)) start (before ++ after)).ledger.arrived[i]? = some name →
        reservedStreamName name = false →
          ¬ Returned (final (step (bufferedCap maxBufferedPerName)) start (before ++ after)) i w) := by
  generalize bufferedCap maxBufferedPerName = cap
  have middle : Sound cap (final (step cap) start before) := sound_final sound_start before
  refine ⟨guaranteed_of_sound middle,?_,?_⟩
  · obtain ⟨own,allOwn,quiet⟩ : ∃ own : List Event, (∀ e ∈ own, e.isOwn = true) ∧
        Quiet cap (final (step cap) (final (step cap) start before) own) := settles _
    rw [← final_append] at quiet
    exact ⟨own,allOwn,quiet⟩
  · intro draining i w name late arrived application returned
    rw [final_append] at arrived returned
    have sound : Sound cap (final (step cap) (final (step cap) start before) after) := sound_final middle after
    have drained : Drained _ (final (step cap) (final (step cap) start before) after).ledger :=
      drained_final (drained_start middle.orderly draining) after
    obtain ⟨h,mem,rfl,rfl⟩ := logged_of_returned sound returned
    rw [(sound.orderly.handed h mem).1] at arrived
    cases arrived
    rw [drained.handed h mem late] at application
    cases application

def handOver : List Event :=
  [.accept (ascii "chat"),.deliver (ascii "chat"),.place 0,.receive 0,.loadDone 0,.enterDrain]

def afterwards : List Event := [.rejectParked,.accept (ascii "chat"),.deliver (ascii "chat"),.reset 1]

theorem stream_while_draining_reset : (final (step (bufferedCap 1)) start handOver).ledger.draining = true ∧
      (final (step (bufferedCap 1)) start (handOver ++ afterwards)).waiters =
        [⟨none,false,.returned 0⟩,⟨none,false,.waiting⟩] ∧
      (final (step (bufferedCap 1)) start (handOver ++ afterwards)).resets = [1] ∧
      ¬ Returned (final (step (bufferedCap 1)) start (handOver ++ afterwards)) 1 1 := by
  refine ⟨by decide,by decide +kernel,by decide +kernel,?_⟩
  exact (stream_rendezvous 1 handOver afterwards).2.2 (by decide) 1 1 (ascii "chat") (by decide +kernel)
    (by decide) (by decide +kernel)

end Pigeon.Rendezvous
