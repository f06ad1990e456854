import Pigeon.Rings
import Pigeon.Transports

/-!
Two connected endpoints of the loopback transport (`loopback.c`). A stream has the slot of one
index at both of them; a handle is the address of a slot. `lb_open_stream` takes its own first
free slot and, if the peer's slot of that index is in use, fails and keeps its own; a closed
handle acts on whichever stream has its slot by then (`sure_iff`, `loopback_streams`).
-/
namespace Pigeon.Loopback
open Runs Sequence Function
open Rings (Ring)
open Octets (Bytes)
open CSession (pigeonMaxMsg)
open Transports (loopMaxPending)

def loopMaxStreams : Nat := 32

inductive Side
  | near | far
deriving DecidableEq

def Side.peer : Side → Side
  | .near => .far
  | .far => .near

abbrev Place := Side × Nat

def mate (p : Place) : Place := (p.1.peer,p.2)

/-- A message with the end that sent it and the stream it was sent on. -/
structure Message where
  data : Bytes
  sender : Side
  stream : Option Nat
deriving DecidableEq

/-- A `loop_stream`, with the number of its stream; a slot that a failed open has left in use has none. -/
structure Slot where
  inUse : Bool
  msgs : List Message
  stream : Option Nat

/-- A handle with the stream it was returned for. -/
structure Handle where
  place : Place
  stream : Option Nat
deriving DecidableEq

structure State where
  slots : Place → Slot
  acceptQueue : Side → Ring Nat loopMaxStreams
  -- the streams opened so far, the handles given out, and which message came back on which
  opened : Nat
  handles : List Handle
  received : List (Message × Handle)

def start : State := ⟨fun _ => ⟨false,[],none⟩,fun _ => Ring.empty,0,[],[]⟩

def State.put (s : State) (p : Place) (slot : Slot) : State := { s with slots := update s.slots p slot }

/-- `lb_alloc_stream`. -/
def State.freeSlot (s : State) (side : Side) : Option Nat :=
  (List.range loopMaxStreams).find? fun i => !(s.slots (side,i)).inUse

/-- `lb_open_stream`, from the check of the peer's slot. -/
def State.connect (s : State) (side : Side) (i : Nat) : State × Bool :=
  if (s.slots (side.peer,i)).inUse then (s.put (side,i) ⟨true,[],none⟩,false)
  else
    let queue := (s.acceptQueue side.peer).store i
    ({ (s.put (side,i) ⟨true,[],some s.opened⟩).put (side.peer,i) ⟨true,[],some s.opened⟩ with
      acceptQueue := update s.acceptQueue side.peer queue
      opened := s.opened + 1
      handles := s.handles ++ [⟨(side,i),some s.opened⟩] },true)

/-- `lb_open_stream`. -/
def State.openStream (s : State) (side : Side) : State × Bool := (s.freeSlot side).elim (s,false) (s.connect side)

/-- `lb_accept_stream`. -/
def State.acceptStream (s : State) (side : Side) : State × Bool :=
  match (s.acceptQueue side).pop 1 with
  | ([i],rest) =>
    let t := { s with acceptQueue := update s.acceptQueue side rest }
    if i < loopMaxStreams ∧ (s.slots (side,i)).inUse then
      ({ t with handles := s.handles ++ [⟨(side,i),(s.slots (side,i)).stream⟩] },true)
    else (t,false)
  | _ => (s,false)

/-- `lb_send_on_stream`; `allocated` says whether there is memory for the message. -/
def State.send (s : State) (h : Handle) (data : Bytes) (allocated : Bool) : State × Bool :=
  let peer := s.slots (mate h.place)
  if (s.slots h.place).inUse && peer.inUse && decide (peer.msgs.length < loopMaxPending) &&
      decide (data.length ≤ pigeonMaxMsg) && allocated then
    (s.put (mate h.place) { peer with msgs := peer.msgs ++ [⟨data,h.place.1,h.stream⟩] },true)
  else (s,false)

/-- `lb_recv_on_stream`. -/
def State.recv (s : State) (h : Handle) (bufLen : Nat) : State × Bool :=
  match (s.slots h.place).msgs with
  | m :: rest =>
    if (s.slots h.place).inUse ∧ m.data.length ≤ bufLen then
      ({ s.put h.place { s.slots h.place with msgs := rest } with received := s.received ++ [(m,h)] },true)
    else (s,false)
  | [] => (s,false)

/-- `lb_close_stream`. -/
def State.close (s : State) (h : Handle) : State × Bool := (s.put h.place ⟨false,[],none⟩,true)

inductive Call
  | openStream (side : Side)
  | acceptStream (side : Side)
  | send (handle : Nat) (data : Bytes) (allocated : Bool)
  | recv (handle bufLen : Nat)
  | close (handle : Nat)

def step (s : State) : Call → State × Bool
  | .openStream side => s.openStream side
  | .acceptStream side => s.acceptStream side
  | .send n data allocated => (s.handles[n]?).elim (s,false) fun h => s.send h data allocated
  | .recv n bufLen => (s.handles[n]?).elim (s,false) fun h => s.recv h bufLen
  | .close n => (s.handles[n]?).elim (s,false) s.close

/-- A handle is used only while its slot is free or in use for its own stream. -/
def InTime (s : State) : Call → Prop
  | .send n _ _ | .recv n _ | .close n => ∀ h ∈ s.handles[n]?, (s.slots h.place).inUse = true →
      h.stream ≠ none ∧ (s.slots h.place).stream = h.stream
  | _ => True

instance (s : State) : ∀ call, Decidable (InTime s call)
  | .send n _ _ | .recv n _ | .close n => inferInstanceAs (Decidable (∀ h ∈ s.handles[n]?, _ → _ ∧ _))
  | .openStream _ | .acceptStream _ => inferInstanceAs (Decidable True)

/-- An open at an endpoint that fails leaves the same slots in use, and it succeeds whenever some slot is free at
    both. -/
structure Sure (s : State) (side : Side) : Prop where
  failed : (s.openStream side).2 = false → ∀ p, ((s.openStream side).1.slots p).inUse = (s.slots p).inUse
  succeeds : (∃ i < loopMaxStreams, (s.slots (side,i)).inUse = false ∧ (s.slots (side.peer,i)).inUse = false) →
    (s.openStream side).2 = true

def OnOwn (entry : Message × Handle) : Prop :=
  entry.1.sender = entry.2.place.1.peer ∧ entry.1.stream = entry.2.stream
deriving Decidable

theorem sure_iff (s : State) (side : Side) :
    Sure s side ↔ ∀ i ∈ s.freeSlot side, (s.slots (side.peer,i)).inUse = false := by
  cases free : s.freeSlot side with
  | none =>
    refine iff_of_true ⟨fun _ p => by rw [State.openStream,free]; rfl,?_⟩ (fun _ none => nomatch none)
    rintro ⟨i,inside,unused,_⟩
    have used := List.find?_eq_none.mp free i (List.mem_range.mpr inside)
    simp [unused] at used
  | some i =>
    have opens : s.openStream side = s.connect side i := by rw [State.openStream,free]; rfl
    have unused : (s.slots (side,i)).inUse = false := by simpa using List.find?_some free
    by_cases taken : (s.slots (side.peer,i)).inUse = true
    · refine iff_of_false (fun sure => ?_) (fun all => nomatch taken.symm.trans (all i rfl))
      have same := sure.failed (by rw [opens,State.connect,if_pos taken]) (side,i)
      rw [opens,State.connect,if_pos taken] at same
      simp [State.put,unused] at same
    · have succeeds : (s.openStream side).2 = true := by rw [opens,State.connect,if_neg taken]
      refine iff_of_true ⟨fun failed => (nomatch failed.symm.trans succeeds),fun _ => succeeds⟩ ?_
      rintro _ ⟨⟩
      simpa using taken

structure Paired (s : State) : Prop where
  messages : ∀ p, ∀ m ∈ (s.slots p).msgs, m.sender = p.1.peer ∧
    ((s.slots p).stream = none ∨ m.stream = (s.slots p).stream)
  ends : ∀ p, (s.slots p).stream = none ∨ (s.slots (mate p)).stream = none ∨
    (s.slots p).stream = (s.slots (mate p)).stream
  received : ∀ entry ∈ s.received, OnOwn entry

section
variable {s : State} (old : Paired s)
include old

theorem Paired.keep (p : Place) {msgs} (inUse : Bool) (own : ∀ m ∈ msgs, m.sender = p.1.peer ∧
    ((s.slots p).stream = none ∨ m.stream = (s.slots p).stream)) : Paired (s.put p ⟨inUse,msgs,(s.slots p).stream⟩) := by
  have same : ∀ q, ((s.put p ⟨inUse,msgs,(s.slots p).stream⟩).slots q).stream = (s.slots q).stream := by
    intro q
    simp only [State.put,update_apply]
    split_ifs with here
    · rw [here]
    · rfl
  refine ⟨fun q m mem => ?_,fun q => ?_,old.received⟩
  · rw [same]
    simp only [State.put,update_apply] at mem
    split_ifs at mem with here
    · subst here
      exact own m mem
    · exact old.messages q m mem
  · rw [same,same]
    exact old.ends q

theorem Paired.clear (p : Place) (inUse : Bool) : Paired (s.put p ⟨inUse,[],none⟩) := by
  refine ⟨fun q m mem => ?_,fun q => ?_,old.received⟩
  · simp only [State.put,update_apply] at mem ⊢
    split_ifs at mem ⊢ with here
    · simp at mem
    · exact old.messages q m mem
  · simp only [State.put,update_apply]
    split_ifs with here there
    · exact .inl rfl
    · exact .inl rfl
    · exact .inr (.inl rfl)
    · exact old.ends q

theorem Paired.connect (side : Side) (i : Nat) : Paired (s.connect side i).1 := by
  unfold State.connect
  split_ifs
  · exact old.clear (side,i) true
  · refine ⟨fun q m mem => ?_,fun q => ?_,old.received⟩
    · simp only [State.put,update_apply] at mem ⊢
      split_ifs at mem ⊢ with here there
      · simp at mem
      · simp at mem
      · exact old.messages q m mem
    · have both : mate q = (side.peer,i) ∨ mate q = (side,i) ↔ q = (side.peer,i) ∨ q = (side,i) := by
        obtain ⟨a,j⟩ := q
        cases a <;> cases side <;> simp [mate,Side.peer]
      simp only [State.put,update_apply,← ite_or,both]
      split_ifs
      · exact .inr (.inr rfl)
      · exact old.ends q

theorem Paired.step (call : Call) (inTime : InTime s call) : Paired (step s call).1 := by
  cases call with
  | openStream side =>
    simp only [Loopback.step,State.openStream]
    cases s.freeSlot side with
    | none => exact old
    | some i => exact old.connect side i
  | acceptStream side =>
    simp only [Loopback.step,State.acceptStream]
    split
    · split_ifs <;> exact ⟨old.messages,old.ends,old.received⟩
    · exact old
  | send n data allocated =>
    simp only [Loopback.step]
    cases given : s.handles[n]? with
    | none => exact old
    | some h =>
      simp only [Option.elim,State.send]
      split_ifs with sends
      · simp only [Bool.and_eq_true] at sends
        obtain ⟨_,mine⟩ := inTime h given sends.1.1.1.1
        refine old.keep (mate h.place) _ fun m mem => ?_
        rcases mem_snoc.mp mem with before | rfl
        · exact old.messages _ m before
        · have ends := old.ends h.place
          refine ⟨by cases side : h.place.1 <;> simp [mate,side,Side.peer],?_⟩
          rw [mine] at ends
          simp_all
      · exact old
  | recv n bufLen =>
    simp only [Loopback.step]
    cases given : s.handles[n]? with
    | none => exact old
    | some h =>
      simp only [Option.elim,State.recv]
      split
      · next m rest waiting =>
        split_ifs with reads
        · obtain ⟨known,mine⟩ := inTime h given reads.1
          have here := old.messages h.place m (by simp [waiting])
          have kept : Paired (s.put h.place { s.slots h.place with msgs := rest }) :=
            old.keep h.place _ fun m mem => old.messages h.place m (by simp [waiting,mem])
          refine ⟨kept.messages,kept.ends,forall_mem_snoc.mpr ⟨old.received,?_⟩⟩
          exact ⟨here.1,(here.2.resolve_left (mine ▸ known)).trans mine⟩
        · exact old
      · exact old
  | close n =>
    simp only [Loopback.step]
    cases s.handles[n]? with
    | none => exact old
    | some h => exact old.clear h.place false

end

/-- After any calls the next open does what it should just when the peer's slot of its first free index is free. If no
    handle was used while its slot was in use for another stream, every message came back at the other end of the
    stream it was sent on. -/
theorem loopback_streams (calls : List Call) :
    (∀ side, Sure (final step start calls) side ↔ ∀ i ∈ (final step start calls).freeSlot side,
      ((final step start calls).slots (side.peer,i)).inUse = false) ∧
    (Along step InTime start calls → ∀ entry ∈ (final step start calls).received, OnOwn entry) := by
  refine ⟨sure_iff _,fun inTime => ?_⟩
  have start_paired : Paired start := ⟨fun _ _ none => (nomatch none),fun _ => .inl rfl,fun _ none => nomatch none⟩
  exact (final_invariant (fun _ call old meets => old.step call meets) start_paired inTime).received

def inTurn : List Call :=
  [.openStream .near,.acceptStream .far,.send 0 [5] true,.recv 1 8,.close 0,.close 1,.openStream .near,
    .acceptStream .far,.send 3 [6] true,.recv 2 8]

theorem in_turn_on_own : Along step InTime start inTurn ∧ (final step start inTurn).received.length = 2 ∧
    ∀ entry ∈ (final step start inTurn).received, OnOwn entry :=
  have inTime : Along step InTime start inTurn := by decide
  ⟨inTime,by decide,(loopback_streams inTurn).2 inTime⟩

def closedHere : List Call := [.openStream .near,.close 0]

def closedHandle : List Call :=
  [.openStream .near,.acceptStream .far,.close 0,.close 1,.openStream .near,.acceptStream .far,.send 0 [7] true,
    .recv 3 8]

/-- The next open fails, with a slot free at both ends, and leaves its own slot in use; a message sent on a closed
    handle comes back on the stream that has the slot by then. -/
theorem open_leaks_slot : ((final step start closedHere).openStream .near).2 = false ∧
    ((final step start closedHere).slots (.near,0)).inUse = false ∧
    (((final step start closedHere).openStream .near).1.slots (.near,0)).inUse = true ∧
    ((final step start closedHere).slots (.near,1)).inUse = false ∧
    ((final step start closedHere).slots (.far,1)).inUse = false ∧
    (final step start closedHandle).received = [(⟨[7],.near,some 0⟩,⟨(.far,0),some 1⟩)] := by decide

end Pigeon.Loopback
