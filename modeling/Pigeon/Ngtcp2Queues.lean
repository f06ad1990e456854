import Pigeon.Ngtcp2

/-!
The queues of the ngtcp2 transport: the slots that wait for `accept_stream` and the datagrams
that wait for `recv_datagram`. Bytes and flow control play no part here, so a receive carries
whether it ends its stream and a reset whether a receive is under way on the slot.

A callback for a stream without a slot takes one and queues it; if all are in use, a later
callback queues the stream behind others that came after it. Callbacks already run during
`init`, which marks all slots free at its end and leaves the queue as it is
(`queues_orderly_iff`).
-/
namespace Pigeon.Ngtcp2Queues
open Runs Rings Sequence List Function
open Octets (Bytes)
open Ngtcp2 (StreamId primary ngtcp2MaxExtraStreams)

/-- A slot counts the streams it has been taken for. -/
structure Slot where
  streamId : StreamId
  (inUse peerOpened : Bool)
  taken : Nat

/-- A pointer to a slot, with the stream of the slot that it was handed out for. -/
structure Handle where
  (slot taken : Nat)

def dgramMax : Nat := 16

structure State where
  (active closed : Bool)
  slots : Nat → Slot
  acceptQueue : Ring Nat ngtcp2MaxExtraStreams
  primarySlotIdx : Option Nat
  -- datagrams have the number of those received before them
  dgrams : Ring (Bytes × Nat) dgramMax
  -- the streams opened here and the handles given to the application
  opened : Nat
  handles : List Handle
  -- the streams of the peer as they came, those queued with their place among them, those handed out
  arrived : List StreamId
  queued : List (StreamId × Nat)
  handedOut : List StreamId
  -- the datagrams received, and up to which they have been read
  received : List Bytes
  readUpTo : Nat

def start : State :=
  ⟨false,false,fun _ => ⟨0,false,false,0⟩,Ring.empty,none,Ring.empty,0,[],[],[],[],[],0⟩

namespace State

def findExtraSlot (s : State) (sid : StreamId) : Option Nat :=
  (range ngtcp2MaxExtraStreams).find? fun i => (s.slots i).inUse && (s.slots i).streamId = sid

def freeSlot (s : State) : Option Nat := (range ngtcp2MaxExtraStreams).find? fun i => !(s.slots i).inUse

/-- `alloc_extra_slot`, which takes the `freeSlot` if there is one. -/
def alloc (s : State) (i : Nat) (sid : StreamId) (peerOpened : Bool) : State :=
  { s with slots := update s.slots i ⟨sid,true,peerOpened,(s.slots i).taken + 1⟩ }

def release (s : State) (i : Nat) : State :=
  { s with slots := update s.slots i { s.slots i with inUse := false } }

def grant (s : State) (i : Nat) : State := { s with handles := s.handles ++ [⟨i,(s.slots i).taken⟩] }

def sees (s : State) (sid : StreamId) : List StreamId :=
  if sid % 2 = 1 ∧ sid ∉ s.arrived then s.arrived ++ [sid] else s.arrived

/-- The slot that a callback takes for a stream that has none. -/
def admits (s : State) (sid : StreamId) : Option Nat :=
  if sid = primary ∨ (s.findExtraSlot sid).isSome then none else s.freeSlot

def enqueue (s : State) (i : Nat) (sid : StreamId) : State :=
  if s.acceptQueue.used < ngtcp2MaxExtraStreams then
    { s with acceptQueue := s.acceptQueue.store i, queued := s.queued ++ [(sid,s.arrived.idxOf sid)] }
  else s

/-- `stream_open_cb`. -/
def streamOpenCb (s : State) (sid : StreamId) : State :=
  let s := { s with arrived := s.sees sid }
  match s.admits sid with
  | some i => (s.alloc i sid true).enqueue i sid
  | none => s

/-- What `recv_stream_data_cb` does to the slots and the queue. -/
def recvStreamDataCb (s : State) (sid : StreamId) : State := s.streamOpenCb sid

def openStream (s : State) : State :=
  if s.closed then s
  else
    let s := { s with opened := s.opened + 1 }
    match s.freeSlot with
    | some i => (s.alloc i (4 * s.opened) false).grant i
    | none => s

/-- `raw_accept_stream`. -/
def acceptStream (s : State) : State :=
  if s.closed then s
  else
    match s.acceptQueue.pop 1 with
    | ([i],rest) =>
      let s := { s with acceptQueue := rest }
      if i < ngtcp2MaxExtraStreams then { s.grant i with handedOut := s.handedOut ++ [(s.slots i).streamId] } else s
    | _ => s

/-- The handle of the primary stream, which a second call returns again. -/
def primaryHandle (s : State) : State :=
  if s.closed || s.primarySlotIdx.isSome then s
  else
    match s.freeSlot with
    | some i => { (s.alloc i primary false).grant i with primarySlotIdx := some i }
    | none => s

/-- A receive that returns gives the slot back if it has seen a reset, or the end of a stream both of whose halves are
    finished. -/
def recvOnStream (s : State) (h : Handle) (ended : Bool) : State := if ended then s.release h.slot else s

/-- A reset leaves the slot to the receive that is under way on it. -/
def resetStream (s : State) (h : Handle) (reading : Bool) : State :=
  if s.closed || !(s.slots h.slot).inUse || reading then s else s.release h.slot

/-- `dgram_enqueue`; `allocated` says whether there is memory for the copy. -/
def dgramEnqueue (s : State) (data : Bytes) (allocated : Bool) : State :=
  let left := if dgramMax ≤ s.dgrams.used then (s.dgrams.pop 1).2 else s.dgrams
  { s with
    dgrams := if allocated then left.store (data,s.received.length) else left
    received := s.received ++ [data] }

/-- `dgram_dequeue`. -/
def recvDatagram (s : State) (bufLen : Nat) : State × Option Bytes :=
  if s.closed then (s,none)
  else
    match s.dgrams.pop 1 with
    | ([d],rest) => ({ s with dgrams := rest, readUpTo := d.2 + 1 },some (d.1.take bufLen))
    | _ => (s,none)

/-- `pigeon_ngtcp2_transport_init`. -/
def init (s : State) : State :=
  if s.active then s
  else { s with active := true, slots := fun i => { s.slots i with streamId := -1, inUse := false } }

/-- What is left of a close when no call is under way any more. -/
def delete (s : State) : State := if s.closed then { s with dgrams := { s.dgrams with used := 0 } } else s

def waiting (s : State) : List StreamId := s.acceptQueue.contents.map fun i => (s.slots i).streamId

end State

/-- Callbacks and calls; handles are numbered as they were given. Sends and closes touch neither queue nor whether a
    slot is in use. -/
inductive Event
  | init
  | streamOpen (sid : StreamId)
  | data (sid : StreamId)
  | openStream
  | acceptStream
  | primaryHandle
  | recvOnStream (handle : Nat) (ended : Bool)
  | resetStream (handle : Nat) (reading : Bool)
  | close
  | delete
  | datagram (data : Bytes) (allocated : Bool)
  | recvDatagram (bufLen : Nat)

/-- One event, with the datagram that a `recv_datagram` returns. -/
def step (s : State) : Event → State × Option Bytes
  | .init => (s.init,none)
  | .streamOpen sid => (s.streamOpenCb sid,none)
  | .data sid => (s.recvStreamDataCb sid,none)
  | .openStream => (s.openStream,none)
  | .acceptStream => (s.acceptStream,none)
  | .primaryHandle => (s.primaryHandle,none)
  | .recvOnStream n ended => ((s.handles[n]?.map fun h => s.recvOnStream h ended).getD s,none)
  | .resetStream n reading => ((s.handles[n]?.map fun h => s.resetStream h reading).getD s,none)
  | .close => ({ s with closed := true },none)
  | .delete => (s.delete,none)
  | .datagram data allocated => (s.dgramEnqueue data allocated,none)
  | .recvDatagram bufLen => s.recvDatagram bufLen

/-- No handle is used whose slot is in use for a later stream. -/
def Unrecycled (s : State) : Event → Prop
  | .recvOnStream n _ | .resetStream n _ => ∀ h ∈ s.handles[n]?, (s.slots h.slot).inUse = true →
      h.taken = (s.slots h.slot).taken
  | _ => True

instance (s : State) : ∀ e, Decidable (Unrecycled s e)
  | .recvOnStream n _ | .resetStream n _ => inferInstanceAs (Decidable (∀ h ∈ s.handles[n]?, _ → _ = _))
  | .init | .streamOpen _ | .data _ | .openStream | .acceptStream | .primaryHandle | .close | .delete
  | .datagram _ _ | .recvDatagram _ => inferInstanceAs (Decidable True)

/-- The queues as they should be: the slots queued are different, in use and flagged; the streams queued are the
    peer's, in the order in which they came and so each once, and are handed out in that order; of the datagrams after
    the last one read the newest wait. -/
structure Orderly (s : State) : Prop where
  slots : s.acceptQueue.contents.Nodup ∧
    ∀ i ∈ s.acceptQueue.contents, (s.slots i).inUse = true ∧ (s.slots i).peerOpened = true
  peers : ∀ x ∈ s.queued, x.1 % 2 = 1
  order : (s.queued.map Prod.snd).Pairwise (· < ·)
  fifo : s.handedOut ++ s.waiting = s.queued.map Prod.fst
  datagrams : s.dgrams.contents = s.received.zipIdx.drop (max s.readUpTo (s.received.length - dgramMax))

/-- The stream has been queued before: its slot was released, and its data come late. -/
def Late (s : State) (sid : StreamId) : Prop := ∃ x ∈ s.queued, x.1 = sid
deriving Decidable

/-- A stream that came after this one is queued: no slot was free when this one came. -/
def TurnedAway (s : State) (sid : StreamId) : Prop := ∃ x ∈ s.queued, (s.sees sid).idxOf sid < x.2
deriving Decidable

/-- The end of `init` finds no stream queued, a stream that a callback queues is the peer's, not late and not one
    turned away, a datagram is stored, and a close finds none waiting. -/
def Stored (s : State) : Event → Prop
  | .init => s.active = false → s.acceptQueue.used = 0
  | .streamOpen sid | .data sid => (s.admits sid).isSome → sid % 2 = 1 ∧ ¬ Late s sid ∧ ¬ TurnedAway s sid
  | .datagram _ allocated => allocated = true
  | .delete => s.closed = true → s.dgrams.used = 0
  | _ => True

instance (s : State) : ∀ e, Decidable (Stored s e)
  | .init | .delete => inferInstanceAs (Decidable (_ → _ = 0))
  | .streamOpen sid | .data sid => inferInstanceAs (Decidable ((s.admits sid).isSome → _ ∧ ¬ Late _ _ ∧ _))
  | .datagram _ allocated => inferInstanceAs (Decidable (allocated = true))
  | .openStream | .acceptStream | .primaryHandle | .recvOnStream _ _ | .resetStream _ _ | .close
  | .recvDatagram _ => inferInstanceAs (Decidable True)

structure Ordered (s : State) : Prop extends Orderly s where
  sound : s.acceptQueue.Sound
  inside : ∀ i ∈ s.acceptQueue.contents, i < ngtcp2MaxExtraStreams
  unheld : ∀ i ∈ s.acceptQueue.contents, ∀ h ∈ s.handles, h.slot = i → h.taken ≠ (s.slots i).taken
  older : ∀ h ∈ s.handles, h.taken ≤ (s.slots h.slot).taken
  stored : s.dgrams.Sound
  read : s.readUpTo ≤ s.received.length
  places : ∀ x ∈ s.queued, x.1 ∈ s.arrived ∧ x.2 = s.arrived.idxOf x.1

section
variable {s : State} (old : Ordered s) {i : Nat} {sid : StreamId}
include old

theorem Ordered.reslot (absent : i ∉ s.acceptQueue.contents) {slot} (later : (s.slots i).taken ≤ slot.taken) :
    Ordered { s with slots := update s.slots i slot } := by
  have same : ∀ j ∈ s.acceptQueue.contents, update s.slots i slot j = s.slots j :=
    fun j queued => update_of_ne (ne_of_mem_of_not_mem queued absent) slot s.slots
  refine { old with slots := ⟨old.slots.1,?_⟩, fifo := ?_, unheld := ?_, older := ?_ }
  · intro j queued
    simpa only [same j queued] using old.slots.2 j queued
  · refine Eq.trans (congrArg _ (map_congr_left fun j queued => ?_)) old.fifo
    exact congrArg Slot.streamId (same j queued)
  · intro j queued h held at_j
    simpa only [same j queued] using old.unheld j queued h held at_j
  · intro h held
    refine (old.older h held).trans ?_
    by_cases here : h.slot = i
    · simpa [here] using later
    · simp [update_of_ne here]

theorem Ordered.absent_of_free (free : (s.slots i).inUse = false) : i ∉ s.acceptQueue.contents := by
  intro queued
  simp [(old.slots.2 i queued).1] at free

theorem Ordered.grant (absent : i ∉ s.acceptQueue.contents) : Ordered (s.grant i) := by
  refine { old with unheld := ?_, older := ?_ }
  · intro j queued h held at_j
    rcases mem_snoc.mp held with before | rfl
    · exact old.unheld j queued h before at_j
    · obtain rfl : i = j := at_j
      exact absurd queued absent
  · exact forall_mem_snoc.mpr ⟨old.older,le_rfl⟩

theorem Ordered.opens (free : s.freeSlot = some i) (sid : StreamId) : Ordered ((s.alloc i sid false).grant i) := by
  have absent := old.absent_of_free (by simpa using find?_some free)
  exact (old.reslot absent (Nat.le_succ _)).grant absent

theorem Ordered.enqueue (absent : i ∉ s.acceptQueue.contents) (here : i < ngtcp2MaxExtraStreams)
    (flagged : (s.slots i).inUse ∧ (s.slots i).peerOpened) (id : (s.slots i).streamId = sid)
    (unheld : ∀ h ∈ s.handles, h.slot = i → h.taken ≠ (s.slots i).taken) (came : sid % 2 = 1 → sid ∈ s.arrived) :
    (sid % 2 = 1 ∧ (∀ x ∈ s.queued, x.2 < s.arrived.idxOf sid) → Ordered (s.enqueue i sid)) ∧
      (Orderly (s.enqueue i sid) → sid % 2 = 1 ∧ ∀ x ∈ s.queued, x.2 < s.arrived.idxOf sid) := by
  have room := used_lt_of_nodup old.slots.1 old.inside here absent
  have contents := contents_store old.sound room i
  have order : ((s.queued ++ [(sid,s.arrived.idxOf sid)]).map Prod.snd).Pairwise (· < ·) ↔
      ∀ x ∈ s.queued, x.2 < s.arrived.idxOf sid := by
    rw [map_append,map_singleton,pairwise_snoc,forall_mem_map]
    exact and_iff_right old.order
  rw [State.enqueue,if_pos room]
  constructor
  · rintro ⟨peer,later⟩
    refine { old with
      slots := ?_, peers := ?_, order := order.mpr later, fifo := ?_, sound := sound_store old.sound room i
      inside := ?_, unheld := ?_, places := forall_mem_snoc.mpr ⟨old.places,came peer,rfl⟩ }
    · rw [contents]
      exact ⟨by simpa using old.slots.1.concat absent,forall_mem_snoc.mpr ⟨old.slots.2,flagged⟩⟩
    · exact forall_mem_snoc.mpr ⟨old.peers,peer⟩
    · rw [State.waiting,contents,map_append,map_append,← old.fifo,← id,append_assoc]
      rfl
    · rw [contents]
      exact forall_mem_snoc.mpr ⟨old.inside,here⟩
    · rw [contents]
      exact forall_mem_snoc.mpr ⟨old.unheld,unheld⟩
  · intro orderly
    exact ⟨orderly.peers _ (mem_append_right _ (mem_singleton_self _)),order.mp orderly.order⟩

theorem Ordered.sees (sid : StreamId) : Ordered { s with arrived := s.sees sid } := by
  refine { old with places := fun x queued => ?_ }
  obtain ⟨came,place⟩ := old.places x queued
  simp only [State.sees]
  split
  · exact ⟨mem_append_left _ came,place.trans (idxOf_append_of_mem came).symm⟩
  · exact ⟨came,place⟩

theorem Ordered.in_turn_iff (sid : StreamId) :
    ¬ Late s sid ∧ ¬ TurnedAway s sid ↔ ∀ x ∈ s.queued, x.2 < (s.sees sid).idxOf sid := by
  simp only [Late,TurnedAway,not_exists,not_and,← forall_and]
  refine forall₂_congr fun x queued => ?_
  obtain ⟨came,place⟩ := (old.sees sid).places x queued
  rw [Nat.not_lt,place,lt_iff_le_and_ne,ne_eq,idxOf_inj came,and_comm]

theorem Ordered.callback (sid : StreamId) : (Stored s (.streamOpen sid) → Ordered (s.streamOpenCb sid)) ∧
      (Orderly (s.streamOpenCb sid) → Stored s (.streamOpen sid)) := by
  have seen := old.sees sid
  have same : State.admits { s with arrived := s.sees sid } sid = s.admits sid := rfl
  simp only [State.streamOpenCb,Stored,same,old.in_turn_iff]
  cases admitted : s.admits sid with
  | none => exact ⟨fun _ => seen,fun _ some => (nomatch some)⟩
  | some i =>
    obtain ⟨-,found⟩ := Option.ite_none_left_eq_some.mp admitted
    have absent := old.absent_of_free (by simpa using find?_some found)
    have here := mem_range.mp (mem_of_find?_eq_some found)
    have taken : Ordered (State.alloc { s with arrived := s.sees sid } i sid true) := seen.reslot absent (Nat.le_succ _)
    have joins := @Ordered.enqueue _ taken i sid absent here (by simp [State.alloc]) (by simp [State.alloc]) ?_
      (fun peer => ?_)
    · exact ⟨fun stored => joins.1 (stored rfl),fun orderly _ => joins.2 orderly⟩
    · intro h held at_i
      have older := old.older h held
      simp only [State.alloc,update_self]
      rw [at_i] at older
      omega
    · by_cases came : sid ∈ s.arrived <;> simp [State.alloc,State.sees,peer,came]

theorem Ordered.accept : Ordered s.acceptStream := by
  unfold State.acceptStream
  split_ifs
  · exact old
  · obtain ⟨taken,left,still⟩ := contents_pop old.sound 1
    split
    next i rest popped =>
      rw [popped] at taken left still
      have split : s.acceptQueue.contents = i :: rest.contents := by
        rw [left,← take_append_drop 1 s.acceptQueue.contents,← taken]
        simp
      obtain ⟨absent,once⟩ := nodup_cons.mp (split ▸ old.slots.1)
      have part : ∀ j ∈ rest.contents, j ∈ s.acceptQueue.contents := fun j queued => split ▸ mem_cons_of_mem i queued
      have fifo := old.fifo
      rw [State.waiting,split,map_cons,append_cons] at fifo
      dsimp only
      rw [if_pos (old.inside i (split ▸ mem_cons_self))]
      have shorter : Ordered { s with acceptQueue := rest, handedOut := s.handedOut ++ [(s.slots i).streamId] } :=
        { old with
          slots := ⟨once,fun j queued => old.slots.2 j (part j queued)⟩
          fifo := fifo
          sound := still
          inside := fun j queued => old.inside j (part j queued)
          unheld := fun j queued => old.unheld j (part j queued) }
      exact shorter.grant absent
    next => exact old

theorem Ordered.release {h} (held : h ∈ s.handles)
    (current : (s.slots h.slot).inUse → h.taken = (s.slots h.slot).taken) : Ordered (s.release h.slot) := by
  refine old.reslot (fun queued => ?_) le_rfl
  exact old.unheld h.slot queued h held rfl (current (old.slots.2 h.slot queued).1)

theorem Ordered.init : (Stored s .init → Ordered s.init) ∧ (Orderly s.init → Stored s .init) := by
  unfold State.init
  by_cases active : s.active = true
  · rw [if_pos active]
    exact ⟨fun _ => old,fun _ inactive => absurd (active.symm.trans inactive) (by decide)⟩
  · rw [if_neg active]
    constructor
    · intro stored
      have empty : s.acceptQueue.contents = [] := contents_eq_nil.mpr (stored (by simpa using active))
      have fifo := old.fifo
      rw [State.waiting,empty] at fifo
      refine { old with slots := ⟨old.slots.1,?_⟩, fifo := ?_, unheld := ?_ }
      · simp [empty]
      · rw [State.waiting,empty]
        exact fifo
      · simp [empty]
    · intro orderly _
      refine contents_eq_nil.mp (eq_nil_iff_forall_not_mem.mpr fun i queued => ?_)
      exact Bool.noConfusion (orderly.slots.2 i queued).1

theorem Ordered.delete : (Stored s .delete → Ordered s.delete) ∧ (Orderly s.delete → Stored s .delete) := by
  unfold State.delete
  by_cases closed : s.closed = true
  · rw [if_pos closed]
    constructor
    · intro stored
      rw [← stored closed]
      exact old
    · intro orderly _
      exact contents_eq_nil.mp (old.datagrams.trans orderly.datagrams.symm)
  · rw [if_neg closed]
    exact ⟨fun _ => old,fun _ isClosed => absurd isClosed closed⟩

theorem Ordered.dgram_room :
    let left := if dgramMax ≤ s.dgrams.used then (s.dgrams.pop 1).2 else s.dgrams
    left.Sound ∧ left.used < dgramMax ∧
      left.contents = s.received.zipIdx.drop (max s.readUpTo (s.received.length + 1 - dgramMax)) := by
  have used := congrArg length old.datagrams
  rw [length_contents,length_drop,length_zipIdx] at used
  have read := old.read
  obtain ⟨-,dropped,still⟩ := contents_pop old.stored 1
  rw [old.datagrams,drop_drop] at dropped
  have length := congrArg length dropped
  rw [length_contents,length_drop,length_zipIdx] at length
  have cap : dgramMax = 16 := rfl
  by_cases full : dgramMax ≤ s.dgrams.used
  · simp only [if_pos full]
    exact ⟨still,by omega,dropped.trans (congrArg (drop · _) (by omega))⟩
  · simp only [if_neg full]
    exact ⟨old.stored,by omega,old.datagrams.trans (congrArg (drop · _) (by omega))⟩

theorem Ordered.datagram (data : Bytes) (allocated : Bool) : (allocated → Ordered (s.dgramEnqueue data allocated)) ∧
      (Orderly (s.dgramEnqueue data allocated) → allocated) := by
  obtain ⟨sound,room,contents⟩ := old.dgram_room
  have read := old.read
  have inside : max s.readUpTo (s.received.length + 1 - dgramMax) ≤ s.received.zipIdx.length := by
    simp only [dgramMax,length_zipIdx]
    omega
  have all : (s.received ++ [data]).zipIdx.drop (max s.readUpTo ((s.received ++ [data]).length - dgramMax)) =
      s.received.zipIdx.drop (max s.readUpTo (s.received.length + 1 - dgramMax)) ++ [(data,s.received.length)] := by
    rw [zipIdx_append,length_append,length_singleton,drop_append_of_le_length inside]
    simp
  cases allocated with
  | true =>
    refine ⟨fun _ => { old with stored := sound_store sound room _, datagrams := ?_, read := ?_ },fun _ => rfl⟩
    · exact ((contents_store sound room _).trans (by rw [contents])).trans all.symm
    · exact read.trans (by simp [State.dgramEnqueue])
  | false =>
    refine ⟨(nomatch ·),fun orderly => ?_⟩
    have length := congrArg length (contents.symm.trans (orderly.datagrams.trans all))
    simp at length

theorem Ordered.recvDatagram (bufLen : Nat) : Ordered (s.recvDatagram bufLen).1 := by
  unfold State.recvDatagram
  split_ifs
  · exact old
  · split
    next d rest popped =>
      obtain ⟨taken,left,still⟩ := contents_pop old.stored 1
      rw [popped] at taken left still
      rw [old.datagrams,drop_drop] at left
      rw [old.datagrams] at taken
      have head := congrArg (·[0]?) taken
      simp only [getElem?_take,getElem?_drop,getElem?_zipIdx] at head
      obtain ⟨data,there,rfl⟩ := Option.map_eq_some_iff.mp (by simpa using head.symm)
      have inside := lt_of_getElem? there
      refine { old with stored := still, datagrams := left.trans (congrArg (drop · _) ?_), read := ?_ }
      · dsimp only
        omega
      · dsimp only
        omega
    next => exact old

/-- Used in time, an event keeps the queues as they should be if it stores what it brings, and not otherwise. -/
theorem Ordered.step {e} (unrecycled : Unrecycled s e) :
    (Stored s e → Ordered (step s e).1) ∧ (Orderly (step s e).1 → Stored s e) := by
  cases e with
  | init => exact old.init
  | streamOpen sid => exact old.callback sid
  | data sid => exact old.callback sid
  | openStream =>
    refine ⟨fun _ => ?_,fun _ => trivial⟩
    have counted : Ordered { s with opened := s.opened + 1 } := { old with }
    simp only [Ngtcp2Queues.step,State.openStream]
    split_ifs
    · exact old
    · split
      next i free => exact counted.opens free _
      next => exact counted
  | acceptStream => exact ⟨fun _ => old.accept,fun _ => trivial⟩
  | primaryHandle =>
    refine ⟨fun _ => ?_,fun _ => trivial⟩
    simp only [Ngtcp2Queues.step,State.primaryHandle]
    split_ifs
    · exact old
    · split
      next i free => exact { old.opens free primary with }
      next => exact old
  | recvOnStream n | resetStream n =>
    refine ⟨fun _ => ?_,fun _ => trivial⟩
    cases found : s.handles[n]? with
    | none => simpa [Ngtcp2Queues.step,found] using old
    | some h =>
      have kept := old.release (mem_of_getElem? found) (unrecycled h found)
      simp only [Ngtcp2Queues.step,found,Option.map_some,Option.getD_some,State.recvOnStream,State.resetStream]
      split_ifs <;> assumption
  | close => exact ⟨fun _ => { old with },fun _ => trivial⟩
  | delete => exact old.delete
  | datagram data allocated => exact old.datagram data allocated
  | recvDatagram bufLen => exact ⟨fun _ => old.recvDatagram bufLen,fun _ => trivial⟩

end

theorem ordered_start : Ordered start where
  slots := ⟨nodup_nil,by simp [start]⟩
  peers := by simp [start]
  order := Pairwise.nil
  fifo := rfl
  datagrams := rfl
  sound := sound_empty (by decide)
  inside := by simp [start]
  unheld := by simp [start]
  older := by simp [start]
  stored := sound_empty (by decide)
  read := le_rfl
  places := by simp [start]

/-- The queues stay as they should be in just the runs whose events store what they bring. -/
theorem queues_orderly_iff (events : List Event) (unrecycled : Along step Unrecycled start events) :
    (∀ first last, events = first ++ last → Orderly (final step start first)) ↔ Along step Stored start events :=
  always_iff_along_within (fun _ old => old.toOrderly) (fun _ _ old unrecycled => (old.step unrecycled).1)
    (fun _ _ old unrecycled broken orderly => broken ((old.step unrecycled).2 orderly)) ordered_start unrecycled

def served : List Event :=
  [.init,.streamOpen 1,.data 1,.acceptStream,.resetStream 0 false,.datagram [7] true,.recvDatagram 8]

theorem served_orderly : Along step Unrecycled start served ∧
    ∀ first last, served = first ++ last → Orderly (final step start first) :=
  ⟨by decide,(queues_orderly_iff served (by decide)).mpr (by decide)⟩

def crowded : List Event :=
  .init :: replicate 16 .openStream ++ [.streamOpen 1,.resetStream 0 false,.resetStream 1 false,.streamOpen 5,
    .data 1,.acceptStream,.acceptStream]

theorem accepted_out_of_order : Along step Unrecycled start crowded ∧ (final step start crowded).arrived = [1,5] ∧
    (final step start crowded).handedOut = [5,1] ∧ ¬ Orderly (final step start crowded) ∧
      ¬ Orderly (final step start [.streamOpen 1,.init]) ∧ ¬ Orderly (final step start [.datagram [7] false]) := by
  refine ⟨by decide,by decide,by decide,fun orderly => ?_,fun orderly => ?_,fun orderly => ?_⟩
  · exact absurd orderly.order (by decide)
  · exact absurd orderly.slots.2 (by decide)
  · exact absurd orderly.datagrams (by decide)

end Pigeon.Ngtcp2Queues
