import Pigeon.CSession
import Pigeon.Rings

/-!
The ngtcp2 transport of the C library (`c/src/ngtcp2_transport.c`): sixteen slots for streams,
each with a ring of 65536 bytes, the accept queue, and the primary stream with a ring of its
own until `primary_handle` binds it to a slot. A handle is the address of a slot. A step is a
call, a callback, or what a receive does between two waits for packets. ngtcp2 hands over the
bytes of a stream in order and no more than were granted; offsets on the primary stream count
from the end of the greeting.
-/
namespace Pigeon.Ngtcp2
open List
open Octets (Bytes be ofBe)
open Rings (Ring)
open CSession (pigeonMaxMsg)

/-- An `int64_t` stream number of QUIC; a slot that was never used has -1. -/
abbrev StreamId := Int

def ngtcp2RecvBuf : Nat := 65536
def ngtcp2MaxExtraStreams : Nat := 16

def primary : StreamId := 0

structure Byte where
  value : UInt8
  stream : StreamId
deriving DecidableEq,Inhabited

def values (bytes : List Byte) : Bytes := bytes.map Byte.value

@[simp] theorem values_nil : values [] = [] := rfl
@[simp] theorem length_values (bytes : List Byte) : (values bytes).length = bytes.length := length_map _
@[simp] theorem values_append (first second : List Byte) : values (first ++ second) = values first ++ values second :=
  map_append

def arriving (sid : StreamId) (data : Bytes) : List Byte := data.map (fun value => ⟨value,sid⟩)

@[simp] theorem length_arriving (sid : StreamId) (data : Bytes) : (arriving sid data).length = data.length :=
  length_map _

@[simp] theorem values_arriving (sid : StreamId) (data : Bytes) : values (arriving sid data) = data := by
  rw [values,arriving,map_map]
  exact map_id data

abbrev RingBuf := Ring Byte ngtcp2RecvBuf

/-- A `recv_on_stream` that waits: its handle, the room in the buffer, the length once read, and the bytes that
    `slot_read_n` has taken. -/
structure Reader where
  (handle bufLen : Nat)
  payloadLen : Option Nat
  got : List Byte

/-- One entry of `extra_streams`. The check at the head of `recv_on_stream` lets one reader in, so `readers` counts
    the reader kept here. -/
structure Slot where
  streamId : StreamId
  (inUse finReceived closing writeClosed : Bool)
  reader : Option Reader
  recvBuf : RingBuf

def Slot.free : Slot := ⟨-1,false,false,false,false,none,Ring.empty⟩

def Slot.fresh (sid : StreamId) : Slot := { Slot.free with streamId := sid, inUse := true }

def Slot.holding (sid : StreamId) (ring : RingBuf) : Slot := { Slot.fresh sid with recvBuf := ring }

/-- The slot, the stream it was returned for, whether it was closed or reset, and whether the slot was given back. -/
structure Grant where
  slot : Nat
  stream : StreamId
  (retired lapsed : Bool)

def Grant.lapse (i : Nat) (grant : Grant) : Grant := { grant with lapsed := grant.lapsed || grant.slot == i }

def Grant.retire (closed grant : Grant) : Grant :=
  { grant with retired := grant.retired || (grant.slot == closed.slot && grant.stream == closed.stream) }

structure Call where
  handle : Nat
  acted : List StreamId
  ok : Bool

inductive Written
  | bytes (sid : StreamId) (data : Bytes)
  | fin (sid : StreamId)
  | shutdown (sid : StreamId)

structure State where
  closed : Bool
  recvBuf : RingBuf
  extraStreams : List Slot
  acceptQueue : Ring Nat ngtcp2MaxExtraStreams
  primarySlotIdx : Option Nat
  -- what ngtcp2 keeps: the streams opened here, the streams whose last byte has come, the credit of the peer
  opened : Nat
  finished : List StreamId
  maxOffset : StreamId → Nat
  maxData : Nat
  -- what has happened: the bytes handed over, the handles given out, the calls made, and what they read and wrote
  arrived : List Byte
  grants : List Grant
  primaryLapsed : Bool
  calls : List Call
  returned : List (StreamId × Bytes)
  written : List Written

def initialMaxStreamData (sid : StreamId) : Nat := if sid % 4 < 2 then 256 * 1024 else 0

def initialMaxData : Nat := 1024 * 1024

def start : State where
  closed := false
  recvBuf := Ring.empty
  extraStreams := replicate ngtcp2MaxExtraStreams Slot.free
  acceptQueue := Ring.empty
  primarySlotIdx := none
  opened := 1
  finished := []
  maxOffset := initialMaxStreamData
  maxData := initialMaxData
  arrived := []
  grants := []
  primaryLapsed := false
  calls := []
  returned := []
  written := []

/-- `find_extra_slot`. -/
def findExtraSlot (slots : List Slot) (sid : StreamId) : Option Nat :=
  slots.findIdx? (fun slot => slot.inUse && slot.streamId == sid)

def freeSlot (slots : List Slot) : Option Nat := slots.findIdx? (!·.inUse)

def State.setSlot (s : State) (i : Nat) (slot : Slot) : State := { s with extraStreams := s.extraStreams.set i slot }

/-- `alloc_extra_slot`. -/
def State.allocExtraSlot (s : State) (sid : StreamId) : Option (State × Nat) :=
  (freeSlot s.extraStreams).map (fun i => (s.setSlot i (Slot.fresh sid),i))

def State.release (s : State) (i : Nat) : State :=
  { s with
    extraStreams := s.extraStreams.modify i (fun slot => { slot with inUse := false })
    grants := s.grants.map (Grant.lapse i)
    primaryLapsed := s.primaryLapsed || s.primarySlotIdx == some i }

def State.grant (s : State) (i : Nat) (sid : StreamId) (lapsed : Bool) : State :=
  { s with grants := s.grants ++ [⟨i,sid,false,lapsed⟩] }

def State.call (s : State) (handle : Nat) (acted : List StreamId) (ok : Bool) : State :=
  { s with calls := s.calls ++ [⟨handle,acted,ok⟩] }

def State.write (s : State) (what : Written) : State := { s with written := s.written ++ [what] }

def Slot.take (slot : Slot) (bytes : List Byte) (fin : Bool) : Slot :=
  { slot with recvBuf := slot.recvBuf.push bytes, finReceived := slot.finReceived || fin }

def State.fill (s : State) (i : Nat) (bytes : List Byte) (fin : Bool) : State :=
  { s with extraStreams := s.extraStreams.modify i (·.take bytes fin) }

/-- A slot for a stream that the peer has opened, queued for `accept_stream`. -/
def State.incoming (s : State) (sid : StreamId) : Option (State × Nat) :=
  (s.allocExtraSlot sid).map (fun (t,i) => ({ t with acceptQueue := t.acceptQueue.push [i] },i))

/-- `recv_stream_data_cb` up to the return of the credit. -/
def State.recvStreamData (s : State) (sid : StreamId) (bytes : List Byte) (fin : Bool) : State :=
  if sid = primary then
    match s.primarySlotIdx with
    | some p => s.fill p bytes fin
    | none => { s with recvBuf := s.recvBuf.push bytes }
  else
    match findExtraSlot s.extraStreams sid with
    | some i => s.fill i bytes fin
    | none =>
      match s.incoming sid with
      | some (t,i) => t.fill i bytes fin
      | none => s

def State.arrivedOn (s : State) (sid : StreamId) : Bytes :=
  values (s.arrived.filter (·.stream = sid))

def State.mayArrive (s : State) (sid : StreamId) (n : Nat) : Prop :=
  0 ≤ sid ∧ sid % 4 ≠ 2 ∧ (sid % 4 = 0 → sid < 4 * s.opened) ∧ sid ∉ s.finished ∧
    (s.arrivedOn sid).length + n ≤ s.maxOffset sid ∧ s.arrived.length + n ≤ s.maxData
deriving Decidable

def State.extendMax (s : State) (sid : StreamId) (data : Bytes) (fin : Bool) : State :=
  { s with
    arrived := s.arrived ++ arriving sid data
    finished := if fin then sid :: s.finished else s.finished
    maxOffset := Function.update s.maxOffset sid (s.maxOffset sid + data.length)
    maxData := s.maxData + data.length }

/-- `recv_stream_data_cb`: the credit goes back whatever became of the bytes. -/
def State.data (s : State) (sid : StreamId) (data : Bytes) (fin : Bool) : State :=
  if s.mayArrive sid data.length then (s.recvStreamData sid (arriving sid data) fin).extendMax sid data fin else s

/-- `stream_open_cb`. -/
def State.streamOpen (s : State) (sid : StreamId) : State :=
  if sid = primary then s
  else
    match findExtraSlot s.extraStreams sid with
    | some _ => s
    | none => ((s.incoming sid).map Prod.fst).getD s

/-- `stream_close_cb`: an abort, or an end without a FIN, cancels what waits. -/
def Slot.streamClose (slot : Slot) (appError : Bool) : Slot :=
  if appError || !slot.finReceived then { slot with closing := true, recvBuf := { slot.recvBuf with used := 0 } }
  else { slot with writeClosed := true }

/-- `stream_close_cb`. -/
def State.streamClose (s : State) (sid : StreamId) (appError : Bool) : State :=
  match findExtraSlot s.extraStreams sid with
  | some i => { s with extraStreams := s.extraStreams.modify i (·.streamClose appError) }
  | none => s

/-- `raw_open_stream`. -/
def State.openStream (s : State) : State :=
  if s.closed then s
  else
    let sid : StreamId := 4 * s.opened
    let t := { s with opened := s.opened + 1 }
    match t.allocExtraSlot sid with
    | some (u,i) => u.grant i sid false
    | none => t

/-- `raw_accept_stream`. -/
def State.acceptStream (s : State) : State :=
  if s.closed then s
  else
    match s.acceptQueue.pop 1 with
    | ([i],rest) =>
      match s.extraStreams[i]? with
      | some slot => { s with acceptQueue := rest }.grant i slot.streamId false
      | none => { s with acceptQueue := rest }
    | _ => s

/-- The loop of `primary_handle` that moves what waits in one ring to another, in pieces of 256 bytes; each pass moves
    a byte at least. -/
def migrate : Nat → RingBuf → RingBuf → RingBuf × RingBuf
  | 0, source, target => (source,target)
  | fuel + 1, source, target =>
    if source.used = 0 then (source,target)
    else
      let taken := source.pop (min 256 source.used)
      migrate fuel taken.2 (target.push taken.1)

def State.bindPrimary (s : State) (i : Nat) (moved : RingBuf × RingBuf) : State :=
  { s.setSlot i (Slot.holding primary moved.2) with recvBuf := moved.1, primarySlotIdx := some i }

/-- `pigeon_ngtcp2_transport_primary_handle`. -/
def State.primaryHandle (s : State) : State :=
  if s.closed then s
  else
    match s.primarySlotIdx with
    | some p => s.grant p primary s.primaryLapsed
    | none =>
      match freeSlot s.extraStreams with
      | some i => (s.bindPrimary i (migrate s.recvBuf.used s.recvBuf Ring.empty)).grant i primary false
      | none => s

def State.usable (s : State) (handle : Nat) : Option (Grant × Slot) :=
  match s.grants[handle]? with
  | some grant =>
    if grant.retired then none
    else (s.extraStreams[grant.slot]?).map (fun slot => (grant,slot))
  | none => none

def State.retire (s : State) (grant : Grant) : State := { s with grants := s.grants.map (Grant.retire grant) }

/-- `send_on_stream`: `failedAfter` says after how many bytes of the frame the writing failed, if it did. -/
def State.send (s : State) (handle : Nat) (data : Bytes) (failedAfter : Option Nat) : State :=
  match s.usable handle with
  | some (_,slot) =>
    if s.closed || !slot.inUse || slot.writeClosed || slot.closing || decide (pigeonMaxMsg < data.length) then
      s.call handle [] false
    else
      let frame := be 4 data.length ++ data
      let taken := failedAfter.getD frame.length
      (s.write (.bytes slot.streamId (frame.take taken))).call handle [slot.streamId] failedAfter.isNone
  | none => s

/-- `close_stream`: the FIN, then a flush. -/
def State.close (s : State) (handle : Nat) (wrote flushed : Bool) : State :=
  match s.usable handle with
  | some (grant,slot) =>
    (if s.closed || !slot.inUse || slot.writeClosed || slot.closing then s.call handle [] false
    else if wrote then
      ((s.setSlot grant.slot { slot with writeClosed := true }).write (.fin slot.streamId)).call handle
        [slot.streamId] flushed
    else s.call handle [slot.streamId] false).retire grant
  | none => s

/-- `reset_stream`: the slot is given back unless a receive is under way in it. -/
def State.reset (s : State) (handle : Nat) : State :=
  match s.usable handle with
  | some (grant,slot) =>
    (if s.closed || !slot.inUse then s.call handle [] false
    else
      let t := ((s.setSlot grant.slot { slot with closing := true }).write (.shutdown slot.streamId)).call handle
        [slot.streamId] true
      if slot.reader.isNone then t.release grant.slot else t).retire grant
  | none => s

inductive ReadN
  | failed
  | waiting
  | filled

/-- `slot_read_n` until the bytes suffice, it gives up or it waits: the slot, the bytes taken, and which. -/
def slotReadN (closed : Bool) (slot : Slot) (total want : Nat) : Slot × List Byte × ReadN :=
  if closed || slot.closing then (slot,[],.failed)
  else
    let popped := slot.recvBuf.pop (want - total)
    let after := { slot with recvBuf := popped.2 }
    if want ≤ total + popped.1.length then (after,popped.1,.filled)
    else if slot.finReceived then (after,popped.1,.failed)
    else (after,popped.1,.waiting)

inductive Read
  | failed
  | waiting (r : Reader)
  | message (payload : Bytes)

/-- `raw_recv_on_stream` from where it reads the payload. -/
def readPayload (closed : Bool) (slot : Slot) (r : Reader) (len : Nat) : Slot × List Byte × Read :=
  match slotReadN closed slot r.got.length len with
  | (after,taken,.filled) => (after,taken,.message (values (r.got ++ taken)))
  | (after,taken,.waiting) => (after,taken,.waiting { r with got := r.got ++ taken })
  | (after,taken,.failed) => (after,taken,.failed)

/-- `raw_recv_on_stream`, from the start or from where it waited. -/
def rawRecv (closed : Bool) (slot : Slot) (r : Reader) : Slot × List Byte × Read :=
  match r.payloadLen with
  | some len => readPayload closed slot r len
  | none =>
    match slotReadN closed slot r.got.length 4 with
    | (after,taken,.filled) =>
      let len := ofBe (values (r.got ++ taken))
      if pigeonMaxMsg < len then (after,taken,.failed)
      else if r.bufLen < len then (after,taken,.failed)
      else if len = 0 then (after,taken,.message [])
      else
        let rest := readPayload closed after { r with payloadLen := some len, got := [] } len
        (rest.1,taken ++ rest.2.1,rest.2.2)
    | (after,taken,.waiting) => (after,taken,.waiting { r with got := r.got ++ taken })
    | (after,taken,.failed) => (after,taken,.failed)

/-- The end of `transport_recv_on_stream`: the slot is given back after a reset or the end of a finished stream. -/
def State.leave (s : State) (i : Nat) (slot : Slot) (failed : Bool) : State :=
  let t := s.setSlot i { slot with reader := none }
  if slot.closing || (failed && slot.finReceived && slot.writeClosed && slot.recvBuf.used == 0) then t.release i else t

def State.returns (s : State) (sid : StreamId) (payload : Bytes) : State :=
  { s with returned := s.returned ++ [(sid,payload)] }

def State.pass (s : State) (i : Nat) (slot : Slot) (r : Reader) : State :=
  match rawRecv s.closed slot r with
  | (after,taken,.failed) => (s.leave i after true).call r.handle (slot.streamId :: taken.map Byte.stream) false
  | (after,taken,.waiting reader) =>
    (s.setSlot i { after with reader := some reader }).call r.handle (slot.streamId :: taken.map Byte.stream) true
  | (after,taken,.message payload) =>
    ((s.returns slot.streamId payload).leave i after false).call r.handle (slot.streamId :: taken.map Byte.stream) true

/-- `transport_recv_on_stream`. -/
def State.recv (s : State) (handle bufLen : Nat) : State :=
  match s.usable handle with
  | some (grant,slot) =>
    if s.closed || slot.reader.isSome || !slot.inUse then s.call handle [] false
    else s.pass grant.slot slot ⟨handle,bufLen,none,[]⟩
  | none => s

/-- The receive in a slot is back from its wait; `io` says whether the packets were written and read. -/
def State.wake (s : State) (i : Nat) (io : Bool) : State :=
  match s.extraStreams[i]? with
  | some slot =>
    match slot.reader with
    | some r =>
      if io && !(slot.finReceived && slot.recvBuf.used == 0) then s.pass i slot r
      else (s.leave i slot true).call r.handle [] false
    | none => s
  | none => s

inductive Event
  | data (sid : StreamId) (data : Bytes) (fin : Bool)
  | streamOpen (sid : StreamId)
  | streamClose (sid : StreamId) (appError : Bool)
  | openStream
  | acceptStream
  | primaryHandle
  | send (handle : Nat) (data : Bytes) (failedAfter : Option Nat)
  | recv (handle bufLen : Nat)
  | wake (i : Nat) (io : Bool)
  | close (handle : Nat) (wrote flushed : Bool)
  | reset (handle : Nat)
  | shutdown

/-- ngtcp2 calls `stream_open_cb` for the streams of the peer, which have odd numbers. -/
def step (s : State) : Event → State × Unit
  | .data sid data fin => (s.data sid data fin,())
  | .streamOpen sid => (if 0 ≤ sid ∧ sid % 2 = 1 then s.streamOpen sid else s,())
  | .streamClose sid appError => (s.streamClose sid appError,())
  | .openStream => (s.openStream,())
  | .acceptStream => (s.acceptStream,())
  | .primaryHandle => (s.primaryHandle,())
  | .send handle data failedAfter => (s.send handle data failedAfter,())
  | .recv handle bufLen => (s.recv handle bufLen,())
  | .wake i io => (s.wake i io,())
  | .close handle wrote flushed => (s.close handle wrote flushed,())
  | .reset handle => (s.reset handle,())
  | .shutdown => ({ s with closed := true },())

def Holds (slots : List Slot) (i : Nat) (sid : StreamId) : Prop :=
  ∃ slot : Slot, slots[i]? = some slot ∧ slot.inUse = true ∧ slot.streamId = sid

variable {slots : List Slot} {i : Nat} {sid : StreamId} {slot after : Slot}

theorem findExtraSlot_some (found : findExtraSlot slots sid = some i) : Holds slots i sid := by
  obtain ⟨inside,meets,_⟩ := findIdx?_eq_some_iff_getElem.mp found
  simp only [Bool.and_eq_true,beq_iff_eq] at meets
  exact ⟨slots[i],getElem?_eq_getElem inside,meets⟩

theorem findExtraSlot_none (missing : findExtraSlot slots sid = none) (at_i : slots[i]? = some slot)
    (used : slot.inUse) : slot.streamId ≠ sid := by
  have each := findIdx?_eq_none_iff.mp missing slot (mem_of_getElem? at_i)
  simpa [used] using each

theorem freeSlot_none (full : freeSlot slots = none) (at_i : slots[i]? = some slot) : slot.inUse := by
  simpa using findIdx?_eq_none_iff.mp full slot (mem_of_getElem? at_i)

theorem freeSlot_some (found : freeSlot slots = some i) :
    ∃ slot : Slot, slots[i]? = some slot ∧ slot.inUse = false := by
  obtain ⟨inside,meets,_⟩ := findIdx?_eq_some_iff_getElem.mp found
  exact ⟨slots[i],getElem?_eq_getElem inside,by simpa using meets⟩

theorem holds_set_iff (at_i : slots[i]? = some slot) (used : after.inUse = slot.inUse)
    (same : after.streamId = slot.streamId) {j} : Holds (slots.set i after) j sid ↔ Holds slots j sid := by
  by_cases equal : i = j
  · subst equal
    simp only [Holds,Sequence.getElem?_set_found at_i,at_i,Option.some.injEq,exists_eq_left',used,same]
  · simp only [Holds,getElem?_set_ne equal]

theorem Holds.set_ne {j} (other : i ≠ j) (holds : Holds slots j sid) : Holds (slots.set i after) j sid := by
  obtain ⟨slot,found,rest⟩ := holds
  exact ⟨slot,by rw [getElem?_set_ne other,found],rest⟩

theorem holds_set_self (at_i : slots[i]? = some slot) (used : after.inUse) :
    Holds (slots.set i after) i after.streamId :=
  ⟨after,by rw [Sequence.getElem?_set_found at_i],used,rfl⟩

theorem holds_occupy_iff (at_i : slots[i]? = some slot) (free : slot.inUse = false) (used : after.inUse) {j} :
    Holds (slots.set i after) j sid ↔ j = i ∧ sid = after.streamId ∨ Holds slots j sid := by
  constructor
  · rintro ⟨other,found,inUse,rfl⟩
    rcases Sequence.getElem?_set_cases found with ⟨rfl,rfl⟩ | ⟨_,before⟩
    · exact .inl ⟨rfl,rfl⟩
    · exact .inr ⟨other,before,inUse,rfl⟩
  · rintro (⟨rfl,rfl⟩ | holds)
    · exact holds_set_self at_i used
    · refine holds.set_ne ?_
      rintro rfl
      obtain ⟨other,found,inUse,_⟩ := holds
      rw [at_i] at found
      cases found
      simp [free] at inUse

theorem fill_eq {s : State} (at_i : s.extraStreams[i]? = some slot) (bytes : List Byte) (fin : Bool) :
    s.fill i bytes fin = s.setSlot i (slot.take bytes fin) := by
  simp only [State.fill,State.setSlot]
  rw [modify_eq_set_getElem?,at_i]
  rfl

theorem incoming_some {s t : State} (made : s.incoming sid = some (t,i)) :
    ∃ slot : Slot, s.extraStreams[i]? = some slot ∧ slot.inUse = false ∧
      t = { s.setSlot i (Slot.fresh sid) with acceptQueue := s.acceptQueue.push [i] } := by
  simp only [State.incoming,State.allocExtraSlot,Option.map_map,Option.map_eq_some_iff] at made
  obtain ⟨j,free,same⟩ := made
  simp only [Function.comp_apply,Prod.mk.injEq] at same
  obtain ⟨rfl,rfl⟩ := same
  obtain ⟨slot,at_j,unused⟩ := freeSlot_some free
  exact ⟨slot,at_j,unused,rfl⟩

theorem incoming_none {s : State} (full : s.incoming sid = none) : freeSlot s.extraStreams = none := by
  simpa [State.incoming,State.allocExtraSlot] using full

theorem usable_some {s : State} {handle : Nat} {grant : Grant} (found : s.usable handle = some (grant,slot)) :
    s.grants[handle]? = some grant ∧ grant.retired = false ∧ s.extraStreams[grant.slot]? = some slot := by
  unfold State.usable at found
  cases given : s.grants[handle]? with
  | none => simp [given] at found
  | some g =>
    rw [given] at found
    simp only [Option.ite_none_left_eq_some,Option.map_eq_some_iff,Prod.mk.injEq] at found
    obtain ⟨active,other,at_slot,rfl,rfl⟩ := found
    exact ⟨rfl,by simpa using active,at_slot⟩

theorem migrate_moves {fuel source target} (sound : source.Sound) (sound_target : target.Sound)
    (room : target.used + source.used ≤ ngtcp2RecvBuf) (enough : source.used ≤ fuel) :
    (migrate fuel source target).1.Sound ∧ (migrate fuel source target).1.contents = [] ∧
      (migrate fuel source target).2.Sound ∧
      (migrate fuel source target).2.contents = target.contents ++ source.contents := by
  induction fuel generalizing source target with
  | zero =>
    have nothing : source.contents = [] := Rings.contents_eq_nil.mpr (by omega)
    simp [migrate,nothing,sound,sound_target]
  | succ fuel ih =>
    by_cases none_left : source.used = 0
    · have nothing : source.contents = [] := Rings.contents_eq_nil.mpr none_left
      simp [migrate,none_left,nothing,sound,sound_target]
    · obtain ⟨taken,left,still⟩ := Rings.contents_pop sound (min 256 source.used)
      have left_used : (source.pop (min 256 source.used)).2.used = source.used - min 256 source.used := by
        rw [← Rings.length_contents,left,length_drop,Rings.length_contents]
      have taken_length : (source.pop (min 256 source.used)).1.length = min 256 source.used := by
        rw [taken,length_take,Rings.length_contents]
        omega
      have fits : target.used + (source.pop (min 256 source.used)).1.length ≤ ngtcp2RecvBuf := by omega
      have stored := Rings.contents_push_fitting sound_target fits
      have target_used : (target.push (source.pop (min 256 source.used)).1).used =
          target.used + min 256 source.used := by
        rw [← Rings.length_contents,stored,length_append,Rings.length_contents,taken_length]
      simp only [migrate,none_left,if_false]
      obtain ⟨sound_left,empty_left,sound_moved,moved⟩ :=
        ih still (Rings.sound_push sound_target (source.pop (min 256 source.used)).1) (by omega) (by omega)
      refine ⟨sound_left,empty_left,sound_moved,?_⟩
      rw [moved,stored,taken,left,append_assoc,take_append_drop]

def Takes (slot after : Slot) (taken : List Byte) : Prop :=
  ∃ ring : RingBuf, after = { slot with recvBuf := ring } ∧ (slot.closing = true → taken = []) ∧
    (slot.recvBuf.Sound → ring.Sound ∧ taken ++ ring.contents = slot.recvBuf.contents)

theorem Takes.refl (slot : Slot) : Takes slot slot [] := ⟨slot.recvBuf,rfl,fun _ => rfl,fun sound => ⟨sound,rfl⟩⟩

theorem Takes.trans {middle first second} (one : Takes slot middle first)
    (two : Takes middle after second) : Takes slot after (first ++ second) := by
  obtain ⟨ring,rfl,none_first,left_first⟩ := one
  obtain ⟨last,rfl,none_second,left_second⟩ := two
  refine ⟨last,rfl,fun closing => by rw [none_first closing,none_second closing]; rfl,?_⟩
  intro sound
  obtain ⟨sound_ring,all_first⟩ := left_first sound
  obtain ⟨sound_last,all_second⟩ := left_second sound_ring
  refine ⟨sound_last,?_⟩
  rw [append_assoc,all_second,all_first]

theorem slotReadN_takes (closed : Bool) (slot : Slot) (total want : Nat) :
    Takes slot (slotReadN closed slot total want).1 (slotReadN closed slot total want).2.1 := by
  unfold slotReadN
  by_cases stop : (closed || slot.closing) = true
  · rw [if_pos stop]
    exact Takes.refl slot
  · rw [if_neg stop]
    have popped : Takes slot { slot with recvBuf := (slot.recvBuf.pop (want - total)).2 }
        (slot.recvBuf.pop (want - total)).1 := by
      refine ⟨_,rfl,fun closing => absurd (by simp [closing]) stop,?_⟩
      intro sound
      obtain ⟨taken,left,still⟩ := Rings.contents_pop sound (want - total)
      exact ⟨still,by rw [taken,left,take_append_drop]⟩
    dsimp only
    split_ifs
    · exact popped
    · exact popped
    · exact popped

theorem readPayload_takes (closed : Bool) (slot : Slot) (r : Reader) (len : Nat) :
    Takes slot (readPayload closed slot r len).1 (readPayload closed slot r len).2.1 := by
  have step_takes := slotReadN_takes closed slot r.got.length len
  unfold readPayload
  generalize slotReadN closed slot r.got.length len = result at step_takes ⊢
  obtain ⟨after,taken,outcome⟩ := result
  cases outcome with
  | failed | waiting | filled => exact step_takes

theorem rawRecv_takes (closed : Bool) (slot : Slot) (r : Reader) :
    Takes slot (rawRecv closed slot r).1 (rawRecv closed slot r).2.1 := by
  unfold rawRecv
  cases r.payloadLen with
  | some len => exact readPayload_takes closed slot r len
  | none =>
    have header := slotReadN_takes closed slot r.got.length 4
    dsimp only
    generalize slotReadN closed slot r.got.length 4 = result at header ⊢
    obtain ⟨after,taken,outcome⟩ := result
    cases outcome with
    | failed | waiting => exact header
    | filled =>
      dsimp only
      split_ifs
      · exact header
      · exact header
      · exact header
      · exact header.trans (readPayload_takes closed after _ _)

theorem rawRecv_waiting {closed r reader taken}
    (waits : rawRecv closed slot r = (after,taken,.waiting reader)) : reader.handle = r.handle := by
  have payload : ∀ first q len, q.handle = r.handle →
      (readPayload closed first q len).2.2 = .waiting reader → reader.handle = r.handle := by
    intro first q len same outcome
    unfold readPayload at outcome
    split at outcome
    · simp at outcome
    · simp only [Read.waiting.injEq] at outcome
      rw [← outcome]
      exact same
    · simp at outcome
  unfold rawRecv at waits
  split at waits
  · exact payload slot r _ rfl (by rw [waits])
  · split at waits
    · dsimp only at waits
      split_ifs at waits
      · simp at waits
      · simp at waits
      · simp at waits
      · exact payload _ { r with payloadLen := some _, got := [] } _ rfl (congrArg (·.2.2) waits)
    · simp only [Prod.mk.injEq,Read.waiting.injEq] at waits
      rw [← waits.2.2]
    · simp at waits

end Pigeon.Ngtcp2
