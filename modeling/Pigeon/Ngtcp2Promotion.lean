import Pigeon.Ngtcp2

/-!
The primary stream of the ngtcp2 transport before and after `primary_handle` binds it to a
slot. Its bytes are moved to the slot, but a FIN or a close that comes first is lost
(`promotion_commutes_iff`).
-/
namespace Pigeon.Ngtcp2
open List
open Octets (Bytes)
open Rings (Ring sound_push sound_empty contents_push_fitting length_contents contents_empty)

inductive Callback
  | data (bytes : Bytes) (fin : Bool)
  | close (appError : Bool)

def Callback.bytes : Callback → Bytes
  | .data bytes _ => bytes
  | .close _ => []

def Callback.Plain : Callback → Prop
  | .data _ fin => fin = false
  | .close _ => False

def Callback.run (s : State) : Callback → State
  | .data bytes fin => (s.recvStreamData primary (arriving primary bytes) fin).extendMax primary bytes fin
  | .close appError => s.streamClose primary appError

/-- The callbacks in their order, with the promotion after the first `k` of them. -/
def promotedAt (k : Nat) (callbacks : List Callback) (s : State) : State :=
  (callbacks.drop k).foldl Callback.run ((callbacks.take k).foldl Callback.run s).primaryHandle

structure Status where
  readable : Bytes
  (endOfStream reset : Bool)
deriving DecidableEq

def Slot.status (slot : Slot) : Status := ⟨values slot.recvBuf.contents,slot.finReceived,slot.closing⟩

def State.primaryStatus (s : State) : Option Status :=
  (s.primarySlotIdx.bind (s.extraStreams[·]?)).map Slot.status

structure Unbound (s : State) : Prop where
  alive : s.closed = false
  unbound : s.primarySlotIdx = none
  sound : s.recvBuf.Sound
  nowhere : findExtraSlot s.extraStreams primary = none
  room : (freeSlot s.extraStreams).isSome

theorem unbound_start : Unbound start := ⟨rfl,rfl,sound_empty (by decide),by decide,by decide⟩

variable {s : State} {i : Nat} {slot : Slot}

theorem run_data_unbound (old : Unbound s) (bytes : Bytes) (fin : Bool) : (Callback.data bytes fin).run s =
      { s with recvBuf := s.recvBuf.push (arriving primary bytes) }.extendMax primary bytes fin := by
  simp only [Callback.run,State.recvStreamData,old.unbound,if_true]

theorem run_close_unbound (old : Unbound s) (appError : Bool) : (Callback.close appError).run s = s := by
  simp only [Callback.run,State.streamClose,old.nowhere]

theorem Unbound.run (old : Unbound s) (callback : Callback) :
    Unbound (callback.run s) ∧ (callback.run s).extraStreams = s.extraStreams := by
  cases callback with
  | data bytes fin =>
    rw [run_data_unbound old]
    exact ⟨{ old with sound := sound_push old.sound _ },rfl⟩
  | close appError =>
    rw [run_close_unbound old]
    exact ⟨old,rfl⟩

theorem Unbound.runs (old : Unbound s) (callbacks : List Callback) : Unbound (callbacks.foldl Callback.run s) ∧
      (callbacks.foldl Callback.run s).extraStreams = s.extraStreams := by
  induction callbacks generalizing s with
  | nil => exact ⟨old,rfl⟩
  | cons callback rest ih =>
    obtain ⟨still,same⟩ := old.run callback
    obtain ⟨after,slots⟩ := ih still
    exact ⟨after,slots.trans same⟩

def allBytes (callbacks : List Callback) : Bytes := callbacks.flatMap Callback.bytes

theorem Unbound.contents_runs (old : Unbound s) (callbacks : List Callback)
    (fits : s.recvBuf.used + (allBytes callbacks).length ≤ ngtcp2RecvBuf) :
    values (callbacks.foldl Callback.run s).recvBuf.contents = values s.recvBuf.contents ++ allBytes callbacks := by
  induction callbacks generalizing s with
  | nil => simp [allBytes]
  | cons callback rest ih =>
    have split : allBytes (callback :: rest) = callback.bytes ++ allBytes rest := by simp [allBytes]
    rw [split,length_append] at fits
    cases callback with
    | data bytes fin =>
      have here : s.recvBuf.used + (arriving primary bytes).length ≤ ngtcp2RecvBuf := by
        rw [length_arriving]
        exact Nat.le_trans (by simp only [Callback.bytes]; omega) fits
      have stored := contents_push_fitting old.sound here
      have ring : ((Callback.data bytes fin).run s).recvBuf = s.recvBuf.push (arriving primary bytes) := by
        rw [run_data_unbound old]
        rfl
      have used : ((Callback.data bytes fin).run s).recvBuf.used = s.recvBuf.used + bytes.length := by
        rw [ring,← length_contents,stored,length_append,length_contents,length_arriving]
      rw [foldl_cons,ih (old.run _).1 (by rw [used]; simp only [Callback.bytes] at fits; omega),ring,stored,split]
      simp [Callback.bytes]
    | close appError =>
      rw [foldl_cons,run_close_unbound old,ih old (by simpa [Callback.bytes] using fits),split]
      rfl

structure Promoted (s : State) (i : Nat) (slot : Slot) : Prop where
  bound : s.primarySlotIdx = some i
  there : s.extraStreams[i]? = some slot
  only : ∀ j, Holds s.extraStreams j primary ↔ j = i

theorem Promoted.status (promoted : Promoted s i slot) : s.primaryStatus = some slot.status := by
  simp [State.primaryStatus,promoted.bound,promoted.there]

theorem Unbound.promote (old : Unbound s) :
    ∃ i ring, Promoted s.primaryHandle i (Slot.holding primary ring) ∧ ring.Sound ∧
      ring.contents = s.recvBuf.contents := by
  obtain ⟨i,free⟩ := Option.isSome_iff_exists.mp old.room
  obtain ⟨slot,at_i,unused⟩ := freeSlot_some free
  obtain ⟨-,-,sound,moved⟩ := migrate_moves old.sound (sound_empty (n := ngtcp2RecvBuf) (by decide))
    (by simpa [Ring.empty] using old.sound.fits) (Nat.le_refl s.recvBuf.used)
  rw [contents_empty,nil_append] at moved
  refine ⟨i,(migrate s.recvBuf.used s.recvBuf Ring.empty).2,?_,sound,moved⟩
  simp only [State.primaryHandle,old.alive,old.unbound,free]
  refine ⟨rfl,Sequence.getElem?_set_found at_i,?_⟩
  intro j
  refine (holds_occupy_iff at_i unused rfl).trans ⟨?_,fun same => Or.inl ⟨same,rfl⟩⟩
  rintro (⟨same,-⟩ | ⟨other,found,used,stream⟩)
  · exact same
  · exact absurd stream (findExtraSlot_none old.nowhere found used)

def Slot.react (slot : Slot) : Callback → Slot
  | .data bytes fin => slot.take (arriving primary bytes) fin
  | .close appError => slot.streamClose appError

theorem Promoted.set {after} (old : Promoted s i slot) (used : after.inUse = slot.inUse)
    (same : after.streamId = slot.streamId) : Promoted (s.setSlot i after) i after :=
  ⟨old.bound,Sequence.getElem?_set_found old.there,fun j => (holds_set_iff old.there used same).trans (old.only j)⟩

theorem Promoted.find (promoted : Promoted s i slot) : findExtraSlot s.extraStreams primary = some i := by
  obtain ⟨own,found,used,stream⟩ := (promoted.only i).mpr rfl
  cases searched : findExtraSlot s.extraStreams primary with
  | none => exact absurd stream (findExtraSlot_none searched found used)
  | some j => rw [(promoted.only j).mp (findExtraSlot_some searched)]

theorem Promoted.run (promoted : Promoted s i slot) (callback : Callback) :
    Promoted (callback.run s) i (slot.react callback) := by
  cases callback with
  | data bytes fin =>
    have taken : Promoted (s.setSlot i _) i (slot.take (arriving primary bytes) fin) := promoted.set rfl rfl
    obtain ⟨bound,there,only⟩ := taken
    simp only [Callback.run,State.recvStreamData,if_true,promoted.bound,fill_eq promoted.there]
    exact ⟨bound,there,only⟩
  | close appError =>
    have kept : (slot.streamClose appError).inUse = slot.inUse ∧
        (slot.streamClose appError).streamId = slot.streamId := by
      unfold Slot.streamClose
      split <;> exact ⟨rfl,rfl⟩
    obtain ⟨bound,there,only⟩ := promoted.set kept.1 kept.2
    simp only [Callback.run,State.streamClose,promoted.find,modify_eq_set_getElem?,promoted.there]
    exact ⟨bound,there,only⟩

theorem Promoted.runs (promoted : Promoted s i slot) (callbacks : List Callback) :
    Promoted (callbacks.foldl Callback.run s) i (callbacks.foldl Slot.react slot) := by
  induction callbacks generalizing s slot with
  | nil => exact promoted
  | cons callback rest ih => exact ih (promoted.run callback)

theorem status_react_plain (sound : slot.recvBuf.Sound) (callbacks : List Callback) (plain : ∀ c ∈ callbacks, c.Plain)
    (fits : slot.recvBuf.used + (allBytes callbacks).length ≤ ngtcp2RecvBuf) :
    (callbacks.foldl Slot.react slot).status =
      { slot.status with readable := slot.status.readable ++ allBytes callbacks } := by
  induction callbacks generalizing slot with
  | nil => simp [allBytes]
  | cons callback rest ih =>
    have split : allBytes (callback :: rest) = callback.bytes ++ allBytes rest := by simp [allBytes]
    rw [split,length_append] at fits
    cases callback with
    | close appError => exact (plain _ mem_cons_self).elim
    | data bytes fin =>
      obtain rfl : fin = false := plain (.data bytes fin) mem_cons_self
      have here : slot.recvBuf.used + (arriving primary bytes).length ≤ ngtcp2RecvBuf := by
        rw [length_arriving]
        exact Nat.le_trans (by simp only [Callback.bytes]; omega) fits
      have stored := contents_push_fitting sound here
      have used : (slot.recvBuf.push (arriving primary bytes)).used = slot.recvBuf.used + bytes.length := by
        rw [← length_contents,stored,length_append,length_contents,length_arriving]
      have rest_fits : (slot.recvBuf.push (arriving primary bytes)).used + (allBytes rest).length ≤ ngtcp2RecvBuf := by
        simp only [Callback.bytes] at fits
        omega
      have sound_taken : (slot.take (arriving primary bytes) false).recvBuf.Sound := sound_push sound _
      rw [foldl_cons,Slot.react,ih sound_taken (fun c mem => plain c (mem_cons_of_mem _ mem)) rest_fits]
      simp [Slot.status,Slot.take,stored,split,Callback.bytes]

theorem flags_react (slot : Slot) (callback : Callback) :
    ((slot.react callback).finReceived ∨ (slot.react callback).closing) ↔
      (slot.finReceived ∨ slot.closing) ∨ ¬ callback.Plain := by
  cases callback with
  | data bytes fin =>
    simp only [Slot.react,Slot.take,Bool.or_eq_true,Callback.Plain,Bool.not_eq_false]
    tauto
  | close appError =>
    cases ended : slot.finReceived <;> cases appError <;>
      simp [Slot.react,Slot.streamClose,ended,Callback.Plain]

theorem flags_reacts (slot : Slot) (callbacks : List Callback) :
    ((callbacks.foldl Slot.react slot).finReceived ∨ (callbacks.foldl Slot.react slot).closing) ↔
      (slot.finReceived ∨ slot.closing) ∨ ∃ c ∈ callbacks, ¬ c.Plain := by
  induction callbacks generalizing slot with
  | nil => simp
  | cons callback rest ih =>
    rw [foldl_cons,ih,flags_react]
    simp only [mem_cons,exists_eq_or_imp,or_assoc]

theorem promotedAt_status (unbound : Unbound s) (k : Nat) (callbacks : List Callback) : ∃ ring : RingBuf, ring.Sound ∧
      ring.contents = ((callbacks.take k).foldl Callback.run s).recvBuf.contents ∧
      (promotedAt k callbacks s).primaryStatus =
        some ((callbacks.drop k).foldl Slot.react (Slot.holding primary ring)).status := by
  obtain ⟨i,ring,promoted,sound,moved⟩ := (unbound.runs (callbacks.take k)).1.promote
  exact ⟨ring,sound,moved,(promoted.runs (callbacks.drop k)).status⟩

theorem allBytes_take_drop (k : Nat) (callbacks : List Callback) :
    allBytes (callbacks.take k) ++ allBytes (callbacks.drop k) = allBytes callbacks := by
  rw [allBytes,allBytes,← flatMap_append,take_append_drop]
  rfl

theorem promotedAt_plain (unbound : Unbound s) (k : Nat) {callbacks}
    (fits : s.recvBuf.used + (allBytes callbacks).length ≤ ngtcp2RecvBuf) (plain : ∀ c ∈ callbacks, c.Plain) :
    (promotedAt k callbacks s).primaryStatus =
      some ⟨values s.recvBuf.contents ++ allBytes callbacks,false,false⟩ := by
  have parts := congrArg length (allBytes_take_drop k callbacks)
  rw [length_append] at parts
  obtain ⟨ring,sound,moved,status⟩ := promotedAt_status unbound k callbacks
  have before := unbound.contents_runs (callbacks.take k) (by omega)
  have used : ring.used = s.recvBuf.used + (allBytes (callbacks.take k)).length := by
    rw [← length_contents,moved,← length_values,before,length_append,length_values,length_contents]
  rw [status,status_react_plain sound _ (fun c mem => plain c (mem_of_mem_drop mem))
    (by simp only [Slot.holding]; omega)]
  simp only [Slot.status,Slot.holding,moved,before,append_assoc,allBytes_take_drop]
  rfl

/-- The promotion may come anywhere among the callbacks just when none of them brings a FIN or closes the stream. -/
theorem promotion_commutes_iff {s : State} (unbound : Unbound s) (callbacks : List Callback)
    (fits : s.recvBuf.used + (allBytes callbacks).length ≤ ngtcp2RecvBuf) :
    (∀ j k, (promotedAt j callbacks s).primaryStatus = (promotedAt k callbacks s).primaryStatus) ↔
      ∀ c ∈ callbacks, c.Plain := by
  constructor
  · intro same
    obtain ⟨ring,-,-,first⟩ := promotedAt_status unbound 0 callbacks
    obtain ⟨late,-,-,last⟩ := promotedAt_status unbound callbacks.length callbacks
    -- a promotion after everything leaves a slot that is neither ended nor reset
    have flags := same 0 callbacks.length
    rw [first,last,drop_length,drop_zero,foldl_nil] at flags
    have ended : (callbacks.foldl Slot.react (Slot.holding primary ring)).finReceived = false :=
      congrArg Status.endOfStream (Option.some.inj flags)
    have reset : (callbacks.foldl Slot.react (Slot.holding primary ring)).closing = false :=
      congrArg Status.reset (Option.some.inj flags)
    intro c mem
    by_contra sudden
    have either := (flags_reacts (Slot.holding primary ring) callbacks).mpr (Or.inr ⟨c,mem,sudden⟩)
    rw [ended,reset] at either
    simp at either
  · intro plain j k
    rw [promotedAt_plain unbound j fits plain,promotedAt_plain unbound k fits plain]

/-- Two pieces of data, before and after. -/
theorem bytes_promoted_anywhere : Unbound start ∧ (∀ c ∈ [Callback.data [1,2] false,.data [3] false], c.Plain) ∧
      ((∀ j k, (promotedAt j [.data [1,2] false,.data [3] false] start).primaryStatus =
          (promotedAt k [.data [1,2] false,.data [3] false] start).primaryStatus) ↔
        ∀ c ∈ [Callback.data [1,2] false,.data [3] false], c.Plain) :=
  ⟨unbound_start,by simp [Callback.Plain],promotion_commutes_iff unbound_start _ (by decide)⟩

/-- A FIN or an abort that comes before the promotion is not seen after it. -/
theorem promotion_loses_fin_and_close : (promotedAt 0 [.data [7] true] start).primaryStatus = some ⟨[7],true,false⟩ ∧
      (promotedAt 1 [.data [7] true] start).primaryStatus = some ⟨[7],false,false⟩ ∧
      (promotedAt 0 [.close true] start).primaryStatus = some ⟨[],false,true⟩ ∧
      (promotedAt 1 [.close true] start).primaryStatus = some ⟨[],false,false⟩ := by
  refine ⟨by decide,by decide,by decide,by decide⟩

end Pigeon.Ngtcp2
