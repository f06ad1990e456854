import Pigeon.Sequence
import Pigeon.Threads

/-!
The ngtcp2 transport under threads (`c/src/ngtcp2_transport.c`). Calls take the mutex and
count themselves in `io_users`, receives also in `readers`. In every interleaving the
connection is deleted with no call inside, a slot has at most one reader, and is not allocated
while it has one (`safe_in_every_interleaving`). A process has fewer threads than the `unsigned`
counters can count.
-/
namespace Pigeon.Ngtcp2Threads
open Runs Threads Sequence List Option

/-- One entry of `extra_streams`; of its ring only how much is in it. -/
structure Slot where
  streamId : Int
  (inUse finReceived closing writeClosed : Bool)
  (readers used : Nat)

def Slot.free : Slot := ⟨-1,false,false,false,false,0,0⟩

def Slot.fresh (sid : Int) : Slot := { Slot.free with streamId := sid, inUse := true }

def recvBufSize : Nat := 65536
def maxExtraStreams : Nat := 16

def primary : Int := 0

def findExtraSlot (slots : List Slot) (sid : Int) : Option Nat :=
  slots.findIdx? (fun slot => slot.inUse && slot.streamId == sid)

def allocExtraSlot (slots : List Slot) (sid : Int) : Option (List Slot × Nat) :=
  (slots.findIdx? (!·.inUse)).map (fun i => (slots.set i (Slot.fresh sid),i))

def Slot.push (slot : Slot) (n : Nat) (fin : Bool) : Slot :=
  { slot with used := min recvBufSize (slot.used + n), finReceived := slot.finReceived || fin }

def Slot.streamClose (slot : Slot) (appError : Bool) : Slot :=
  if appError || !slot.finReceived then { slot with closing := true, used := 0 } else { slot with writeClosed := true }

def Slot.reset (slot : Slot) : Slot := { slot with closing := true, inUse := slot.inUse && slot.readers != 0 }

/-- The end of `transport_recv_on_stream`: the last reader gives the slot back after a reset or the end. -/
def Slot.leave (slot : Slot) (failed : Bool) : Slot :=
  let readers := slot.readers - 1
  let recycled := readers == 0 &&
    (slot.closing || (failed && slot.finReceived && slot.writeClosed && slot.used == 0))
  { slot with readers := readers, inUse := slot.inUse && !recycled }

inductive Op
  | sendStream
  | recvStream
  | sendDatagram
  | recvDatagram
  | openStream
  | acceptStream
  | sendOnStream (h : Option Nat)
  | recvOnStream (h : Option Nat)
  | closeStream (h : Option Nat)
  | resetStream (h : Option Nat)
deriving DecidableEq

/-- The functions that call `wait_io`, and `read_quic` after it. -/
def Op.waits : Op → Bool
  | .recvStream | .recvDatagram | .openStream | .acceptStream | .recvOnStream _ => true
  | _ => false

/-- The functions whose outcome `finish` may say; the others are done by `act` and, if it succeeds, `opened`. -/
def Op.finishes : Op → Bool → Bool
  | .closeStream _, _ | .resetStream _, _ => false
  | .openStream, failed => failed
  | _, _ => true

/-- In no call, in one with the mutex or waiting without it, done with the raw function, or in `close`. -/
inductive Place
  | idle
  | inside (op : Op)
  | waiting (op : Op)
  | returning (op : Op) (failed : Bool)
  | closeWaiting
  | deleting
deriving DecidableEq

def Place.isInside : Place → Bool
  | .inside _ | .waiting _ | .returning _ _ => true
  | _ => false

def Place.holdsLock : Place → Bool
  | .inside _ | .returning _ _ | .deleting => true
  | _ => false

def Op.reads (op : Op) (i : Nat) : Bool := op == .recvOnStream (some i)

def Place.reads (i : Nat) : Place → Bool
  | .inside op | .waiting op | .returning op _ => op.reads i
  | _ => false

def Place.readsOn (i : Nat) : Place → Bool
  | .inside op | .waiting op => op.reads i
  | _ => false

def Place.closes : Place → Bool
  | .closeWaiting | .deleting => true
  | _ => false

structure State where
  owner : Option Nat
  closed : Bool
  ioUsers : Nat
  conn : Bool
  slots : List Slot
  primarySlotIdx : Option Nat
  threads : List Place

def start (n : Nat) : State :=
  ⟨none,false,0,true,replicate maxExtraStreams Slot.free,none,replicate n .idle⟩

def State.move (s : State) (t : Nat) (place : Place) : State := { s with threads := s.threads.set t place }

def State.slotOf (s : State) (h : Option Nat) : Option (Nat × Slot) :=
  h.bind (fun i => (s.slots[i]?).map (fun slot => (i,slot)))

def State.entered (s : State) (t : Nat) : State := { s with owner := some t, ioUsers := s.ioUsers + 1 }

/-- The head of `recv_on_stream` with a slot that has no reader; `raw_recv_on_stream` refuses one that is not in
    use. -/
def State.letIn (s : State) (t i : Nat) (slot : Slot) : State :=
  let reading := { s.entered t with slots := s.slots.set i { slot with readers := slot.readers + 1 } }
  reading.move t (if slot.inUse then .inside (.recvOnStream (some i)) else .returning (.recvOnStream (some i)) true)

/-- `io_enter`, and for `recv_on_stream` up to the first read: a handle that is `NULL` or has a reader is refused. -/
def State.enter (s : State) (t : Nat) (op : Op) : State :=
  if s.closed then s
  else
    match op with
    | .recvOnStream h =>
      match s.slotOf h with
      | none => s
      | some (i,slot) => if slot.readers ≠ 0 then s else s.letIn t i slot
    | _ => (s.entered t).move t (.inside op)

/-- `io_leave`. -/
def State.leave (s : State) (t : Nat) (op : Op) (failed : Bool) : State :=
  let left := { s with owner := none, ioUsers := s.ioUsers - 1 }.move t .idle
  match op with
  | .recvOnStream (some i) => { left with slots := s.slots.modify i (·.leave failed) }
  | _ => left

def State.act (s : State) (t : Nat) (op : Op) (wrote : Bool) : State :=
  match op with
  | .closeStream h =>
    match s.slotOf h with
    | none => s.move t (.returning op true)
    | some (i,slot) =>
      if !slot.inUse || slot.writeClosed || s.closed || slot.closing || !wrote then s.move t (.returning op true)
      else { s with slots := s.slots.set i { slot with writeClosed := true } }.move t (.returning op false)
  | .resetStream h =>
    match s.slotOf h with
    | none => s.move t (.returning op true)
    | some (i,slot) =>
      if !slot.inUse || s.closed then s.move t (.returning op true)
      else { s with slots := s.slots.set i slot.reset }.move t (.returning op false)
  | _ => s

def State.take (s : State) (t : Nat) (op : Op) (n : Nat) : State :=
  match op with
  | .recvOnStream h =>
    match s.slotOf h with
    | none => s
    | some (i,slot) =>
      if s.closed || slot.closing then s.move t (.returning op true)
      else { s with slots := s.slots.set i { slot with used := slot.used - n } }
  | _ => s

/-- The callbacks that `read_quic` leads to. -/
inductive Callback
  | data (sid : Int) (n : Nat) (fin : Bool)
  | opened (sid : Int)
  | closed (sid : Int) (appError : Bool)

/-- `recv_stream_data_cb`, `stream_open_cb` and `stream_close_cb`: the slots after it, and the slot that it
    allocated. -/
def State.callback (s : State) : Callback → List Slot × Option Nat
  | .data sid n fin =>
    if sid = primary then
      match s.primarySlotIdx with
      | some p => (s.slots.modify p (·.push n fin),none)
      | none => (s.slots,none)
    else
      match findExtraSlot s.slots sid with
      | some i => (s.slots.modify i (·.push n fin),none)
      | none =>
        match allocExtraSlot s.slots sid with
        | some (slots,i) => (slots.modify i (·.push n fin),some i)
        | none => (s.slots,none)
  | .opened sid =>
    if sid = primary then (s.slots,none)
    else
      match findExtraSlot s.slots sid with
      | some _ => (s.slots,none)
      | none =>
        match allocExtraSlot s.slots sid with
        | some (slots,i) => (slots,some i)
        | none => (s.slots,none)
  | .closed sid appError =>
    match findExtraSlot s.slots sid with
    | some i => (s.slots.modify i (·.streamClose appError),none)
    | none => (s.slots,none)

inductive Event
  | enter (t : Nat) (op : Op)
  | callback (t : Nat) (what : Callback)
  | take (t n : Nat)
  | opened (t : Nat) (sid : Int)
  | act (t : Nat) (wrote : Bool)
  | wait (t : Nat)
  | relock (t : Nat)
  | finish (t : Nat) (failed : Bool)
  | leave (t : Nat)
  | close (t : Nat)
  | wake (t : Nat)
  | delete (t : Nat)
  | primaryHandle

def step (s : State) : Event → State × Option Nat
  | .enter t op => (if s.owner = none ∧ s.threads[t]? = some .idle then s.enter t op else s,none)
  | .callback t what =>
    match s.threads[t]? with
    | some (.inside op) =>
      if op.waits then ({ s with slots := (s.callback what).1 },(s.callback what).2) else (s,none)
    | _ => (s,none)
  | .take t n =>
    match s.threads[t]? with
    | some (.inside op) => (s.take t op n,none)
    | _ => (s,none)
  | .opened t sid =>
    match s.threads[t]? with
    | some (.inside .openStream) =>
      match allocExtraSlot s.slots sid with
      | some (slots,i) => ({ s with slots := slots }.move t (.returning .openStream false),some i)
      | none => (s.move t (.returning .openStream true),none)
    | _ => (s,none)
  | .act t wrote =>
    match s.threads[t]? with
    | some (.inside op) => (s.act t op wrote,none)
    | _ => (s,none)
  | .wait t =>
    match s.threads[t]? with
    | some (.inside op) => (if op.waits then { s with owner := none }.move t (.waiting op) else s,none)
    | _ => (s,none)
  | .relock t =>
    match s.threads[t]? with
    | some (.waiting op) =>
      (if s.owner = none then
        { s with owner := some t }.move t (if s.closed then .returning op true else .inside op)
      else s,none)
    | _ => (s,none)
  | .finish t failed =>
    match s.threads[t]? with
    | some (.inside op) => (if op.finishes failed then s.move t (.returning op failed) else s,none)
    | _ => (s,none)
  | .leave t =>
    match s.threads[t]? with
    | some (.returning op failed) => (s.leave t op failed,none)
    | _ => (s,none)
  | .close t =>
    (if s.owner = none ∧ s.threads[t]? = some .idle ∧ s.closed = false then
      if s.ioUsers = 0 then { s with closed := true, owner := some t }.move t .deleting
      else { s with closed := true }.move t .closeWaiting
    else s,none)
  | .wake t =>
    (if s.owner = none ∧ s.threads[t]? = some .closeWaiting ∧ s.ioUsers = 0 then
      { s with owner := some t }.move t .deleting
    else s,none)
  | .delete t =>
    (if s.threads[t]? = some .deleting then { s with conn := false, owner := none }.move t .idle else s,none)
  | .primaryHandle =>
    if s.owner = none ∧ s.closed = false ∧ s.primarySlotIdx = none then
      match allocExtraSlot s.slots primary with
      | some (slots,i) => ({ s with slots := slots, primarySlotIdx := some i },some i)
      | none => (s,none)
    else (s,none)

/-- The mutex and the counts are as the places say, and a slot is in use while a reader reads.
    -/
structure Counts (s : State) : Prop where
  held : ∀ (t : Nat) place, s.threads[t]? = some place → place.holdsLock = true → s.owner = some t
  users : s.ioUsers = s.threads.countP Place.isInside
  readers : ∀ (i : Nat) slot, s.slots[i]? = some slot → slot.readers = s.threads.countP (Place.reads i)
  single : ∀ i, s.threads.countP (Place.reads i) ≤ 1
  inUse : ∀ (t : Nat) place (i : Nat) slot, s.threads[t]? = some place → place.readsOn i = true →
    s.slots[i]? = some slot → slot.inUse = true
  closes : ∀ (t : Nat) place, s.threads[t]? = some place → place.closes = true → s.closed = true
  deleting : ∀ t : Nat, s.threads[t]? = some .deleting → s.ioUsers = 0
  gone : s.conn = false → s.closed = true ∧ s.ioUsers = 0

theorem counts_start (n : Nat) : Counts (start n) := by
  have idle : ∀ (t : Nat) place, (start n).threads[t]? = some place → place = .idle := by
    intro t place found
    exact eq_of_mem_replicate (mem_of_getElem? found)
  have nowhere (p : Place → Bool) (not : p .idle = false) : (start n).threads.countP p = 0 := by
    rw [countP_eq_zero]
    intro place mem
    rw [eq_of_mem_replicate mem,not]
    simp
  refine ⟨?_,(nowhere _ rfl).symm,?_,?_,?_,?_,?_,?_⟩
  · intro t place found holds
    rw [idle t place found] at holds
    cases holds
  · intro i slot found
    rw [nowhere _ rfl,eq_of_mem_replicate (mem_of_getElem? found)]
    rfl
  · intro i
    rw [nowhere _ rfl]
    omega
  · intro t place i slot found reading
    rw [idle t place found] at reading
    cases reading
  · intro t place found closing
    rw [idle t place found] at closing
    cases closing
  · intro t found
    cases idle t _ found
  · intro gone
    cases gone

variable {i t : Nat} {place before after : Place} {slots : List Slot} {slot : Slot} {op : Op}

theorem Place.reads_of_readsOn (reading : place.readsOn i) : place.reads i := by
  cases place <;> first | exact reading | cases reading

variable {s : State}

theorem Counts.alone (old : Counts s) (at_t : s.threads[t]? = some before) (free : s.owner = none ∨ before.holdsLock)
    {u} (at_u : s.threads[u]? = some place) (holds : place.holdsLock) : u = t := by
  have owner := old.held u place at_u holds
  rcases free with none | own
  · rw [none] at owner
    cases owner
  · rw [old.held t before at_t own] at owner
    exact (Option.some.inj owner).symm

structure SlotsMove (slots after_slots : List Slot) (before after : Place) : Prop where
  readers : ∀ (i : Nat) slot', after_slots[i]? = some slot' → ∃ slot : Slot, slots[i]? = some slot ∧
    slot'.readers + (before.reads i).toNat = slot.readers + (after.reads i).toNat ∧
    (after.readsOn i = true → slot'.inUse = true) ∧ (slot.inUse = true → before.reads i = false → slot'.inUse = true)
  admitted : ∀ i, after.reads i = true → before.reads i = true ∨ ∃ slot : Slot, slots[i]? = some slot ∧ slot.readers = 0

theorem Counts.change (old : Counts s) {s'} (at_t : s.threads[t]? = some before)
    (threads : s'.threads = s.threads.set t after) (free : s.owner = none ∨ before.holdsLock)
    (lock : after.holdsLock → s'.owner = some t)
    (count : s'.ioUsers + before.isInside.toNat = s.ioUsers + after.isInside.toNat)
    (slots : SlotsMove s.slots s'.slots before after) (closed : s.closed → s'.closed)
    (gone : s'.conn = false → s'.closed ∧ s'.ioUsers = 0) (shut : s.closed → s'.ioUsers ≤ s.ioUsers)
    (closes : after.closes → s'.closed) (deleting : after = .deleting → s'.ioUsers = 0) : Counts s' := by
  have counted (p : Place → Bool) := countP_move (p := p) at_t after
  refine ⟨?_,?_,?_,?_,?_,?_,?_,gone⟩
  · intro u place found holds
    rw [threads] at found
    rcases getElem?_set_cases found with ⟨rfl,rfl⟩ | ⟨other,was⟩
    · exact lock holds
    · exact absurd (old.alone at_t free was holds) other
  · have now := counted Place.isInside
    have users := old.users
    rw [threads]
    omega
  · intro i slot' found
    obtain ⟨slot,was,balance,-⟩ := slots.readers i slot' found
    have now := counted (Place.reads i)
    have readers := old.readers i slot was
    rw [threads]
    omega
  · intro i
    have now := counted (Place.reads i)
    have single := old.single i
    rw [threads]
    cases reading : after.reads i with
    | false =>
      rw [reading,Bool.toNat_false] at now
      omega
    | true =>
      rcases slots.admitted i reading with already | ⟨slot,was,none⟩
      · rw [reading,already] at now
        omega
      · have readers := old.readers i slot was
        rw [reading,Bool.toNat_true] at now
        omega
  · intro u place i slot' found reading at_i
    obtain ⟨slot,was,-,self,others⟩ := slots.readers i slot' at_i
    rw [threads] at found
    rcases getElem?_set_cases found with ⟨rfl,rfl⟩ | ⟨other,there⟩
    · exact self reading
    · refine others (old.inUse u place i slot there reading was) ?_
      by_contra also
      exact other (eq_of_countP_le_one (old.single i) there at_t (Place.reads_of_readsOn reading) (by simpa using also))
  · intro u place found closing
    rw [threads] at found
    rcases getElem?_set_cases found with ⟨-,rfl⟩ | ⟨-,there⟩
    · exact closes closing
    · exact closed (old.closes u place there closing)
  · intro u found
    rw [threads] at found
    rcases getElem?_set_cases found with ⟨-,same⟩ | ⟨-,there⟩
    · exact deleting same.symm
    · have none := old.deleting u there
      have less := shut (old.closes u _ there rfl)
      omega

theorem slotsMove_same (reads : ∀ i, after.reads i = before.reads i)
    (used : ∀ (i : Nat) slot, slots[i]? = some slot → after.readsOn i → slot.inUse) :
    SlotsMove slots slots before after := by
  refine ⟨?_,fun i reading => Or.inl (by rw [← reads i,reading])⟩
  intro i slot found
  exact ⟨slot,found,by rw [reads],used i slot found,fun inUse _ => inUse⟩

def Kept (slots after_slots : List Slot) : Prop :=
  ∀ (i : Nat) slot', after_slots[i]? = some slot' → ∃ slot : Slot, slots[i]? = some slot ∧
    slot'.readers = slot.readers ∧ (slot.inUse = true → slot.readers ≠ 0 → slot'.inUse = true)

theorem kept_refl (slots : List Slot) : Kept slots slots := fun _ slot found => ⟨slot,found,rfl,fun inUse _ => inUse⟩

theorem kept_set {after} (at_i : slots[i]? = some slot) (readers : after.readers = slot.readers)
    (used : slot.inUse → slot.readers ≠ 0 → after.inUse) : Kept slots (slots.set i after) := by
  intro j slot' found
  rcases getElem?_set_cases found with ⟨rfl,rfl⟩ | ⟨-,was⟩
  · exact ⟨slot,at_i,readers,used⟩
  · exact ⟨slot',was,rfl,fun inUse _ => inUse⟩

theorem kept_modify (slots : List Slot) (i : Nat) {f} (readers : ∀ slot, (f slot).readers = slot.readers)
    (used : ∀ slot, (f slot).inUse = slot.inUse) : Kept slots (slots.modify i f) := by
  intro j slot' found
  rw [getElem?_modify] at found
  obtain ⟨slot,was,rfl⟩ := map_eq_some_iff.mp found
  refine ⟨slot,was,?_,?_⟩
  · split
    · exact readers slot
    · rfl
  · intro inUse _
    split
    · exact (used slot).trans inUse
    · exact inUse

theorem Counts.kept (old : Counts s) (kept : Kept s.slots slots) (idx : Option Nat) :
    Counts { s with slots := slots, primarySlotIdx := idx } := by
  refine { old with readers := ?_, inUse := ?_ }
  · intro i slot' found
    obtain ⟨slot,was,readers,-⟩ := kept i slot' found
    rw [readers]
    exact old.readers i slot was
  · intro t place i slot' there reading found
    obtain ⟨slot,was,-,used⟩ := kept i slot' found
    refine used (old.inUse t place i slot there reading was) ?_
    rw [old.readers i slot was]
    exact Nat.pos_iff_ne_zero.mp (countP_pos_iff.mpr ⟨place,mem_of_getElem? there,Place.reads_of_readsOn reading⟩)

theorem Kept.trans {first second third} (one : Kept first second) (two : Kept second third) : Kept first third := by
  intro i slot' found
  obtain ⟨middle,between,readers,used⟩ := two i slot' found
  obtain ⟨slot,was,readers',used'⟩ := one i middle between
  exact ⟨slot,was,readers.trans readers',fun inUse some => used (used' inUse some) (by rwa [readers'])⟩

def Still (s : State) : Prop := ∀ (t : Nat) op failed, s.threads[t]? ≠ some (.returning op failed)

theorem Counts.still_of_free (old : Counts s) (free : s.owner = none) : Still s := by
  intro t op failed there
  have owner := old.held t _ there rfl
  rw [free] at owner
  cases owner

theorem Counts.still_of_inside (old : Counts s) (at_t : s.threads[t]? = some (.inside op)) : Still s := by
  intro u op' failed there
  obtain rfl := old.alone at_t (Or.inr rfl) there rfl
  rw [at_t] at there
  cases there

theorem Counts.nobody (old : Counts s) (still : Still s) (at_i : s.slots[i]? = some slot)
    (unused : slot.inUse = false) (at_t : s.threads[t]? = some place) : place.reads i = false := by
  by_contra reading
  rw [Bool.not_eq_false] at reading
  have reader : place.readsOn i = true := by
    cases place with
    | returning op failed => exact absurd at_t (still t op failed)
    | inside | waiting => exact reading
    | idle | closeWaiting | deleting => cases reading
  rw [old.inUse t place i slot at_t reader at_i] at unused
  cases unused

variable {sid : Int}

theorem allocExtraSlot_some {after} (made : allocExtraSlot slots sid = some (after,i)) :
    ∃ slot, slots[i]? = some slot ∧ slot.inUse = false ∧ after = slots.set i (Slot.fresh sid) := by
  obtain ⟨j,found,same⟩ := map_eq_some_iff.mp made
  obtain ⟨rfl,rfl⟩ := Prod.mk.inj same
  obtain ⟨inside,meets,-⟩ := findIdx?_eq_some_iff_getElem.mp found
  exact ⟨slots[j],getElem?_eq_getElem inside,by simpa using meets,rfl⟩

theorem Counts.alloc (old : Counts s) (still : Still s) (made : allocExtraSlot s.slots sid = some (slots,i)) :
    Kept s.slots slots ∧ ∀ (t : Nat) place, s.threads[t]? = some place → place.reads i = false := by
  obtain ⟨slot,at_i,unused,rfl⟩ := allocExtraSlot_some made
  have none : ∀ (t : Nat) place, s.threads[t]? = some place → place.reads i = false :=
    fun _ _ there => old.nobody still at_i unused there
  refine ⟨kept_set at_i ?_ (by simp [unused]),none⟩
  rw [old.readers i slot at_i]
  refine (countP_eq_zero.mpr ?_).symm
  intro place mem
  obtain ⟨t,there⟩ := getElem?_of_mem mem
  simp [none t place there]

theorem streamClose_keeps (slot : Slot) (appError : Bool) :
    (slot.streamClose appError).readers = slot.readers ∧ (slot.streamClose appError).inUse = slot.inUse := by
  unfold Slot.streamClose
  split <;> exact ⟨rfl,rfl⟩

def Quiet (s : State) (result : List Slot × Option Nat) : Prop :=
  Kept s.slots result.1 ∧ ∀ i, result.2 = some i →
    ∀ (t : Nat) place, s.threads[t]? = some place → place.reads i = false

theorem quiet_of_kept (kept : Kept s.slots slots) : Quiet s (slots,none) := ⟨kept,by simp⟩

theorem Counts.quiet_alloc (old : Counts s) (still : Still s) {after}
    (made : allocExtraSlot s.slots sid = some (slots,i)) (kept : Kept slots after) : Quiet s (after,some i) := by
  obtain ⟨allocated,none⟩ := old.alloc still made
  refine ⟨allocated.trans kept,?_⟩
  rintro j same
  cases same
  exact none

theorem Counts.callback (old : Counts s) (still : Still s) (what : Callback) : Quiet s (s.callback what) := by
  have pushed (slots : List Slot) (i n : Nat) (fin : Bool) : Kept slots (slots.modify i (·.push n fin)) :=
    kept_modify slots i (fun _ => rfl) (fun _ => rfl)
  cases what with
  | data sid n fin =>
    simp only [State.callback]
    split
    · split
      · exact quiet_of_kept (pushed _ _ _ _)
      · exact quiet_of_kept (kept_refl _)
    · split
      · exact quiet_of_kept (pushed _ _ _ _)
      · split
        next slots i made => exact old.quiet_alloc still made (pushed _ _ _ _)
        next => exact quiet_of_kept (kept_refl _)
  | opened sid =>
    simp only [State.callback]
    split
    · exact quiet_of_kept (kept_refl _)
    · split
      · exact quiet_of_kept (kept_refl _)
      · split
        next slots i made => exact old.quiet_alloc still made (kept_refl _)
        next => exact quiet_of_kept (kept_refl _)
  | closed sid appError =>
    simp only [State.callback]
    split
    · exact quiet_of_kept (kept_modify _ _ (fun slot => (streamClose_keeps slot appError).1)
        (fun slot => (streamClose_keeps slot appError).2))
    · exact quiet_of_kept (kept_refl _)

variable {owner : Option Nat}

theorem Counts.move (old : Counts s) (at_t : s.threads[t]? = some before) (free : s.owner = none ∨ before.holdsLock)
    (lock : after.holdsLock → owner = some t) (inside : after.isInside = before.isInside)
    (reads : ∀ i, after.reads i = before.reads i) (readsOn : ∀ i, after.readsOn i → before.readsOn i)
    (closes : after.closes → s.closed) (deleting : after = .deleting → s.ioUsers = 0) :
    Counts ({ s with owner := owner }.move t after) :=
  old.change at_t rfl free lock (by rw [inside]; rfl)
    (slotsMove_same reads (fun i slot found reading => old.inUse t before i slot at_t (readsOn i reading) found))
    id old.gone (fun _ => Nat.le_refl _) closes deleting

theorem Counts.returns (old : Counts s) (at_t : s.threads[t]? = some (.inside op)) (failed : Bool) :
    Counts (s.move t (.returning op failed)) := by
  have moved : Counts ({ s with owner := s.owner }.move t (.returning op failed)) :=
    old.move at_t (Or.inr rfl) (fun _ => old.held t _ at_t rfl) rfl (fun _ => rfl) (fun _ reading => by cases reading)
      nofun nofun
  exact moved

theorem slotOf_some {h} (found : s.slotOf h = some (i,slot)) : h = some i ∧ s.slots[i]? = some slot := by
  obtain ⟨j,rfl,there⟩ := bind_eq_some_iff.mp found
  obtain ⟨other,at_j,same⟩ := map_eq_some_iff.mp there
  cases same
  exact ⟨rfl,at_j⟩

section
variable (old : Counts s)
include old

theorem Counts.conn_of_alive (alive : s.closed = false) : s.conn ≠ false := by
  intro gone
  have shut := (old.gone gone).1
  rw [alive] at shut
  cases shut

section
variable (free : s.owner = none) (at_t : s.threads[t]? = some .idle)
include free at_t

theorem Counts.enters (alive : s.closed = false) (other : ∀ i, op.reads i = false) :
    Counts ((s.entered t).move t (.inside op)) := by
  refine old.change at_t rfl (Or.inl free) (fun _ => rfl) rfl ?_ id (fun gone => absurd gone (old.conn_of_alive alive))
    ?_ nofun nofun
  · refine slotsMove_same other (fun i _ _ reading => ?_)
    rw [Place.readsOn,other i] at reading
    cases reading
  · intro shut
    rw [alive] at shut
    cases shut

theorem Counts.letIn (alive : s.closed = false) (at_i : s.slots[i]? = some slot) (none : slot.readers = 0) :
    Counts (s.letIn t i slot) := by
  unfold State.letIn
  generalize place : (if slot.inUse then Place.inside (.recvOnStream (some i))
    else .returning (.recvOnStream (some i)) true) = after
  have reads (j : Nat) : after.reads j = decide (j = i) := by
    rw [← place]
    split <;> by_cases same : j = i <;> simp [Place.reads,Op.reads,same] <;> omega
  have inside : after.isInside = true ∧ after.closes = false ∧ after ≠ .deleting := by
    rw [← place]
    split <;> exact ⟨rfl,rfl,by simp⟩
  have used (reading : after.readsOn i = true) : slot.inUse = true := by
    rw [← place] at reading
    split at reading
    next inUse => exact inUse
    next => cases reading
  refine old.change at_t rfl (Or.inl free) (fun _ => rfl) ?_ ⟨?_,?_⟩ id
    (fun gone => absurd gone (old.conn_of_alive alive)) ?_ ?_ ?_
  · rw [inside.1]
    rfl
  · intro j slot' found
    rcases getElem?_set_cases found with ⟨rfl,rfl⟩ | ⟨other,was⟩
    · refine ⟨slot,at_i,?_,used,fun inUse _ => inUse⟩
      rw [reads]
      simp [Place.reads]
    · refine ⟨slot',was,?_,?_,fun inUse _ => inUse⟩
      · rw [reads]
        simp [Place.reads,other]
      · intro reading
        have also := Place.reads_of_readsOn reading
        rw [reads] at also
        simp [other] at also
  · intro j reading
    rw [reads] at reading
    obtain rfl : j = i := by simpa using reading
    exact Or.inr ⟨slot,at_i,none⟩
  · intro shut
    rw [alive] at shut
    cases shut
  · rw [inside.2.1]
    intro closes
    cases closes
  · intro same
    exact absurd same inside.2.2

theorem Counts.enter (op : Op) : Counts (s.enter t op) := by
  unfold State.enter
  split
  next => exact old
  next alive =>
    have alive : s.closed = false := by simpa using alive
    cases op with
    | recvOnStream h =>
      simp only
      split
      next => exact old
      next i slot behind =>
        obtain ⟨-,at_i⟩ := slotOf_some behind
        split
        next => exact old
        next idle => exact old.letIn free at_t alive at_i (by simpa using idle)
    | sendStream | recvStream | sendDatagram | recvDatagram | openStream | acceptStream | sendOnStream | closeStream
    | resetStream => exact old.enters free at_t alive (fun _ => rfl)

end

theorem Counts.some_reader (at_t : s.threads[t]? = some place) (reading : place.reads i)
    (at_i : s.slots[i]? = some slot) : 0 < slot.readers := by
  rw [old.readers i slot at_i]
  exact countP_pos_iff.mpr ⟨place,mem_of_getElem? at_t,reading⟩

variable {failed : Bool}

theorem Counts.leaves (at_t : s.threads[t]? = some (.returning op failed))
    (moved : SlotsMove s.slots slots (.returning op failed) .idle) :
    Counts ({ s with owner := none, ioUsers := s.ioUsers - 1, slots := slots }.move t .idle) := by
  have some_user : 0 < s.ioUsers := by
    rw [old.users]
    exact countP_pos_iff.mpr ⟨_,mem_of_getElem? at_t,rfl⟩
  refine old.change at_t rfl (Or.inr rfl) nofun ?_ moved id ?_ (fun _ => Nat.sub_le _ _) nofun nofun
  · show s.ioUsers - 1 + 1 = s.ioUsers + 0
    omega
  · intro gone
    obtain ⟨shut,none⟩ := old.gone gone
    omega

theorem Counts.slotsMove_leave (at_t : s.threads[t]? = some (.returning (.recvOnStream (some i)) failed)) :
    SlotsMove s.slots (s.slots.modify i (·.leave failed)) (.returning (.recvOnStream (some i)) failed) .idle := by
  refine ⟨?_,fun _ reading => by cases reading⟩
  intro j slot' found
  rw [getElem?_modify] at found
  obtain ⟨slot,was,rfl⟩ := map_eq_some_iff.mp found
  have quiet : Place.idle.readsOn j = false := rfl
  by_cases same : i = j
  · subst same
    have reads : (Place.returning (.recvOnStream (some i)) failed).reads i = true := by simp [Place.reads,Op.reads]
    have counted := old.some_reader at_t reads was
    rw [if_pos rfl,reads,quiet]
    refine ⟨slot,was,?_,by simp,by simp⟩
    show slot.readers - 1 + 1 = slot.readers + 0
    omega
  · have reads : (Place.returning (.recvOnStream (some i)) failed).reads j = false := by
      simp [Place.reads,Op.reads,same]
    rw [if_neg same,reads,quiet]
    exact ⟨slot,was,rfl,by simp,fun inUse _ => inUse⟩

theorem Counts.leave (at_t : s.threads[t]? = some (.returning op failed)) : Counts (s.leave t op failed) := by
  by_cases reader : ∃ i, op = .recvOnStream (some i)
  · obtain ⟨i,rfl⟩ := reader
    exact old.leaves at_t (old.slotsMove_leave at_t)
  · have reads (i : Nat) : op.reads i = false := by
      simp only [Op.reads,beq_eq_false_iff_ne,ne_eq]
      exact fun same => reader ⟨i,same⟩
    have left := old.leaves at_t (slotsMove_same (fun i => (reads i).symm) (fun _ _ _ reading => by cases reading))
    unfold State.leave
    split
    next i => exact absurd ⟨i,rfl⟩ reader
    next => exact left

section
variable (at_t : s.threads[t]? = some (.inside op))
include at_t

theorem Counts.kept_returns (kept : Kept s.slots slots) (failed : Bool) :
    Counts ({ s with slots := slots }.move t (.returning op failed)) :=
  (old.kept kept s.primarySlotIdx).returns at_t failed

theorem Counts.act (wrote : Bool) : Counts (s.act t op wrote) := by
  unfold State.act
  split
  next h =>
    split
    next => exact old.returns at_t true
    next i slot behind =>
      obtain ⟨-,at_i⟩ := slotOf_some behind
      split
      · exact old.returns at_t true
      · have kept : Kept s.slots (s.slots.set i { slot with writeClosed := true }) :=
          kept_set at_i rfl (fun inUse _ => inUse)
        exact old.kept_returns at_t kept false
  next h =>
    split
    next => exact old.returns at_t true
    next i slot behind =>
      obtain ⟨-,at_i⟩ := slotOf_some behind
      split
      · exact old.returns at_t true
      · have kept : Kept s.slots (s.slots.set i slot.reset) :=
          kept_set at_i rfl (fun inUse readers => by simp [Slot.reset,inUse,readers])
        exact old.kept_returns at_t kept false
  next => exact old

theorem Counts.take (n : Nat) : Counts (s.take t op n) := by
  unfold State.take
  split
  next h =>
    split
    next => exact old
    next i slot behind =>
      obtain ⟨-,at_i⟩ := slotOf_some behind
      split
      · exact old.returns at_t true
      · have kept : Kept s.slots (s.slots.set i { slot with used := slot.used - n }) :=
          kept_set at_i rfl (fun inUse _ => inUse)
        exact old.kept kept s.primarySlotIdx
  next => exact old

end

theorem Counts.relock (at_t : s.threads[t]? = some (.waiting op)) (free : s.owner = none) :
    Counts ({ s with owner := some t }.move t (if s.closed then .returning op true else .inside op)) := by
  split
  · exact old.move at_t (Or.inl free) (fun _ => rfl) rfl (fun _ => rfl) (fun _ reading => by cases reading)
      nofun nofun
  · exact old.move at_t (Or.inl free) (fun _ => rfl) rfl (fun _ => rfl) (fun _ reading => reading) nofun nofun

theorem Counts.closed : Counts { s with closed := true } :=
  { old with closes := fun _ _ _ _ => rfl, gone := fun gone => ⟨rfl,(old.gone gone).2⟩ }

theorem Counts.closing (at_t : s.threads[t]? = some before) (free : s.owner = none)
    (outside : before.isInside = false ∧ after.isInside = false) (lock : after.holdsLock → owner = some t)
    (shut : s.closed) (deleting : after = .deleting → s.ioUsers = 0) :
    Counts ({ s with owner := owner }.move t after) := by
  have silent {place : Place} (out : place.isInside = false) (i : Nat) : place.reads i = false := by
    cases place <;> first | rfl | cases out
  refine old.move at_t (Or.inl free) lock (outside.2.trans outside.1.symm) ?_ ?_ (fun _ => shut) deleting
  · intro i
    rw [silent outside.1,silent outside.2]
  · intro i reading
    have also := Place.reads_of_readsOn reading
    rw [silent outside.2] at also
    cases also

theorem Counts.delete (at_t : s.threads[t]? = some .deleting) :
    Counts ({ s with conn := false, owner := none }.move t .idle) :=
  old.change at_t rfl (Or.inr rfl) nofun rfl
    (slotsMove_same (fun _ => rfl) (fun _ _ _ reading => by cases reading)) id
    (fun _ => ⟨old.closes t _ at_t rfl,old.deleting t at_t⟩) (fun _ => Nat.le_refl _) nofun
    nofun

theorem Counts.step (e : Event) : Counts (step s e).1 := by
  cases e with
  | enter t op => exact of_guard old (fun may => old.enter may.1 may.2 op)
  | callback t what =>
    simp only [Ngtcp2Threads.step]
    split
    next op at_t =>
      split
      · exact old.kept (old.callback (old.still_of_inside at_t) what).1 s.primarySlotIdx
      · exact old
    next => exact old
  | take t n =>
    simp only [Ngtcp2Threads.step]
    split
    next op at_t => exact old.take at_t n
    next => exact old
  | opened t sid =>
    simp only [Ngtcp2Threads.step]
    split
    next at_t =>
      split
      next slots i made => exact old.kept_returns at_t (old.alloc (old.still_of_inside at_t) made).1 false
      next => exact old.returns at_t true
    next => exact old
  | act t wrote =>
    simp only [Ngtcp2Threads.step]
    split
    next op at_t => exact old.act at_t wrote
    next => exact old
  | wait t =>
    simp only [Ngtcp2Threads.step]
    split
    next op at_t =>
      refine of_guard old (fun _ => ?_)
      exact old.move at_t (Or.inr rfl) nofun rfl (fun _ => rfl) (fun _ reading => reading) nofun nofun
    next => exact old
  | relock t =>
    simp only [Ngtcp2Threads.step]
    split
    next op at_t => exact of_guard old (fun free => old.relock at_t free)
    next => exact old
  | finish t failed =>
    simp only [Ngtcp2Threads.step]
    split
    next op at_t => exact of_guard old (fun _ => old.returns at_t failed)
    next => exact old
  | leave t =>
    simp only [Ngtcp2Threads.step]
    split
    next op failed at_t => exact old.leave at_t
    next => exact old
  | close t =>
    refine of_guard old ?_
    rintro ⟨free,at_t,-⟩
    split
    next none => exact old.closed.closing at_t free ⟨rfl,rfl⟩ (fun _ => rfl) rfl (fun _ => none)
    next => exact old.closed.closing at_t free ⟨rfl,rfl⟩ nofun rfl nofun
  | wake t =>
    refine of_guard old ?_
    rintro ⟨free,at_t,none⟩
    exact old.closing at_t free ⟨rfl,rfl⟩ (fun _ => rfl) (old.closes t _ at_t rfl) (fun _ => none)
  | delete t => exact of_guard old (fun at_t => old.delete at_t)
  | primaryHandle =>
    simp only [Ngtcp2Threads.step]
    split
    next may =>
      split
      next slots i made => exact old.kept (old.alloc (old.still_of_free may.1) made).1 (some i)
      next => exact old
    next => exact old

end

/-- No call is inside a deleted connection, a slot has at most one reader, and none is allocated with a reader. -/
structure Safe (s : State) : Prop where
  deleted : s.conn = false → ∀ (t : Nat) place, s.threads[t]? = some place → place.isInside = false
  refused : s.conn = false → ∀ t op, (step s (.enter t op)).1 = s
  oneReader : ∀ (t u : Nat) place place' (i : Nat), s.threads[t]? = some place →
    s.threads[u]? = some place' → place.reads i = true → place'.reads i = true → t = u
  allocates : ∀ e i, (step s e).2 = some i → ∀ (t : Nat) place, s.threads[t]? = some place →
    place.reads i = false

theorem Counts.allocates (old : Counts s) {e} (allocated : (Ngtcp2Threads.step s e).2 = some i) (t : Nat)
    (place : Place) (there : s.threads[t]? = some place) : place.reads i = false := by
  cases e with
  | callback u what =>
    simp only [Ngtcp2Threads.step] at allocated
    split at allocated
    next op at_u =>
      split at allocated
      · exact (old.callback (old.still_of_inside at_u) what).2 i allocated t place there
      · cases allocated
    next => cases allocated
  | opened u sid =>
    simp only [Ngtcp2Threads.step] at allocated
    split at allocated
    next at_u =>
      split at allocated
      next slots j made =>
        cases allocated
        exact (old.alloc (old.still_of_inside at_u) made).2 t place there
      next => cases allocated
    next => cases allocated
  | primaryHandle =>
    simp only [Ngtcp2Threads.step] at allocated
    split at allocated
    next may =>
      split at allocated
      next slots j made =>
        cases allocated
        exact (old.alloc (old.still_of_free may.1) made).2 t place there
      next => cases allocated
    next => cases allocated
  | take u n | act u wrote | wait u | relock u | finish u failed | leave u =>
    simp only [Ngtcp2Threads.step] at allocated
    split at allocated <;> cases allocated
  | enter u op | close u | wake u | delete u => cases allocated

theorem Counts.safe (old : Counts s) : Safe s := by
  refine ⟨?_,?_,?_,fun _ _ allocated => old.allocates allocated⟩
  · intro gone t place there
    have none := (old.gone gone).2
    rw [old.users] at none
    exact eq_false_of_countP_eq_zero none there
  · intro gone t op
    have shut := (old.gone gone).1
    simp [Ngtcp2Threads.step,State.enter,shut]
  · intro t u place place' i at_t at_u first second
    exact eq_of_countP_le_one (old.single i) at_t at_u first second

/-- However many threads there are and however their steps interleave. -/
theorem safe_in_every_interleaving (n : Nat) (events : List Event) : Safe (final step (start n) events) :=
  (final_kept (I := Counts) (fun _ e counts => Counts.step counts e) (counts_start n) events).safe

-- a reader that waits when `close` comes is let out before the connection goes
example : (final step (start 2) [.enter 0 .recvStream,.wait 0,.close 1,.wake 1,.relock 0,.leave 0,.wake 1,.delete 1]).conn =
    false := by decide

end Pigeon.Ngtcp2Threads
