import Pigeon.Ngtcp2Queues
import Pigeon.Ngtcp2Threads
import Pigeon.SlotTables

/-!
The slots of the ngtcp2 transport stand in three models: with their bytes (`Ngtcp2`), with the
queues (`Ngtcp2Queues`) and under threads (`Ngtcp2Threads`). Seen through the streams that they
are in use for, they are one table: whatever streams are looked up, get a slot and lose it
again, the three give the same answers (`slots_alike`).
-/
namespace Pigeon.Ngtcp2Slots
open Runs SlotTables List Function
open Ngtcp2 (StreamId ngtcp2MaxExtraStreams)

def entry (inUse : Bool) (sid : StreamId) : Option StreamId := if inUse then some sid else none

@[simp] theorem entry_true (sid : StreamId) : entry true sid = some sid := rfl

@[simp] theorem entry_eq_some (inUse : Bool) (sid name : StreamId) :
    decide (entry inUse sid = some name) = (inUse && sid == name) := by
  cases inUse with
  | false => rfl
  | true =>
    simp only [entry_true,Option.some.injEq,Bool.true_and]
    rfl

@[simp] theorem isNone_entry (inUse : Bool) (sid : StreamId) : (entry inUse sid).isNone = !inUse := by
  cases inUse <;> rfl

theorem map_modify {A : Type} {f : A → A} {g : A → Option StreamId} (freed : ∀ a, g (f a) = none) (slots : List A)
    (i : Nat) : (slots.modify i f).map g = (slots.map g).set i none := by
  induction slots generalizing i with
  | nil => simp
  | cons a rest ih => cases i <;> simp [freed,ih]

def bytesTable : SlotTable Ngtcp2.State StreamId where
  entries s := s.extraStreams.map fun slot => entry slot.inUse slot.streamId
  find s := Ngtcp2.findExtraSlot s.extraStreams
  take := Ngtcp2.State.allocExtraSlot
  give := Ngtcp2.State.release
  find_eq s name := by simp [Ngtcp2.findExtraSlot,findIdx?_map,comp_def]
  take_eq s name := by
    simp [Ngtcp2.State.allocExtraSlot,Ngtcp2.freeSlot,Ngtcp2.State.setSlot,findIdx?_map,comp_def,map_set,
      Ngtcp2.Slot.fresh]
  give_eq s i := map_modify (fun _ => rfl) s.extraStreams i

/-- A slot is given back by a reset that finds no reader in it. -/
def threadsTable : SlotTable (List Ngtcp2Threads.Slot) StreamId where
  entries slots := slots.map fun slot => entry slot.inUse slot.streamId
  find := Ngtcp2Threads.findExtraSlot
  take := Ngtcp2Threads.allocExtraSlot
  give slots i := slots.modify i fun slot => { slot with readers := 0 }.reset
  find_eq slots name := by simp [Ngtcp2Threads.findExtraSlot,findIdx?_map,comp_def]
  take_eq slots name := by
    simp [Ngtcp2Threads.allocExtraSlot,findIdx?_map,comp_def,map_set,Ngtcp2Threads.Slot.fresh]
  give_eq slots i := map_modify (fun slot => by simp [Ngtcp2Threads.Slot.reset,entry]) slots i

theorem findIdx?_range (n : Nat) (p : Nat → Bool) : (range n).findIdx? p = (range n).find? p := by
  ext i
  rw [findIdx?_eq_some_iff_getElem,find?_range_eq_some]
  simp

theorem map_range_update (n i : Nat) (slots : Nat → Ngtcp2Queues.Slot) (slot : Ngtcp2Queues.Slot)
    (g : Ngtcp2Queues.Slot → Option StreamId) :
    (range n).map (fun j => g (update slots i slot j)) = ((range n).map fun j => g (slots j)).set i (g slot) := by
  apply ext_getElem (by simp)
  intro j _ _
  by_cases here : i = j
  · simp [here]
  · simp [here,update_of_ne (Ne.symm here)]

def queuesTable : SlotTable Ngtcp2Queues.State StreamId where
  entries s := (range ngtcp2MaxExtraStreams).map fun i => entry (s.slots i).inUse (s.slots i).streamId
  find := Ngtcp2Queues.State.findExtraSlot
  take s sid := s.freeSlot.map fun i => (s.alloc i sid true,i)
  give := Ngtcp2Queues.State.release
  find_eq s name := by
    simp only [findIdx?_map,comp_def,findIdx?_range,entry_eq_some]
    rfl
  take_eq s name := by
    simp only [Ngtcp2Queues.State.freeSlot,findIdx?_map,comp_def,findIdx?_range,isNone_entry,Option.map_map]
    refine congrArg (Option.map · _) (funext fun i => Prod.ext ?_ rfl)
    exact map_range_update _ i s.slots _ fun slot => entry slot.inUse slot.streamId
  give_eq s i := map_range_update _ i s.slots _ fun slot => entry slot.inUse slot.streamId

/-- From a fresh connection on, the three tables answer alike. -/
theorem slots_alike (n : Nat) (requests : List (Request StreamId)) :
    answers threadsTable.step (Ngtcp2Threads.start n).slots requests = answers bytesTable.step Ngtcp2.start requests ∧
    answers queuesTable.step Ngtcp2Queues.start requests = answers bytesTable.step Ngtcp2.start requests :=
  ⟨answers_alike threadsTable bytesTable rfl requests,answers_alike queuesTable bytesTable rfl requests⟩

end Pigeon.Ngtcp2Slots
