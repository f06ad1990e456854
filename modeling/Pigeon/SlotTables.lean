import Pigeon.Runs

/-!
Tables of slots that are taken for a name, the first free one first, and given back. A
`SlotTable` is one way to keep such a table, seen through its entries. Two with the same
entries answer every sequence of requests alike (`answers_alike`).
-/
namespace Pigeon.SlotTables
open Runs

inductive Request (N : Type)
  | find (name : N)
  | take (name : N)
  | give (i : Nat)

structure SlotTable (S N : Type) [DecidableEq N] where
  entries : S → List (Option N)
  find : S → N → Option Nat
  take : S → N → Option (S × Nat)
  give : S → Nat → S
  find_eq : ∀ s name, find s name = (entries s).findIdx? (· = some name)
  take_eq : ∀ s name, (take s name).map (fun taken => (entries taken.1,taken.2)) =
    ((entries s).findIdx? Option.isNone).map (fun i => ((entries s).set i (some name),i))
  give_eq : ∀ s i, entries (give s i) = (entries s).set i none

variable {S S' N : Type} [DecidableEq N]

def SlotTable.step (T : SlotTable S N) (s : S) : Request N → S × Option Nat
  | .find name => (s,T.find s name)
  | .take name =>
    match T.take s name with
    | none => (s,none)
    | some (t,i) => (t,some i)
  | .give i => (T.give s i,none)

variable (T : SlotTable S N) (U : SlotTable S' N) {s : S} {t : S'} (same : T.entries s = U.entries t)
include same

theorem step_alike (request : Request N) :
    (T.step s request).2 = (U.step t request).2 ∧ T.entries (T.step s request).1 = U.entries (U.step t request).1 := by
  cases request with
  | find name => exact ⟨by simp only [SlotTable.step,T.find_eq,U.find_eq,same],same⟩
  | take name =>
    have both := T.take_eq s name
    rw [same,← U.take_eq t name] at both
    simp only [SlotTable.step]
    cases one : T.take s name <;> cases two : U.take t name <;> simp_all
  | give i => exact ⟨rfl,by simp only [SlotTable.step,T.give_eq,U.give_eq,same]⟩

theorem answers_alike (requests : List (Request N)) : answers T.step s requests = answers U.step t requests := by
  have all : Along T.step (fun _ _ => True) s requests := along_of_forall fun _ _ => trivial
  exact (answers_simulated (R := fun s t => T.entries s = U.entries t)
    (fun _ _ request same _ => step_alike T U same request) same all).1

end Pigeon.SlotTables
