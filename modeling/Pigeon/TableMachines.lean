import Mathlib.Data.List.Basic

/-!
Machines given by a table of transitions. A row leads from a state to another on an
input, when its guard holds and its action succeeds; it sets variables and emits
commands. `handle` takes the first row that fits, and the commands emitted so far are
the `history`. What a step can do is said once (`handle_cases`).
-/
namespace Pigeon.TableMachines

structure Row (S I G A U C : Type) where
  (origin target : S)
  input : I
  guard : Option G
  action : Option A
  updates : U
  emits : List C

structure Table (S I G A U C V X : Type) where
  rows : List (Row S I G A U C)
  input : X → I
  holds : V → X → G → Bool
  succeeds : X → A → Bool
  update : U → V → V

structure Status (S V C : Type) where
  state : S
  vars : V
  history : List C

section
variable {S I G A U C V X : Type}

namespace Row

def guarded (r : Row S I G A U C) (g : G) : Row S I G A U C := { r with guard := some g }

def doing (r : Row S I G A U C) (a : A) : Row S I G A U C := { r with action := some a }

def setting (r : Row S I G A U C) (u : U) : Row S I G A U C := { r with updates := u }

def emitting (r : Row S I G A U C) (commands : List C) : Row S I G A U C := { r with emits := commands }

end Row

variable [DecidableEq S] [DecidableEq I]

def Table.fits (t : Table S I G A U C V X) (q : Status S V C) (x : X) (r : Row S I G A U C) : Bool :=
  r.origin = q.state && r.input = t.input x && r.guard.all (t.holds q.vars x)

def Table.after (t : Table S I G A U C V X) (q : Status S V C) (r : Row S I G A U C) : Status S V C :=
  ⟨r.target,t.update r.updates q.vars,q.history ++ r.emits⟩

def Table.taken (t : Table S I G A U C V X) (q : Status S V C) (x : X) : Option (Row S I G A U C) :=
  (t.rows.find? (t.fits q x)).filter fun r => r.action.all (t.succeeds x)

/-- One input. A failing action leaves everything as it was and is reported as `none`, an input that no row fits is
    answered with no commands. -/
def Table.handle (t : Table S I G A U C V X) (q : Status S V C) (x : X) : Status S V C × Option (List C) :=
  match t.rows.find? (t.fits q x) with
  | none => (q,some [])
  | some r => if r.action.all (t.succeeds x) then (t.after q r,some r.emits) else (q,none)

theorem Table.taken_spec {t : Table S I G A U C V X} {q : Status S V C} {x : X} {r : Row S I G A U C}
    (taken : t.taken q x = some r) : r ∈ t.rows ∧ r.origin = q.state ∧ r.input = t.input x ∧
      r.guard.all (t.holds q.vars x) ∧ r.action.all (t.succeeds x) := by
  obtain ⟨found,ok⟩ := Option.filter_eq_some_iff.mp taken
  have fits := List.find?_some found
  simp only [Table.fits,Bool.and_eq_true,decide_eq_true_eq] at fits
  exact ⟨List.mem_of_find?_eq_some found,fits.1.1,fits.1.2,fits.2,ok⟩

theorem Table.exists_taken {t : Table S I G A U C V X} {q : Status S V C} {x : X} {r : Row S I G A U C}
    (among : r ∈ t.rows) (fits : t.fits q x r) (succeeds : ∀ r ∈ t.rows, t.fits q x r → r.action.all (t.succeeds x)) :
    ∃ first, t.taken q x = some first := by
  obtain ⟨first,found⟩ := Option.isSome_iff_exists.mp (List.find?_isSome.mpr ⟨r,among,fits⟩)
  refine ⟨first,?_⟩
  rw [Table.taken,found]
  simp [Option.filter,succeeds first (List.mem_of_find?_eq_some found) (List.find?_some found)]

theorem Table.handle_cases (t : Table S I G A U C V X) (q : Status S V C) (x : X) :
    t.taken q x = none ∧ (t.handle q x).1 = q ∨ ∃ r, t.taken q x = some r ∧ (t.handle q x).1 = t.after q r := by
  unfold Table.handle Table.taken
  cases t.rows.find? (t.fits q x) with
  | none => exact .inl ⟨rfl,rfl⟩
  | some r =>
    cases ok : r.action.all (t.succeeds x) with
    | false => exact .inl ⟨by simp [Option.filter,ok],by simp [ok]⟩
    | true => exact .inr ⟨r,by simp [Option.filter,ok],by simp [ok]⟩

theorem Table.handle_taken {t : Table S I G A U C V X} {q : Status S V C} {x : X} {r : Row S I G A U C}
    (taken : t.taken q x = some r) : (t.handle q x).1 = t.after q r := by
  rcases t.handle_cases q x with ⟨none,_⟩ | ⟨first,found,moved⟩
  · cases none.symm.trans taken
  · cases found.symm.trans taken
    exact moved

end

end Pigeon.TableMachines
