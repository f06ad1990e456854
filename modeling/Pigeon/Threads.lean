import Mathlib.Data.List.Basic

/-!
Threads by their number, each at a place of its program. When one of them moves, the
number of threads at some kind of place changes by what the move changes
(`countP_move`), and where at most one thread is at such a place, two that are there are
the same (`eq_of_countP_le_one`).
-/
namespace Pigeon.Threads
open List
universe u

variable {α : Type u} {p : α → Bool} {places : List α}

theorem countP_move {t before} (at_t : places[t]? = some before) (after : α) :
    (places.set t after).countP p + (p before).toNat = places.countP p + (p after).toNat := by
  obtain ⟨inside,rfl⟩ := List.getElem?_eq_some_iff.mp at_t
  rw [countP_set inside]
  by_cases left : p places[t] = true
  · have some_one : 0 < places.countP p := countP_pos_iff.mpr ⟨_,getElem_mem inside,left⟩
    cases p after <;> simp [left] <;> omega
  · cases p after <;> simp [left]

theorem eq_of_countP_le_one (one : places.countP p ≤ 1) {t u : Nat} {a b} (at_t : places[t]? = some a)
    (at_u : places[u]? = some b) (first : p a) (second : p b) : t = u := by
  induction places generalizing t u with
  | nil => simp at at_t
  | cons place rest ih =>
    rw [countP_cons] at one
    cases t with
    | zero =>
      cases u with
      | zero => rfl
      | succ u =>
        obtain rfl : place = a := by simpa using at_t
        have another : 0 < rest.countP p := countP_pos_iff.mpr ⟨b,mem_of_getElem? (by simpa using at_u),second⟩
        rw [if_pos first] at one
        omega
    | succ t =>
      cases u with
      | zero =>
        obtain rfl : place = b := by simpa using at_u
        have another : 0 < rest.countP p := countP_pos_iff.mpr ⟨a,mem_of_getElem? (by simpa using at_t),first⟩
        rw [if_pos second] at one
        omega
      | succ u =>
        have same : t = u := ih (by omega) (by simpa using at_t) (by simpa using at_u)
        rw [same]

theorem eq_false_of_countP_eq_zero (none : places.countP p = 0) {t : Nat} {a} (at_t : places[t]? = some a) :
    p a = false :=
  Bool.eq_false_iff.mpr (countP_eq_zero.mp none a (mem_of_getElem? at_t))

end Pigeon.Threads
