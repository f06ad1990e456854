import Mathlib.Algebra.GroupWithZero.Nat
import Mathlib.Algebra.Order.BigOperators.Group.List

/-!
Custody of numbered things that are handed from place to place: each thing made so far is in
one place (`InCustody`), and moving one keeps that, since the counts of an optional place
(`held`), of a list and of a row of holders (`sum_map_set`) change by what is moved.
-/
namespace Pigeon.Custody
open List

def held (place : Option Nat) (c : Nat) : Nat := if place = some c then 1 else 0

@[simp] theorem held_none (c : Nat) : held none c = 0 := rfl

theorem held_some (d c : Nat) : held (some d) c = if d = c then 1 else 0 := by
  simp [held,Option.some.injEq]

theorem count_cons_held (d : Nat) (things : List Nat) (c : Nat) :
    (d :: things).count c = things.count c + held (some d) c := by
  rw [count_cons,held_some]
  simp

theorem count_erase_held {things : List Nat} {d : Nat} (mem : d ∈ things) (c : Nat) :
    (things.erase d).count c + held (some d) c = things.count c := by
  rw [(perm_cons_erase mem).count_eq c,count_cons_held]

theorem count_toList (place : Option Nat) (c : Nat) : place.toList.count c = held place c := by
  cases place with
  | none => rfl
  | some d => exact (count_cons_held d [] c).trans (Nat.zero_add _)

theorem sum_map_set {P : Type} {entries : List P} {n : Nat} {p} (f : P → Nat) (at_n : entries[n]? = some p)
    (q : P) : ((entries.set n q).map f).sum + f p = (entries.map f).sum + f q := by
  induction entries generalizing n with
  | nil => cases at_n
  | cons first rest ih =>
    cases n with
    | zero =>
      cases (Option.some.inj at_n : first = p)
      simp only [set_cons_zero,map_cons,sum_cons]
      omega
    | succ n =>
      have restAt : rest[n]? = some p := at_n
      have tail := ih restAt
      simp only [set_cons_succ,map_cons,sum_cons]
      omega

theorem sum_map_snoc {P : Type} (entries : List P) (f : P → Nat) (q : P) :
    ((entries ++ [q]).map f).sum = (entries.map f).sum + f q := by
  rw [map_append,sum_append]
  rfl

theorem sum_map_zero {P : Type} {entries : List P} {f : P → Nat} (none : ∀ p ∈ entries, f p = 0) :
    (entries.map f).sum = 0 := by
  induction entries with
  | nil => rfl
  | cons first rest ih =>
    rw [map_cons,sum_cons,none first mem_cons_self,ih (fun p mem => none p (mem_cons_of_mem _ mem))]

theorem le_sum_map {P : Type} {entries : List P} {p} (f : P → Nat) (mem : p ∈ entries) :
    f p ≤ (entries.map f).sum := by
  obtain ⟨before,after,rfl⟩ := append_of_mem mem
  rw [map_append,sum_append,map_cons,sum_cons]
  omega

def InCustody (places : Nat → Nat) (made : Nat) : Prop := ∀ c, places c = if c < made then 1 else 0

section
variable {places places' : Nat → Nat} {made : Nat}

section
variable (kept : InCustody places made)
include kept

theorem InCustody.moved (same : ∀ c, places' c = places c) : InCustody places' made :=
  fun c => (same c).trans (kept c)

theorem InCustody.grown (more : ∀ c, places' c = places c + held (some made) c) : InCustody places' (made + 1) := by
  intro c
  have before := kept c
  rw [more c,before,held_some]
  split_ifs <;> omega

theorem InCustody.one {c} (inside : c < made) : places c = 1 := by
  rw [kept c,if_pos inside]

theorem InCustody.atMost (c : Nat) : places c ≤ 1 := by
  rw [kept c]
  split <;> omega

theorem InCustody.inside {c} (somewhere : 0 < places c) : c < made := by
  by_contra outside
  rw [kept c,if_neg outside] at somewhere
  exact Nat.lt_irrefl 0 somewhere

end

end

end Pigeon.Custody
