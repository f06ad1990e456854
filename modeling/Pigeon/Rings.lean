import Mathlib.Data.List.Perm.Subperm
import Mathlib.Data.Nat.ModEq

/-!
Ring buffers of a fixed number of cells, with a read position, a write position
and a count of the filled cells between them. Storing drops what finds no room
and taking stops when the ring is empty, so that a ring whose positions agree
with its count (`Sound`) is a bounded queue: `contents_push` and `contents_pop`
say what the two loops do to the list of what is in it.
-/
namespace Pigeon.Rings
open List Function
universe u

variable {α : Type u} {n : Nat}

structure Ring (α : Type u) (n : Nat) where
  buf : Nat → α
  (head tail used : Nat)

def Ring.empty [Inhabited α] : Ring α n := ⟨fun _ => default,0,0,0⟩

/-- The free places. -/
def Ring.space (r : Ring α n) : Nat := n - r.used

def Ring.store (r : Ring α n) (x : α) : Ring α n :=
  { r with buf := update r.buf r.tail x, tail := (r.tail + 1) % n, used := r.used + 1 }

def Ring.push (r : Ring α n) (data : List α) : Ring α n := (data.take r.space).foldl Ring.store r

def Ring.pop (r : Ring α n) : Nat → List α × Ring α n
  | 0 => ([],r)
  | want + 1 =>
    if r.used = 0 then ([],r)
    else
      let rest := Ring.pop { r with head := (r.head + 1) % n, used := r.used - 1 } want
      (r.buf r.head :: rest.1,rest.2)

def Ring.contents (r : Ring α n) : List α := (range r.used).map (fun i => r.buf ((r.head + i) % n))

structure Ring.Sound (r : Ring α n) : Prop where
  fits : r.used ≤ n
  inside : r.head < n
  apart : r.tail = (r.head + r.used) % n

@[simp] theorem length_contents (r : Ring α n) : r.contents.length = r.used := by simp [Ring.contents]

theorem contents_eq_nil {r : Ring α n} : r.contents = [] ↔ r.used = 0 := by
  rw [← length_eq_zero_iff,length_contents]

@[simp] theorem contents_empty [Inhabited α] : (Ring.empty : Ring α n).contents = [] := rfl

theorem sound_empty [Inhabited α] (some_cell : 0 < n) : (Ring.empty : Ring α n).Sound :=
  ⟨Nat.zero_le _,some_cell,(Nat.zero_mod n).symm⟩

section
variable {r : Ring α n} (sound : r.Sound)
include sound

theorem sound_store (room : r.used < n) (x : α) : (r.store x).Sound := by
  refine ⟨room,sound.inside,?_⟩
  simp only [Ring.store,sound.apart,Nat.mod_add_mod,Nat.add_assoc]

theorem contents_store (room : r.used < n) (x : α) : (r.store x).contents = r.contents ++ [x] := by
  have others : ∀ i < r.used, (r.head + i) % n ≠ r.tail := by
    intro i filled same
    rw [sound.apart] at same
    have equal : i % n = r.used % n := Nat.ModEq.add_left_cancel' r.head same
    rw [Nat.mod_eq_of_lt room,Nat.mod_eq_of_lt (Nat.lt_trans filled room)] at equal
    omega
  have kept : (range r.used).map (fun i => (r.store x).buf ((r.head + i) % n)) = r.contents := by
    refine map_congr_left ?_
    intro i filled
    exact update_of_ne (others i (mem_range.mp filled)) x r.buf
  have last : (r.store x).buf ((r.head + r.used) % n) = x := by
    rw [← sound.apart]
    exact update_self r.tail x r.buf
  show (range (r.used + 1)).map (fun i => (r.store x).buf ((r.head + i) % n)) = r.contents ++ [x]
  rw [range_succ,map_append,kept,map_singleton,last]

theorem stored {data} (room : r.used + data.length ≤ n) :
    (data.foldl Ring.store r).Sound ∧ (data.foldl Ring.store r).contents = r.contents ++ data := by
  induction data generalizing r with
  | nil => simpa using sound
  | cons x rest ih =>
    have free : r.used < n := by
      simp only [length_cons] at room
      omega
    have left : (r.store x).used + rest.length ≤ n := by
      simp only [Ring.store,length_cons] at room ⊢
      omega
    obtain ⟨still,all⟩ := ih (sound_store sound free x) left
    refine ⟨still,?_⟩
    rw [foldl_cons,all,contents_store sound free,append_assoc]
    rfl

theorem sound_push (data : List α) : (r.push data).Sound := by
  refine (stored sound ?_).1
  have fits := sound.fits
  simp only [Ring.space,length_take]
  omega

theorem contents_push (data : List α) : (r.push data).contents = r.contents ++ data.take r.space := by
  refine (stored sound ?_).2
  have fits := sound.fits
  simp only [Ring.space,length_take]
  omega

theorem contents_push_fitting {data} (room : r.used + data.length ≤ n) :
    (r.push data).contents = r.contents ++ data := by
  rw [contents_push sound,take_of_length_le]
  simp only [Ring.space]
  omega

theorem contents_cons (some_left : r.used ≠ 0) : r.contents = r.buf r.head ::
      ({ r with head := (r.head + 1) % n, used := r.used - 1 } : Ring α n).contents := by
  obtain ⟨k,filled⟩ : ∃ k, r.used = k + 1 := ⟨r.used - 1,by omega⟩
  simp only [Ring.contents,filled,range_succ_eq_map,map_cons,map_map,Nat.add_zero,
    Nat.mod_eq_of_lt sound.inside,Nat.add_sub_cancel]
  refine congrArg _ (map_congr_left ?_)
  intro i _
  simp only [comp_apply,Nat.mod_add_mod]
  rw [show r.head + i.succ = r.head + 1 + i by omega]

theorem sound_next (some_left : r.used ≠ 0) :
    ({ r with head := (r.head + 1) % n, used := r.used - 1 } : Ring α n).Sound := by
  have fits := sound.fits
  refine ⟨by simp only; omega,Nat.mod_lt _ (by omega),?_⟩
  simp only [sound.apart,Nat.mod_add_mod]
  rw [show r.head + 1 + (r.used - 1) = r.head + r.used by omega]

theorem contents_pop (want : Nat) :
    (r.pop want).1 = r.contents.take want ∧ (r.pop want).2.contents = r.contents.drop want ∧
      (r.pop want).2.Sound := by
  induction want generalizing r with
  | zero => exact ⟨rfl,rfl,sound⟩
  | succ want ih =>
    by_cases none_left : r.used = 0
    · have nothing : r.contents = [] := contents_eq_nil.mpr none_left
      simp [Ring.pop,none_left,nothing,sound]
    · obtain ⟨taken,left,still⟩ := ih (sound_next sound none_left)
      rw [contents_cons sound none_left]
      simp only [Ring.pop,none_left,if_false,take_succ_cons,drop_succ_cons,taken,left,true_and]
      exact still

end

theorem used_lt_of_nodup {r : Ring Nat n} {i : Nat} (once : r.contents.Nodup) (inside : ∀ j ∈ r.contents, j < n)
    (here : i < n) (absent : i ∉ r.contents) : r.used < n := by
  have part : i :: r.contents ⊆ range n := by
    intro j mem
    rcases mem_cons.mp mem with rfl | queued
    · exact mem_range.mpr here
    · exact mem_range.mpr (inside j queued)
  have fewer := (subperm_of_subset (nodup_cons.mpr ⟨absent,once⟩) part).length_le
  simp only [length_cons,length_contents,length_range] at fewer
  omega

end Pigeon.Rings
