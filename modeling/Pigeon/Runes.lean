import Pigeon.Octets

/-!
Iteration over a string by its characters, as `range` does it in Go. A loop that copies the
octets at the indices of characters into a zeroed buffer gives a C string equal to the text
just when all characters are single octets (`cstr_copyRange_iff`).
-/
namespace Pigeon.Runes
open Octets List

def between (low high b : UInt8) : Bool := decide (low ≤ b) && decide (b ≤ high)

def continues (b : UInt8) : Bool := between 0x80 0xBF b

def second (b0 b1 : UInt8) : Bool :=
  if b0 = 0xE0 then between 0xA0 0xBF b1
  else if b0 = 0xED then between 0x80 0x9F b1
  else if b0 = 0xF0 then between 0x90 0xBF b1
  else if b0 = 0xF4 then between 0x80 0x8F b1
  else continues b1

def runeWidth : Bytes → Nat
  | b0 :: b1 :: rest =>
    if between 0xC2 0xDF b0 then
      if continues b1 then 2 else 1
    else if between 0xE0 0xEF b0 then
      match rest with
      | b2 :: _ => if second b0 b1 && continues b2 then 3 else 1
      | [] => 1
    else if between 0xF0 0xF4 b0 then
      match rest with
      | b2 :: b3 :: _ => if second b0 b1 && continues b2 && continues b3 then 4 else 1
      | _ => 1
    else 1
  | _ => 1

/-- Only whole characters, in a string whose first `skip` octets belong to a character before. -/
def validFrom : Nat → Bytes → Bool
  | _, [] => true
  | 0, b :: rest =>
    (decide (b < 0x80) || decide (2 ≤ runeWidth (b :: rest))) && validFrom (runeWidth (b :: rest) - 1) rest
  | skip + 1, _ :: rest => validFrom skip rest

def validUtf8 (s : Bytes) : Bool := validFrom 0 s

example : validUtf8 [0x41,0xC3,0xA9,0xF0,0x9F,0x90,0xA6] = true ∧ validUtf8 [0xED,0xA0,0x80] = false := by
  decide +kernel

/-- The indices of `range` from the index `i` on, in a string whose first `skip` octets belong to a character
    before. -/
def rangeFrom (i : Nat) : Nat → Bytes → List Nat
  | _, [] => []
  | 0, b :: rest => i :: rangeFrom (i + 1) (runeWidth (b :: rest) - 1) rest
  | skip + 1, _ :: rest => rangeFrom (i + 1) skip rest

/-- `for i := range s { buf[i] = s[i] }`. -/
def copyRange (buf s : Bytes) : Bytes := (rangeFrom 0 0 s).foldl (fun buf i => buf.set i (s.getD i 0)) buf

def SingleOctets (s : Bytes) : Prop := ∀ i < s.length, runeWidth (s.drop i) = 1

instance (s : Bytes) : Decidable (SingleOctets s) := inferInstanceAs (Decidable (∀ i < s.length, _))

theorem singleOctets_cons {b rest} : SingleOctets (b :: rest) ↔ runeWidth (b :: rest) = 1 ∧ SingleOctets rest := by
  constructor
  · intro single
    exact ⟨single 0 (by simp),fun i inside => single (i + 1) (by simpa using inside)⟩
  · rintro ⟨here,later⟩ i inside
    cases i with
    | zero => exact here
    | succ i => exact later i (by simpa using inside)

theorem runeWidth_pos (s : Bytes) : 1 ≤ runeWidth s := by
  unfold runeWidth
  repeat' split
  all_goals omega

theorem runeWidth_single (b : UInt8) : runeWidth [b] = 1 := rfl

variable {s : Bytes}

theorem rangeFrom_bounds {i skip j} (mem : j ∈ rangeFrom i skip s) : i ≤ j ∧ j < i + s.length := by
  induction s generalizing i skip with
  | nil => cases mem
  | cons b rest ih =>
    rw [length_cons]
    cases skip with
    | zero =>
      rcases mem_cons.mp mem with rfl | later
      · omega
      · have := ih later
        omega
    | succ skip =>
      have within : i + 1 ≤ j ∧ j < i + 1 + rest.length := ih mem
      omega

theorem visits_all_iff (i : Nat) (s : Bytes) : (∀ j < s.length, i + j ∈ rangeFrom i 0 s) ↔ SingleOctets s := by
  induction s generalizing i with
  | nil => simp [SingleOctets]
  | cons b rest ih =>
    rw [singleOctets_cons,rangeFrom]
    by_cases single : runeWidth (b :: rest) = 1
    · rw [single,← ih (i + 1)]
      constructor
      · intro all
        refine ⟨rfl,fun j inside => ?_⟩
        rcases mem_cons.mp (all (j + 1) (by simpa using inside)) with same | later
        · omega
        · rwa [Nat.add_right_comm i 1 j]
      · rintro ⟨-,all⟩ j inside
        cases j with
        | zero => exact mem_cons_self
        | succ j =>
          have later := all j (by simpa using inside)
          rw [Nat.add_right_comm i 1 j] at later
          exact mem_cons_of_mem _ later
    · -- The next octet belongs to this character, and the loop leaves it out.
      have wide := runeWidth_pos (b :: rest)
      obtain ⟨skip,skips⟩ : ∃ skip, runeWidth (b :: rest) - 1 = skip + 1 := ⟨runeWidth (b :: rest) - 2,by omega⟩
      refine ⟨fun all => absurd (all 1 ?_) ?_,fun both => absurd both.1 single⟩
      · cases rest with
        | nil => exact absurd (runeWidth_single b) single
        | cons c rest => simp
      · rw [skips]
        intro mem
        rcases mem_cons.mp mem with same | later
        · omega
        · cases rest with
          | nil => cases later
          | cons c rest =>
            have within : i + 1 + 1 ≤ i + 1 ∧ _ := rangeFrom_bounds later
            omega

theorem getElem?_foldl_set (indices : List Nat) (f : Nat → UInt8) (buf : Bytes) (j : Nat) :
    (indices.foldl (fun buf i => buf.set i (f i)) buf)[j]? =
      if j ∈ indices ∧ j < buf.length then some (f j) else buf[j]? := by
  induction indices generalizing buf with
  | nil => simp
  | cons i indices ih =>
    rw [foldl_cons,ih,length_set]
    by_cases later : j ∈ indices
    · by_cases inside : j < buf.length
      · simp [later,inside]
      · simp [later,inside]
    · by_cases here : i = j
      · subst here
        by_cases inside : i < buf.length
        · simp [later,inside]
        · simp [later,inside]
      · have other : j ≠ i := fun same => here same.symm
        simp [later,here,other]

theorem getElem?_copyRange (s : Bytes) (cap j : Nat) : (copyRange (List.replicate cap 0) s)[j]? =
    if j ∈ rangeFrom 0 0 s ∧ j < cap then some (s.getD j 0) else (List.replicate cap (0 : UInt8))[j]? := by
  rw [copyRange,getElem?_foldl_set,length_replicate]

variable {cap : Nat}

theorem getElem?_copyRange_end {j} (beyond : s.length ≤ j) :
    (copyRange (List.replicate cap 0) s)[j]? = (List.replicate cap (0 : UInt8))[j]? := by
  rw [getElem?_copyRange,if_neg]
  intro both
  have := (rangeFrom_bounds both.1).2
  omega

theorem copyRange_terminated (room : s.length < cap) : (copyRange (List.replicate cap 0) s)[s.length]? = some 0 := by
  rw [getElem?_copyRange_end le_rfl,getElem?_replicate,if_pos room]

theorem set_copyRange (room : s.length < cap) :
    (copyRange (List.replicate cap 0) s).set s.length 0 = copyRange (List.replicate cap 0) s := by
  obtain ⟨inside,zero⟩ := List.getElem?_eq_some_iff.mp (copyRange_terminated room)
  nth_rewrite 2 [← zero]
  exact set_getElem_self inside

theorem length_cstr_copyRange_le (room : s.length < cap) :
    (cstr (copyRange (List.replicate cap 0) s)).length ≤ s.length :=
  length_cstr_le_of_zero (copyRange_terminated room)

theorem cstr_copyRange_iff (clean : 0 ∉ s) (room : s.length < cap) :
    cstr (copyRange (List.replicate cap 0) s) = s ↔ SingleOctets s := by
  rw [← visits_all_iff 0 s]
  constructor
  · intro read j inside
    rw [Nat.zero_add]
    by_contra skipped
    have zero : (copyRange (List.replicate cap 0) s)[j]? = some 0 := by
      rw [getElem?_copyRange,if_neg (fun both => skipped both.1),getElem?_replicate,if_pos (by omega)]
    have front : s <+: copyRange (List.replicate cap 0) s := by
      have := takeWhile_prefix (l := copyRange (List.replicate cap 0) s) (fun b => decide (b ≠ 0))
      rwa [← cstr,read] at this
    have same : s[j]? = some 0 := by
      obtain ⟨rest,split⟩ := front
      rw [← zero,← split,getElem?_append_left inside]
    exact clean (mem_of_getElem? same)
  · intro all
    have whole : copyRange (List.replicate cap 0) s = s ++ 0 :: List.replicate (cap - s.length - 1) 0 := by
      refine ext_getElem? (fun j => ?_)
      by_cases inside : j < s.length
      · have visited := all j inside
        rw [Nat.zero_add] at visited
        rw [getElem?_copyRange,if_pos ⟨visited,by omega⟩,getElem?_append_left inside,
          getD_eq_getElem?_getD,getElem?_eq_getElem inside]
        rfl
      · rw [getElem?_copyRange_end (by omega),getElem?_append_right (by omega),← replicate_succ,
          getElem?_replicate,getElem?_replicate]
        congr 1
        simp only [eq_iff_iff]
        omega
    rw [whole,cstr_append_zero clean]

end Pigeon.Runes
