import Mathlib.Data.List.TakeWhile
import Mathlib.Tactic.Ring

/-!
Strings of octets: fixed-width numbers with the least or the most significant
octet first, 64-bit words, C strings, and what a C function that fills a buffer
and returns its length as an `int` hands to its caller.
-/
namespace Pigeon.Octets
open List

abbrev Bytes := List UInt8

/-- The `w` low octets of a number, least significant first. -/
def le : Nat → Nat → Bytes
  | 0, _ => []
  | w + 1, n => UInt8.ofNat n :: le w (n / 256)

def ofLe : Bytes → Nat
  | [] => 0
  | b :: rest => b.toNat + 256 * ofLe rest

@[simp] theorem le_length (w n : Nat) : (le w n).length = w := by
  induction w generalizing n with
  | zero => rfl
  | succ w ih => simp [le,ih]

theorem ofLe_lt (bs : Bytes) : ofLe bs < 256 ^ bs.length := by
  induction bs with
  | nil => simp [ofLe]
  | cons b rest ih =>
    have octet : b.toNat < 256 := b.toNat_lt
    have grow : 256 ^ (rest.length + 1) = 256 * 256 ^ rest.length := by ring
    simp only [ofLe,length_cons,grow]
    omega

theorem ofLe_le (w n : Nat) : ofLe (le w n) = n % 256 ^ w := by
  induction w generalizing n with
  | zero => simp [le,ofLe,Nat.mod_one]
  | succ w ih =>
    have grow : 256 ^ (w + 1) = 256 * 256 ^ w := by ring
    simp only [le,ofLe,ih,UInt8.toNat_ofNat',grow]
    rw [Nat.mod_mul]

theorem le_ofLe (bs : Bytes) : le bs.length (ofLe bs) = bs := by
  induction bs with
  | nil => rfl
  | cons b rest ih =>
    have octet : b.toNat < 256 := b.toNat_lt
    have high : (b.toNat + 256 * ofLe rest) / 256 = ofLe rest := by omega
    have low : UInt8.ofNat (b.toNat + 256 * ofLe rest) = b := by
      apply UInt8.toNat_inj.mp
      simp only [UInt8.toNat_ofNat']
      omega
    simp [ofLe,le,high,ih,low]

/-- The `w` low octets of a number, most significant first. -/
def be (w n : Nat) : Bytes := (le w n).reverse

def ofBe (bs : Bytes) : Nat := ofLe bs.reverse

@[simp] theorem be_length (w n : Nat) : (be w n).length = w := by simp [be]

theorem ofBe_be (w n : Nat) : ofBe (be w n) = n % 256 ^ w := by simp [be,ofBe,ofLe_le]

theorem be_ofBe {w bs} (width : bs.length = w) : be w (ofBe bs) = bs := by
  rw [be,ofBe,← width,← length_reverse,le_ofLe,reverse_reverse]

def le64 (word : UInt64) : Bytes := le 8 word.toNat

def readLe64 (bs : Bytes) : UInt64 := UInt64.ofNat (ofLe (bs.take 8))

@[simp] theorem le64_length (word : UInt64) : (le64 word).length = 8 := by simp [le64]

@[simp] theorem readLe64_le64 (word : UInt64) (rest : Bytes) : readLe64 (le64 word ++ rest) = word := by
  have front : (le64 word ++ rest).take 8 = le64 word := by
    rw [take_append_of_le_length (by simp),take_of_length_le (by simp)]
  have bound : word.toNat < 2 ^ 64 := word.toNat_lt
  unfold readLe64
  rw [front,le64,ofLe_le,Nat.mod_eq_of_lt (by norm_num at bound ⊢; exact bound),UInt64.ofNat_toNat]

theorem le64_readLe64 {bs} (enough : 8 ≤ bs.length) : le64 (readLe64 bs) = bs.take 8 := by
  have eight : (bs.take 8).length = 8 := by simp [enough]
  have bound := ofLe_lt (bs.take 8)
  rw [eight] at bound
  have value : (readLe64 bs).toNat = ofLe (bs.take 8) := by
    simp only [readLe64,UInt64.toNat_ofNat']
    exact Nat.mod_eq_of_lt (by norm_num at bound ⊢; exact bound)
  have back := le_ofLe (bs.take 8)
  rw [eight] at back
  rw [le64,value,back]

theorem le64_injective {one two} (same : le64 one = le64 two) : one = two := by
  have read := readLe64_le64 one []
  rw [same,readLe64_le64] at read
  exact read.symm

/-- The word a counter that starts at zero and wraps shows after `n` steps. -/
theorem ofNat_succ (n : Nat) : UInt64.ofNat n + 1 = UInt64.ofNat (n + 1) := by
  rw [UInt64.ofNat_add]; rfl

def maxWord : UInt64 := 0xffffffffffffffff

theorem toNat_lt_max {word} (room : word ≠ maxWord) : word.toNat < 2 ^ 64 - 1 := by
  have bound := word.toNat_lt
  have apart : word.toNat ≠ maxWord.toNat := fun same => room (UInt64.toNat_inj.mp same)
  have value : maxWord.toNat = 2 ^ 64 - 1 := by decide
  omega

theorem toNat_succ {word} (room : word ≠ maxWord) : (word + 1).toNat = word.toNat + 1 := by
  have below := toNat_lt_max room
  rw [UInt64.toNat_add]
  exact Nat.mod_eq_of_lt (by simp only [UInt64.toNat_one]; omega)

theorem ofNat_inj_below {m n} (small : m < 2 ^ 64) (small' : n < 2 ^ 64)
    (same : UInt64.ofNat m = UInt64.ofNat n) : m = n := by
  have values := congrArg UInt64.toNat same
  simp only [UInt64.toNat_ofNat'] at values
  omega

def cstr (bs : Bytes) : Bytes := bs.takeWhile (· ≠ 0)

variable {sep : UInt8} {v : Bytes}

theorem takeWhile_append_of_notMem (clean : sep ∉ v) (rest : Bytes) : (v ++ sep :: rest).takeWhile (· ≠ sep) = v := by
  induction v with
  | nil => simp
  | cons c v ih =>
    have other : c ≠ sep := fun same => clean (by simp [same])
    rw [cons_append,takeWhile_cons_of_pos (by simpa using other)]
    rw [ih (fun mem => clean (mem_cons_of_mem _ mem))]

theorem dropWhile_append_of_notMem (clean : sep ∉ v) (rest : Bytes) :
    (v ++ sep :: rest).dropWhile (· ≠ sep) = sep :: rest := by
  have parts := takeWhile_append_dropWhile (p := (· ≠ sep)) (l := v ++ sep :: rest)
  rw [takeWhile_append_of_notMem clean] at parts
  exact append_cancel_left parts

theorem takeWhile_eq_self_iff_notMem : v.takeWhile (· ≠ sep) = v ↔ sep ∉ v := by
  rw [takeWhile_eq_self_iff]
  constructor
  · intro each mem
    simpa using each sep mem
  · intro free b mem
    simp only [decide_eq_true_eq]
    rintro rfl
    exact free mem

theorem cstr_eq_iff {name} : cstr name = name ↔ 0 ∉ name := takeWhile_eq_self_iff_notMem

theorem cstr_append_zero {name} (clean : 0 ∉ name) (rest : Bytes) : cstr (name ++ 0 :: rest) = name :=
  takeWhile_append_of_notMem clean rest

theorem notMem_cstr (l : Bytes) : 0 ∉ cstr l := by
  intro mem
  simpa using mem_takeWhile_imp mem

theorem length_cstr_le (l : Bytes) : (cstr l).length ≤ l.length := (takeWhile_sublist _).length_le

theorem length_cstr_le_of_zero {l i} (zero : l[i]? = some 0) : (cstr l).length ≤ i := by
  by_contra longer
  have inside : i < (cstr l).length := Nat.not_le.mp longer
  obtain ⟨rest,split⟩ : cstr l <+: l := takeWhile_prefix _
  rw [← split,getElem?_append_left inside] at zero
  simpa using mem_takeWhile_imp (mem_of_getElem? zero)

/-- What a caller takes from a C function that returns a number of octets as an `int`: the low 32 bits, negative for a
    failure. -/
def intReturn (buffer : Bytes) : Option Bytes :=
  if 2 ^ 31 ≤ buffer.length % 2 ^ 32 then none else some (buffer.take (buffer.length % 2 ^ 32))

variable {buffer : Bytes}

theorem intReturn_of_lt (small : buffer.length < 2 ^ 31) : intReturn buffer = some buffer := by
  have low : buffer.length % 2 ^ 32 = buffer.length := Nat.mod_eq_of_lt (by omega)
  rw [intReturn,low,if_neg (by omega),take_length]

theorem length_of_intReturn {taken} (returned : intReturn buffer = some taken) : taken.length < 2 ^ 31 := by
  unfold intReturn at returned
  split at returned
  · cases returned
  · rw [← Option.some.inj returned,length_take]
    omega

theorem eq_of_intReturn {taken} (small : buffer.length < 2 ^ 32)
    (returned : intReturn buffer = some taken) : taken = buffer := by
  unfold intReturn at returned
  split at returned
  · cases returned
  · rw [← Option.some.inj returned,Nat.mod_eq_of_lt small,take_length]

end Pigeon.Octets
