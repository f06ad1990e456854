import Pigeon.ActivationWire
import Pigeon.WebSession

/-!
Unsigned varints in the machine words of each implementation: `binary.Uvarint`, the decoders
of `pigeon.c` and `activation.c`, and the generated ones. A digit is put into the word by a
shift and an or (`toNat_or_shifted`), so the loops are the arithmetic ones. Every decoder reads
back what is encoded; they differ in the tenth octet (`decoders_agree_iff`).
-/
namespace Pigeon.Varints
open Octets Framing List Option

def shifted (digit : UInt8) (shift : Nat) : UInt64 := digit.toUInt64 <<< UInt64.ofNat shift

/-- The loop of `binary.Uvarint`: number and octets taken, or the second result, 0 at the end and negative on
    overflow. -/
def uvarint : Nat → Nat → UInt64 → Bytes → Except Int (UInt64 × Nat)
  | _, _, _, [] => .error 0
  | i, s, x, b :: rest =>
    if i = 10 then .error (-(i + 1))
    else if b < 0x80 then
      if i = 9 ∧ 1 < b then .error (-(i + 1)) else .ok (x ||| shifted b s,i + 1)
    else uvarint (i + 1) (s + 7) (x ||| shifted (b &&& 0x7f) s) rest

/-- The loop of `pigeon_uvarint_decode`, which returns 0 at the end of the octets. -/
def pigeonUvarintDecode : Nat → Nat → UInt64 → Bytes → Except Int (UInt64 × Nat)
  | _, _, _, [] => .error 0
  | i, shift, v, b :: rest =>
    if i = 9 ∧ 1 < b then .error (-1)
    else
      let v := v ||| shifted (b &&& 0x7f) shift
      if b &&& 0x80 = 0 then .ok (v,i + 1)
      else if 64 ≤ shift + 7 then .error (-1)
      else pigeonUvarintDecode (i + 1) (shift + 7) v rest

/-- The loop of `auth_uvarint_decode`, with `off` octets read. -/
def authDecode : Nat → Nat → UInt64 → Bytes → Except Int (UInt64 × Nat)
  | _, _, _, [] => .error (-1)
  | off, shift, v, b :: rest =>
    if 64 ≤ shift then .error (-1)
    else
      let v := v ||| shifted (b &&& 0x7f) shift
      if b &&& 0x80 = 0 then .ok (v,off + 1) else authDecode (off + 1) (shift + 7) v rest

def emitted {W ε : Type} [OrOp W] (place : UInt8 → Nat → W) (tooLong truncated : ε) :
    Nat → Nat → W → Bytes → Except ε (W × Nat)
  | _, _, _, [] => .error truncated
  | i, shift, v, b :: rest =>
    if 10 ≤ i then .error tooLong
    else if b &&& 0x80 = 0 then .ok (v ||| place b shift,i + 1)
    else emitted place tooLong truncated (i + 1) (shift + 7) (v ||| place (b &&& 0x7f) shift) rest

inductive PigeonWireError
  | truncated
  | malformed
  | bufferTooSmall
deriving DecidableEq

def swiftDecodeUvarint (data : Bytes) : Except PigeonWireError (UInt64 × Nat) :=
  emitted shifted .malformed .truncated 0 0 0 data

def kotlinDecodeUvarint (buf : Bytes) : Except String (UInt64 × Nat) :=
  emitted shifted "uvarint too long" "truncated uvarint" 0 0 0 buf

def shiftedBig (digit : UInt8) (shift : Nat) : Nat := digit.toNat <<< shift

def tsDecodeUvarint (buf : Bytes) : Except String (Nat × Nat) :=
  emitted shiftedBig "uvarint: too many bytes" "uvarint: truncated" 0 0 0 buf

/-- `pigeon_uvarint_encode` and `auth_uvarint_encode`, with the octets left in the buffer. -/
def uvarintEncode : Nat → UInt64 → Option Bytes
  | 0, _ => none
  | room + 1, v =>
    if 0x80 ≤ v then (uvarintEncode room (v >>> 7)).map ((v.toUInt8 ||| 0x80) :: ·) else some [v.toUInt8]

theorem toNat_shiftRight_seven (v : UInt64) : (v >>> 7).toNat = v.toNat / 128 := by
  rw [UInt64.toNat_shiftRight]
  exact Nat.shiftRight_eq_div_pow _ 7

variable {v : UInt64}

theorem toNat_shiftRight_lt (large : 0x80 ≤ v) : (v >>> 7).toNat < v.toNat := by
  have digits : 128 ≤ v.toNat := UInt64.le_iff_toNat_le.mp large
  rw [toNat_shiftRight_seven]
  omega

def emittedEncode (v : UInt64) : Bytes :=
  if 0x80 ≤ v then ((v &&& 0x7f) ||| 0x80).toUInt8 :: emittedEncode (v >>> 7) else [v.toUInt8]
termination_by v.toNat
decreasing_by exact toNat_shiftRight_lt ‹_›

theorem shiftRight_seven_lt {v} (large : 0x80 ≤ v) : v >>> 7 < v := by
  rw [Nat.shiftRight_eq_div_pow]
  omega

def bigEncode (v : Nat) : Bytes :=
  if 0x80 ≤ v then UInt8.ofNat ((v &&& 0x7f) ||| 0x80) :: bigEncode (v >>> 7) else [UInt8.ofNat v]
decreasing_by exact shiftRight_seven_lt ‹_›

def tsEncodeUvarint (value : Int) : Except String Bytes :=
  if value < 0 then .error "uvarint: negative value" else .ok (bigEncode value.toNat)

theorem and_eq_zero_iff (b : UInt8) : b &&& 0x80 = 0 ↔ b.toNat < 128 := by
  have each : ∀ n : Fin 256, UInt8.ofFin n &&& 0x80 = 0 ↔ n.val < 128 := by decide +kernel
  exact each b.toFin

theorem lt_high_iff (b : UInt8) : b < 0x80 ↔ b.toNat < 128 := UInt8.lt_iff_toNat_lt

theorem one_lt_iff (b : UInt8) : 1 < b ↔ 1 < b.toNat := UInt8.lt_iff_toNat_lt

theorem toNat_digit (b : UInt8) : (b &&& 0x7f).toNat = b.toNat % 128 := by
  rw [UInt8.toNat_and]
  exact Nat.and_two_pow_sub_one_eq_mod _ 7

variable {b : UInt8}

theorem digit_of_lt (low : b.toNat < 128) : b &&& 0x7f = b :=
  UInt8.toNat_inj.mp (by rw [toNat_digit,Nat.mod_eq_of_lt low])

variable {i : Nat} {digit : UInt8} {x : UInt64} {ε : Type}

theorem toNat_shifted (digit : UInt8) (early : i ≤ 9) :
    (shifted digit (7 * i)).toNat = digit.toNat * 128 ^ i % 2 ^ 64 := by
  have position : (UInt64.ofNat (7 * i)).toNat = 7 * i := by rw [UInt64.toNat_ofNat']; omega
  rw [shifted,UInt64.toNat_shiftLeft,position,UInt8.toNat_toUInt64,Nat.mod_eq_of_lt (by omega : 7 * i < 64),
    Nat.shiftLeft_eq,Nat.pow_mul]

theorem or_place {low} (below : low < 128 ^ i) (digit : Nat) : low ||| digit * 128 ^ i = low + digit * 128 ^ i := by
  have power : (128 : Nat) ^ i = 2 ^ (7 * i) := (Nat.pow_mul 2 7 i).symm
  rw [power] at below ⊢
  rw [Nat.or_comm,Nat.mul_comm,← Nat.two_pow_add_eq_or_of_lt below,Nat.add_comm]

theorem or_shiftedBig {v : Nat} (below : v < 128 ^ i) (digit : UInt8) :
    v ||| shiftedBig digit (7 * i) = v + digit.toNat * 128 ^ i := by
  rw [shiftedBig,Nat.shiftLeft_eq,Nat.pow_mul]
  exact or_place below _

theorem toNat_or_shifted (early : i ≤ 9) (below : x.toNat < 128 ^ i) :
    (x ||| shifted digit (7 * i)).toNat = x.toNat + digit.toNat * 128 ^ i % 2 ^ 64 := by
  have power : (2 : Nat) ^ 64 = 2 ^ (64 - 7 * i) * 128 ^ i := by
    rw [show (128 : Nat) ^ i = 2 ^ (7 * i) from (Nat.pow_mul 2 7 i).symm,← Nat.pow_add]
    congr 1
    omega
  rw [UInt64.toNat_or,toNat_shifted _ early,power,Nat.mul_mod_mul_right,or_place below]

theorem toNat_digit_of_high (high : ¬ b.toNat < 128) : (b &&& 0x7f).toNat = b.toNat - 128 := by
  have octet := b.toNat_lt
  rw [toNat_digit]
  omega

theorem toNat_or_kept (below : x.toNat < 128 ^ i) (low : digit.toNat < 128) (early : i ≤ 8 ∨ i = 9 ∧ digit.toNat ≤ 1) :
    (x ||| shifted digit (7 * i)).toNat = x.toNat + digit.toNat * 128 ^ i := by
  have kept := Pigeon.ActivationWire.digit_kept low early
  rw [Nat.pow_mul] at kept
  rw [toNat_or_shifted (by omega) below]
  exact congrArg _ kept

theorem or_shifted_lt (early : i ≤ 9) (below : x.toNat < 128 ^ i) (low : digit.toNat < 128) :
    (x ||| shifted digit (7 * i)).toNat < 128 ^ (i + 1) := by
  have most := Nat.mod_le (digit.toNat * 128 ^ i) (2 ^ 64)
  have grow : 128 * 128 ^ i = 128 ^ (i + 1) := Nat.pow_succ'.symm
  have digits : digit.toNat * 128 ^ i ≤ 127 * 128 ^ i := Nat.mul_le_mul_right _ (by omega)
  rw [toNat_or_shifted early below]
  omega

/-- A number and a count as the number and what follows it, from the octet `i` on. -/
def readFrom {W : Type} (number : W → Nat) (i : Nat) (bytes : Bytes) (r : W × Nat) : Nat × Bytes :=
  (number r.1,bytes.drop (r.2 - i))

variable {W : Type}

theorem readFrom_cons (number : W → Nat) {r : W × Nat} (later : i + 1 < r.2) (b : UInt8) (rest : Bytes) :
    readFrom number i (b :: rest) r = readFrom number (i + 1) rest r := by
  obtain ⟨k,count⟩ : ∃ k, r.2 = i + 1 + k := ⟨r.2 - (i + 1),by omega⟩
  simp [readFrom,count,show i + 1 + k - i = k + 1 by omega]

variable {s : Nat} {bytes : Bytes} {r : UInt64 × Nat}

theorem count_bounds (read : uvarint i s x bytes = .ok r) : i < r.2 ∧ r.2 ≤ i + bytes.length := by
  induction bytes generalizing i s x with
  | nil => cases read
  | cons b rest ih =>
    rw [uvarint] at read
    rw [length_cons]
    split_ifs at read
    · cases read
      simp only
      omega
    · have later := ih read
      omega

theorem getUvarint_eq (early : i ≤ 9) (below : x.toNat < 128 ^ i) (bytes : Bytes) :
    getUvarint i x.toNat bytes = (uvarint i (7 * i) x bytes).toOption.map (readFrom UInt64.toNat i bytes) := by
  induction bytes generalizing i x with
  | nil => rfl
  | cons b rest ih =>
    have inside : i ≠ 10 := by omega
    rw [getUvarint,uvarint,if_neg inside,if_neg inside]
    simp only [lt_high_iff,one_lt_iff]
    split_ifs with low high
    · rfl
    · simp [Except.toOption,readFrom,toNat_or_kept below low (by omega : i ≤ 8 ∨ i = 9 ∧ b.toNat ≤ 1)]
    · by_cases last : i = 9
      · subst last
        cases rest <;> simp [getUvarint,uvarint,Except.toOption]
      · have digit := toNat_digit_of_high low
        have room : (b &&& 0x7f).toNat < 128 := by rw [toNat_digit]; omega
        rw [← digit,← toNat_or_kept below room (by omega),ih (by omega) (or_shifted_lt early below room)]
        cases read : uvarint (i + 1) (7 * (i + 1)) (x ||| shifted (b &&& 0x7f) (7 * i)) rest with
        | error code => simp [Except.toOption]
        | ok r => simp [Except.toOption,readFrom_cons _ (count_bounds read).1]

theorem lt_count_emitted [OrOp W] {place : UInt8 → Nat → W} {tooLong truncated : ε} {v : W}
    {r : W × Nat} (read : emitted place tooLong truncated i s v bytes = .ok r) : i < r.2 := by
  induction bytes generalizing i s v with
  | nil => cases read
  | cons b rest ih =>
    rw [emitted] at read
    split_ifs at read
    · cases read
      exact Nat.lt_succ_self i
    · exact Nat.lt_of_succ_lt (ih read)

/-- The loop of `auth_uvarint_decode` is the emitted one with one error code. -/
theorem authDecode_eq (i : Nat) (x : UInt64) (bytes : Bytes) :
    authDecode i (7 * i) x bytes = emitted shifted (-1) (-1) i (7 * i) x bytes := by
  induction bytes generalizing i x with
  | nil => rfl
  | cons b rest ih =>
    have bits : 64 ≤ 7 * i ↔ 10 ≤ i := by omega
    simp only [authDecode,emitted,bits,and_eq_zero_iff]
    split_ifs with long low
    · rfl
    · rw [digit_of_lt low]
    · exact ih (i + 1) _

theorem authUvarintDecode_eq (below : i ≤ 9 → x.toNat < 128 ^ i) (bytes : Bytes) :
    Pigeon.Activation.authUvarintDecode (7 * i) x.toNat bytes =
      (authDecode i (7 * i) x bytes).toOption.map (readFrom UInt64.toNat i bytes) := by
  induction bytes generalizing i x with
  | nil => rfl
  | cons b rest ih =>
    rw [Pigeon.Activation.authUvarintDecode,authDecode]
    by_cases wide : 64 ≤ 7 * i
    · rw [if_pos wide,if_pos wide]
      rfl
    · have early : i ≤ 9 := by omega
      have room : (b &&& 0x7f).toNat < 128 := by rw [toNat_digit]; omega
      have word : x.toNat + b.toNat % 128 * 2 ^ (7 * i) % 2 ^ 64 = (x ||| shifted (b &&& 0x7f) (7 * i)).toNat := by
        rw [toNat_or_shifted early (below early),toNat_digit,Nat.pow_mul]
      simp only [if_neg wide,and_eq_zero_iff,word]
      split_ifs with low
      · simp [Except.toOption,readFrom]
      · rw [← Nat.mul_succ,ih (fun _ => or_shifted_lt early (below early) room)]
        cases read : authDecode (i + 1) (7 * (i + 1)) (x ||| shifted (b &&& 0x7f) (7 * i)) rest with
        | error code => rfl
        | ok r => simp [Except.toOption,readFrom_cons _ (lt_count_emitted (authDecode_eq _ _ _ ▸ read))]

theorem decodeUvarint_eq (tooLong truncated : ε) {v : Nat} (below : v < 128 ^ i) (bytes : Bytes) :
    Pigeon.WebSession.decodeUvarint i v bytes =
      (emitted shiftedBig tooLong truncated i (7 * i) v bytes).toOption.map (readFrom id i bytes) := by
  induction bytes generalizing i v with
  | nil => rfl
  | cons b rest ih =>
    rw [Pigeon.WebSession.decodeUvarint,emitted]
    simp only [and_eq_zero_iff,or_shiftedBig below]
    split_ifs with long low
    · rfl
    · simp [Except.toOption,readFrom]
    · have grow : 128 * 128 ^ i = 128 ^ (i + 1) := Nat.pow_succ'.symm
      have octet := b.toNat_lt
      have digits : (b.toNat - 128) * 128 ^ i ≤ 127 * 128 ^ i := Nat.mul_le_mul_right _ (by omega)
      have next : v + (b.toNat - 128) * 128 ^ i < 128 ^ (i + 1) := by omega
      rw [toNat_digit_of_high low,← Nat.mul_succ,ih next]
      cases read : emitted shiftedBig tooLong truncated (i + 1) (7 * (i + 1)) (v + (b.toNat - 128) * 128 ^ i) rest with
      | error code => rfl
      | ok r => simp [Except.toOption,readFrom_cons _ (lt_count_emitted read)]

/-- After `k` octets with the high bit set comes one that ends the number and is more than 1. -/
def HighOctet (k : Nat) (bytes : Bytes) : Prop :=
  (∀ b ∈ bytes.take k, 0x80 ≤ b) ∧ ∃ b, bytes[k]? = some b ∧ 1 < b ∧ b < 0x80

theorem not_highOctet_nil (k : Nat) : ¬ HighOctet k [] := by simp [HighOctet]

theorem highOctet_zero {rest} : HighOctet 0 (b :: rest) ↔ 1 < b.toNat ∧ b.toNat < 128 := by
  simp [HighOctet,UInt8.lt_iff_toNat_lt]

theorem highOctet_succ {k rest} : HighOctet (k + 1) (b :: rest) ↔ ¬ b.toNat < 128 ∧ HighOctet k rest := by
  simp [HighOctet,UInt8.le_iff_toNat_le,and_assoc]

theorem pigeon_agrees (early : i ≤ 9) (x : UInt64) (bytes : Bytes) :
    (pigeonUvarintDecode i (7 * i) x bytes).toOption = (uvarint i (7 * i) x bytes).toOption := by
  induction bytes generalizing i x with
  | nil => rfl
  | cons b rest ih =>
    have inside : i ≠ 10 := by omega
    simp only [pigeonUvarintDecode,uvarint,if_neg inside,and_eq_zero_iff,lt_high_iff,one_lt_iff]
    by_cases low : b.toNat < 128
    · simp only [low,if_true,digit_of_lt low]
      split_ifs <;> rfl
    · by_cases last : i = 9
      · subst last
        have high : 1 < b.toNat := by omega
        cases rest <;> simp [high,low,uvarint,Except.toOption]
      · have bits : ¬ 64 ≤ 7 * i + 7 := by omega
        simp only [last,false_and,if_false,low,bits]
        exact ih (by omega) _

theorem emitted_agrees_iff [OrOp W] {place} (number : UInt64 → W)
    (kept : ∀ x digit i, digit.toNat < 128 → i ≤ 8 ∨ i = 9 ∧ digit.toNat ≤ 1 →
      number (x ||| shifted digit (7 * i)) = number x ||| place digit (7 * i)) (tooLong truncated : ε) (early : i ≤ 9)
    (x : UInt64) (bytes : Bytes) :
    (emitted place tooLong truncated i (7 * i) (number x) bytes).toOption =
        (uvarint i (7 * i) x bytes).toOption.map (fun r => (number r.1,r.2)) ↔ ¬ HighOctet (9 - i) bytes := by
  induction bytes generalizing i x with
  | nil => simp [emitted,uvarint,Except.toOption,not_highOctet_nil]
  | cons b rest ih =>
    have inside : i ≠ 10 := by omega
    have short : ¬ 10 ≤ i := by omega
    simp only [emitted,uvarint,if_neg inside,if_neg short,and_eq_zero_iff,lt_high_iff,one_lt_iff]
    by_cases last : i = 9
    · subst last
      rw [highOctet_zero]
      by_cases low : b.toNat < 128
      · by_cases high : 1 < b.toNat
        · simp [low,high,Except.toOption]
        · simp [low,high,Except.toOption,kept x b 9 low (.inr ⟨rfl,Nat.not_lt.mp high⟩)]
      · cases rest <;> simp [low,emitted,uvarint,Except.toOption]
    · rw [show 9 - i = 9 - (i + 1) + 1 by omega,highOctet_succ]
      by_cases low : b.toNat < 128
      · simp [last,low,Except.toOption,kept x b i low (by omega)]
      · have room : (b &&& 0x7f).toNat < 128 := by rw [toNat_digit]; omega
        simp only [low,if_false]
        rw [← Nat.mul_succ,← kept x _ i room (by omega),ih (by omega)]
        simp

theorem toNat_or_shifted_big (low : digit.toNat < 128) (early : i ≤ 8 ∨ i = 9 ∧ digit.toNat ≤ 1) :
    (x ||| shifted digit (7 * i)).toNat = x.toNat ||| shiftedBig digit (7 * i) := by
  have kept := Pigeon.ActivationWire.digit_kept low early
  rw [Nat.pow_mul] at kept
  rw [UInt64.toNat_or,toNat_shifted _ (by omega),shiftedBig,Nat.shiftLeft_eq,Nat.pow_mul]
  exact congrArg _ kept

theorem emitted_word {ε' : Type} (tooLong truncated : ε) (tooLong' truncated' : ε') (big : Nat) (bytes : Bytes) :
    (emitted shifted tooLong truncated i (7 * i) (UInt64.ofNat big) bytes).toOption =
      (emitted shiftedBig tooLong' truncated' i (7 * i) big bytes).toOption.map fun r => (UInt64.ofNat r.1,r.2) := by
  induction bytes generalizing i big with
  | nil => rfl
  | cons b rest ih =>
    rw [emitted,emitted]
    by_cases long : 10 ≤ i
    · rw [if_pos long,if_pos long]
      rfl
    · have word (digit : UInt8) :
          UInt64.ofNat big ||| shifted digit (7 * i) = UInt64.ofNat (big ||| shiftedBig digit (7 * i)) := by
        apply UInt64.toNat_inj.mp
        rw [UInt64.toNat_or,toNat_shifted _ (by omega),UInt64.toNat_ofNat',UInt64.toNat_ofNat',Nat.or_mod_two_pow,shiftedBig,
          Nat.shiftLeft_eq,Nat.pow_mul]
      rw [if_neg long,if_neg long,word,word]
      split_ifs with low
      · rfl
      · rw [← Nat.mul_succ]
        exact ih _

theorem uvarint_of_big (tooLong truncated : ε) (early : i ≤ 9) (below : x.toNat < 128 ^ i) (bytes : Bytes) :
    (uvarint i (7 * i) x bytes).toOption =
      ((emitted shiftedBig tooLong truncated i (7 * i) x.toNat bytes).toOption.filter fun r => decide (r.1 < 2 ^ 64)).map
        fun r => (UInt64.ofNat r.1,r.2) := by
  induction bytes generalizing i x with
  | nil => rfl
  | cons b rest ih =>
    have inside : i ≠ 10 := by omega
    have short : ¬ 10 ≤ i := by omega
    simp only [emitted,uvarint,if_neg inside,if_neg short,and_eq_zero_iff,lt_high_iff,one_lt_iff]
    by_cases low : b.toNat < 128
    · by_cases lost : i = 9 ∧ 1 < b.toNat
      · obtain ⟨rfl,high⟩ := lost
        have wide : 2 ^ 64 ≤ x.toNat + b.toNat * 128 ^ 9 := by omega
        simpa [low,high,Except.toOption,or_shiftedBig below] using wide
      · have value := toNat_or_shifted_big (x := x) low (by omega : i ≤ 8 ∨ i = 9 ∧ b.toNat ≤ 1)
        have word := (x ||| shifted b (7 * i)).toNat_lt
        rw [if_pos low,if_pos low,if_neg lost,← value]
        simp only [Except.toOption,filter_some,word,decide_true,if_true,map_some,UInt64.ofNat_toNat]
    · by_cases last : i = 9
      · subst last
        cases rest <;> simp [low,emitted,uvarint,Except.toOption]
      · have room : (b &&& 0x7f).toNat < 128 := by rw [toNat_digit]; omega
        rw [if_neg low,if_neg low,← Nat.mul_succ,← toNat_or_shifted_big room (by omega)]
        exact ih (by omega) (or_shifted_lt early below room)

theorem toNat_continued (n : Nat) : n % 128 ||| 128 = n % 128 + 128 := by
  have place := or_place (i := 1) (show n % 128 < 128 ^ 1 by omega) 1
  simpa using place

theorem octet_continued (v : UInt64) : v.toUInt8 ||| 0x80 = UInt8.ofNat (v.toNat % 128 + 128) := by
  have each : ∀ n : Fin 256, n.val ||| 128 = n.val % 128 + 128 := by decide +kernel
  apply UInt8.toNat_inj.mp
  rw [UInt8.toNat_or,UInt64.toNat_toUInt8,UInt8.toNat_ofNat']
  have octet := each ⟨v.toNat % 2 ^ 8,Nat.mod_lt _ (by decide)⟩
  simp only at octet
  rw [show (0x80 : UInt8).toNat = 128 from rfl,octet]
  omega

theorem emitted_continued (v : UInt64) : ((v &&& 0x7f) ||| 0x80).toUInt8 = UInt8.ofNat (v.toNat % 128 + 128) := by
  have digit : (v &&& 0x7f).toNat = v.toNat % 128 := by
    rw [UInt64.toNat_and]
    exact Nat.and_two_pow_sub_one_eq_mod _ 7
  apply UInt8.toNat_inj.mp
  rw [UInt64.toNat_toUInt8,UInt64.toNat_or,digit,UInt8.toNat_ofNat']
  exact congrArg (· % 2 ^ 8) (toNat_continued v.toNat)

theorem octet_last (v : UInt64) : v.toUInt8 = UInt8.ofNat v.toNat :=
  UInt8.toNat_inj.mp (by rw [UInt64.toNat_toUInt8,UInt8.toNat_ofNat'])

variable {fuel : Nat}

theorem big_continued (n : Nat) : (n &&& 0x7f) ||| 0x80 = n % 128 + 128 := by
  rw [show n &&& 0x7f = n % 128 from Nat.and_two_pow_sub_one_eq_mod n 7]
  exact toNat_continued n

theorem bigEncode_eq {n : Nat} (small : n < 128 ^ (fuel + 1)) : bigEncode n = putUvarint fuel n := by
  induction fuel generalizing n with
  | zero =>
    have low : ¬ 128 ≤ n := by omega
    rw [bigEncode,if_neg low,putUvarint]
  | succ fuel ih =>
    rw [bigEncode,putUvarint]
    by_cases low : n < 128
    · rw [if_neg (Nat.not_le.mpr low),if_pos low]
    · have rest : n >>> 7 = n / 128 := Nat.shiftRight_eq_div_pow n 7
      have fewer : n / 128 < 128 ^ (fuel + 1) := Nat.div_lt_of_lt_mul (by rwa [← Nat.pow_succ'])
      rw [if_pos (Nat.not_lt.mp low),if_neg low,rest,ih fewer,big_continued]

theorem high_iff (v : UInt64) : 0x80 ≤ v ↔ 128 ≤ v.toNat := UInt64.le_iff_toNat_le

theorem emittedEncode_eq (v : UInt64) : emittedEncode v = bigEncode v.toNat := by
  fun_induction emittedEncode v with
  | case1 v large ih =>
    rw [bigEncode,if_pos ((high_iff v).mp large),emitted_continued,ih,big_continued,UInt64.toNat_shiftRight]
    rfl
  | case2 v small => rw [bigEncode,if_neg (mt (high_iff v).mpr small),octet_last]

theorem uvarintEncode_big (room : Nat) (v : UInt64) : uvarintEncode room v =
      if room < (bigEncode v.toNat).length then none else some (bigEncode v.toNat) := by
  induction room generalizing v with
  | zero =>
    rw [bigEncode]
    split_ifs <;> simp_all [uvarintEncode]
  | succ room ih =>
    rw [uvarintEncode,bigEncode]
    by_cases large : 0x80 ≤ v
    · have shift : (v >>> 7).toNat = v.toNat >>> 7 := UInt64.toNat_shiftRight v 7
      rw [if_pos large,if_pos ((high_iff v).mp large),ih,octet_continued,big_continued,shift]
      simp only [length_cons,Nat.succ_lt_succ_iff]
      split_ifs <;> rfl
    · rw [if_neg large,if_neg (mt (high_iff v).mpr large),octet_last]
      simp

theorem uvarintEncode_eq (small : v.toNat < 128 ^ (fuel + 1)) (room : Nat) : uvarintEncode room v =
      if room < (putUvarint fuel v.toNat).length then none else some (putUvarint fuel v.toNat) := by
  rw [uvarintEncode_big,bigEncode_eq small]

theorem encodeUvarint_eq (n : Nat) : Pigeon.WebSession.encodeUvarint n = bigEncode n :=
  (bigEncode_eq ((Nat.lt_pow_self (by decide)).trans_le (Nat.pow_le_pow_right (by decide) (Nat.le_succ n)))).symm

theorem not_highOctet_putUvarint {k n : Nat} (width : k ≤ 9) (small : n * 128 ^ (9 - k) < 2 ^ 64) (rest : Bytes) :
    ¬ HighOctet k (putUvarint k n ++ rest) := by
  induction k generalizing n with
  | zero =>
    have bit : n ≤ 1 := by norm_num at small; omega
    have octet : (UInt8.ofNat n).toNat = n := by rw [UInt8.toNat_ofNat']; omega
    rw [putUvarint,cons_append,highOctet_zero,octet]
    omega
  | succ k ih =>
    rw [putUvarint]
    split_ifs with low
    · have octet : (UInt8.ofNat n).toNat = n := by rw [UInt8.toNat_ofNat']; omega
      rw [cons_append,highOctet_succ,octet]
      exact fun both => both.1 low
    · have grow : (128 : Nat) ^ (9 - k) = 128 * 128 ^ (9 - (k + 1)) := by
        rw [← Nat.pow_succ']
        congr 1
        omega
      have part : n / 128 * 128 ≤ n := Nat.div_mul_le_self n 128
      have smaller : n / 128 * 128 ^ (9 - k) < 2 ^ 64 := by
        calc n / 128 * 128 ^ (9 - k) = n / 128 * 128 * 128 ^ (9 - (k + 1)) := by rw [grow,Nat.mul_assoc]
          _ ≤ n * 128 ^ (9 - (k + 1)) := Nat.mul_le_mul_right _ part
          _ < 2 ^ 64 := small
      rw [cons_append,highOctet_succ]
      exact fun both => ih (by omega) smaller both.2

theorem uvarint_putUvarint (v : UInt64) (rest : Bytes) :
    uvarint 0 0 0 (putUvarint 9 v.toNat ++ rest) = .ok (v,(putUvarint 9 v.toNat).length) := by
  have back := getUvarint_putUvarint (show 0 + 9 = 9 from rfl) (by simpa using v.toNat_lt : v.toNat * 128 ^ 0 < 2 ^ 64) 0 rest
  have loop := getUvarint_eq (i := 0) (x := 0) (by omega) (by decide) (putUvarint 9 v.toNat ++ rest)
  simp only [Nat.zero_add,pow_zero,Nat.mul_one] at back
  rw [show (0 : UInt64).toNat = 0 from rfl,back] at loop
  cases read : uvarint 0 (7 * 0) 0 (putUvarint 9 v.toNat ++ rest) with
  | error code => rw [read] at loop; cases loop
  | ok r =>
    rw [read] at loop
    have count := (count_bounds read).2
    simp only [Except.toOption,map_some,readFrom,some.injEq,Prod.mk.injEq,Nat.sub_zero] at loop
    obtain ⟨value,follows⟩ := loop
    have left := congrArg length follows
    rw [length_drop] at left
    rw [length_append] at count left
    have same : r = (v,(putUvarint 9 v.toNat).length) :=
      Prod.ext (UInt64.toNat_inj.mp value.symm) (by simp only; omega)
    rw [same]

/-- Every implementation reads the number back that it has written. The C encoders have a buffer of `room` octets. -/
structure ReadBack (v : UInt64) (room : Nat) : Prop where
  go : uvarint 0 0 0 (putUvarint 9 v.toNat) = .ok (v,(putUvarint 9 v.toNat).length)
  pigeon : ∃ octets, uvarintEncode room v = some octets ∧ pigeonUvarintDecode 0 0 0 octets = .ok (v,octets.length)
  auth : ∃ octets, uvarintEncode room v = some octets ∧ authDecode 0 0 0 octets = .ok (v,octets.length)
  swift : swiftDecodeUvarint (emittedEncode v) = .ok (v,(emittedEncode v).length)
  kotlin : kotlinDecodeUvarint (emittedEncode v) = .ok (v,(emittedEncode v).length)
  typescript : ∃ octets, tsEncodeUvarint v.toNat = .ok octets ∧ tsDecodeUvarint octets = .ok (v.toNat,octets.length)

/-- Every decoder reads from the octets the number and the count that `binary.Uvarint` reads, or refuses them as it
    does. -/
structure AgreeWithGo (bytes : Bytes) : Prop where
  pigeon : (pigeonUvarintDecode 0 0 0 bytes).toOption = (uvarint 0 0 0 bytes).toOption
  auth : (authDecode 0 0 0 bytes).toOption = (uvarint 0 0 0 bytes).toOption
  swift : (swiftDecodeUvarint bytes).toOption = (uvarint 0 0 0 bytes).toOption
  kotlin : (kotlinDecodeUvarint bytes).toOption = (uvarint 0 0 0 bytes).toOption
  typescript : (tsDecodeUvarint bytes).toOption = (uvarint 0 0 0 bytes).toOption.map (fun r => (r.1.toNat,r.2))

theorem agreeWithGo_iff (bytes : Bytes) : AgreeWithGo bytes ↔ ¬ HighOctet 9 bytes := by
  have words : ∀ {ε : Type} (tooLong truncated : ε),
      (emitted shifted tooLong truncated 0 0 0 bytes).toOption = (uvarint 0 0 0 bytes).toOption ↔
        ¬ HighOctet 9 bytes := by
    intro ε tooLong truncated
    have agree := emitted_agrees_iff id (fun _ _ _ _ _ => rfl) tooLong truncated (Nat.zero_le 9) 0 bytes
    simpa using agree
  constructor
  · exact fun agree => (words _ _).mp agree.swift
  · intro tame
    exact
      { pigeon := pigeon_agrees (Nat.zero_le 9) 0 bytes
        auth := (congrArg Except.toOption (authDecode_eq 0 0 bytes)).trans ((words _ _).mpr tame)
        swift := (words _ _).mpr tame
        kotlin := (words _ _).mpr tame
        typescript := (emitted_agrees_iff UInt64.toNat (fun _ _ _ low early => toNat_or_shifted_big low early) _ _
          (Nat.zero_le 9) 0 bytes).mpr tame }

theorem exists_error_of_toOption {α : Type} {result : Except ε α} (refused : result.toOption = none) :
    ∃ e, result = .error e := by
  cases result with
  | error e => exact ⟨e,rfl⟩
  | ok a => cases refused

theorem eq_ok_of_toOption {α : Type} {result : Except ε α} {a : α} (accepted : result.toOption = some a) :
    result = .ok a := by
  cases result with
  | error e => cases accepted
  | ok b => exact congrArg _ (Option.some.inj accepted)

theorem readBack (v : UInt64) {room : Nat} (enough : 10 ≤ room) : ReadBack v room := by
  have go := uvarint_putUvarint v []
  rw [append_nil] at go
  have width : v.toNat < 128 ^ (9 + 1) := Nat.lt_of_lt_of_le v.toNat_lt (by decide)
  have tame : ¬ HighOctet 9 (putUvarint 9 v.toNat) := by
    have fits := not_highOctet_putUvarint (Nat.le_refl 9) (by simpa using v.toNat_lt : v.toNat * 128 ^ (9 - 9) < 2 ^ 64) []
    rwa [append_nil] at fits
  have agree := (agreeWithGo_iff (putUvarint 9 v.toNat)).mpr tame
  have written : uvarintEncode room v = some (putUvarint 9 v.toNat) := by
    have length := length_putUvarint_le 9 v.toNat
    rw [uvarintEncode_eq width,if_neg (by omega)]
  have emits : emittedEncode v = putUvarint 9 v.toNat := (emittedEncode_eq v).trans (bigEncode_eq width)
  have read := congrArg Except.toOption go
  exact
    { go := go
      pigeon := ⟨_,written,eq_ok_of_toOption (agree.pigeon.trans read)⟩
      auth := ⟨_,written,eq_ok_of_toOption (agree.auth.trans read)⟩
      swift := by rw [emits]; exact eq_ok_of_toOption (agree.swift.trans read)
      kotlin := by rw [emits]; exact eq_ok_of_toOption (agree.kotlin.trans read)
      typescript := by
        refine ⟨_,by rw [tsEncodeUvarint,if_neg (by omega),Int.toNat_natCast,bigEncode_eq width],?_⟩
        exact eq_ok_of_toOption (agree.typescript.trans (by rw [read]; rfl)) }

/-- Every number is read back everywhere, and the decoders agree with `binary.Uvarint` just when the string does not
    begin with nine high octets and a tenth between 2 and 127. -/
theorem decoders_agree_iff (v : UInt64) (bytes : Bytes) :
    (∀ room, 10 ≤ room → ReadBack v room) ∧ (AgreeWithGo bytes ↔ ¬ HighOctet 9 bytes) :=
  ⟨fun _ enough => readBack v enough,agreeWithGo_iff bytes⟩

def twoInTenth : Bytes := [0x80,0x80,0x80,0x80,0x80,0x80,0x80,0x80,0x80,2]

theorem two_in_tenth_apart :
    (uvarint 0 0 0 twoInTenth).toOption = none ∧ (pigeonUvarintDecode 0 0 0 twoInTenth).toOption = none ∧
      (authDecode 0 0 0 twoInTenth).toOption = some (0,10) ∧ (swiftDecodeUvarint twoInTenth).toOption = some (0,10) ∧
      (kotlinDecodeUvarint twoInTenth).toOption = some (0,10) ∧
      (tsDecodeUvarint twoInTenth).toOption = some (2 ^ 64,10) := by
  decide

theorem largest_read_back : ReadBack 0xffffffffffffffff 10 ∧ AgreeWithGo [0x80,1] := by
  refine ⟨(decoders_agree_iff 0xffffffffffffffff []).1 10 (by decide),(decoders_agree_iff 0 [0x80,1]).2.mpr ?_⟩
  simp [HighOctet]

end Pigeon.Varints
