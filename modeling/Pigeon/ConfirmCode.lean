import Pigeon.PairingWire

/-!
The code that the two users of a pairing ceremony compare, as derived in Go
(`crypto/crypto.go`), C (`crypto.c`), Swift (`E2ECrypto.swift`) and TypeScript
(`web/src/crypto.ts`). The four order the keys by different comparisons and come to the same
code, whichever key is named first (`codes_alike`).
-/
namespace Pigeon.ConfirmCode
open Octets Sealing KeySchedule PairingWire List

section
variable (hmac : Bytes → Bytes → Key)

/-- The output blocks of RFC 5869 from the block `i` on, after the block `previous`. -/
def expandFrom (prk info : Bytes) : Nat → Nat → Bytes → Bytes
  | 0, _, _ => []
  | n + 1, i, previous =>
    let t := (hmac prk (previous ++ info ++ [UInt8.ofNat i])).bytes
    t ++ expandFrom prk info n (i + 1) t

/-- HKDF-SHA256 of a platform, with an empty salt, for `len` octets. -/
def hkdf (ikm info : Bytes) (len : Nat) : Option Bytes :=
  if 255 * 32 < len then none
  else some ((expandFrom hmac (hmac (replicate 32 0) ikm).bytes info ((len + 31) / 32) 1 []).take len)

def decimal (n : Nat) : Bytes := (Nat.toDigits 10 n).map (fun c => UInt8.ofNat c.toNat)

/-- Zeros on the left, up to a width: `padStart(w, "0")`, and the format `%0wd`. -/
def zeroPadded (w : Nat) (digits : Bytes) : Bytes := replicate (w - digits.length) 48 ++ digits

def bytesCompare : Bytes → Bytes → Int
  | [], [] => 0
  | [], _ :: _ => -1
  | _ :: _, [] => 1
  | a :: as, b :: bs => if a < b then -1 else if b < a then 1 else bytesCompare as bs

/-- `DeriveConfirmationCode` of the Go module. -/
def goDeriveConfirmationCode (pubA pubB : Key) : Option Bytes := do
  let (a,b) := if 0 < bytesCompare pubA.bytes pubB.bytes then (pubB.bytes,pubA.bytes) else (pubA.bytes,pubB.bytes)
  let buf ← hkdf hmac (a ++ b) "pairing-confirmation" 4
  return zeroPadded 6 (decimal (ofBe buf % 1000000))

def lexicographicallyPrecedes : Bytes → Bytes → Bool
  | _, [] => false
  | [], _ :: _ => true
  | a :: as, b :: bs => if a < b then true else if b < a then false else lexicographicallyPrecedes as bs

/-- `deriveConfirmationCode` of the Swift module. -/
def swiftDeriveConfirmationCode (pubA pubB : Key) : Option Bytes := do
  let (a,b) := if lexicographicallyPrecedes pubA.bytes pubB.bytes then (pubA.bytes,pubB.bytes)
    else (pubB.bytes,pubA.bytes)
  let bytes ← hkdf hmac (a ++ b) "pairing-confirmation" 4
  return zeroPadded 6 (decimal (ofBe (bytes.take 4) % 1000000))

def compareBytes : Bytes → Bytes → Int
  | a :: as, b :: bs => if a ≠ b then a.toNat - b.toNat else compareBytes as bs
  | as, bs => as.length - bs.length

/-- `deriveConfirmationCode` of TypeScript, with the 256 bits of `deriveKeyFromSecret`. -/
def tsDeriveConfirmationCode (pubA pubB : Key) : Option Bytes := do
  let (a,b) := if 0 < compareBytes pubA.bytes pubB.bytes then (pubB.bytes,pubA.bytes) else (pubA.bytes,pubB.bytes)
  let derived ← hkdf hmac (a ++ b) "pairing-confirmation" 32
  return zeroPadded 6 (decimal (ofBe (derived.take 4) % 1000000))

end

theorem memcmpLe_total {a b} (greater : memcmpLe a b = false) : memcmpLe b a := by
  induction a generalizing b with
  | nil => cases greater
  | cons x a ih =>
    cases b with
    | nil => rfl
    | cons y b =>
      rw [memcmpLe] at greater ⊢
      split_ifs at greater with less more
      · rw [if_pos more]
      · rw [if_neg more,if_neg less]
        exact ih greater

theorem memcmpLe_antisymm {a b} (least : memcmpLe a b) (greatest : memcmpLe b a) : a = b := by
  induction a generalizing b with
  | nil =>
    cases b with
    | nil => rfl
    | cons y b => cases greatest
  | cons x a ih =>
    cases b with
    | nil => cases least
    | cons y b =>
      rw [memcmpLe] at least greatest
      by_cases less : x < y
      · rw [if_neg (UInt8.lt_asymm less),if_pos less] at greatest
        cases greatest
      · by_cases more : y < x
        · rw [if_neg less,if_pos more] at least
          cases least
        · rw [if_neg less,if_neg more] at least
          rw [if_neg more,if_neg less] at greatest
          rw [UInt8.le_antisymm (UInt8.not_lt.mp more) (UInt8.not_lt.mp less),ih least greatest]

def inOrder (a b : Bytes) : Bytes := if memcmpLe a b then a ++ b else b ++ a

theorem inOrder_comm (a b : Bytes) : inOrder a b = inOrder b a := by
  unfold inOrder
  cases forward : memcmpLe a b with
  | false => rw [memcmpLe_total forward]; rfl
  | true =>
    cases backward : memcmpLe b a with
    | false => rfl
    | true => rw [memcmpLe_antisymm forward backward]

theorem bytesCompare_pos (a b : Bytes) : 0 < bytesCompare a b ↔ memcmpLe a b = false := by
  induction a generalizing b with
  | nil => cases b <;> simp [bytesCompare,memcmpLe]
  | cons x a ih =>
    cases b with
    | nil => simp [bytesCompare,memcmpLe]
    | cons y b =>
      rw [bytesCompare,memcmpLe]
      split_ifs
      · simp
      · simp
      · exact ih b

theorem compareBytes_pos (a b : Bytes) : 0 < compareBytes a b ↔ memcmpLe a b = false := by
  induction a generalizing b with
  | nil => simp [compareBytes,memcmpLe]
  | cons x a ih =>
    cases b with
    | nil => simp [compareBytes,memcmpLe]
    | cons y b =>
      rw [compareBytes,memcmpLe]
      by_cases same : x = y
      · subst same
        simp [ih b]
      · rw [if_pos same]
        by_cases less : x < y
        · have lower : x.toNat < y.toNat := UInt8.lt_iff_toNat_lt.mp less
          simp [less]
          omega
        · have more : y < x := UInt8.lt_of_le_of_ne (UInt8.not_lt.mp less) (fun eq => same eq.symm)
          have lower : y.toNat < x.toNat := UInt8.lt_iff_toNat_lt.mp more
          simpa [less,more] using lower

theorem precedes_eq (a b : Bytes) : lexicographicallyPrecedes a b = !memcmpLe b a := by
  induction a generalizing b with
  | nil => cases b <;> rfl
  | cons x a ih =>
    cases b with
    | nil => rfl
    | cons y b =>
      rw [lexicographicallyPrecedes,memcmpLe,ih b]
      by_cases less : x < y
      · rw [if_pos less,if_neg (UInt8.lt_asymm less),if_pos less]; rfl
      · rw [if_neg less,if_neg less]
        split_ifs <;> rfl

def digits : Nat → Nat → Bytes
  | 0, _ => []
  | w + 1, n => digits w (n / 10) ++ [UInt8.ofNat (48 + n % 10)]

theorem digits_length (w n : Nat) : (digits w n).length = w := by
  induction w generalizing n with
  | zero => rfl
  | succ w ih => rw [digits,length_append,ih]; rfl

theorem sixDigits_eq (n : Nat) : sixDigits n = digits 6 n := by
  simp [sixDigits,digits,range_succ,Nat.div_div_eq_div_mul]

theorem decimal_small {n} (small : n < 10) : decimal n = [UInt8.ofNat (48 + n)] := by
  revert n
  decide

theorem decimal_step {n} (large : 10 ≤ n) : decimal n = decimal (n / 10) ++ [UInt8.ofNat (48 + n % 10)] := by
  have last : n % 10 < 10 := Nat.mod_lt n (by decide)
  rw [← decimal_small last,decimal,decimal,decimal,Nat.toDigits_of_base_le (by decide) large,map_append,
    Nat.toDigits_of_lt_base last]

theorem zeroPadded_decimal (w : Nat) {n} (fits : n < 10 ^ (w + 1)) :
    zeroPadded (w + 1) (decimal n) = digits (w + 1) n := by
  induction w generalizing n with
  | zero =>
    have small : n < 10 := by simpa using fits
    rw [decimal_small small,digits,Nat.mod_eq_of_lt small]
    rfl
  | succ w ih =>
    by_cases small : n < 10
    · have zeros : digits (w + 1) 0 = replicate (w + 1) 48 := by
        rw [← ih (Nat.pow_pos (by decide)),replicate_succ']
        rfl
      rw [decimal_small small,digits,Nat.div_eq_of_lt small,Nat.mod_eq_of_lt small,zeros]
      rfl
    · have large : 10 ≤ n := Nat.not_lt.mp small
      have front : n / 10 < 10 ^ (w + 1) := by
        rw [Nat.div_lt_iff_lt_mul (by decide),← Nat.pow_succ]
        exact fits
      rw [digits,← ih front,decimal_step large,zeroPadded,zeroPadded,length_append,length_singleton,
        Nat.add_sub_add_right,append_assoc]

section
variable (hmac : Bytes → Bytes → Key)

def derived (pubA pubB : Key) : Bytes :=
  (hmac (hmac (replicate 32 0) (inOrder pubA.bytes pubB.bytes)).bytes (ascii "pairing-confirmation" ++ [1])).bytes

def code (pubA pubB : Key) : Bytes := digits 6 (ofBe ((derived hmac pubA pubB).take 4) % 1000000)

theorem hkdf_eq (ikm info : Bytes) {len} (nonzero : 0 < len) (block : len ≤ 32) :
    hkdf hmac ikm info len = some ((hmac (hmac (replicate 32 0) ikm).bytes (info ++ [1])).bytes.take len) := by
  have one : (len + 31) / 32 = 1 := by omega
  have few : ¬ 255 * 32 < len := by omega
  rw [hkdf,if_neg few,one]
  simp [expandFrom]

theorem shown_eq (buf : Bytes) : zeroPadded 6 (decimal (ofBe buf % 1000000)) = digits 6 (ofBe buf % 1000000) :=
  zeroPadded_decimal 5 (Nat.mod_lt _ (by decide))

theorem code_comm (pubA pubB : Key) : code hmac pubA pubB = code hmac pubB pubA := by
  rw [code,code,derived,derived,inOrder_comm]

theorem c_code (pubA pubB : Key) : deriveConfirmationCode hmac pubA pubB = some (code hmac pubA pubB) := by
  have label : ¬ 255 < (ascii "pairing-confirmation").length := by decide
  simp only [deriveConfirmationCode,hkdfSha256,if_neg label,sixDigits_eq]
  rfl

theorem go_code (pubA pubB : Key) : goDeriveConfirmationCode hmac pubA pubB = some (code hmac pubA pubB) := by
  simp only [goDeriveConfirmationCode,bytesCompare_pos,code,derived,inOrder]
  cases memcmpLe pubA.bytes pubB.bytes <;> simp [hkdf_eq,shown_eq]

theorem ts_code (pubA pubB : Key) : tsDeriveConfirmationCode hmac pubA pubB = some (code hmac pubA pubB) := by
  simp only [tsDeriveConfirmationCode,compareBytes_pos,code,derived,inOrder]
  cases memcmpLe pubA.bytes pubB.bytes <;> simp [hkdf_eq,shown_eq,take_take]

theorem swift_code (pubA pubB : Key) : swiftDeriveConfirmationCode hmac pubA pubB = some (code hmac pubA pubB) := by
  rw [code_comm]
  simp only [swiftDeriveConfirmationCode,precedes_eq,code,derived,inOrder]
  cases memcmpLe pubB.bytes pubA.bytes <;> simp [hkdf_eq,shown_eq,take_take]

/-- Every library shows one code of six characters for two keys, in either order. -/
theorem codes_alike (pubA pubB : Key) : ∃ shown : Bytes, shown.length = 6 ∧
      (goDeriveConfirmationCode hmac pubA pubB = some shown ∧ goDeriveConfirmationCode hmac pubB pubA = some shown) ∧
      (deriveConfirmationCode hmac pubA pubB = some shown ∧ deriveConfirmationCode hmac pubB pubA = some shown) ∧
      (swiftDeriveConfirmationCode hmac pubA pubB = some shown ∧
        swiftDeriveConfirmationCode hmac pubB pubA = some shown) ∧
      tsDeriveConfirmationCode hmac pubA pubB = some shown ∧ tsDeriveConfirmationCode hmac pubB pubA = some shown := by
  refine ⟨code hmac pubA pubB,digits_length 6 _,⟨go_code hmac pubA pubB,?_⟩,⟨c_code hmac pubA pubB,?_⟩,
    ⟨swift_code hmac pubA pubB,?_⟩,ts_code hmac pubA pubB,?_⟩
  · rw [go_code,code_comm]
  · rw [c_code,code_comm]
  · rw [swift_code,code_comm]
  · rw [ts_code,code_comm]

end

/-- A code with leading zeros. -/
example : zeroPadded 6 (decimal 42) = "000042" ∧ sixDigits 42 = "000042" := by decide

end Pigeon.ConfirmCode
