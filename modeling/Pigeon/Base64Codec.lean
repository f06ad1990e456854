import Pigeon.PairingFields

/-!
The base64 codec of the pairing messages (`b64_encode` and `b64_decode` in `pairing.c`). The
decoder takes any padding, reads groups of two to four characters, and looks at no left-over
bits. What it accepts is the encoding of what it returns just for standard text
(`base64_codec_iff`).
-/
namespace Pigeon.Base64Codec
open Octets KeySchedule PairingWire PairingFields Option

/-- `b64_encode`, with the room it is given. -/
def b64EncodeInto (src : Bytes) (dstLen : Nat) : Option Bytes :=
  -- The room is compared before each group, and for an empty string not at all.
  if src ≠ [] ∧ dstLen ≤ (b64Encode src).length then none else intReturn (b64Encode src)

/-- `b64_decode`, with the room it is given. -/
def b64DecodeInto (src : Bytes) (dstCap : Nat) : Option Bytes := (b64Decode src dstCap).bind intReturn

def alphabet (c : UInt8) : Bool := (b64DecodeChar c).isSome

def lowBitsClear (bits : Nat) (c : UInt8) : Bool := (b64DecodeChar c).any (· % 2 ^ bits = 0)

/-- Groups of four characters of the alphabet; the last may end in one or two `=`, with no bits left over. -/
def Standard : Bytes → Bool
  | [] => true
  | c0 :: c1 :: c2 :: c3 :: rest =>
    if rest = [] ∧ c3 = 61 then
      if c2 = 61 then alphabet c0 && lowBitsClear 4 c1 else alphabet c0 && alphabet c1 && lowBitsClear 2 c2
    else alphabet c0 && alphabet c1 && alphabet c2 && alphabet c3 && Standard rest
  | _ => false

variable {c : UInt8} {v : Nat}

theorem b64Char_of_decode (read : b64DecodeChar c = some v) : v < 64 ∧ b64Char v = c := by
  have each : ∀ n : Fin 256, ∀ v ∈ b64DecodeChar (UInt8.ofFin n), v < 64 ∧ b64Char v = UInt8.ofFin n := by
    decide +kernel
  exact each c.toFin v read

theorem alphabet_b64Char (small : v < 64) : alphabet (b64Char v) := by
  rw [alphabet,(b64Char_spec small).1]
  rfl

theorem lowBitsClear_b64Char (bits : Nat) (small : v < 64) (clear : v % 2 ^ bits = 0) :
    lowBitsClear bits (b64Char v) := by
  rw [lowBitsClear,(b64Char_spec small).1]
  simp [clear]

theorem exists_of_alphabet (known : alphabet c) : ∃ v, v < 64 ∧ c = b64Char v := by
  obtain ⟨v,read⟩ := isSome_iff_exists.mp known
  obtain ⟨small,char⟩ := b64Char_of_decode read
  exact ⟨v,small,char.symm⟩

theorem exists_of_lowBitsClear {bits} (known : lowBitsClear bits c) :
    ∃ v, v < 64 ∧ v % 2 ^ bits = 0 ∧ c = b64Char v := by
  rw [lowBitsClear,any_eq_true] at known
  obtain ⟨v,read,clear⟩ := known
  obtain ⟨small,char⟩ := b64Char_of_decode read
  exact ⟨v,small,by simpa using clear,char.symm⟩

theorem standard_encode (octets : Bytes) : Standard (b64Encode octets) := by
  induction octets using b64Encode.induct with
  | case1 => rfl
  | case2 b0 =>
    have := b0.toNat_lt
    rw [b64Encode,Standard]
    simp [alphabet_b64Char (show b0.toNat / 4 < 64 by omega),
      lowBitsClear_b64Char 4 (show b0.toNat % 4 * 16 < 64 by omega) (by omega)]
  | case3 b0 b1 =>
    have := b0.toNat_lt
    have := b1.toNat_lt
    have third := b64Char_spec (show b1.toNat % 16 * 4 < 64 by omega)
    rw [b64Encode,Standard]
    simp [third.2.1,alphabet_b64Char (show b0.toNat / 4 < 64 by omega),
      alphabet_b64Char (show b0.toNat % 4 * 16 + b1.toNat / 16 < 64 by omega),
      lowBitsClear_b64Char 2 (show b1.toNat % 16 * 4 < 64 by omega) (by omega)]
  | case4 b0 b1 b2 rest ih =>
    have := b0.toNat_lt
    have := b1.toNat_lt
    have := b2.toNat_lt
    have fourth := b64Char_spec (show b2.toNat % 64 < 64 by omega)
    rw [b64Encode,Standard,if_neg (fun both => fourth.2.1 both.2),ih,
      alphabet_b64Char (show b0.toNat / 4 < 64 by omega),
      alphabet_b64Char (show b0.toNat % 4 * 16 + b1.toNat / 16 < 64 by omega),
      alphabet_b64Char (show b1.toNat % 16 * 4 + b2.toNat / 64 < 64 by omega),
      alphabet_b64Char (show b2.toNat % 64 < 64 by omega)]
    rfl

theorem toNat_ofNat_of_lt {n} (small : n < 256) : (UInt8.ofNat n).toNat = n := by
  rw [UInt8.toNat_ofNat']
  exact Nat.mod_eq_of_lt small

variable {src : Bytes}

theorem exists_of_standard (standard : Standard src) : ∃ octets, src = b64Encode octets := by
  induction src using Standard.induct with
  | case1 => exact ⟨[],rfl⟩
  | case2 c0 c1 c3 rest last =>
    obtain ⟨rfl,rfl⟩ := last
    rw [Standard,if_pos ⟨rfl,rfl⟩,if_pos rfl] at standard
    obtain ⟨first,second⟩ := Bool.and_eq_true_iff.mp standard
    obtain ⟨v0,small0,rfl⟩ := exists_of_alphabet first
    obtain ⟨v1,small1,clear,rfl⟩ := exists_of_lowBitsClear second
    refine ⟨[UInt8.ofNat (v0 * 4 + v1 / 16)],?_⟩
    rw [b64Encode,toNat_ofNat_of_lt (by omega)]
    rw [show (v0 * 4 + v1 / 16) / 4 = v0 by omega,show (v0 * 4 + v1 / 16) % 4 * 16 = v1 by omega]
  | case3 c0 c1 c2 c3 rest last other =>
    obtain ⟨rfl,rfl⟩ := last
    rw [Standard,if_pos ⟨rfl,rfl⟩,if_neg other] at standard
    obtain ⟨front,third⟩ := Bool.and_eq_true_iff.mp standard
    obtain ⟨first,second⟩ := Bool.and_eq_true_iff.mp front
    obtain ⟨v0,small0,rfl⟩ := exists_of_alphabet first
    obtain ⟨v1,small1,rfl⟩ := exists_of_alphabet second
    obtain ⟨v2,small2,clear,rfl⟩ := exists_of_lowBitsClear third
    refine ⟨[UInt8.ofNat (v0 * 4 + v1 / 16),UInt8.ofNat (v1 % 16 * 16 + v2 / 4)],?_⟩
    rw [b64Encode,toNat_ofNat_of_lt (by omega),toNat_ofNat_of_lt (by omega)]
    rw [show (v0 * 4 + v1 / 16) / 4 = v0 by omega,
      show (v0 * 4 + v1 / 16) % 4 * 16 + (v1 % 16 * 16 + v2 / 4) / 16 = v1 by omega,
      show (v1 % 16 * 16 + v2 / 4) % 16 * 4 = v2 by omega]
  | case4 c0 c1 c2 c3 rest more ih =>
    rw [Standard,if_neg more] at standard
    simp only [Bool.and_eq_true] at standard
    obtain ⟨⟨⟨⟨first,second⟩,third⟩,fourth⟩,others⟩ := standard
    obtain ⟨v0,small0,rfl⟩ := exists_of_alphabet first
    obtain ⟨v1,small1,rfl⟩ := exists_of_alphabet second
    obtain ⟨v2,small2,rfl⟩ := exists_of_alphabet third
    obtain ⟨v3,small3,rfl⟩ := exists_of_alphabet fourth
    obtain ⟨octets,rfl⟩ := ih others
    refine ⟨UInt8.ofNat (v0 * 4 + v1 / 16) :: UInt8.ofNat (v1 % 16 * 16 + v2 / 4) ::
      UInt8.ofNat (v2 % 4 * 64 + v3) :: octets,?_⟩
    rw [b64Encode,toNat_ofNat_of_lt (by omega),toNat_ofNat_of_lt (by omega),toNat_ofNat_of_lt (by omega)]
    rw [show (v0 * 4 + v1 / 16) / 4 = v0 by omega,
      show (v0 * 4 + v1 / 16) % 4 * 16 + (v1 % 16 * 16 + v2 / 4) / 16 = v1 by omega,
      show (v1 % 16 * 16 + v2 / 4) % 16 * 4 + (v2 % 4 * 64 + v3) / 64 = v2 by omega,
      show (v2 % 4 * 64 + v3) % 64 = v3 by omega]
  | case5 src short long => rw [Standard] at standard <;> simp_all

theorem length_b64Encode (octets : Bytes) : (b64Encode octets).length = (octets.length + 2) / 3 * 4 := by
  induction octets using b64Encode.induct with
  | case1 => rfl
  | case2 | case3 => simp [b64Encode]
  | case4 b0 b1 b2 rest ih =>
    simp only [b64Encode,List.length_cons,ih]
    omega

theorem length_b64Group_le (v0 v1 : Nat) (v2 v3 : Option Nat) : (b64Group v0 v1 v2 v3).length ≤ 3 := by
  cases v2 <;> cases v3 <;> simp [b64Group]

variable {out : Bytes}

theorem length_of_b64Groups (read : b64Groups src = some out) : 4 * out.length ≤ 3 * src.length := by
  induction src using b64Groups.induct generalizing out with
  | case1 => cases read; exact Nat.le_refl 0
  | case2 c => cases read
  | case3 c0 c1 =>
    simp only [b64Groups,bind_eq_bind,bind_eq_some_iff,pure_def,some.injEq] at read
    obtain ⟨v0,-,v1,-,rfl⟩ := read
    simp [b64Group]
  | case4 c0 c1 c2 =>
    simp only [b64Groups,bind_eq_bind,bind_eq_some_iff,pure_def,some.injEq] at read
    obtain ⟨v0,-,v1,-,rfl⟩ := read
    cases b64DecodeChar c2 <;> simp [b64Group]
  | case5 c0 c1 c2 c3 rest ih =>
    simp only [b64Groups,bind_eq_bind,bind_eq_some_iff,pure_def,some.injEq] at read
    obtain ⟨v0,-,v1,-,others,later,rfl⟩ := read
    have group := length_b64Group_le v0 v1 (b64DecodeChar c2) (b64DecodeChar c3)
    have tail := ih later
    simp only [List.length_append,List.length_cons]
    omega

variable {cap : Nat}

theorem length_of_b64Decode (read : b64Decode src cap = some out) : 4 * out.length ≤ 3 * src.length := by
  have groups := length_of_b64Groups (filter_eq_some_iff.mp read).1
  have shorter := (List.dropWhile_sublist (fun c : UInt8 => decide (c = 61)) (l := src.reverse)).length_le
  simp only [List.length_reverse] at groups shorter
  omega

variable {octets : Bytes}

theorem eq_of_b64Decode_encode (read : b64Decode (b64Encode octets) cap = some out) : out = octets := by
  have groups := (filter_eq_some_iff.mp read).1
  have whole := b64Decode_encode (Nat.le_refl octets.length)
  rw [b64Decode,groups,filter_eq_some_iff] at whole
  exact Option.some.inj whole.1

theorem b64EncodeInto_eq {dstLen} (room : (b64Encode octets).length < dstLen) :
    b64EncodeInto octets dstLen = intReturn (b64Encode octets) := by
  rw [b64EncodeInto,if_neg]
  omega

theorem decode_encode_iff {dstLen} (room : (b64Encode octets).length < dstLen) (fits : octets.length ≤ cap) :
    (b64EncodeInto octets dstLen).bind (fun text => b64DecodeInto text cap) = some octets ↔
      (octets.length + 2) / 3 * 4 < 2 ^ 31 := by
  rw [b64EncodeInto_eq room,← length_b64Encode]
  constructor
  · intro back
    by_contra large
    obtain ⟨text,taken,read⟩ := bind_eq_some_iff.mp back
    obtain ⟨out,decoded,returned⟩ := bind_eq_some_iff.mp read
    have short := length_of_intReturn taken
    have few := length_of_b64Decode decoded
    have less : octets.length ≤ out.length := by
      unfold intReturn at returned
      split at returned
      · cases returned
      · rw [← Option.some.inj returned,List.length_take]
        exact Nat.min_le_right _ _
    have quads := length_b64Encode octets
    have cut : text.length % 4 = 0 := by
      unfold intReturn at taken
      split at taken
      · cases taken
      · rw [← Option.some.inj taken,List.length_take]
        omega
    omega
  · intro small
    rw [intReturn_of_lt small,bind_some,b64DecodeInto,b64Decode_encode fits,bind_some,intReturn_of_lt]
    rw [length_b64Encode] at small
    omega

theorem eq_encode_iff (accepted : b64DecodeInto src cap = some out) :
    src = b64Encode out ↔ Standard src ∧ src.length < 2 ^ 32 := by
  obtain ⟨octets,decoded,returned⟩ := bind_eq_some_iff.mp accepted
  have short := length_of_intReturn returned
  constructor
  · rintro rfl
    refine ⟨standard_encode out,?_⟩
    rw [length_b64Encode]
    omega
  · rintro ⟨standard,small⟩
    obtain ⟨written,rfl⟩ := exists_of_standard standard
    cases eq_of_b64Decode_encode decoded
    rw [length_b64Encode] at small
    rw [eq_of_intReturn (by omega) returned]

/-- What is encoded is decoded, and accepted text is the encoding of what it gives just when it is standard; as far as
    an `int` counts. -/
theorem base64_codec_iff (octets src out : Bytes) (dstLen cap : Nat) :
    ((b64Encode octets).length < dstLen → octets.length ≤ cap →
      ((b64EncodeInto octets dstLen).bind (fun text => b64DecodeInto text cap) = some octets ↔
        (octets.length + 2) / 3 * 4 < 2 ^ 31)) ∧
    (b64DecodeInto src cap = some out → (src = b64Encode out ↔ Standard src = true ∧ src.length < 2 ^ 32)) :=
  ⟨decode_encode_iff,eq_encode_iff⟩

theorem greeting_codec : (b64EncodeInto [104,105] 5).bind (fun text => b64DecodeInto text 2) = some [104,105] ∧
      "aGk=" = b64Encode [104,105] :=
  ⟨((base64_codec_iff [104,105] [] [] 5 2).1 (by decide) (by decide)).mpr (by decide),
    ((base64_codec_iff [] "aGk=" [104,105] 0 2).2 (by decide +kernel)).mpr (by decide +kernel)⟩

/-- Foreign characters, missing and superfluous padding and left-over bits: all give the octet of `QQ==`. -/
theorem loose_text_accepted : b64Encode [65] = "QQ==" ∧ b64DecodeInto "QQ!!" 3 = some [65] ∧
      b64DecodeInto "QQ" 3 = some [65] ∧ b64DecodeInto "QQ=====" 3 = some [65] ∧
      b64DecodeInto "QR==" 3 = some [65] := by
  decide +kernel

end Pigeon.Base64Codec
