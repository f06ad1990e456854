import Pigeon.EmittedLocals
import Pigeon.PlainFormats
import Pigeon.Runes

/-!
The decoders that the generators emit for a plain format in Swift, Kotlin and TypeScript
beside the one for Go. Lengths become an `Int`, a 32-bit `Int` or a `Number`, and strings go
through each library's decoder (`TextDecoders`). The four agree on a buffer just when it is
`tame` (`native_decoders_agree_iff`).
-/
namespace Pigeon.NativeFormats
open Octets KeySchedule Runes WireFormats Varints PlainFormats List Option
open EmittedLocals (Target Apart decodeFn nodup_decodeFn_iff)

def mark : Bytes := [0xEF,0xBB,0xBF]

def plainText (b : Bytes) : Bool := validUtf8 b && !mark.isPrefixOf b

/-- The text decoders that the emitted code calls: Swift's has no result for octets that are not
    UTF-8, Kotlin's and `TextDecoder` replace them, and the last takes a byte order mark away.
    -/
structure TextDecoders where
  swift : Bytes → Option Bytes
  (kotlin typescript : Bytes → Bytes)
  swift_plain : ∀ b, plainText b = true → swift b = some b
  swift_invalid : ∀ b, validUtf8 b = false → swift b = none
  kotlin_valid : ∀ b, validUtf8 b = true → kotlin b = b
  typescript_plain : ∀ b, plainText b = true → typescript b = b
  typescript_mark : ∀ rest, validUtf8 (mark ++ rest) = true → typescript (mark ++ rest) = rest

inductive Shown
  | number (n : Nat)
  | text (b : Bytes)
  | bytes (b : Bytes)
deriving DecidableEq

def shown : Value → Shown
  | .u32 v => .number v.toNat
  | .varint v => .number v.toNat
  | .text b => .text b
  | .bytes b => .bytes b

inductive Stop (ε : Type)
  | failed (error : ε)
  | crashed
deriving DecidableEq

/-- `Int(_lenU)` traps from here on. -/
def intMax : Nat := 2 ^ 63

/-- The code of `swiftEmitDecodeField`. -/
def swiftDecodeField (d : TextDecoders) (fl : WireField) (data : Bytes) : Except (Stop PigeonWireError) (Shown × Bytes) :=
  match fl.kind with
  | .u32be =>
    if data.length < 4 then .error (.failed .truncated) else .ok (.number (word32 data).toNat,data.drop 4)
  | .varint =>
    match swiftDecodeUvarint data with
    | .error e => .error (.failed e)
    | .ok (v,vn) => .ok (.number v.toNat,data.drop vn)
  | .stringLenV =>
    match swiftDecodeUvarint data with
    | .error e => .error (.failed e)
    | .ok (lenU,ln) =>
      if intMax ≤ lenU.toNat then .error .crashed
      else if (data.drop ln).length < lenU.toNat then .error (.failed .truncated)
      else .ok (.text ((d.swift ((data.drop ln).take lenU.toNat)).getD []),(data.drop ln).drop lenU.toNat)
  | .stringToEnd => .ok (.text ((d.swift data).getD []),[])
  | .bytesToEnd => .ok (.bytes data,[])
  | .other _ => .ok (.bytes [],data)

def toInt (v : UInt64) : Int :=
  if v.toNat % 2 ^ 32 < 2 ^ 31 then (v.toNat % 2 ^ 32 : Nat) else (v.toNat % 2 ^ 32 : Nat) - 2 ^ 32

/-- The statements of `kotlinEmitDecodeField`. `String` throws an exception of its own for a negative length. -/
def kotlinDecodeField (d : TextDecoders) (fl : WireField) (buf : Bytes) : Except (Stop Bytes) (Shown × Bytes) :=
  match fl.kind with
  | .u32be =>
    if buf.length < 4 then .error (.failed (ascii "truncated u32 " ++ fl.name))
    else .ok (.number (word32 buf).toNat,buf.drop 4)
  | .varint =>
    match kotlinDecodeUvarint buf with
    | .error e => .error (.failed (ascii e))
    | .ok (v,vn) => .ok (.number v.toNat,buf.drop vn)
  | .stringLenV =>
    match kotlinDecodeUvarint buf with
    | .error e => .error (.failed (ascii e))
    | .ok (lenU,ln) =>
      if ((buf.drop ln).length : Int) < toInt lenU then .error (.failed "truncated string")
      else if toInt lenU < 0 then .error .crashed
      else .ok (.text (d.kotlin ((buf.drop ln).take (toInt lenU).toNat)),(buf.drop ln).drop (toInt lenU).toNat)
  | .stringToEnd => .ok (.text (d.kotlin buf),[])
  | .bytesToEnd => .ok (.bytes buf,[])
  | .other _ => .ok (.bytes [],buf)

/-- `Number` of a `bigint`: the nearest number with 53 bits, the even one of two. -/
def toNumber (n : Nat) : Nat :=
  if n < 2 ^ 53 then n
  else
    let unit := 2 ^ (n.log2 - 52)
    if 2 * (n % unit) < unit ∨ 2 * (n % unit) = unit ∧ n / unit % 2 = 0 then n / unit * unit
    else (n / unit + 1) * unit

/-- The code of `tsEmitDecodeField`. -/
def tsDecodeField (d : TextDecoders) (fl : WireField) (buf : Bytes) : Except (Stop Bytes) (Shown × Bytes) :=
  match fl.kind with
  | .u32be =>
    if buf.length < 4 then .error (.failed (ascii "truncated u32 " ++ fl.name))
    else .ok (.number (ofBe (buf.take 4)),buf.drop 4)
  | .varint =>
    match tsDecodeUvarint buf with
    | .error e => .error (.failed (ascii e))
    | .ok (v,vn) => .ok (.number v,buf.drop vn)
  | .stringLenV =>
    match tsDecodeUvarint buf with
    | .error e => .error (.failed (ascii e))
    | .ok (lenU,ln) =>
      if (buf.drop ln).length < toNumber lenU then .error (.failed "truncated string")
      else .ok (.text (d.typescript ((buf.drop ln).take (toNumber lenU))),(buf.drop ln).drop (toNumber lenU))
  | .stringToEnd => .ok (.text (d.typescript buf),[])
  | .bytesToEnd => .ok (.bytes buf,[])
  | .other _ => .ok (.bytes [],buf)

structure Native (ε : Type) where
  field : WireField → Bytes → Except (Stop ε) (Shown × Bytes)
  length : Bytes → Option Int

def swift (d : TextDecoders) : Native PigeonWireError :=
  ⟨swiftDecodeField d,fun data => (swiftDecodeUvarint data).toOption.map fun r => (r.1.toNat : Int)⟩

def kotlin (d : TextDecoders) : Native Bytes :=
  ⟨kotlinDecodeField d,fun buf => (kotlinDecodeUvarint buf).toOption.map fun r => toInt r.1⟩

def typescript (d : TextDecoders) : Native Bytes :=
  ⟨tsDecodeField d,fun buf => (tsDecodeUvarint buf).toOption.map fun r => (toNumber r.1 : Int)⟩

/-- The code of `swiftEmitDecodeFn` and its like. -/
def Native.decode {ε : Type} (native : Native ε) : List WireField → Bytes → Except (Stop ε) (List Shown)
  | [],_ => .ok []
  | fl :: fields,buf =>
    match native.field fl buf with
    | .error stop => .error stop
    | .ok (v,rest) => (native.decode fields rest).map (v :: ·)

def spelled (buf : Bytes) : Option (Nat × Nat) := (tsDecodeUvarint buf).toOption

def Native.Wraps {ε : Type} (native : Native ε) : List WireField → Bytes → Prop
  | [],_ => False
  | fl :: fields,buf =>
    (fl.kind = .stringLenV ∧ ∃ r, spelled buf = some r ∧ native.length buf ≠ some (r.1 : Int)) ∨
      match native.field fl buf with
      | .error _ => False
      | .ok (_,rest) => native.Wraps fields rest

inductive Outcome
  | ok (values : List Shown)
  | failed
  | crashed

def outcome {ε : Type} : Except (Stop ε) (List Shown) → Outcome
  | .ok values => .ok values
  | .error (.failed _) => .failed
  | .error .crashed => .crashed

def goOutcome : Except Bytes (List Value) → Outcome
  | .ok values => .ok (values.map shown)
  | .error _ => .failed

/-- Four decoders fail, or succeed with the same values. What they have read before is `equal` or not. -/
def Unanimous (equal : Bool) (go swift kotlin typescript : Outcome) : Prop :=
  (go = .failed ∧ swift = .failed ∧ kotlin = .failed ∧ typescript = .failed) ∨
    equal = true ∧ ∃ values, go = .ok values ∧ swift = .ok values ∧ kotlin = .ok values ∧ typescript = .ok values

structure AgreeFrom (d : TextDecoders) (equal : Bool) (go : Outcome) (fields : List WireField) (buf : Bytes) : Prop where
  unanimous : Unanimous equal go (outcome ((swift d).decode fields buf)) (outcome ((kotlin d).decode fields buf))
    (outcome ((typescript d).decode fields buf))
  swift : ¬ (swift d).Wraps fields buf
  kotlin : ¬ (kotlin d).Wraps fields buf
  typescript : ¬ (typescript d).Wraps fields buf

def Agree (d : TextDecoders) (fields : List WireField) (buf : Bytes) : Prop :=
  AgreeFrom d true (goOutcome (goDecode fields buf)) fields buf

def goScope (fields : List WireField) : List Bytes :=
  ascii "buf" :: fields.map (fun fl => lowerCamel fl.name) ++ [ascii "err",ascii "off"]

structure Declared (fields : List WireField) : Prop where
  go : (goScope fields).Nodup
  native : ∀ target, (decodeFn target fields).Nodup

/-- The buffers read alike: `go` tells if the Go decoder has got here, `equal` if the values are the same, `null` what
    Go takes `nil` for. -/
def tame (go equal : Bool) (null : Bytes) : List WireField → Bytes → Bool
  | [],_ => go && equal
  | fl :: fields,buf =>
    match fl.kind with
    | .u32be => decide (buf.length < 4) || tame go equal (nilAfter null fl (.u32 0)) fields (buf.drop 4)
    | .varint =>
      match spelled buf with
      | none => true
      | some (n,count) => tame (go && decide (n < 2 ^ 64)) equal (nilAfter null fl (.varint 0)) fields (buf.drop count)
    | .stringLenV =>
      match spelled buf with
      | none => true
      | some (n,count) =>
        decide (n < 2 ^ 31) && (decide ((buf.drop count).length < n) ||
          tame go (equal && plainText ((buf.drop count).take n)) (nilAfter null fl (.text ((buf.drop count).take n))) fields
            ((buf.drop count).drop n))
    | .stringToEnd => tame go (equal && plainText buf) (nilAfter null fl (.text buf)) fields []
    | .bytesToEnd => tame go (equal && decide (null = [])) (nilAfter null fl (.bytes (null ++ buf))) fields []
    | .other _ => true

theorem word_read {ε : Type} (tooLong truncated : ε) (buf : Bytes) :
    (emitted shifted tooLong truncated 0 0 0 buf).toOption = (spelled buf).map fun r => (UInt64.ofNat r.1,r.2) :=
  emitted_word tooLong truncated "uvarint: too many bytes" "uvarint: truncated" (i := 0) 0 buf

theorem uvarint_read (buf : Bytes) : (uvarint 0 0 0 buf).toOption =
      ((spelled buf).filter fun r => decide (r.1 < 2 ^ 64)).map fun r => (UInt64.ofNat r.1,r.2) :=
  uvarint_of_big "uvarint: too many bytes" "uvarint: truncated" (Nat.zero_le 9) (x := 0) (by decide) buf

theorem unreadable {buf} (read : spelled buf = none) :
    (∃ e, swiftDecodeUvarint buf = .error e) ∧ (∃ e, kotlinDecodeUvarint buf = .error e) ∧
      (∃ e, tsDecodeUvarint buf = .error e) ∧ ∃ e, uvarint 0 0 0 buf = .error e := by
  have word {ε : Type} (tooLong truncated : ε) : (emitted shifted tooLong truncated 0 0 0 buf).toOption = none := by
    rw [word_read,read]
    rfl
  have go : (uvarint 0 0 0 buf).toOption = none := by
    rw [uvarint_read,read]
    rfl
  exact ⟨exists_error_of_toOption (word _ _),exists_error_of_toOption (word _ _),exists_error_of_toOption read,
    exists_error_of_toOption go⟩

theorem readable {buf n count} (read : spelled buf = some (n,count)) :
    swiftDecodeUvarint buf = .ok (UInt64.ofNat n,count) ∧ kotlinDecodeUvarint buf = .ok (UInt64.ofNat n,count) ∧
      tsDecodeUvarint buf = .ok (n,count) ∧
      (uvarint 0 0 0 buf).toOption = if n < 2 ^ 64 then some (UInt64.ofNat n,count) else none := by
  have word {ε : Type} (tooLong truncated : ε) :
      (emitted shifted tooLong truncated 0 0 0 buf).toOption = some (UInt64.ofNat n,count) := by
    rw [word_read,read]
    rfl
  refine ⟨eq_ok_of_toOption (word _ _),eq_ok_of_toOption (word _ _),eq_ok_of_toOption read,?_⟩
  rw [uvarint_read,read,filter_some]
  simp

theorem toNat_word {n} (small : n < 2 ^ 31) : (UInt64.ofNat n).toNat = n :=
  UInt64.toNat_ofNat_of_lt' (Nat.lt_trans small (by decide))

theorem toInt_ofNat {n} (small : n < 2 ^ 31) : toInt (UInt64.ofNat n) = n := by
  have word := toNat_word small
  have low : n % 2 ^ 32 = n := Nat.mod_eq_of_lt (by omega)
  rw [toInt,word,low,if_pos small]

theorem toInt_lt (v : UInt64) : toInt v < 2 ^ 31 := by
  unfold toInt
  split <;> omega

theorem toNumber_of_lt {n} (small : n < 2 ^ 31) : toNumber n = n := by
  rw [toNumber,if_pos (by omega)]

theorem alike_iff (d : TextDecoders) (b : Bytes) :
    (b = (d.swift b).getD [] ∧ b = d.kotlin b ∧ b = d.typescript b) ↔ plainText b := by
  constructor
  · rintro ⟨swift,-,typescript⟩
    rw [plainText,Bool.and_eq_true]
    have valid : validUtf8 b = true := by
      by_contra invalid
      rw [d.swift_invalid b (Bool.eq_false_iff.mpr invalid)] at swift
      rw [swift] at invalid
      exact invalid rfl
    refine ⟨valid,?_⟩
    rw [Bool.not_eq_true',Bool.eq_false_iff]
    intro marked
    obtain ⟨rest,rfl⟩ := List.isPrefixOf_iff_prefix.mp marked
    rw [d.typescript_mark rest valid] at typescript
    have lengths := congrArg length typescript
    rw [length_append] at lengths
    exact absurd lengths (by simp [mark])
  · intro plain
    have valid : validUtf8 b = true := (Bool.and_eq_true _ _ ▸ plain).1
    rw [d.swift_plain b plain,d.kotlin_valid b valid,d.typescript_plain b plain]
    exact ⟨rfl,rfl,rfl⟩

def Outcome.cons (v : Shown) : Outcome → Outcome
  | .ok values => .ok (v :: values)
  | .failed => .failed
  | .crashed => .crashed

section field
variable {ε : Type} {native : Native ε} {fl : WireField} {buf : Bytes}

theorem outcome_of_ok {v rest} (took : native.field fl buf = .ok (v,rest)) (fields : List WireField) :
    outcome (native.decode (fl :: fields) buf) = (outcome (native.decode fields rest)).cons v := by
  simp only [Native.decode,took]
  cases native.decode fields rest with
  | ok values => rfl
  | error stop => cases stop <;> rfl

theorem outcome_of_failed {e} (stopped : native.field fl buf = .error (.failed e)) (fields : List WireField) :
    outcome (native.decode (fl :: fields) buf) = .failed := by
  rw [Native.decode,stopped]
  rfl

def Native.Keeps (native : Native ε) (fl : WireField) (buf : Bytes) : Prop :=
  fl.kind = .stringLenV → ∀ r, spelled buf = some r → native.length buf = some (r.1 : Int)

theorem wraps_of_ok (keeps : native.Keeps fl buf) {v rest} (took : native.field fl buf = .ok (v,rest))
    (fields : List WireField) : native.Wraps (fl :: fields) buf ↔ native.Wraps fields rest := by
  rw [Native.Wraps,took]
  refine ⟨?_,.inr⟩
  rintro (⟨kind,r,read,other⟩ | later)
  · exact absurd (keeps kind r read) other
  · exact later

theorem not_wraps_of_failed (keeps : native.Keeps fl buf) {e} (stopped : native.field fl buf = .error (.failed e))
    (fields : List WireField) : ¬ native.Wraps (fl :: fields) buf := by
  rw [Native.Wraps,stopped]
  rintro (⟨kind,r,read,other⟩ | later)
  · exact other (keeps kind r read)
  · exact later

end field

theorem cons_eq_failed {v : Shown} {o : Outcome} : o.cons v = .failed ↔ o = .failed := by
  cases o <;> simp [Outcome.cons]

theorem cons_eq_ok {v : Shown} {o : Outcome} {values : List Shown} :
    o.cons v = .ok values ↔ ∃ rest, v :: rest = values ∧ o = .ok rest := by
  cases o <;> simp [Outcome.cons]

theorem unanimous_cons (equal : Bool) (v s k t : Shown) (go swift kotlin typescript : Outcome) :
    Unanimous equal (go.cons v) (swift.cons s) (kotlin.cons k) (typescript.cons t) ↔
      Unanimous (equal && decide (v = s ∧ v = k ∧ v = t)) go swift kotlin typescript := by
  simp only [Unanimous,cons_eq_failed,cons_eq_ok,Bool.and_eq_true,decide_eq_true_eq]
  refine or_congr Iff.rfl ?_
  constructor
  · rintro ⟨same,_,⟨rest,rfl,g⟩,⟨_,second,s⟩,⟨_,third,k⟩,⟨_,fourth,t⟩⟩
    cases second
    cases third
    cases fourth
    exact ⟨⟨same,rfl,rfl,rfl⟩,_,g,s,k,t⟩
  · rintro ⟨⟨same,rfl,rfl,rfl⟩,values,g,s,k,t⟩
    exact ⟨same,v :: values,⟨values,rfl,g⟩,⟨values,rfl,s⟩,⟨values,rfl,k⟩,⟨values,rfl,t⟩⟩

theorem unanimous_failed {equal} (equal' : Bool) {swift kotlin typescript} :
    Unanimous equal .failed swift kotlin typescript ↔ Unanimous equal' .failed swift kotlin typescript := by
  simp [Unanimous]

section step
variable {d : TextDecoders} {fl : WireField} {fields : List WireField} {buf : Bytes}

structure Keeps (d : TextDecoders) (fl : WireField) (buf : Bytes) : Prop where
  swift : (swift d).Keeps fl buf
  kotlin : (kotlin d).Keeps fl buf
  typescript : (typescript d).Keeps fl buf

theorem keeps_of_ne (other : fl.kind ≠ .stringLenV) (d : TextDecoders) (buf : Bytes) : Keeps d fl buf :=
  ⟨fun kind => absurd kind other,fun kind => absurd kind other,fun kind => absurd kind other⟩

theorem keeps_of_unreadable (read : spelled buf = none) (d : TextDecoders) (fl : WireField) : Keeps d fl buf := by
  refine ⟨?_,?_,?_⟩
  all_goals
    intro kind r other
    rw [read] at other
    cases other

theorem keeps_of_lt {n count} (read : spelled buf = some (n,count)) (small : n < 2 ^ 31) (d : TextDecoders)
    (fl : WireField) : Keeps d fl buf := by
  obtain ⟨swiftRead,kotlinRead,typescriptRead,-⟩ := readable read
  have word := toNat_word small
  refine ⟨?_,?_,?_⟩
  all_goals
    intro kind r same
    rw [read] at same
    cases same
  · simp only [swift,swiftRead,Except.toOption,map_some,word]
  · simp only [kotlin,kotlinRead,Except.toOption,map_some,toInt_ofNat small]
  · simp only [typescript,typescriptRead,Except.toOption,map_some,toNumber_of_lt small]

theorem kotlin_wraps {n count} (kind : fl.kind = .stringLenV) (read : spelled buf = some (n,count))
    (large : 2 ^ 31 ≤ n) : (kotlin d).Wraps (fl :: fields) buf := by
  obtain ⟨-,kotlinRead,-,-⟩ := readable read
  have below := toInt_lt (UInt64.ofNat n)
  refine .inl ⟨kind,(n,count),read,?_⟩
  simp only [kotlin,kotlinRead,Except.toOption,map_some,ne_eq,some.injEq]
  omega

theorem alike_eq (d : TextDecoders) (b : Bytes) :
    decide (Shown.text b = .text ((d.swift b).getD []) ∧ Shown.text b = .text (d.kotlin b) ∧
      Shown.text b = .text (d.typescript b)) = plainText b := by
  rw [Bool.eq_iff_iff,decide_eq_true_iff]
  simp only [Shown.text.injEq]
  exact alike_iff d b

theorem agreeFrom_cons (keeps : Keeps d fl buf) {rest s k t}
    (swiftTook : (swift d).field fl buf = .ok (s,rest)) (kotlinTook : (kotlin d).field fl buf = .ok (k,rest))
    (typescriptTook : (typescript d).field fl buf = .ok (t,rest)) (equal : Bool) (go : Outcome) (v : Shown) :
    AgreeFrom d equal (go.cons v) (fl :: fields) buf ↔
      AgreeFrom d (equal && decide (v = s ∧ v = k ∧ v = t)) go fields rest := by
  have outcomes := unanimous_cons equal v s k t go (outcome ((swift d).decode fields rest))
    (outcome ((kotlin d).decode fields rest)) (outcome ((typescript d).decode fields rest))
  rw [← outcome_of_ok swiftTook,← outcome_of_ok kotlinTook,← outcome_of_ok typescriptTook] at outcomes
  have swiftWraps := wraps_of_ok keeps.swift swiftTook fields
  have kotlinWraps := wraps_of_ok keeps.kotlin kotlinTook fields
  have typescriptWraps := wraps_of_ok keeps.typescript typescriptTook fields
  constructor
  · rintro ⟨unanimous,swift,kotlin,typescript⟩
    exact ⟨outcomes.mp unanimous,mt swiftWraps.mpr swift,mt kotlinWraps.mpr kotlin,mt typescriptWraps.mpr typescript⟩
  · rintro ⟨unanimous,swift,kotlin,typescript⟩
    exact ⟨outcomes.mpr unanimous,mt swiftWraps.mp swift,mt kotlinWraps.mp kotlin,mt typescriptWraps.mp typescript⟩

theorem agreeFrom_failed {equal} (equal' : Bool) :
    AgreeFrom d equal .failed fields buf ↔ AgreeFrom d equal' .failed fields buf := by
  constructor
  all_goals
    rintro ⟨unanimous,swift,kotlin,typescript⟩
    exact ⟨(unanimous_failed _).mp unanimous,swift,kotlin,typescript⟩

theorem agreeFrom_of_failed (keeps : Keeps d fl buf) (equal : Bool)
    (swiftStop : ∃ e, (swift d).field fl buf = .error (.failed e))
    (kotlinStop : ∃ e, (kotlin d).field fl buf = .error (.failed e))
    (typescriptStop : ∃ e, (typescript d).field fl buf = .error (.failed e)) :
    AgreeFrom d equal .failed (fl :: fields) buf := by
  obtain ⟨_,swiftStop⟩ := swiftStop
  obtain ⟨_,kotlinStop⟩ := kotlinStop
  obtain ⟨_,typescriptStop⟩ := typescriptStop
  exact ⟨.inl ⟨rfl,outcome_of_failed swiftStop fields,outcome_of_failed kotlinStop fields,
      outcome_of_failed typescriptStop fields⟩,
    not_wraps_of_failed keeps.swift swiftStop fields,not_wraps_of_failed keeps.kotlin kotlinStop fields,
    not_wraps_of_failed keeps.typescript typescriptStop fields⟩

def goFrom (go : Bool) (null : Bytes) (fields : List WireField) (buf : Bytes) : Outcome :=
  if go then goOutcome (goDecodeFields null fields buf) else .failed

theorem goFrom_of_ok (go : Bool) {null rest v} (took : goDecodeField null fl buf = .ok (v,rest)) :
    goFrom go null (fl :: fields) buf = (goFrom go (nilAfter null fl v) fields rest).cons (shown v) := by
  cases go with
  | false => rfl
  | true =>
    simp only [goFrom,if_true,goDecodeFields,took]
    cases goDecodeFields (nilAfter null fl v) fields rest <;> rfl

theorem goFrom_of_error (go : Bool) {null e} (stopped : goDecodeField null fl buf = .error e) :
    goFrom go null (fl :: fields) buf = .failed := by
  cases go with
  | false => rfl
  | true =>
    simp only [goFrom,if_true,goDecodeFields,stopped]
    rfl

/-- The four decoders take a field and are left with the same rest. -/
structure Took (d : TextDecoders) (null : Bytes) (fl : WireField) (buf : Bytes) (v : Value) (s k t : Shown)
    (rest : Bytes) : Prop where
  go : goDecodeField null fl buf = .ok (v,rest)
  swift : (swift d).field fl buf = .ok (s,rest)
  kotlin : (kotlin d).field fl buf = .ok (k,rest)
  typescript : (typescript d).field fl buf = .ok (t,rest)

theorem agreeFrom_took (keeps : Keeps d fl buf) {null rest v s k t} (took : Took d null fl buf v s k t rest)
    (go equal : Bool) : AgreeFrom d equal (goFrom go null (fl :: fields) buf) (fl :: fields) buf ↔
      AgreeFrom d (equal && decide (shown v = s ∧ shown v = k ∧ shown v = t))
        (goFrom go (nilAfter null fl v) fields rest) fields rest := by
  rw [goFrom_of_ok go took.go,agreeFrom_cons keeps took.swift took.kotlin took.typescript]

theorem agreeFrom_of_unreadable (kind : fl.kind = .varint ∨ fl.kind = .stringLenV) (read : spelled buf = none)
    (go equal : Bool) (null : Bytes) : AgreeFrom d equal (goFrom go null (fl :: fields) buf) (fl :: fields) buf := by
  obtain ⟨⟨_,swiftError⟩,⟨_,kotlinError⟩,⟨_,typescriptError⟩,⟨_,goError⟩⟩ := unreadable read
  rcases kind with kind | kind
  all_goals
    rw [goFrom_of_error go (by simp only [goDecodeField,kind,goError]; rfl)]
    apply agreeFrom_of_failed (keeps_of_unreadable read d fl)
    · exact ⟨_,by simp only [swift,swiftDecodeField,kind,swiftError]; rfl⟩
    · exact ⟨_,by simp only [kotlin,kotlinDecodeField,kind,kotlinError]; rfl⟩
    · exact ⟨_,by simp only [typescript,tsDecodeField,kind,typescriptError]; rfl⟩

section string
variable {n count : Nat} (kind : fl.kind = .stringLenV) (read : spelled buf = some (n,count)) (small : n < 2 ^ 31)
  (go equal : Bool) (null : Bytes)
include kind read small

theorem agreeFrom_of_short (short : (buf.drop count).length < n) :
    AgreeFrom d equal (goFrom go null (fl :: fields) buf) (fl :: fields) buf := by
  obtain ⟨swiftRead,kotlinRead,typescriptRead,goRead⟩ := readable read
  rw [if_pos (Nat.lt_trans small (by decide))] at goRead
  have word := toNat_word small
  have native : ¬ intMax ≤ n := by unfold intMax; omega
  have shortInt : ((buf.drop count).length : Int) < n := by exact_mod_cast short
  rw [goFrom_of_error go (by simp only [goDecodeField,kind,eq_ok_of_toOption goRead,word,short,if_true]; rfl)]
  apply agreeFrom_of_failed (keeps_of_lt read small d fl)
  · exact ⟨_,by simp only [swift,swiftDecodeField,kind,swiftRead,word,native,short,if_true,if_false]; rfl⟩
  · exact ⟨_,by simp only [kotlin,kotlinDecodeField,kind,kotlinRead,toInt_ofNat small,shortInt,if_true]; rfl⟩
  · exact ⟨_,by simp only [typescript,tsDecodeField,kind,typescriptRead,toNumber_of_lt small,short,if_true]; rfl⟩

theorem agreeFrom_string (enough : ¬ (buf.drop count).length < n) :
    AgreeFrom d equal (goFrom go null (fl :: fields) buf) (fl :: fields) buf ↔
      AgreeFrom d (equal && plainText ((buf.drop count).take n))
        (goFrom go (nilAfter null fl (.text ((buf.drop count).take n))) fields ((buf.drop count).drop n)) fields
        ((buf.drop count).drop n) := by
  obtain ⟨swiftRead,kotlinRead,typescriptRead,goRead⟩ := readable read
  rw [if_pos (Nat.lt_trans small (by decide))] at goRead
  have word := toNat_word small
  have native : ¬ intMax ≤ n := by unfold intMax; omega
  have enoughInt : ¬ ((buf.drop count).length : Int) < n := by exact_mod_cast enough
  have positive : ¬ (n : Int) < 0 := by omega
  have took : Took d null fl buf (.text ((buf.drop count).take n)) (.text ((d.swift ((buf.drop count).take n)).getD []))
      (.text (d.kotlin ((buf.drop count).take n))) (.text (d.typescript ((buf.drop count).take n)))
      ((buf.drop count).drop n) := by
    constructor
    · simp only [goDecodeField,kind,eq_ok_of_toOption goRead,word,enough,if_false]
    · simp only [swift,swiftDecodeField,kind,swiftRead,word,native,enough,if_false]
    · simp only [kotlin,kotlinDecodeField,kind,kotlinRead,toInt_ofNat small,enoughInt,positive,if_false,
        Int.toNat_natCast]
    · simp only [typescript,tsDecodeField,kind,typescriptRead,toNumber_of_lt small,enough,if_false]
  rw [agreeFrom_took (keeps_of_lt read small d fl) took,shown,alike_eq]

end string

def Next (d : TextDecoders) (fields : List WireField) : Prop :=
  ∀ go equal null buf,
    AgreeFrom d equal (goFrom go null fields buf) fields buf ↔ tame go equal null fields buf = true

variable (next : Next d fields)
include next

theorem tame_u32 (kind : fl.kind = .u32be) : Next d (fl :: fields) := by
  intro go equal null buf
  have keeps := keeps_of_ne (show fl.kind ≠ .stringLenV by simp [kind]) d buf
  simp only [tame,kind]
  by_cases short : buf.length < 4
  · rw [goFrom_of_error go (by simp only [goDecodeField,kind,short,if_true]; rfl)]
    simp only [short,decide_true,Bool.true_or,iff_true]
    apply agreeFrom_of_failed keeps
    · exact ⟨_,by simp only [swift,swiftDecodeField,kind,short,if_true]; rfl⟩
    · exact ⟨_,by simp only [kotlin,kotlinDecodeField,kind,short,if_true]; rfl⟩
    · exact ⟨_,by simp only [typescript,tsDecodeField,kind,short,if_true]; rfl⟩
  · have value := toNat_word32 short
    have took : Took d null fl buf (.u32 (word32 buf)) (.number (word32 buf).toNat) (.number (word32 buf).toNat)
        (.number (word32 buf).toNat) (buf.drop 4) := by
      constructor
      · simp [goDecodeField,kind,short,word32_eq short]
      · simp [swift,swiftDecodeField,kind,short]
      · simp [kotlin,kotlinDecodeField,kind,short]
      · simp [typescript,tsDecodeField,kind,short,value]
    rw [agreeFrom_took keeps took,decide_eq_true ⟨rfl,rfl,rfl⟩,Bool.and_true,next]
    simp only [short,decide_false,Bool.false_or]
    rfl

theorem tame_varint (kind : fl.kind = .varint) : Next d (fl :: fields) := by
  intro go equal null buf
  have keeps := keeps_of_ne (show fl.kind ≠ .stringLenV by simp [kind]) d buf
  simp only [tame,kind]
  cases read : spelled buf with
  | none => exact iff_of_true (agreeFrom_of_unreadable (.inl kind) read go equal null) rfl
  | some r =>
    obtain ⟨n,count⟩ := r
    obtain ⟨swiftRead,kotlinRead,typescriptRead,goRead⟩ := readable read
    have swiftTook : (swift d).field fl buf = .ok (.number (UInt64.ofNat n).toNat,buf.drop count) := by
      simp [swift,swiftDecodeField,kind,swiftRead]
    have kotlinTook : (kotlin d).field fl buf = .ok (.number (UInt64.ofNat n).toNat,buf.drop count) := by
      simp [kotlin,kotlinDecodeField,kind,kotlinRead]
    have typescriptTook : (typescript d).field fl buf = .ok (.number n,buf.drop count) := by
      simp [typescript,tsDecodeField,kind,typescriptRead]
    by_cases small : n < 2 ^ 64
    · rw [if_pos small] at goRead
      have word : (UInt64.ofNat n).toNat = n := UInt64.toNat_ofNat_of_lt' small
      have goTook : goDecodeField null fl buf = .ok (.varint (UInt64.ofNat n),buf.drop count) := by
        simp [goDecodeField,kind,eq_ok_of_toOption goRead]
      rw [agreeFrom_took keeps ⟨goTook,swiftTook,kotlinTook,typescriptTook⟩,
        decide_eq_true ⟨rfl,rfl,congrArg Shown.number word⟩,Bool.and_true,next]
      simp only [small,decide_true,Bool.and_true]
      rfl
    · -- the Go decoder stops here, and the others go on with whatever they have
      rw [if_neg small] at goRead
      obtain ⟨_,goError⟩ := exists_error_of_toOption goRead
      rw [goFrom_of_error go (by simp only [goDecodeField,kind,goError]; rfl),
        show Outcome.failed = (goFrom false (nilAfter null fl (.varint 0)) fields (buf.drop count)).cons (.number n) from rfl,
        agreeFrom_cons keeps swiftTook kotlinTook typescriptTook]
      simp only [small,decide_false,Bool.and_false]
      exact (agreeFrom_failed equal).trans (next false equal _ _)

theorem tame_string (kind : fl.kind = .stringLenV) : Next d (fl :: fields) := by
  intro go equal null buf
  simp only [tame,kind]
  cases read : spelled buf with
  | none => exact iff_of_true (agreeFrom_of_unreadable (.inr kind) read go equal null) rfl
  | some r =>
    obtain ⟨n,count⟩ := r
    by_cases small : n < 2 ^ 31
    · by_cases short : (buf.drop count).length < n
      · simp only [small,short,decide_true,Bool.true_or,Bool.and_true,iff_true]
        exact agreeFrom_of_short kind read small go equal null short
      · simp only [small,short,decide_true,decide_false,Bool.false_or,Bool.true_and]
        exact (agreeFrom_string kind read small go equal null short).trans (next _ _ _ _)
    · simp only [small,decide_false,Bool.false_and,Bool.false_eq_true,iff_false]
      exact fun agree => agree.kotlin (kotlin_wraps kind read (Nat.not_lt.mp small))

theorem tame_stringToEnd (kind : fl.kind = .stringToEnd) : Next d (fl :: fields) := by
  intro go equal null buf
  have keeps := keeps_of_ne (show fl.kind ≠ .stringLenV by simp [kind]) d buf
  have took : Took d null fl buf (.text buf) (.text ((d.swift buf).getD [])) (.text (d.kotlin buf))
      (.text (d.typescript buf)) [] := by
    constructor <;>
      simp [swift,kotlin,typescript,goDecodeField,swiftDecodeField,kotlinDecodeField,tsDecodeField,kind]
  simp only [tame,kind]
  rw [agreeFrom_took keeps took,shown,alike_eq,next]

theorem tame_bytesToEnd (kind : fl.kind = .bytesToEnd) : Next d (fl :: fields) := by
  intro go equal null buf
  have keeps := keeps_of_ne (show fl.kind ≠ .stringLenV by simp [kind]) d buf
  have took : Took d null fl buf (.bytes (null ++ buf)) (.bytes buf) (.bytes buf) (.bytes buf) [] := by
    constructor <;>
      simp [swift,kotlin,typescript,goDecodeField,swiftDecodeField,kotlinDecodeField,tsDecodeField,kind]
  simp only [tame,kind]
  rw [agreeFrom_took keeps took,shown,next]
  simp [Shown.bytes.injEq]

end step

theorem agreeFrom_iff_tame (d : TextDecoders) {place fields} (valid : check place fields = none) : Next d fields := by
  induction fields with
  | nil =>
    intro go equal null buf
    cases go with
    | false =>
      simp only [tame,Bool.false_and,Bool.false_eq_true,iff_false]
      rintro ⟨⟨-,other,-⟩ | ⟨-,values,other,-⟩,-,-,-⟩ <;> cases other
    | true =>
      simp only [tame,Bool.true_and]
      constructor
      · rintro ⟨⟨other,-⟩ | ⟨same,-⟩,-,-,-⟩
        · cases other
        · exact same
      · intro same
        exact ⟨.inr ⟨same,[],rfl,rfl,rfl,rfl⟩,id,id,id⟩
  | cons fl fields ih =>
    obtain ⟨known,-,valid⟩ := check_cons.mp valid
    cases kind : fl.kind with
    | u32be => exact tame_u32 (ih valid) kind
    | varint => exact tame_varint (ih valid) kind
    | stringLenV => exact tame_string (ih valid) kind
    | stringToEnd => exact tame_stringToEnd (ih valid) kind
    | bytesToEnd => exact tame_bytesToEnd (ih valid) kind
    | other text => rw [kind] at known; exact known.elim

structure Clear (fields : List WireField) : Prop where
  apart : fields.Pairwise Apart
  free : ∀ fl ∈ fields, lowerCamel fl.name ∉ [ascii "buf",ascii "err",ascii "off"]

theorem declared_iff {place fields} (valid : check place fields = none) : Declared fields ↔ Clear fields := by
  constructor
  · intro declared
    obtain ⟨apart,free⟩ := (nodup_decodeFn_iff .typescript valid).mp (declared.native .typescript)
    refine ⟨apart,fun fl mem taken => ?_⟩
    have go := nodup_append.mp declared.go
    have named : lowerCamel fl.name ∈ fields.map fun fl => lowerCamel fl.name := mem_map.mpr ⟨fl,mem,rfl⟩
    rcases mem_cons.mp taken with buf | later
    · exact free fl mem (by rw [buf]; simp [Pigeon.EmittedLocals.opened])
    · exact go.2.2 _ (mem_cons_of_mem _ named) _ later rfl
  · rintro ⟨apart,free⟩
    refine ⟨?_,fun target => (nodup_decodeFn_iff target valid).mpr ⟨apart,fun fl mem taken => free fl mem ?_⟩⟩
    · have names : (fields.map fun fl => lowerCamel fl.name).Nodup := pairwise_map.mpr (apart.imp fun both => both.1)
      have fixed : [ascii "buf",ascii "err",ascii "off"].Nodup := by decide
      have apartOf : ∀ name ∈ [ascii "buf",ascii "err",ascii "off"], name ∉ fields.map fun fl => lowerCamel fl.name := by
        intro name taken named
        obtain ⟨fl,mem,rfl⟩ := mem_map.mp named
        exact free fl mem taken
      have together : ([ascii "buf",ascii "err",ascii "off"] ++ fields.map fun fl => lowerCamel fl.name).Nodup :=
        nodup_append.mpr ⟨fixed,names,fun name taken other named same => apartOf name taken (same ▸ named)⟩
      have order : Perm ([ascii "err",ascii "off"] ++ fields.map fun fl => lowerCamel fl.name)
          (fields.map (fun fl => lowerCamel fl.name) ++ [ascii "err",ascii "off"]) := perm_append_comm
      exact (order.cons (ascii "buf")).nodup_iff.mp together
    · cases target <;> simp_all [Pigeon.EmittedLocals.opened]

/-- The decoders of an accepted plain format compile and agree on a buffer just when the fields are clear of each
    other and it is tame. -/
theorem native_decoders_agree_iff (d : TextDecoders) {s : WireFormatSet} (valid : validate s = none) {f : WireFormat}
    (mem : f ∈ s.formats) (buf : Bytes) :
    Declared f.fields ∧ Agree d f.fields buf ↔ Clear f.fields ∧ tame true true [] f.fields buf = true := by
  have fields := (check_of_checkFormat (checkFormat_of_validate valid mem)).1
  exact and_congr (declared_iff fields) (agreeFrom_iff_tame d fields true true [] buf)

def replacement : Bytes := [0xEF,0xBF,0xBD]

def wholeDecoders : TextDecoders where
  swift b := if validUtf8 b then some b else none
  kotlin b := if validUtf8 b then b else replacement
  typescript b := if validUtf8 b then (if mark.isPrefixOf b then b.drop 3 else b) else replacement
  swift_plain b plain := if_pos (Bool.and_eq_true _ _ ▸ plain).1
  swift_invalid b invalid := if_neg (Bool.eq_false_iff.mp invalid)
  kotlin_valid b valid := if_pos valid
  typescript_plain b plain := by
    obtain ⟨valid,unmarked⟩ := Bool.and_eq_true_iff.mp plain
    rw [if_pos valid,if_neg (Bool.eq_false_iff.mp ((Bool.not_eq_true' _).mp unmarked))]
  typescript_mark rest valid := by
    rw [if_pos valid,if_pos (List.isPrefixOf_iff_prefix.mpr (prefix_append mark rest))]
    exact drop_left' rfl

def messageFields : List WireField :=
  [⟨"channel_id",.varint⟩,⟨"name",.stringLenV⟩,⟨"payload",.bytesToEnd⟩]

theorem message_agreed : Declared messageFields ∧ Agree wholeDecoders messageFields [5,2,0xC3,0xA9,9] := by
  refine (native_decoders_agree_iff wholeDecoders (s := plainSet messageFields) (by decide)
    (mem_singleton.mpr rfl) [5,2,0xC3,0xA9,9]).mpr ⟨⟨?_,?_⟩,?_⟩
  all_goals decide

def hostileLength : Bytes := [0x80,0x80,0x80,0x80,0x80,0x80,0x80,0x80,0x80,1]

theorem hostile_length_apart : validate (plainSet [⟨"name",.stringLenV⟩]) = none ∧
      goDecode [⟨"name",.stringLenV⟩] hostileLength = .error "truncated name" ∧
      (swift wholeDecoders).decode [⟨"name",.stringLenV⟩] hostileLength = .error .crashed ∧
      (kotlin wholeDecoders).decode [⟨"name",.stringLenV⟩] hostileLength = .ok [.text []] ∧
      (typescript wholeDecoders).decode [⟨"name",.stringLenV⟩] hostileLength = .error (.failed "truncated string") ∧
      goDecode [⟨"name",.stringToEnd⟩] [0xFF] = .ok [.text [0xFF]] ∧
      (swift wholeDecoders).decode [⟨"name",.stringToEnd⟩] [0xFF] = .ok [.text []] := by
  decide

end Pigeon.NativeFormats
