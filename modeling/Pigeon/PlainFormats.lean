import Pigeon.Chunks
import Pigeon.Varints
import Pigeon.WireFormats

/-!
The code that `goEmitPlain` and `cEmitPlainImpl` write for a plain format, with the texts of
their errors (`wireformats.go`, `wireformats_c.go`). `readFields` says what a buffer holds, and
reads back what the encoder writes (`readFields_goEncode`). Decoders and round trip are right
for all formats without a field called `nil` before the last (`plain_formats_agree_iff`).
-/
namespace Pigeon.PlainFormats
open Octets Framing KeySchedule WireFormats Varints List Option

inductive Value
  | u32 (v : UInt32)
  | varint (v : UInt64)
  | text (b : Bytes)
  | bytes (b : Bytes)
deriving DecidableEq

/-- The values that a field of a kind has. No string or slice is longer than an `int` counts. -/
def Typed : WireFieldKind → Value → Prop
  | .u32be,.u32 _ | .varint,.varint _ => True
  | .stringLenV,.text b | .stringToEnd,.text b | .bytesToEnd,.bytes b => b.length < 2 ^ 63
  | _,_ => False

def Fits (fields : List WireField) (values : List Value) : Prop :=
  Forall₂ (fun fl v => Typed fl.kind v) fields values

/-- The code of `goEmitEncode`. -/
def goEncodeField : WireFieldKind → Value → Bytes
  | .u32be,.u32 v => be 4 v.toNat
  | .varint,.varint v => putUvarint 9 v.toNat
  | .stringLenV,.text b => putUvarint 9 b.length ++ b
  | .stringToEnd,.text b | .bytesToEnd,.bytes b => b
  | _,_ => []

def goEncode : List WireField → List Value → Bytes
  | fl :: fields,v :: values => goEncodeField fl.kind v ++ goEncode fields values
  | _,_ => []

/-- The statements of `goEmitDecode`; `null` is what `[]byte(nil)` stands for. -/
def goDecodeField (null : Bytes) (fl : WireField) (buf : Bytes) : Except Bytes (Value × Bytes) :=
  match fl.kind with
  | .u32be =>
    if buf.length < 4 then .error (ascii "truncated u32_be " ++ fl.name)
    else .ok (.u32 (UInt32.ofNat (ofBe (buf.take 4))),buf.drop 4)
  | .varint =>
    match uvarint 0 0 0 buf with
    | .error _ => .error (ascii "bad varint " ++ fl.name)
    | .ok (v,n) => .ok (.varint v,buf.drop n)
  | .stringLenV =>
    match uvarint 0 0 0 buf with
    | .error _ => .error (ascii "bad varint length " ++ fl.name)
    | .ok (ln,n) =>
      if (buf.drop n).length < ln.toNat then .error (ascii "truncated " ++ fl.name)
      else .ok (.text ((buf.drop n).take ln.toNat),(buf.drop n).drop ln.toNat)
  | .stringToEnd => .ok (.text buf,[])
  | .bytesToEnd => .ok (.bytes (null ++ buf),[])
  | .other _ => .ok (.bytes [],buf)

/-- The octets that a conversion to `[]byte` makes of a value. No number has any. -/
def Value.octets : Value → Bytes
  | .text b | .bytes b => b
  | .u32 _ | .varint _ => []

/-- What `[]byte(nil)` stands for after a field has its value: the identifier is that of the field if the field has
    this name. -/
def nilAfter (null : Bytes) (fl : WireField) (v : Value) : Bytes :=
  if lowerCamel fl.name = "nil" then v.octets else null

def goDecodeFields (null : Bytes) : List WireField → Bytes → Except Bytes (List Value)
  | [],_ => .ok []
  | fl :: fields,buf =>
    match goDecodeField null fl buf with
    | .error e => .error e
    | .ok (v,rest) => (goDecodeFields (nilAfter null fl v) fields rest).map (v :: ·)

/-- The code of `goEmitPlain`. -/
def goDecode (fields : List WireField) (buf : Bytes) : Except Bytes (List Value) := goDecodeFields [] fields buf

/-- The code of `cEmitEncodeField`. -/
def cEncodeField (room : Nat) : WireFieldKind → Value → Option Bytes
  | .u32be,.u32 v =>
    if room < 4 then none else some [(v >>> 24).toUInt8,(v >>> 16).toUInt8,(v >>> 8).toUInt8,v.toUInt8]
  | .varint,.varint v => uvarintEncode room v
  | .stringLenV,.text b =>
    (uvarintEncode room (UInt64.ofNat b.length)).bind fun n =>
      if room - n.length < b.length then none else some (n ++ b)
  | .stringToEnd,.text b | .bytesToEnd,.bytes b => if room < b.length then none else some b
  | _,_ => some []

def cEncodeFields : Nat → List WireField → List Value → Option Bytes
  | room,fl :: fields,v :: values =>
    (cEncodeField room fl.kind v).bind fun octets =>
      (cEncodeFields (room - octets.length) fields values).map (octets ++ ·)
  | _,_,_ => some []

/-- The encoder of `cEmitPlainImpl`, which returns the length as an `int`. -/
def cEncode (fields : List WireField) (values : List Value) (outLen : Nat) : Option Bytes :=
  (cEncodeFields outLen fields values).bind intReturn

def word32 : Bytes → UInt32
  | a :: b :: c :: d :: _ => a.toUInt32 <<< 24 ||| b.toUInt32 <<< 16 ||| c.toUInt32 <<< 8 ||| d.toUInt32
  | _ => 0

/-- The statements of `cEmitDecodeField`, for a field whose output has `cap` octets. -/
def cDecodeField (cap : Nat) (kind : WireFieldKind) (buf : Bytes) : Option (Value × Bytes) :=
  match kind with
  | .u32be => if buf.length < 4 then none else some (.u32 (word32 buf),buf.drop 4)
  | .varint =>
    match pigeonUvarintDecode 0 0 0 buf with
    | .error _ => none
    | .ok (v,n) => some (.varint v,buf.drop n)
  | .stringLenV =>
    match pigeonUvarintDecode 0 0 0 buf with
    | .error _ => none
    | .ok (len,n) =>
      if (buf.drop n).length < len.toNat then none
      else if cap < len.toNat + 1 then none
      else some (.text ((buf.drop n).take len.toNat),(buf.drop n).drop len.toNat)
  | .stringToEnd => if cap < buf.length + 1 then none else some (.text buf,[])
  | .bytesToEnd => if cap < buf.length then none else some (.bytes buf,[])
  | .other _ => some (.bytes [],buf)

def cDecodeFields (caps : Bytes → Nat) : List WireField → Bytes → Option (List Value × Bytes)
  | [],buf => some ([],buf)
  | fl :: fields,buf =>
    (cDecodeField (caps fl.name) fl.kind buf).bind fun r =>
      (cDecodeFields caps fields r.2).map fun more => (r.1 :: more.1,more.2)

/-- The decoder of `cEmitPlainImpl`, which returns what it has read as an `int`; a caller takes a negative one for a
    failure. -/
def cDecode (caps : Bytes → Nat) (fields : List WireField) (buf : Bytes) : Option (List Value) :=
  (cDecodeFields caps fields buf).bind fun r =>
    if 2 ^ 31 ≤ (buf.length - r.2.length) % 2 ^ 32 then none else some r.1

def readField (kind : WireFieldKind) (buf : Bytes) : Option (Value × Bytes) :=
  match kind with
  | .u32be => if buf.length < 4 then none else some (.u32 (UInt32.ofNat (ofBe (buf.take 4))),buf.drop 4)
  | .varint => (uvarint 0 0 0 buf).toOption.map fun r => (.varint r.1,buf.drop r.2)
  | .stringLenV =>
    (uvarint 0 0 0 buf).toOption.bind fun r =>
      if (buf.drop r.2).length < r.1.toNat then none
      else some (.text ((buf.drop r.2).take r.1.toNat),(buf.drop r.2).drop r.1.toNat)
  | .stringToEnd => some (.text buf,[])
  | .bytesToEnd => some (.bytes buf,[])
  | .other _ => none

def readFields : List WireField → Bytes → Option (List Value × Bytes)
  | [],buf => some ([],buf)
  | fl :: fields,buf =>
    (readField fl.kind buf).bind fun r => (readFields fields r.2).map fun more => (r.1 :: more.1,more.2)

variable {kind : WireFieldKind} {place buf : Bytes} {values : List Value} {fields : List WireField}

variable {v : Value} {rest : Bytes}

theorem readField_encode (typed : Typed kind v) (last : kind.ToEnd → rest = []) :
    readField kind (goEncodeField kind v ++ rest) = some (v,rest) := by
  cases kind <;> cases v <;> simp only [Typed] at typed
  case u32be.u32 v =>
    have width : (be 4 v.toNat).length = 4 := be_length 4 _
    rw [goEncodeField,readField,if_neg (by rw [length_append]; omega),take_left' width,drop_left' width,
      ofBe_be,Nat.mod_eq_of_lt (show v.toNat < 256 ^ 4 from v.toNat_lt),UInt32.ofNat_toNat]
  case varint.varint v =>
    simp [goEncodeField,readField,uvarint_putUvarint,Except.toOption]
  case stringLenV.text b =>
    have length : (UInt64.ofNat b.length).toNat = b.length := UInt64.toNat_ofNat_of_lt' (Nat.lt_trans typed (by decide))
    have read := uvarint_putUvarint (UInt64.ofNat b.length) (b ++ rest)
    rw [length] at read
    simp [goEncodeField,readField,read,Except.toOption,length]
  case stringToEnd.text b | bytesToEnd.bytes b =>
    simp [goEncodeField,readField,last trivial]

theorem readFields_goEncode (valid : check place fields = none) (fits : Fits fields values) :
    readFields fields (goEncode fields values) = some (values,[]) := by
  induction fits with
  | nil => rfl
  | @cons fl v fields values typed _ ih =>
    obtain ⟨-,last,valid⟩ := check_cons.mp valid
    have ends : fl.kind.ToEnd → goEncode fields values = [] := fun toEnd => by rw [last toEnd,goEncode]; nofun
    rw [goEncode,readFields,readField_encode typed ends,Option.bind_some,ih valid]
    rfl

theorem typed_of_readField (small : buf.length < 2 ^ 63)
    (read : readField kind buf = some (v,rest)) : Typed kind v ∧ rest.length ≤ buf.length := by
  cases kind <;> simp only [readField] at read
  case u32be =>
    split at read
    · cases read
    · cases read
      exact ⟨trivial,by rw [length_drop]; omega⟩
  case varint =>
    obtain ⟨r,-,same⟩ := map_eq_some_iff.mp read
    cases same
    exact ⟨trivial,by rw [length_drop]; omega⟩
  case stringLenV =>
    obtain ⟨r,-,same⟩ := bind_eq_some_iff.mp read
    split at same
    · cases same
    · cases same
      simp only [Typed,length_take,length_drop]
      omega
  case stringToEnd | bytesToEnd =>
    cases read
    exact ⟨small,by simp⟩
  case other => cases read

theorem fits_of_readFields (small : buf.length < 2 ^ 63)
    (read : readFields fields buf = some (values,rest)) : Fits fields values ∧ rest.length ≤ buf.length := by
  induction fields generalizing buf values with
  | nil =>
    cases read
    exact ⟨.nil,Nat.le_refl _⟩
  | cons fl fields ih =>
    obtain ⟨⟨v,left⟩,one,more⟩ := bind_eq_some_iff.mp read
    obtain ⟨⟨others,end'⟩,several,same⟩ := map_eq_some_iff.mp more
    cases same
    obtain ⟨typed,shorter⟩ := typed_of_readField small one
    obtain ⟨fits,short⟩ := ih (Nat.lt_of_le_of_lt shorter small) several
    exact ⟨.cons typed fits,Nat.le_trans short shorter⟩

theorem or_octet (high : Nat) {octet} (small : octet < 256) (k : Nat) :
    high * 2 ^ (k + 8) ||| octet * 2 ^ k = (high * 256 + octet) * 2 ^ k := by
  have below : octet * 2 ^ k < 2 ^ (k + 8) := by
    rw [Nat.pow_add,Nat.mul_comm]
    exact Nat.mul_lt_mul_of_pos_left small (Nat.two_pow_pos k)
  rw [Nat.mul_comm high,← Nat.two_pow_add_eq_or_of_lt below]
  ring

theorem toNat_shifted32 (octet : UInt8) {k} (early : k ≤ 24) :
    (octet.toUInt32 <<< UInt32.ofNat k).toNat = octet.toNat * 2 ^ k := by
  have position : (UInt32.ofNat k).toNat = k := by rw [UInt32.toNat_ofNat']; omega
  have below : octet.toNat * 2 ^ k < 2 ^ 32 :=
    calc octet.toNat * 2 ^ k < 256 * 2 ^ k := Nat.mul_lt_mul_of_pos_right octet.toNat_lt (Nat.two_pow_pos k)
      _ ≤ 256 * 2 ^ 24 := Nat.mul_le_mul_left _ (Nat.pow_le_pow_right (by decide) early)
      _ = 2 ^ 32 := by decide
  rw [UInt32.toNat_shiftLeft,position,Nat.mod_eq_of_lt (by omega : k < 32),UInt8.toNat_toUInt32,Nat.shiftLeft_eq,
    Nat.mod_eq_of_lt below]

theorem toNat_word32 (enough : ¬ buf.length < 4) : (word32 buf).toNat = ofBe (buf.take 4) := by
  rcases buf with _ | ⟨a,_ | ⟨b,_ | ⟨c,_ | ⟨d,rest⟩⟩⟩⟩
  iterate 4 simp at enough
  have value : (word32 (a :: b :: c :: d :: rest)).toNat = ((a.toNat * 256 + b.toNat) * 256 + c.toNat) * 256 + d.toNat := by
    simp only [word32,UInt32.toNat_or,UInt8.toNat_toUInt32]
    rw [show (24 : UInt32) = UInt32.ofNat 24 from rfl,show (16 : UInt32) = UInt32.ofNat 16 from rfl,
      show (8 : UInt32) = UInt32.ofNat 8 from rfl,toNat_shifted32 a (by decide),toNat_shifted32 b (by decide),
      toNat_shifted32 c (by decide),or_octet _ b.toNat_lt 16,or_octet _ c.toNat_lt 8]
    have last := or_octet ((a.toNat * 256 + b.toNat) * 256 + c.toNat) d.toNat_lt 0
    simpa only [Nat.zero_add,pow_zero,Nat.mul_one] using last
  rw [value]
  simp only [ofBe,take_succ_cons,take_zero,reverse_cons,reverse_nil,nil_append,cons_append,ofLe]
  ring

theorem word32_eq (enough : ¬ buf.length < 4) : word32 buf = UInt32.ofNat (ofBe (buf.take 4)) := by
  rw [← toNat_word32 enough,UInt32.ofNat_toNat]

theorem cDecodeField_eq {cap} (known : kind.Known) (room : buf.length < cap) :
    cDecodeField cap kind buf = readField kind buf := by
  have agrees := pigeon_agrees (Nat.zero_le 9) 0 buf
  cases kind <;> simp only [cDecodeField,readField]
  case u32be =>
    split
    · rfl
    · rename_i enough
      rw [word32_eq enough]
  case varint =>
    rw [← agrees]
    cases pigeonUvarintDecode 0 (7 * 0) 0 buf <;> rfl
  case stringLenV =>
    rw [← agrees]
    cases pigeonUvarintDecode 0 (7 * 0) 0 buf with
    | error _ => rfl
    | ok r =>
      simp only [Except.toOption,Option.bind_some]
      split
      · rfl
      · rename_i enough
        rw [length_drop] at enough
        rw [if_neg (by omega)]
  case stringToEnd => rw [if_neg (by omega)]
  case bytesToEnd => rw [if_neg (by omega)]
  case other => exact known.elim

variable {caps : Bytes → Nat}

theorem cDecodeFields_eq (valid : check place fields = none) (small : buf.length < 2 ^ 63)
    (room : ∀ fl ∈ fields, buf.length < caps fl.name) : cDecodeFields caps fields buf = readFields fields buf := by
  induction fields generalizing buf with
  | nil => rfl
  | cons fl fields ih =>
    obtain ⟨known,-,valid⟩ := check_cons.mp valid
    rw [cDecodeFields,readFields,cDecodeField_eq known (room fl (by simp))]
    cases read : readField fl.kind buf with
    | none => rfl
    | some r =>
      have shorter := (typed_of_readField small read).2
      rw [Option.bind_some,Option.bind_some,ih valid (Nat.lt_of_le_of_lt shorter small)
        (fun other mem => Nat.lt_of_le_of_lt shorter (room other (by simp [mem])))]

theorem cDecode_eq (valid : check place fields = none) (small : buf.length < 2 ^ 31)
    (room : ∀ fl ∈ fields, buf.length < caps fl.name) :
    cDecode caps fields buf = (readFields fields buf).map Prod.fst := by
  rw [cDecode,cDecodeFields_eq valid (Nat.lt_trans small (by decide)) room]
  cases readFields fields buf with
  | none => rfl
  | some r =>
    rw [Option.bind_some,if_neg (by omega)]
    rfl

def fieldSize : WireFieldKind → Value → Nat
  | .u32be,.u32 _ => 4
  | .varint,.varint v => (putUvarint 9 v.toNat).length
  | .stringLenV,.text b => (putUvarint 9 b.length).length + b.length
  | .stringToEnd,.text b | .bytesToEnd,.bytes b => b.length
  | _,_ => 0

def encodedSize : List WireField → List Value → Nat
  | fl :: fields,v :: values => fieldSize fl.kind v + encodedSize fields values
  | _,_ => 0

theorem length_goEncode (fits : Fits fields values) :
    (goEncode fields values).length = encodedSize fields values := by
  induction fits with
  | nil => rfl
  | @cons fl v fields values typed _ ih =>
    rw [goEncode,length_append,ih,encodedSize]
    cases kind : fl.kind <;> cases v <;> simp [goEncodeField,fieldSize]

theorem octets_eq (v : UInt32) :
    [(v >>> 24).toUInt8,(v >>> 16).toUInt8,(v >>> 8).toUInt8,v.toUInt8] = be 4 v.toNat := by
  have word := v.toNat_lt
  have value : ofBe [(v >>> 24).toUInt8,(v >>> 16).toUInt8,(v >>> 8).toUInt8,v.toUInt8] = v.toNat := by
    simp only [ofBe,reverse_cons,reverse_nil,nil_append,cons_append,ofLe,UInt32.toNat_toUInt8,
      UInt32.toNat_shiftRight]
    simp only [show (24 : UInt32).toNat % 32 = 24 from rfl,show (16 : UInt32).toNat % 32 = 16 from rfl,
      show (8 : UInt32).toNat % 32 = 8 from rfl,Nat.shiftRight_eq_div_pow]
    omega
  rw [← value]
  exact (be_ofBe rfl).symm

theorem cEncodeField_eq (typed : Typed kind v) (room : Nat) : cEncodeField room kind v =
      if room < (goEncodeField kind v).length then none else some (goEncodeField kind v) := by
  have width (v : UInt64) : v.toNat < 128 ^ (9 + 1) := Nat.lt_of_lt_of_le v.toNat_lt (by decide)
  cases kind <;> cases v <;> simp only [Typed] at typed
  case u32be.u32 v => rw [cEncodeField,octets_eq,goEncodeField,be_length]
  case varint.varint v => exact uvarintEncode_eq (width v) room
  case stringLenV.text b =>
    have length : (UInt64.ofNat b.length).toNat = b.length :=
      UInt64.toNat_ofNat_of_lt' (Nat.lt_trans typed (by decide))
    rw [cEncodeField,uvarintEncode_eq (width _) room,length,goEncodeField,length_append]
    split_ifs <;> simp <;> omega
  case stringToEnd.text b | bytesToEnd.bytes b => rfl

theorem cEncodeFields_eq (fits : Fits fields values) {room} (enough : (goEncode fields values).length ≤ room) :
    cEncodeFields room fields values = some (goEncode fields values) := by
  induction fits generalizing room with
  | nil => rfl
  | @cons fl v fields values typed _ ih =>
    rw [goEncode,length_append] at enough
    rw [cEncodeFields,cEncodeField_eq typed,if_neg (by omega),Option.bind_some,ih (by omega),goEncode]
    rfl

/-- A field of octets gets what `nil` names in front. -/
def glue (null : Bytes) : WireFieldKind → Value → Value
  | .bytesToEnd,.bytes b => .bytes (null ++ b)
  | _,v => v

def glueAll (null : Bytes) : List WireField → List Value → List Value
  | fl :: fields,v :: values =>
    glue null fl.kind v :: glueAll (nilAfter null fl (glue null fl.kind v)) fields values
  | _,_ => []

theorem goDecodeField_eq (null : Bytes) {fl} (known : fl.kind.Known) (buf : Bytes) :
    (goDecodeField null fl buf).toOption = (readField fl.kind buf).map fun r => (glue null fl.kind r.1,r.2) := by
  cases kind : fl.kind <;> simp only [goDecodeField,readField,kind]
  case u32be => split_ifs <;> rfl
  case varint => cases uvarint 0 0 0 buf <;> rfl
  case stringLenV =>
    cases uvarint 0 0 0 buf with
    | error _ => rfl
    | ok r =>
      simp only [Except.toOption,Option.bind_some]
      split_ifs <;> rfl
  case stringToEnd | bytesToEnd => rfl
  case other => rw [kind] at known; exact known.elim

theorem goDecodeFields_eq (null : Bytes) (valid : check place fields = none) (buf : Bytes) :
    (goDecodeFields null fields buf).toOption = (readFields fields buf).map fun r => glueAll null fields r.1 := by
  induction fields generalizing null buf with
  | nil => rfl
  | cons fl fields ih =>
    obtain ⟨known,-,valid⟩ := check_cons.mp valid
    have one := goDecodeField_eq null known buf
    rw [goDecodeFields,readFields]
    cases went : goDecodeField null fl buf with
    | error e =>
      rw [went] at one
      rw [map_eq_none_iff.mp one.symm]
      rfl
    | ok r =>
      rw [went] at one
      obtain ⟨raw,read,same⟩ := map_eq_some_iff.mp one.symm
      rw [read]
      simp only [Option.bind_some,Pigeon.Chunks.toOption_map,← same,ih _ valid raw.2,Option.map_map]
      rfl

theorem glueAll_of_noBytes (null : Bytes) (fits : Fits fields values) (noBytes : ∀ fl ∈ fields, fl.kind ≠ .bytesToEnd) :
    glueAll null fields values = values := by
  induction fits generalizing null with
  | nil => rfl
  | @cons fl v fields values typed _ ih =>
    have same : glue null fl.kind v = v := by
      unfold glue
      split
      · rename_i kind
        exact absurd kind (noBytes fl (by simp))
      · rfl
    rw [glueAll,ih _ (fun other mem => noBytes other (by simp [mem])),same]

/-- A string called `nil` stands before the octets to the end. -/
def Captures (fields : List WireField) : Prop :=
  ∃ front fl back, fields = front ++ fl :: back ∧ fl.kind = .stringLenV ∧ lowerCamel fl.name = "nil" ∧
    ∃ last ∈ back, last.kind = .bytesToEnd

theorem not_captures_tail {fl} (clean : ¬ Captures (fl :: fields)) : ¬ Captures fields := by
  rintro ⟨front,named,back,parts,rest⟩
  exact clean ⟨fl :: front,named,back,by rw [parts,cons_append],rest⟩

theorem glue_nil (kind : WireFieldKind) (v : Value) : glue [] kind v = v := by
  unfold glue
  split <;> rfl

theorem glueAll_of_not_captures (valid : check place fields = none) (fits : Fits fields values)
    (clean : ¬ Captures fields) : glueAll [] fields values = values := by
  induction fits with
  | nil => rfl
  | @cons fl v fields values typed fits ih =>
    obtain ⟨known,last,valid⟩ := check_cons.mp valid
    have tail := ih valid (not_captures_tail clean)
    rw [glueAll,glue_nil]
    by_cases named : lowerCamel fl.name = "nil"
    · -- only a string before other fields can pass something on to them
      have noBytes : fl.kind = .stringLenV → ∀ other ∈ fields, other.kind ≠ .bytesToEnd :=
        fun kind other mem bytes => clean ⟨[],fl,fields,rfl,kind,named,other,mem,bytes⟩
      cases kind : fl.kind with
      | stringLenV => rw [glueAll_of_noBytes _ fits (noBytes kind)]
      | u32be | varint =>
        rw [kind] at typed
        cases v <;> simp only [Typed] at typed
        rw [nilAfter,if_pos named,Value.octets,tail]
      | stringToEnd | bytesToEnd =>
        cases last (by rw [kind]; trivial)
        cases fits
        rfl
      | other text => rw [kind] at known; exact known.elim
    · rw [nilAfter,if_neg named,tail]

def sample : WireFieldKind → Value
  | .u32be => .u32 0
  | .varint => .varint 0
  | .stringLenV => .text [0]
  | .stringToEnd => .text []
  | .bytesToEnd | .other _ => .bytes []

theorem fits_sample (valid : check place fields = none) : Fits fields (fields.map fun fl => sample fl.kind) := by
  induction fields with
  | nil => exact .nil
  | cons fl fields ih =>
    obtain ⟨known,-,valid⟩ := check_cons.mp valid
    refine .cons ?_ (ih valid)
    cases kind : fl.kind <;> simp_all [sample,Typed,WireFieldKind.Known]

theorem glueAll_sample_ne {null} (nonempty : null ≠ [])
    (others : ∀ fl ∈ fields, lowerCamel fl.name ≠ "nil") (bytes : ∃ fl ∈ fields, fl.kind = .bytesToEnd) :
    glueAll null fields (fields.map fun fl => sample fl.kind) ≠ fields.map fun fl => sample fl.kind := by
  induction fields with
  | nil => simp at bytes
  | cons fl fields ih =>
    rw [map_cons,glueAll,nilAfter,if_neg (others fl (by simp))]
    intro same
    obtain ⟨head,tail⟩ := cons.inj same
    obtain ⟨last,mem,kind⟩ := bytes
    rcases mem_cons.mp mem with rfl | mem
    · rw [kind] at head
      exact nonempty (by simpa [glue,sample] using head)
    · exact ih (fun other mem => others other (by simp [mem])) ⟨last,mem,kind⟩ tail

theorem glueAll_ne_of_captures (distinct : (fields.map fun fl => lowerCamel fl.name).Nodup)
    (captures : Captures fields) :
    glueAll [] fields (fields.map fun fl => sample fl.kind) ≠ fields.map fun fl => sample fl.kind := by
  obtain ⟨front,named,back,rfl,kind,name,bytes⟩ := captures
  induction front with
  | nil =>
    simp only [nil_append,map_cons,nodup_cons] at distinct ⊢
    rw [glueAll,glue_nil,nilAfter,if_pos name,kind]
    intro same
    refine glueAll_sample_ne (show ([0] : Bytes) ≠ [] by simp) ?_ bytes (cons.inj same).2
    intro other mem again
    exact distinct.1 (mem_map.mpr ⟨other,mem,again.trans name.symm⟩)
  | cons fl front ih =>
    simp only [cons_append,map_cons,nodup_cons] at distinct ⊢
    have other : lowerCamel fl.name ≠ "nil" :=
      fun same => distinct.1 (mem_map.mpr ⟨named,by simp,name.trans same.symm⟩)
    rw [glueAll,glue_nil,nilAfter,if_neg other]
    exact fun same => ih distinct.2 (cons.inj same).2

/-- The Go code returns what it was given, and the C decoder what the Go decoder does, given room. -/
structure Sound (fields : List WireField) : Prop where
  roundTrip : ∀ values, Fits fields values → goDecode fields (goEncode fields values) = .ok values
  decoders : ∀ buf caps, buf.length < 2 ^ 31 → (∀ fl ∈ fields, buf.length < caps fl.name) →
    cDecode caps fields buf = (goDecode fields buf).toOption

theorem goDecode_goEncode (valid : check place fields = none) (fits : Fits fields values) :
    goDecode fields (goEncode fields values) = .ok (glueAll [] fields values) := by
  apply eq_ok_of_toOption
  rw [goDecode,goDecodeFields_eq [] valid,readFields_goEncode valid fits]
  rfl

theorem sound_iff (valid : check place fields = none) (distinct : (fields.map fun fl => lowerCamel fl.name).Nodup) :
    Sound fields ↔ ¬ Captures fields := by
  constructor
  · intro sound captures
    have fits := fits_sample valid
    have back := sound.roundTrip _ fits
    rw [goDecode_goEncode valid fits] at back
    exact glueAll_ne_of_captures distinct captures (Except.ok.inj back)
  · intro clean
    refine ⟨fun values fits => ?_,fun buf caps small room => ?_⟩
    · rw [goDecode_goEncode valid fits,glueAll_of_not_captures valid fits clean]
    · rw [cDecode_eq valid small room,goDecode,goDecodeFields_eq [] valid]
      cases read : readFields fields buf with
      | none => rfl
      | some r =>
        have fits := (fits_of_readFields (Nat.lt_trans small (by decide)) read).1
        rw [map_some,map_some,glueAll_of_not_captures valid fits clean]

theorem cEncode_eq_iff (fits : Fits fields values) :
    (∀ outLen, encodedSize fields values ≤ outLen → cEncode fields values outLen = some (goEncode fields values)) ↔
      encodedSize fields values < 2 ^ 31 := by
  have written {outLen : Nat} (enough : encodedSize fields values ≤ outLen) :
      cEncode fields values outLen = intReturn (goEncode fields values) := by
    rw [cEncode,cEncodeFields_eq fits (by rwa [length_goEncode fits]),Option.bind_some]
  rw [← length_goEncode fits] at written ⊢
  constructor
  · intro encodes
    have returned := encodes _ (Nat.le_refl _)
    rw [written (Nat.le_refl _)] at returned
    exact length_of_intReturn returned
  · intro small outLen enough
    rw [written enough,intReturn_of_lt small]

/-- For an accepted format with names apart, the Go code reads back what it writes and the C decoder agrees just when
    no string called `nil` stands before octets to the end; the C encoder agrees as far as an `int` counts. -/
theorem plain_formats_agree_iff {s : WireFormatSet} (valid : validate s = none) {f : WireFormat} (mem : f ∈ s.formats)
    (distinct : (f.fields.map fun fl => lowerCamel fl.name).Nodup) :
    (Sound f.fields ↔ ¬ Captures f.fields) ∧ ∀ values, Fits f.fields values →
        ((∀ outLen, encodedSize f.fields values ≤ outLen →
            cEncode f.fields values outLen = some (goEncode f.fields values)) ↔
          encodedSize f.fields values < 2 ^ 31) := by
  have fields := (check_of_checkFormat (checkFormat_of_validate valid mem)).1
  exact ⟨sound_iff fields distinct,fun values fits => cEncode_eq_iff fits⟩

def plainSet (fields : List WireField) : WireFormatSet :=
  ⟨"wire",[⟨"plain",fields,[],[]⟩]⟩

def datagramFields : List WireField := [⟨"channel_id",.varint⟩,⟨"payload",.bytesToEnd⟩]

theorem datagram_sound : Sound datagramFields ∧ ∀ outLen, 3 ≤ outLen →
      cEncode datagramFields [.varint 300,.bytes [7]] outLen = some [0xac,2,7] := by
  have agree := plain_formats_agree_iff (s := plainSet datagramFields) (by decide) (mem_singleton.mpr rfl) (by decide)
  refine ⟨agree.1.mpr ?_,?_⟩
  · rintro ⟨front,fl,back,parts,kind,name,-⟩
    have mem : fl ∈ datagramFields := by rw [show datagramFields = _ from parts]; simp
    simp only [datagramFields,mem_cons,not_mem_nil,or_false] at mem
    rcases mem with rfl | rfl <;> cases kind
  · exact (agree.2 [.varint 300,.bytes [7]] (.cons trivial (.cons (show 1 < 2 ^ 63 by decide) .nil))).mpr (by decide)

def nilFields : List WireField := [⟨"nil",.stringLenV⟩,⟨"data",.bytesToEnd⟩]

theorem nil_glued : validate (plainSet nilFields) = none ∧
      goDecode nilFields (goEncode nilFields [.text "a",.bytes "b"]) = .ok [.text "a",.bytes "ab"] ∧
      cDecode (fun _ => 4) nilFields (goEncode nilFields [.text "a",.bytes "b"]) = some [.text "a",.bytes "b"] := by
  decide

end Pigeon.PlainFormats
