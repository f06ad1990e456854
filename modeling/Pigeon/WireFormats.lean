import Pigeon.KeySchedule

/-!
The descriptions of byte formats in `wireformats.go`: `WireFormatSet`, its `Validate`, and the
names that the generators make (`upperCamel`, `lowerCamel`). A field that takes the rest stands
last and every kind is known (`check_cons`); emitted helpers have an underscore, which no camel
case name has (`underscore_notMem_lowerCamel`).
-/
namespace Pigeon.WireFormats
open Octets KeySchedule List

inductive WireFieldKind
  | u32be
  | varint
  | stringLenV
  | stringToEnd
  | bytesToEnd
  | other (text : Bytes)
deriving DecidableEq

structure WireField where
  name : Bytes
  kind : WireFieldKind

structure WireVariant where
  name : Bytes
  fields : List WireField

structure WireUnion where
  (name lead : Bytes)
  (fields colonSuffix : List WireField)

structure WireFormat where
  name : Bytes
  fields : List WireField
  variants : List WireVariant
  union : List WireUnion

structure WireFormatSet where
  name : Bytes
  formats : List WireFormat

/-- The errors of `Validate`. -/
inductive ValidateError
  /-- "wireformat set: name is required" -/
  | nameRequired
  /-- "wireformat set %q: at least one format required" -/
  | noFormat (set : Bytes)
  /-- "format %q: must declare exactly one of fields/variants/union" -/
  | notOneShape (format : Bytes)
  /-- "%s: field %q kind %q must be last" -/
  | mustBeLast (place field : Bytes) (kind : WireFieldKind)
  /-- "%s: field %q has unknown kind %q" -/
  | unknownKind (place field : Bytes) (kind : WireFieldKind)
  /-- "format %q union variant %q: prefix is required" -/
  | prefixRequired (format union : Bytes)
  /-- "format %q union %q: colon_suffix fields must be string (got %q)" -/
  | suffixNotString (format union : Bytes) (kind : WireFieldKind)

def check (place : Bytes) : List WireField → Option ValidateError
  | [] => none
  | fl :: rest =>
    match fl.kind with
    | .u32be | .varint | .stringLenV => check place rest
    | .stringToEnd | .bytesToEnd =>
      if rest ≠ [] then some (.mustBeLast place fl.name fl.kind) else check place rest
    | .other _ => some (.unknownKind place fl.name fl.kind)

def checkSuffix (format union : Bytes) (cs : WireField) : Option ValidateError :=
  if cs.kind = .other "string" ∨ cs.kind = .other [] then none
  else some (.suffixNotString format union cs.kind)

def checkUnion (format : Bytes) (u : WireUnion) : Option ValidateError :=
  if u.lead = [] then some (.prefixRequired format u.name)
  else (check (ascii "format " ++ format ++ " union " ++ u.name) u.fields).or
    (u.colonSuffix.findSome? (checkSuffix format u.name))

def hits (f : WireFormat) : Nat :=
  (if f.fields ≠ [] then 1 else 0) + (if f.variants ≠ [] then 1 else 0) + (if f.union ≠ [] then 1 else 0)

/-- What `Validate` checks of a format. -/
def checkFormat (f : WireFormat) : Option ValidateError :=
  if hits f ≠ 1 then some (.notOneShape f.name)
  else (check (ascii "format " ++ f.name) f.fields).or
    ((f.variants.findSome? fun v => check (ascii "format " ++ f.name ++ " variant " ++ v.name) v.fields).or
      (f.union.findSome? (checkUnion f.name)))

/-- `WireFormatSet.Validate`. -/
def validate (s : WireFormatSet) : Option ValidateError :=
  if s.name = [] then some .nameRequired
  else if s.formats = [] then some (.noFormat s.name)
  else s.formats.findSome? checkFormat

def WireFieldKind.ToEnd : WireFieldKind → Prop
  | .stringToEnd | .bytesToEnd => True
  | _ => False

def WireFieldKind.Known : WireFieldKind → Prop
  | .other _ => False
  | _ => True

theorem check_cons {place fl rest} : check place (fl :: rest) = none ↔
      fl.kind.Known ∧ (fl.kind.ToEnd → rest = []) ∧ check place rest = none := by
  by_cases last : rest = [] <;> cases kind : fl.kind <;>
    simp [check,kind,last,WireFieldKind.Known,WireFieldKind.ToEnd]

theorem known_of_check {place fields} (valid : check place fields = none) : ∀ fl ∈ fields, fl.kind.Known := by
  induction fields with
  | nil => simp
  | cons fl rest ih =>
    obtain ⟨known,-,valid⟩ := check_cons.mp valid
    exact forall_mem_cons.mpr ⟨known,ih valid⟩

theorem checkFormat_of_validate {s} (valid : validate s = none) {f} (mem : f ∈ s.formats) : checkFormat f = none := by
  rw [validate] at valid
  split at valid
  · cases valid
  split at valid
  · cases valid
  exact findSome?_eq_none_iff.mp valid f mem

theorem check_of_checkFormat {f} (valid : checkFormat f = none) : check (ascii "format " ++ f.name) f.fields = none ∧
      (∀ v ∈ f.variants, check (ascii "format " ++ f.name ++ " variant " ++ v.name) v.fields = none) ∧
      ∀ u ∈ f.union, checkUnion f.name u = none := by
  rw [checkFormat] at valid
  split at valid
  · cases valid
  simpa only [Option.or_eq_none_iff,findSome?_eq_none_iff] using valid

/-- `strings.ToUpper` of one octet: an octet above the ASCII ones is no character of its own and becomes the
    replacement character. -/
def toUpper (b : UInt8) : Bytes :=
  if 128 ≤ b then [0xef,0xbf,0xbd] else if 97 ≤ b ∧ b ≤ 122 then [b - 32] else [b]

def toLower (b : UInt8) : Bytes :=
  if 128 ≤ b then [0xef,0xbf,0xbd] else if 65 ≤ b ∧ b ≤ 90 then [b + 32] else [b]

def changeFirst (change : UInt8 → Bytes) : Bytes → Bytes
  | [] => []
  | b :: rest => change b ++ rest

def upperCamel (s : Bytes) : Bytes := (s.splitOn 95).flatMap (changeFirst toUpper)

def lowerCamel (s : Bytes) : Bytes := changeFirst toLower (upperCamel s)

example : lowerCamel "_stream__id" = "streamId" := by decide

theorem underscore_notMem_toUpper {b} (other : b ≠ 95) : (95 : UInt8) ∉ toUpper b := by
  have each : ∀ n : Fin 256, UInt8.ofFin n ≠ 95 → (95 : UInt8) ∉ toUpper (UInt8.ofFin n) := by decide +kernel
  exact each b.toFin other

theorem underscore_notMem_toLower {b} (other : b ≠ 95) : (95 : UInt8) ∉ toLower b := by
  have each : ∀ n : Fin 256, UInt8.ofFin n ≠ 95 → (95 : UInt8) ∉ toLower (UInt8.ofFin n) := by decide +kernel
  exact each b.toFin other

theorem notMem_changeFirst {change} (keeps : ∀ b : UInt8, b ≠ 95 → (95 : UInt8) ∉ change b)
    {s} (clean : (95 : UInt8) ∉ s) : (95 : UInt8) ∉ changeFirst change s := by
  cases s with
  | nil => exact clean
  | cons b rest =>
    rw [mem_cons,not_or] at clean
    rw [changeFirst,mem_append,not_or]
    exact ⟨keeps b (Ne.symm clean.1),clean.2⟩

theorem underscore_notMem_part (s : Bytes) : ∀ part ∈ s.splitOn 95, (95 : UInt8) ∉ part := by
  induction s with
  | nil => simp
  | cons b rest ih =>
    rw [splitOn_cons_eq_if_modifyHead]
    split
    · simpa using ih
    · rename_i other
      obtain ⟨part,parts,split⟩ := exists_cons_of_ne_nil (splitOn_ne_nil 95 rest)
      rw [split] at ih ⊢
      rw [modifyHead_cons,forall_mem_cons]
      rw [forall_mem_cons] at ih
      refine ⟨?_,ih.2⟩
      rw [mem_cons,not_or]
      exact ⟨fun same => other (by simp [same]),ih.1⟩

theorem underscore_notMem_lowerCamel (s : Bytes) : (95 : UInt8) ∉ lowerCamel s := by
  refine notMem_changeFirst (fun b => underscore_notMem_toLower) ?_
  rw [upperCamel,mem_flatMap]
  rintro ⟨part,mem,inside⟩
  exact notMem_changeFirst (fun b => underscore_notMem_toUpper) (underscore_notMem_part s part mem) inside

end Pigeon.WireFormats
