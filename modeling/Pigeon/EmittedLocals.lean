import Pigeon.WireFormats

/-!
The local names of the decoders that `wireformats_swift.go`, `wireformats_kotlin.go` and
`wireformats_typescript.go` emit. Helpers are named by kind, so a second field that needs them
declares them again: a decoder is well-formed just when its fields are apart and none has the
name of the running offset (`emitted_decoders_wellFormed_iff`).
-/
namespace Pigeon.EmittedLocals
open Octets KeySchedule WireFormats List

inductive Target
  | swift
  | kotlin
  | typescript

/-- The names that the statements for a field declare, the same in the three generators. -/
def emitDecodeField (fl : WireField) : List Bytes :=
  match fl.kind with
  | .u32be | .stringToEnd | .bytesToEnd => [lowerCamel fl.name]
  | .varint => [lowerCamel fl.name,"_vn"]
  | .stringLenV => ["_lenU","_ln","_len",lowerCamel fl.name]
  | .other _ => []

/-- The names before the fields. A parameter is in the scope of the body in TypeScript; elsewhere it may be hidden. -/
def opened : Target → List Bytes
  | .swift | .kotlin => ["off"]
  | .typescript => ["buf","off"]

/-- The locals in the code of `swiftEmitDecodeFn` and its like. -/
def decodeFn (target : Target) (fields : List WireField) : List Bytes :=
  opened target ++ fields.flatMap emitDecodeField

def returned (fields : List WireField) : List Bytes :=
  (if fields = [] then [[]] else fields.map fun fl => lowerCamel fl.name) ++ [ascii "off"]

def unionBlocks (target : Target) (u : WireUnion) : List (List Bytes) :=
  if u.colonSuffix = [] then [["rest"]]
  else
    match target with
    | .swift => [["rest","_suffix"],["body"]]
    | .kotlin => [["rest","suffix"],["parts"]]
    | .typescript => [["rest","suffix"],["body","parts"],["merged"]]

/-- The locals in the code of `swiftEmitUnion` and its like. -/
def unionFn (target : Target) (union : List WireUnion) : List (List Bytes) :=
  (match target with
    | .swift | .kotlin => ["s"]
    | .typescript => ["buf","s"]) :: union.flatMap (unionBlocks target)

def decodedFields (f : WireFormat) : List (List WireField) :=
  if f.variants = [] ∧ f.union = [] then [f.fields] else f.variants.map (·.fields)

/-- The locals in the code of `ExportSwift` and its like. -/
def decoderScopes (target : Target) (f : WireFormat) : List (List Bytes) :=
  if f.variants = [] ∧ f.union = [] then [decodeFn target f.fields]
  else if f.variants ≠ [] then f.variants.map fun v => decodeFn target v.fields
  else unionFn target f.union

structure WellFormed (target : Target) (f : WireFormat) : Prop where
  once : ∀ scope ∈ decoderScopes target f, scope.Nodup
  complete : ∀ fields ∈ decodedFields f, [] ∉ returned fields

def Apart (a b : WireField) : Prop :=
  lowerCamel a.name ≠ lowerCamel b.name ∧ ¬ (a.kind = .varint ∧ b.kind = .varint) ∧
    ¬ (a.kind = .stringLenV ∧ b.kind = .stringLenV)
deriving Decidable

structure Separate (target : Target) (fields : List WireField) : Prop where
  nonempty : fields ≠ []
  named : ∀ fl ∈ fields, lowerCamel fl.name ≠ []
  apart : fields.Pairwise Apart
  free : ∀ fl ∈ fields, lowerCamel fl.name ∉ opened target

def helpers : WireFieldKind → List Bytes
  | .varint => ["_vn"]
  | .stringLenV => ["_lenU","_ln","_len"]
  | _ => []

theorem emitDecodeField_perm {fl} (known : fl.kind.Known) :
    (emitDecodeField fl).Perm (lowerCamel fl.name :: helpers fl.kind) := by
  cases kind : fl.kind <;> simp only [emitDecodeField,helpers,kind]
  case stringLenV =>
    exact perm_append_singleton (lowerCamel fl.name) ["_lenU","_ln","_len"]
  case other => rw [kind] at known; exact known.elim
  all_goals exact Perm.refl _

theorem underscore_mem_helpers {kind name} (mem : name ∈ helpers kind) : (95 : UInt8) ∈ name := by
  have vn : (95 : UInt8) ∈ ascii "_vn" := by decide
  have lengths : ∀ text ∈ [ascii "_lenU",ascii "_ln",ascii "_len"], (95 : UInt8) ∈ text := by decide
  cases kind <;> simp only [helpers,not_mem_nil] at mem
  case varint => rwa [mem_singleton.mp mem]
  case stringLenV => exact lengths name mem

theorem lowerCamel_notMem_helpers (name : Bytes) (kind : WireFieldKind) : lowerCamel name ∉ helpers kind :=
  fun mem => underscore_notMem_lowerCamel name (underscore_mem_helpers mem)

theorem nodup_helpers (kind : WireFieldKind) : (helpers kind).Nodup := by
  cases kind <;> simp only [helpers] <;> decide

theorem disjoint_helpers_iff (a b : WireFieldKind) :
    (helpers a).Disjoint (helpers b) ↔ ¬ (a = .varint ∧ b = .varint) ∧ ¬ (a = .stringLenV ∧ b = .stringLenV) := by
  cases a <;> cases b <;> simp [helpers]
  all_goals decide

theorem nodup_emitDecodeField {fl} (known : fl.kind.Known) : (emitDecodeField fl).Nodup := by
  rw [(emitDecodeField_perm known).nodup_iff,nodup_cons]
  exact ⟨lowerCamel_notMem_helpers fl.name fl.kind,nodup_helpers fl.kind⟩

theorem disjoint_emitDecodeField_iff {a b} (knownA : a.kind.Known) (knownB : b.kind.Known) :
    (emitDecodeField a).Disjoint (emitDecodeField b) ↔ Apart a b := by
  rw [(emitDecodeField_perm knownA).disjoint_left,(emitDecodeField_perm knownB).disjoint_right,disjoint_cons_left,
    disjoint_cons_right,disjoint_helpers_iff,mem_cons,not_or]
  constructor
  · rintro ⟨⟨names,-⟩,-,kinds⟩
    exact ⟨names,kinds⟩
  · rintro ⟨names,kinds⟩
    exact ⟨⟨names,lowerCamel_notMem_helpers _ _⟩,lowerCamel_notMem_helpers _ _,kinds⟩

theorem underscore_notMem_opened {target name} (mem : name ∈ opened target) : (95 : UInt8) ∉ name := by
  have clean : ∀ target : Target, ∀ text ∈ opened target, (95 : UInt8) ∉ text := by
    intro target
    cases target <;> decide
  exact clean target name mem

theorem nodup_decodeFn_iff (target : Target) {place fields} (valid : check place fields = none) :
    (decodeFn target fields).Nodup ↔ fields.Pairwise Apart ∧ ∀ fl ∈ fields, lowerCamel fl.name ∉ opened target := by
  have known : ∀ fl ∈ fields, fl.kind.Known := known_of_check valid
  have distinct : (opened target).Nodup := by cases target <;> decide
  rw [decodeFn,nodup_append,nodup_flatMap]
  have apart : fields.Pairwise (Function.onFun Disjoint emitDecodeField) ↔ fields.Pairwise Apart :=
    Pairwise.iff_of_mem fun memA memB => disjoint_emitDecodeField_iff (known _ memA) (known _ memB)
  rw [apart]
  constructor
  · rintro ⟨-,⟨-,pairs⟩,clear⟩
    refine ⟨pairs,fun fl mem inside => clear _ inside _ ?_ rfl⟩
    exact mem_flatMap.mpr ⟨fl,mem,(emitDecodeField_perm (known fl mem)).mem_iff.mpr (by simp)⟩
  · rintro ⟨pairs,free⟩
    refine ⟨distinct,⟨fun fl mem => nodup_emitDecodeField (known fl mem),pairs⟩,?_⟩
    rintro name inside _ emitted rfl
    obtain ⟨fl,mem,declared⟩ := mem_flatMap.mp emitted
    rcases mem_cons.mp ((emitDecodeField_perm (known fl mem)).mem_iff.mp declared) with rfl | helper
    · exact free fl mem inside
    · exact underscore_notMem_opened inside (underscore_mem_helpers helper)

theorem notMem_returned_iff (fields : List WireField) :
    [] ∉ returned fields ↔ fields ≠ [] ∧ ∀ fl ∈ fields, lowerCamel fl.name ≠ [] := by
  have offset : ([] : Bytes) ∉ [ascii "off"] := by decide
  rw [returned,mem_append,not_or]
  by_cases none : fields = []
  · simp [none]
  · rw [if_neg none]
    constructor
    · rintro ⟨outside,-⟩
      exact ⟨none,fun fl mem empty => outside (mem_map.mpr ⟨fl,mem,empty⟩)⟩
    · rintro ⟨-,named⟩
      refine ⟨fun inside => ?_,offset⟩
      obtain ⟨fl,mem,empty⟩ := mem_map.mp inside
      exact named fl mem empty

theorem nodup_unionBlocks (target : Target) (u : WireUnion) : ∀ scope ∈ unionBlocks target u, scope.Nodup := by
  unfold unionBlocks
  by_cases bare : u.colonSuffix = []
  · rw [if_pos bare]
    decide
  · rw [if_neg bare]
    cases target <;> decide

theorem nodup_unionFn (target : Target) (union : List WireUnion) : ∀ scope ∈ unionFn target union, scope.Nodup := by
  intro scope mem
  rcases mem_cons.mp mem with rfl | mem
  · cases target <;> decide
  · obtain ⟨u,-,inside⟩ := mem_flatMap.mp mem
    exact nodup_unionBlocks target u scope inside

theorem separate_iff (target : Target) {place fields} (valid : check place fields = none) :
    Separate target fields ↔ (decodeFn target fields).Nodup ∧ [] ∉ returned fields := by
  rw [nodup_decodeFn_iff target valid,notMem_returned_iff]
  constructor
  · intro separate
    exact ⟨⟨separate.apart,separate.free⟩,separate.nonempty,separate.named⟩
  · rintro ⟨⟨apart,free⟩,nonempty,named⟩
    exact ⟨nonempty,named,apart,free⟩

theorem check_decodedFields {f} (valid : checkFormat f = none) :
    ∀ fields ∈ decodedFields f, ∃ place, check place fields = none := by
  obtain ⟨own,variants,-⟩ := check_of_checkFormat valid
  intro fields mem
  unfold decodedFields at mem
  split at mem
  · cases mem_singleton.mp mem
    exact ⟨_,own⟩
  · obtain ⟨v,inside,rfl⟩ := mem_map.mp mem
    exact ⟨_,variants v inside⟩

theorem wellFormed_iff (target : Target) {f} (valid : checkFormat f = none) :
    WellFormed target f ↔ ∀ fields ∈ decodedFields f, Separate target fields := by
  have scopes : (∀ scope ∈ decoderScopes target f, scope.Nodup) ↔
      ∀ fields ∈ decodedFields f, (decodeFn target fields).Nodup := by
    unfold decoderScopes decodedFields
    by_cases plain : f.variants = [] ∧ f.union = []
    · simp [plain]
    · by_cases variants : f.variants = []
      · rw [if_neg plain,if_neg (not_not.mpr variants),if_neg plain,variants]
        simpa using nodup_unionFn target f.union
      · simp [variants]
  constructor
  · intro formed fields mem
    obtain ⟨place,checked⟩ := check_decodedFields valid fields mem
    exact (separate_iff target checked).mpr ⟨scopes.mp formed.once fields mem,formed.complete fields mem⟩
  · intro separate
    have both (fields) (mem : fields ∈ decodedFields f) : (decodeFn target fields).Nodup ∧ [] ∉ returned fields := by
      obtain ⟨place,checked⟩ := check_decodedFields valid fields mem
      exact (separate_iff target checked).mp (separate fields mem)
    exact ⟨scopes.mpr fun fields mem => (both fields mem).1,fun fields mem => (both fields mem).2⟩

/-- Accepted decoders are well-formed just when the fields of each are apart: names in camel case differ, none is the
    offset or the parameter, and at most one needs the helpers of its kind. -/
theorem emitted_decoders_wellFormed_iff (target : Target) {s : WireFormatSet} (valid : validate s = none) :
    (∀ f ∈ s.formats, WellFormed target f) ↔ ∀ f ∈ s.formats, ∀ fields ∈ decodedFields f, Separate target fields := by
  constructor
  · intro formed f mem
    exact (wellFormed_iff target (checkFormat_of_validate valid mem)).mp (formed f mem)
  · intro separate f mem
    exact (wellFormed_iff target (checkFormat_of_validate valid mem)).mpr (separate f mem)

def datagramPlaintext : WireFormat :=
  ⟨"datagram_plaintext",[⟨"channel_id",.varint⟩,⟨"payload",.bytesToEnd⟩],[],[]⟩

theorem datagram_wellFormed : WellFormed .typescript datagramPlaintext := by
  refine (emitted_decoders_wellFormed_iff .typescript (s := ⟨"wire",[datagramPlaintext]⟩) (by decide)).mpr ?_
    datagramPlaintext (mem_singleton.mpr rfl)
  intro f mem fields inside
  cases mem_singleton.mp mem
  cases mem_singleton.mp inside
  exact ⟨by decide,by decide,by decide +kernel,by decide +kernel⟩

def twoVarints : WireFormat := ⟨"pair",[⟨"first",.varint⟩,⟨"second",.varint⟩],[],[]⟩

theorem second_varint_declared_again :
    validate ⟨"wire",[twoVarints]⟩ = none ∧ ∀ target, ¬ WellFormed target twoVarints := by
  refine ⟨by decide,fun target formed => ?_⟩
  have once := formed.once (decodeFn target twoVarints.fields) (mem_singleton.mpr rfl)
  cases target <;> exact absurd once (by decide)

end Pigeon.EmittedLocals
