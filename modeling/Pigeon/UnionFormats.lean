import Mathlib.Data.List.Find
import Pigeon.Unions
import Pigeon.WireFormats

/-!
The decoders of prefix-dispatched wire formats for Go (`goEmitUnion`) and for C
(`cEmitUnionImpl` in `wireformats_c.go`). Both find a longest matching prefix
(`longest_of_find`) and agree (`union_decoders_agree`). What an encoder writes is decoded as its
variant unless another's prefix goes on into the values (`union_round_trip_iff`).
-/
namespace Pigeon.UnionFormats
open Octets KeySchedule Unions List
open WireFormats (WireField checkFormat checkUnion)

theorem exchange_perm (first : WireUnion × Nat) (rest : List (WireUnion × Nat)) :
    ((exchange first rest).1 :: (exchange first rest).2).Perm (first :: rest) := by
  induction rest generalizing first with
  | nil => exact Perm.refl _
  | cons u rest ih =>
    rw [exchange]
    split
    · exact (Perm.swap _ _ _).trans ((ih u).cons first)
    · exact (Perm.swap _ _ _).trans (((ih first).cons u).trans (Perm.swap _ _ _))

theorem exchange_longest (first : WireUnion × Nat) (rest : List (WireUnion × Nat)) :
    first.1.lead.length ≤ (exchange first rest).1.1.lead.length ∧
      ∀ u ∈ (exchange first rest).2, u.1.lead.length ≤ (exchange first rest).1.1.lead.length := by
  induction rest generalizing first with
  | nil => exact ⟨Nat.le_refl _,by simp [exchange]⟩
  | cons u rest ih =>
    rw [exchange]
    split
    next longer =>
      obtain ⟨least,others⟩ := ih u
      refine ⟨by simp only; omega,?_⟩
      intro w member
      rcases mem_cons.mp member with rfl | later
      · simp only
        omega
      · exact others w later
    next shorter =>
      obtain ⟨least,others⟩ := ih first
      refine ⟨least,?_⟩
      intro w member
      rcases mem_cons.mp member with rfl | later
      · simp only
        omega
      · exact others w later

theorem orderedFrom_perm (n : Nat) (us : List (WireUnion × Nat)) : (orderedFrom n us).Perm us := by
  induction n generalizing us with
  | zero => exact Perm.refl _
  | succ n ih =>
    cases us with
    | nil => exact Perm.refl _
    | cons u rest => exact ((ih _).cons _).trans (exchange_perm u rest)

variable {n : Nat}

theorem orderedFrom_sorted {us} (enough : us.length ≤ n) :
    (orderedFrom n us).Pairwise (fun a b => b.1.lead.length ≤ a.1.lead.length) := by
  induction n generalizing us with
  | zero =>
    cases length_eq_zero_iff.mp (Nat.le_zero.mp enough)
    exact Pairwise.nil
  | succ n ih =>
    cases us with
    | nil => exact Pairwise.nil
    | cons u rest =>
      have size := (exchange_perm u rest).length_eq
      simp only [length_cons] at size enough
      rw [orderedFrom,pairwise_cons]
      refine ⟨?_,ih (by omega)⟩
      intro w member
      exact (exchange_longest u rest).2 w ((orderedFrom_perm n _).mem_iff.mp member)

theorem ordered_perm (union : List WireUnion) : (ordered union).Perm union.zipIdx := orderedFrom_perm _ _

theorem ordered_sorted (union : List WireUnion) :
    (ordered union).Pairwise (fun a b => b.1.lead.length ≤ a.1.lead.length) :=
  orderedFrom_sorted (by rw [length_zipIdx])

variable {union : List WireUnion} {u : WireUnion}

theorem mem_ordered {tag} : (u,tag) ∈ ordered union ↔ union[tag]? = some u := by
  rw [(ordered_perm union).mem_iff,mem_zipIdx_iff_getElem?]

variable {s : Bytes}

theorem longest_of_find {tag} (found : (ordered union).find? (·.1.lead.isPrefixOf s) = some (u,tag)) :
    union[tag]? = some u ∧ u.lead <+: s ∧ ∀ w ∈ union, w.lead <+: s → w.lead.length ≤ u.lead.length := by
  obtain ⟨matching,front,back,split,passed⟩ := find?_eq_some_iff_append.mp found
  refine ⟨mem_ordered.mp (mem_of_find?_eq_some found),List.isPrefixOf_iff_prefix.mp matching,?_⟩
  intro w member fits
  obtain ⟨i,there⟩ := mem_iff_getElem?.mp member
  have place : (w,i) ∈ front ++ (u,tag) :: back := split ▸ mem_ordered.mpr there
  have sorted := ordered_sorted union
  rw [split] at sorted
  rcases mem_append.mp place with before | after
  · have missed := passed _ before
    simp only [List.isPrefixOf_iff_prefix.mpr fits] at missed
    cases missed
  · rcases mem_cons.mp after with same | later
    · cases same
      exact Nat.le_refl _
    · exact (pairwise_cons.mp (pairwise_append.mp sorted).2.1).1 (w,i) later

theorem decodeUnion_of_lead (format : String) (inside : u ∈ union) (own : u.lead <+: s) :
    ∃ (w : WireUnion) (tag : Nat), union[tag]? = some w ∧ w.lead <+: s ∧
      (∀ v ∈ union, v.lead <+: s → v.lead.length ≤ w.lead.length) ∧
      decodeUnion format union s = (w.decode format (s.drop w.lead.length)).map (fun set => (tag,set)) := by
  obtain ⟨k,there⟩ := mem_iff_getElem?.mp inside
  obtain ⟨⟨w,tag⟩,found⟩ : ∃ found, (ordered union).find? (·.1.lead.isPrefixOf s) = some found := by
    refine Option.isSome_iff_exists.mp (find?_isSome.mpr ⟨(u,k),mem_ordered.mpr there,?_⟩)
    exact List.isPrefixOf_iff_prefix.mpr own
  obtain ⟨place,fits,longest⟩ := longest_of_find found
  refine ⟨w,tag,place,fits,longest,?_⟩
  rw [decodeUnion,found]

/-- The emitted code has the prefix and the names of the variant that `Validate` has checked. -/
structure Emits (w : WireFormats.WireUnion) (u : WireUnion) : Prop where
  name : ascii u.name = w.name
  lead : u.lead = w.lead
  fields : u.fields.map ascii = w.fields.map WireField.name
  colonSuffix : u.colonSuffix.map ascii = w.colonSuffix.map WireField.name

/-- No prefix of a valid format is empty, so the decoder emitted for it rejects the empty message. -/
theorem decodeUnion_nil {f} (valid : checkFormat f = none) (emits : ∀ u ∈ union, ∃ w ∈ f.union, Emits w u)
    (format : String) : decodeUnion format union [] = .error (format ++ ": unrecognised prefix") := by
  rw [decodeUnion,find?_eq_none.mpr]
  rintro ⟨u,tag⟩ among matching
  obtain ⟨w,there,same⟩ := emits u (mem_of_getElem? (mem_ordered.mp among))
  have empty : w.lead = [] := same.lead ▸ prefix_nil.mp (List.isPrefixOf_iff_prefix.mp matching)
  have checked := (WireFormats.check_of_checkFormat valid).2.2 w there
  simp [checkUnion,empty] at checked

def body (u : WireUnion) (values : List Bytes) : Bytes :=
  if u.colonSuffix = [] then values.flatten
  else if values.any (fun p => decide (p ≠ [])) then joined values else []

theorem encode_eq (u : WireUnion) (values : List Bytes) : u.encode values = u.lead ++ body u values := by
  rw [WireUnion.encode,body]
  split <;> rfl

def valuesOf (names : List String) (set : List (String × Bytes)) : List Bytes :=
  names.map (fun name => (set.lookup name).getD [])

theorem valuesOf_nil (names : List String) : valuesOf names [] = replicate names.length [] := by
  simp [valuesOf,map_const']

variable {names : List String} {parts : List Bytes}

theorem valuesOf_zip (distinct : names.Nodup)
    (count : names.length = parts.length) : valuesOf names (names.zip parts) = parts := by
  induction names generalizing parts with
  | nil => exact (length_eq_zero_iff.mp count.symm).symm
  | cons name names ih =>
    cases parts with
    | nil => cases count
    | cons part parts =>
      obtain ⟨fresh,others⟩ := nodup_cons.mp distinct
      have later := ih others (Nat.succ.inj count)
      rw [valuesOf,zip_cons_cons,map_cons,lookup_cons_self,Option.getD_some,← later]
      refine congrArg (part :: ·) (map_congr_left fun other member => ?_)
      have apart : (other == name) = false := by
        rw [beq_eq_false_iff_ne]
        rintro rfl
        exact fresh member
      rw [lookup_cons,apart,later]

def Shaped (u : WireUnion) : Prop :=
  u.colonSuffix = [] ∧ u.fields.length = 1 ∨ u.fields = [] ∧ u.colonSuffix ≠ []

theorem decode_body (format : String) (shaped : Shaped u) (distinct : (u.fields ++ u.colonSuffix).Nodup) {values}
    (count : values.length = (u.fields ++ u.colonSuffix).length) (clean : ∀ v ∈ values, colon ∉ v) :
    ∃ set, u.decode format (body u values) = .ok set ∧ valuesOf (u.fields ++ u.colonSuffix) set = values := by
  rcases shaped with ⟨noSuffix,single⟩ | ⟨noFields,suffix⟩
  · rw [noSuffix,append_nil] at count distinct ⊢
    unfold WireUnion.decode
    refine ⟨_,if_pos noSuffix,?_⟩
    obtain ⟨field,only⟩ := length_eq_one_iff.mp single
    obtain ⟨value,alone⟩ := length_eq_one_iff.mp (count.trans single)
    simp [body,noSuffix,only,alone,valuesOf]
  · rw [noFields,nil_append] at count distinct ⊢
    unfold WireUnion.decode
    rw [if_neg suffix,body,if_neg suffix]
    by_cases empty : values.any (fun p => decide (p ≠ [])) = true
    · have given : values ≠ [] := fun nothing => suffix (length_eq_zero_iff.mp (by rw [← count,nothing]; rfl))
      have split := dropLast_concat_getLast given
      have parts := splitN_joined values.dropLast (values.getLast given)
        (fun v member => clean v (dropLast_subset _ member))
      have size : values.dropLast.length + 1 = u.colonSuffix.length := by
        have positive := length_pos_iff.mpr given
        rw [length_dropLast,← count]
        omega
      have starts : joined values = colon :: (joined values).tail := by
        cases values with
        | nil => exact absurd rfl given
        | cons v values => rfl
      rw [split,size] at parts
      rw [if_pos empty,starts]
      refine ⟨_,if_neg (fun other => other rfl),?_⟩
      rw [parts]
      exact valuesOf_zip distinct count.symm
    · rw [if_neg empty]
      refine ⟨[],rfl,?_⟩
      rw [valuesOf_nil,← count]
      refine (eq_replicate_of_mem fun v member => ?_).symm
      by_contra nonempty
      exact empty (any_eq_true.mpr ⟨v,member,by simpa using nonempty⟩)

/-- A variant whose prefix goes on where the one of `u` ends, as the values do. -/
def Shadows (w u : WireUnion) (values : List Bytes) : Prop :=
  ∃ more, more ≠ [] ∧ w.lead = u.lead ++ more ∧ more <+: body u values

/-- A message is decoded as it was encoded just when no variant has a longer prefix that goes on as the values do. -/
theorem union_round_trip_iff (format : String) (union : List WireUnion) (k : Nat) (u : WireUnion)
    (there : union[k]? = some u) (prefixes : (union.map WireUnion.lead).Nodup) (shaped : Shaped u)
    (distinct : (u.fields ++ u.colonSuffix).Nodup) (values : List Bytes)
    (count : values.length = (u.fields ++ u.colonSuffix).length) (clean : ∀ v ∈ values, colon ∉ v) :
    (∃ set, decodeUnion format union (u.encode values) = .ok (k,set) ∧
        valuesOf (u.fields ++ u.colonSuffix) set = values) ↔
      ¬ ∃ w ∈ union, Shadows w u values := by
  have inside : u ∈ union := mem_of_getElem? there
  have own : u.lead <+: u.encode values := ⟨_,(encode_eq u values).symm⟩
  obtain ⟨w,tag,place,fits,longest,decoded⟩ := decodeUnion_of_lead format inside own
  -- The prefix that is found goes on from the one of `u`.
  obtain ⟨more,continued⟩ := prefix_of_prefix_length_le own fits (longest u inside own)
  have goes : more <+: body u values := by
    rw [encode_eq,← continued] at fits
    exact (prefix_append_right_inj _).mp fits
  constructor
  · rintro ⟨set,returned,-⟩ ⟨v,member,rest,nonempty,follows,into⟩
    rw [decoded] at returned
    have number : tag = k := by
      cases result : w.decode format ((u.encode values).drop w.lead.length) with
      | error e => rw [result] at returned; cases returned
      | ok set => rw [result] at returned; cases returned; rfl
    rw [number,there] at place
    cases place
    have reaches : v.lead <+: u.encode values := by
      rw [follows,encode_eq]
      exact (prefix_append_right_inj _).mpr into
    have most := longest v member reaches
    rw [follows,length_append] at most
    exact nonempty (length_eq_zero_iff.mp (by omega))
  · intro apart
    have same : w = u := by
      have ends : more = [] := by
        by_contra nonempty
        exact apart ⟨w,mem_of_getElem? place,more,nonempty,continued.symm,goes⟩
      rw [ends,append_nil] at continued
      exact (inj_on_of_nodup_map prefixes inside (mem_of_getElem? place) continued).symm
    subst same
    obtain ⟨set,read,back⟩ := decode_body format shaped distinct count clean
    have number : tag = k :=
      (getElem?_inj (Sequence.lt_of_getElem? place) (prefixes.of_map _)).mp (place.trans there.symm)
    refine ⟨set,?_,back⟩
    rw [decoded,encode_eq,drop_left,read,number]
    rfl

def nested : List WireUnion := [⟨"plain","go",["name"],[]⟩,⟨"marked","gone",[],["first","second"]⟩]

theorem nested_round_trip : ∃ set, decodeUnion "message" nested "gone:a:b" = .ok (1,set) ∧
    valuesOf ["first","second"] set = [ascii "a",ascii "b"] := by
  refine (union_round_trip_iff "message" nested 1 ⟨"marked","gone",[],["first","second"]⟩ rfl (by decide)
    (.inr ⟨rfl,by decide⟩) (by decide) ["a","b"] rfl (by decide)).mpr ?_
  rintro ⟨w,member,more,nonempty,follows,-⟩
  have size := congrArg length follows
  have positive := length_pos_iff.mpr nonempty
  rw [length_append] at size
  rcases mem_pair.mp member with rfl | rfl
  · have two : (ascii "go").length = 2 := by decide
    have four : (ascii "gone").length = 4 := by decide
    simp only [two,four] at size
    omega
  · simp only at size
    omega

/-- The name `ne` behind the prefix `go` is taken for the longer prefix, and the name `nest` for a malformed message
    with it. -/
theorem name_taken_for_prefix :
    decodeUnion "message" nested (WireUnion.encode ⟨"plain","go",["name"],[]⟩ ["ne"]) = .ok (1,[]) ∧
      decodeUnion "message" nested (WireUnion.encode ⟨"plain","go",["name"],[]⟩ ["nest"]) =
        .error "message: malformed marked: missing ':' after prefix" :=
  ⟨rfl,rfl⟩

/-- The loop over a suffix: each part with its number, up to a colon or, for the last, to the end. -/
def partLoop (buf : Bytes) (expected : Nat) : Nat → Nat → Nat → Nat → List (Nat × Bytes)
  | 0, off, partStart, partIdx => [(partIdx,(buf.drop partStart).take (off - partStart))]
  | left + 1, off, partStart, partIdx =>
    if partIdx + 1 < expected ∧ buf[off]? = some colon then
      (partIdx,(buf.drop partStart).take (off - partStart)) :: partLoop buf expected left (off + 1) (off + 1) (partIdx + 1)
    else partLoop buf expected left (off + 1) partStart partIdx

/-- The `switch` over the part number: a part and a NUL go into the buffer of the field. -/
def storeParts (caps : String → Nat) (names : List String) : List (Nat × Bytes) → Option (List (String × Bytes))
  | [] => some []
  | (i,part) :: rest =>
    match names[i]? with
    | none => storeParts caps names rest
    | some name =>
      if caps name < part.length + 1 then none else (storeParts caps names rest).map ((name,part) :: ·)

def storeFields (caps : String → Nat) (buf : Bytes) : List String → Nat → Option (List (String × Bytes) × Nat)
  | [], off => some ([],off)
  | name :: names, off =>
    if caps name < buf.length - off + 1 then none
    else (storeFields caps buf names buf.length).map (fun later => ((name,buf.drop off) :: later.1,later.2))

def cDecodeVariant (caps : String → Nat) (u : WireUnion) (buf : Bytes) : Option (List (String × Bytes)) :=
  match storeFields caps buf u.fields u.lead.length with
  | none => none
  | some (stored,off) =>
    if u.colonSuffix ≠ [] ∧ off < buf.length then
      if buf[off]? ≠ some colon then none
      else
        (storeParts caps u.colonSuffix
          (partLoop buf u.colonSuffix.length (buf.length - (off + 1)) (off + 1) (off + 1) 0)).map (stored ++ ·)
    else some stored

/-- The number of the variant and what is stored. `literal` is what a C compiler reads of a prefix quoted by Go. -/
def cDecodeUnion (literal : Bytes → Bytes) (caps : String → Nat) (union : List WireUnion) (buf : Bytes) :
    Option (Nat × List (String × Bytes)) :=
  match (ordered union).find? (fun u => decide (u.1.lead.length ≤ buf.length ∧
      buf.take u.1.lead.length = (literal u.1.lead).take u.1.lead.length)) with
  | none => none
  | some (u,tag) =>
    match cDecodeVariant caps u buf with
    | none => none
    | some stored => if 2 ^ 31 ≤ buf.length % 2 ^ 32 then none else some (tag,stored)

theorem splitN_of_clean {sep front} (clean : sep ∉ front) : splitN sep (n + 1) front = [front] := by
  cases n with
  | zero => rfl
  | succ n =>
    have ended : front.dropWhile (· ≠ sep) = [] := by
      rw [dropWhile_eq_nil_iff]
      intro b member
      simp only [decide_eq_true_eq]
      rintro rfl
      exact clean member
    rw [splitN,ended]

variable {buf : Bytes}

theorem partLoop_eq {expected left off partStart partIdx} (inside : partIdx < expected)
    (rest : off + left = buf.length) (started : partStart ≤ off)
    (clean : partIdx + 1 < expected → colon ∉ (buf.drop partStart).take (off - partStart)) :
    partLoop buf expected left off partStart partIdx =
      ((splitN colon (expected - partIdx) (buf.drop partStart)).zipIdx partIdx).map Prod.swap := by
  induction left generalizing off partStart partIdx with
  | zero =>
    have whole : (buf.drop partStart).take (off - partStart) = buf.drop partStart :=
      take_of_length_le (by rw [length_drop]; omega)
    rw [partLoop,whole]
    rw [whole] at clean
    obtain ⟨n,more⟩ : ∃ n, expected - partIdx = n + 1 := ⟨expected - partIdx - 1,by omega⟩
    rw [more]
    cases n with
    | zero => rfl
    | succ n =>
      rw [splitN_of_clean (clean (by omega))]
      rfl
  | succ left ih =>
    have here : off < buf.length := by omega
    -- What is left of the message is the part up to now, an octet and the rest.
    have split : buf.drop partStart = (buf.drop partStart).take (off - partStart) ++ buf[off] :: buf.drop (off + 1) := by
      have parts := (take_append_drop (off - partStart) (buf.drop partStart)).symm
      rw [drop_drop,show partStart + (off - partStart) = off by omega,drop_eq_getElem_cons here] at parts
      exact parts
    have longer : (buf.drop partStart).take (off + 1 - partStart) =
        (buf.drop partStart).take (off - partStart) ++ [buf[off]] := by
      rw [show off + 1 - partStart = off - partStart + 1 by omega,take_add_one]
      simp [getElem?_drop,show partStart + (off - partStart) = off by omega,here]
    rw [partLoop,getElem?_eq_getElem here]
    by_cases ends : partIdx + 1 < expected ∧ buf[off] = colon
    · obtain ⟨n,more⟩ : ∃ n, expected - partIdx = n + 2 := ⟨expected - partIdx - 2,by omega⟩
      rw [if_pos ⟨ends.1,by rw [ends.2]⟩,ih (by omega) (by omega) (Nat.le_refl _) (by simp),more,
        show expected - (partIdx + 1) = n + 1 by omega]
      rw [ends.2] at split
      have free := clean ends.1
      generalize (buf.drop partStart).take (off - partStart) = part at split free
      rw [split,splitN,dropWhile_append_of_notMem free,takeWhile_append_of_notMem free]
      rfl
    · rw [if_neg (fun both => ends ⟨both.1,Option.some.inj both.2⟩)]
      refine ih inside (by omega) (by omega) ?_
      intro several member
      rw [longer,mem_append,mem_singleton] at member
      rcases member with before | last
      · exact clean several before
      · exact ends ⟨several,last.symm⟩

theorem length_of_mem_splitN {sep part} (member : part ∈ splitN sep n s) : part.length ≤ s.length := by
  induction n using Nat.twoStepInduction generalizing s with
  | zero => cases member
  | one => rw [mem_singleton.mp member]
  | more n _ ih =>
    rw [splitN] at member
    split at member
    next => rw [mem_singleton.mp member]
    next rest after =>
      rcases mem_cons.mp member with rfl | later
      · exact (takeWhile_sublist _).length_le
      · have shorter := (dropWhile_sublist (fun b => decide (b ≠ sep)) (l := s)).length_le
        rw [after,length_cons] at shorter
        have least := ih later
        omega

variable {caps : String → Nat}

theorem storeParts_eq (names : List String) (i : Nat) (room : ∀ part ∈ parts, ∀ name, part.length < caps name) :
    storeParts caps names ((parts.zipIdx i).map Prod.swap) = some ((names.drop i).zip parts) := by
  induction parts generalizing i with
  | nil => simp [storeParts]
  | cons part parts ih =>
    have later := ih (i + 1) (fun p member => room p (mem_cons_of_mem _ member))
    rw [zipIdx_cons,map_cons,Prod.swap_prod_mk,storeParts]
    by_cases named : i < names.length
    · have fits : ¬ caps names[i] < part.length + 1 := by
        have space := room part mem_cons_self names[i]
        omega
      rw [getElem?_eq_getElem named,drop_eq_getElem_cons named]
      simp only [if_neg fits,later]
      rfl
    · have ended : names.drop (i + 1) = [] := drop_eq_nil_iff.mpr (by omega)
      rw [getElem?_eq_none (by omega),drop_eq_nil_iff.mpr (by omega)]
      simp only [later,ended]
      rfl

theorem storeParts_partLoop (given : names ≠ []) {start}
    (inside : start ≤ buf.length) (room : ∀ name, buf.length < caps name) :
    storeParts caps names (partLoop buf names.length (buf.length - start) start start 0) =
      some (names.zip (splitN colon names.length (buf.drop start))) := by
  have loop := partLoop_eq (length_pos_iff.mpr given) (Nat.add_sub_cancel' inside) (Nat.le_refl start) (by simp)
  rw [loop,Nat.sub_zero]
  refine storeParts_eq names 0 ?_
  intro part member name
  have least := length_of_mem_splitN member
  have most := room name
  rw [length_drop] at least
  omega

def Simple (u : WireUnion) : Prop := u.fields = [] ∨ u.colonSuffix = [] ∧ u.fields.length = 1

theorem cDecodeVariant_eq (format : String) (simple : Simple u)
    (long : u.lead.length ≤ buf.length) (room : ∀ name, buf.length < caps name) :
    cDecodeVariant caps u buf = (u.decode format (buf.drop u.lead.length)).toOption := by
  unfold cDecodeVariant WireUnion.decode
  rcases simple with noFields | ⟨noSuffix,single⟩
  · rw [noFields,storeFields]
    by_cases suffix : u.colonSuffix = []
    · simp [suffix,Except.toOption]
    · rw [if_neg suffix]
      cases rest : buf.drop u.lead.length with
      | nil =>
        have ended : ¬ u.lead.length < buf.length := Nat.not_lt.mpr (drop_eq_nil_iff.mp rest)
        simp [ended,Except.toOption]
      | cons c more =>
        have here : u.lead.length < buf.length := by
          by_contra ended
          rw [drop_eq_nil_iff.mpr (Nat.not_lt.mp ended)] at rest
          cases rest
        have first : buf[u.lead.length]? = some c := by
          have head := congrArg head? rest
          rwa [head?_drop] at head
        have others : buf.drop (u.lead.length + 1) = more := by
          have tail := congrArg tail rest
          rwa [tail_drop] at tail
        simp only [suffix,here,ne_eq,not_false_eq_true,and_self,if_true,first,Option.some.injEq]
        by_cases separated : c = colon
        · have stored := storeParts_partLoop suffix (Nat.succ_le_of_lt here) room
          rw [Nat.succ_eq_add_one,others] at stored
          simp [separated,stored,Except.toOption]
        · simp [separated,Except.toOption]
  · obtain ⟨name,only⟩ := length_eq_one_iff.mp single
    have fits : ¬ caps name < buf.length - u.lead.length + 1 := by
      have space := room name
      omega
    simp [only,storeFields,noSuffix,fits,Except.toOption]

def plainOctet (b : UInt8) : Bool :=
  (65 ≤ b && b ≤ 90) || (97 ≤ b && b ≤ 122) || (48 ≤ b && b ≤ 57) || b == 95 || b == 58

/-- With buffers that are large enough the C and the Go decoder find the same variant and fields, or both reject. -/
theorem union_decoders_agree (literal : Bytes → Bytes)
    (reads : ∀ lead : Bytes, (∀ b ∈ lead, plainOctet b = true) → literal lead = lead) (format : String)
    (union : List WireUnion) (plain : ∀ u ∈ union, ∀ b ∈ u.lead, plainOctet b = true) (simple : ∀ u ∈ union, Simple u)
    (buf : Bytes) (short : buf.length < 2 ^ 31) (caps : String → Nat) (room : ∀ name, buf.length < caps name) :
    cDecodeUnion literal caps union buf = (decodeUnion format union buf).toOption := by
  have mem : ∀ {v : WireUnion × Nat}, v ∈ ordered union → v.1 ∈ union := fun member =>
    mem_of_getElem? (mem_ordered.mp member)
  have matching : (ordered union).find? (fun u => decide (u.1.lead.length ≤ buf.length ∧
      buf.take u.1.lead.length = (literal u.1.lead).take u.1.lead.length)) =
      (ordered union).find? (·.1.lead.isPrefixOf buf) := by
    refine find?_congr fun v member => ?_
    rw [reads _ (plain v.1 (mem member)),take_length,Bool.eq_iff_iff,decide_eq_true_eq,List.isPrefixOf_iff_prefix,
      prefix_iff_eq_take]
    constructor
    · exact fun both => both.2.symm
    · intro same
      refine ⟨?_,same.symm⟩
      rw [same,length_take]
      exact Nat.min_le_right _ _
  rw [cDecodeUnion,decodeUnion,matching]
  cases found : (ordered union).find? (·.1.lead.isPrefixOf buf) with
  | none => rfl
  | some choice =>
    obtain ⟨u,tag⟩ := choice
    obtain ⟨place,fits,-⟩ := longest_of_find found
    have size : ¬ 2 ^ 31 ≤ buf.length % 2 ^ 32 := by omega
    simp only [cDecodeVariant_eq format (simple u (mem_of_getElem? place)) fits.length_le room,if_neg size]
    cases u.decode format (buf.drop u.lead.length) <;> rfl

theorem nested_decoders_agree : cDecodeUnion id (fun _ => 100) nested "gone:a:b:c" =
      some (1,[("first",ascii "a"),("second",ascii "b:c")]) := by
  rw [union_decoders_agree id (fun _ _ => rfl) "message" nested (by decide +kernel) (by
      intro u member
      rcases mem_pair.mp member with rfl | rfl
      · exact .inr ⟨rfl,rfl⟩
      · exact .inl rfl)
    "gone:a:b:c" (by decide) (fun _ => 100) (fun _ => by decide +kernel)]
  rfl

end Pigeon.UnionFormats
