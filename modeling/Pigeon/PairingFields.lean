import Pigeon.Pairing

/-!
What the scanner of the C library finds in the messages of its own pairing drivers
(`pairing.c`). Fields before the instance ID are found as written. The ID is read up to its
first quote, and 63 octets of that; the initiator takes the token's ID for an empty one
(`instance_ids_iff`).
-/
namespace Pigeon.PairingFields
open Octets Sealing KeySchedule Dialogue PairingWire Pairing List Option

def b64Body : Bytes → Bytes
  | [] => []
  | [b0] => [b64Char (b0.toNat / 4),b64Char (b0.toNat % 4 * 16)]
  | [b0,b1] => [b64Char (b0.toNat / 4),b64Char (b0.toNat % 4 * 16 + b1.toNat / 16),b64Char (b1.toNat % 16 * 4)]
  | b0 :: b1 :: b2 :: rest =>
    b64Char (b0.toNat / 4) :: b64Char (b0.toNat % 4 * 16 + b1.toNat / 16) ::
      b64Char (b1.toNat % 16 * 4 + b2.toNat / 64) :: b64Char (b2.toNat % 64) :: b64Body rest

theorem b64Char_spec {v} (small : v < 64) :
    b64DecodeChar (b64Char v) = some v ∧ b64Char v ≠ 61 ∧ b64Char v ≠ 34 ∧ b64Char v ≠ 0 := by
  revert v
  decide +kernel

theorem b64Encode_eq (octets : Bytes) : ∃ pad, b64Encode octets = b64Body octets ++ replicate pad 61 ∧ pad ≤ 2 := by
  induction octets using b64Body.induct with
  | case1 => exact ⟨0,rfl,by decide⟩
  | case2 b0 => exact ⟨2,rfl,by decide⟩
  | case3 b0 b1 => exact ⟨1,rfl,by decide⟩
  | case4 b0 b1 b2 rest ih =>
    obtain ⟨pad,same,few⟩ := ih
    exact ⟨pad,by rw [b64Encode,b64Body,same]; rfl,few⟩

theorem b64Body_clean (octets : Bytes) : ∀ c ∈ b64Body octets, c ≠ 61 ∧ c ≠ 34 ∧ c ≠ 0 := by
  have clean : ∀ {v : Nat}, v < 64 → b64Char v ≠ 61 ∧ b64Char v ≠ 34 ∧ b64Char v ≠ 0 := fun small => (b64Char_spec small).2
  induction octets using b64Body.induct with
  | case1 => simp [b64Body]
  | case2 b0 =>
    have := b0.toNat_lt
    simp only [b64Body,forall_mem_cons]
    exact ⟨clean (by omega),clean (by omega),by simp⟩
  | case3 b0 b1 =>
    have := b0.toNat_lt
    have := b1.toNat_lt
    simp only [b64Body,forall_mem_cons]
    exact ⟨clean (by omega),clean (by omega),clean (by omega),by simp⟩
  | case4 b0 b1 b2 rest ih =>
    have := b0.toNat_lt
    have := b1.toNat_lt
    have := b2.toNat_lt
    simp only [b64Body,forall_mem_cons]
    exact ⟨clean (by omega),clean (by omega),clean (by omega),clean (by omega),ih⟩

theorem first_octet (b0 b1 : UInt8) : b0.toNat / 4 * 4 + (b0.toNat % 4 * 16 + b1.toNat / 16) / 16 = b0.toNat := by
  have := b1.toNat_lt
  omega

theorem b64Group_three (b0 b1 b2 : UInt8) :
    b64Group (b0.toNat / 4) (b0.toNat % 4 * 16 + b1.toNat / 16) (some (b1.toNat % 16 * 4 + b2.toNat / 64))
      (some (b2.toNat % 64)) = [b0,b1,b2] := by
  have second : (b0.toNat % 4 * 16 + b1.toNat / 16) % 16 * 16 + (b1.toNat % 16 * 4 + b2.toNat / 64) / 4 = b1.toNat := by
    have := b1.toNat_lt
    have := b2.toNat_lt
    omega
  have third : (b1.toNat % 16 * 4 + b2.toNat / 64) % 4 * 64 + b2.toNat % 64 = b2.toNat := by
    have := b2.toNat_lt
    omega
  simp only [b64Group,map_some,toList_some,getD_some,first_octet,second,third,UInt8.ofNat_toNat]
  rfl

theorem b64Group_two (b0 b1 : UInt8) :
    b64Group (b0.toNat / 4) (b0.toNat % 4 * 16 + b1.toNat / 16) (some (b1.toNat % 16 * 4)) none = [b0,b1] := by
  have second : (b0.toNat % 4 * 16 + b1.toNat / 16) % 16 * 16 + b1.toNat % 16 * 4 / 4 = b1.toNat := by
    have := b1.toNat_lt
    omega
  simp only [b64Group,map_some,map_none,toList_some,first_octet,second,UInt8.ofNat_toNat]
  rfl

theorem b64Group_one (b0 : UInt8) : b64Group (b0.toNat / 4) (b0.toNat % 4 * 16) none none = [b0] := by
  have first : b0.toNat / 4 * 4 + b0.toNat % 4 * 16 / 16 = b0.toNat := by omega
  simp only [b64Group,map_none,first,UInt8.ofNat_toNat]
  rfl

theorem b64Groups_body (octets : Bytes) : b64Groups (b64Body octets) = some octets := by
  have read : ∀ {v : Nat}, v < 64 → b64DecodeChar (b64Char v) = some v := fun small => (b64Char_spec small).1
  induction octets using b64Body.induct with
  | case1 => rfl
  | case2 b0 =>
    have := b0.toNat_lt
    rw [b64Body,b64Groups,read (by omega),read (by omega)]
    exact congrArg some (b64Group_one b0)
  | case3 b0 b1 =>
    have := b0.toNat_lt
    have := b1.toNat_lt
    rw [b64Body,b64Groups,read (by omega),read (by omega),read (by omega)]
    exact congrArg some (b64Group_two b0 b1)
  | case4 b0 b1 b2 rest ih =>
    have := b0.toNat_lt
    have := b1.toNat_lt
    have := b2.toNat_lt
    rw [b64Body,b64Groups,read (by omega),read (by omega),read (by omega),read (by omega),ih]
    exact congrArg (fun front => some (front ++ rest)) (b64Group_three b0 b1 b2)

theorem dropWhile_replicate_append {pad : Nat} {l : Bytes} (clean : ∀ c ∈ l, c ≠ 61) :
    (replicate pad 61 ++ l).dropWhile (· = 61) = l := by
  induction pad with
  | zero =>
    cases l with
    | nil => rfl
    | cons c l =>
      have other : c ≠ 61 := clean c mem_cons_self
      simp [other]
  | succ pad ih => simpa [replicate_succ] using ih

theorem b64Decode_encode {octets : Bytes} {cap : Nat} (room : octets.length ≤ cap) :
    b64Decode (b64Encode octets) cap = some octets := by
  obtain ⟨pad,same,-⟩ := b64Encode_eq octets
  have body : ((b64Encode octets).reverse.dropWhile (· = 61)).reverse = b64Body octets := by
    rw [same,reverse_append,reverse_replicate,dropWhile_replicate_append,reverse_reverse]
    intro c mem
    exact (b64Body_clean octets c (mem_reverse.mp mem)).1
  rw [b64Decode,body,b64Groups_body]
  simp [room]

theorem b64Body_length (octets : Bytes) : 3 * (b64Body octets).length ≤ 4 * octets.length + 2 := by
  induction octets using b64Body.induct with
  | case1 | case2 | case3 => simp [b64Body]
  | case4 b0 b1 b2 rest ih =>
    simp only [b64Body,length_cons]
    omega

theorem b64Encode_key (key : Key) : 34 ∉ b64Encode key.bytes ∧ 0 ∉ b64Encode key.bytes ∧
    (b64Encode key.bytes).length + 1 ≤ 64 := by
  obtain ⟨pad,same,few⟩ := b64Encode_eq key.bytes
  have clean := b64Body_clean key.bytes
  have short := b64Body_length key.bytes
  rw [key.length] at short
  rw [same]
  refine ⟨?_,?_,?_⟩
  · simp only [mem_append,mem_replicate,not_or]
    exact ⟨fun mem => (clean 34 mem).2.1 rfl,by simp⟩
  · simp only [mem_append,mem_replicate,not_or]
    exact ⟨fun mem => (clean 0 mem).2.2 rfl,by simp⟩
  · rw [length_append,length_replicate]
    omega

def mem (key value rest : Bytes) : Bytes := 34 :: (key ++ 34 :: 58 :: 34 :: (value ++ 34 :: rest))

structure Keyword (key : Bytes) : Prop where
  clean : 34 ∉ key
  letter : ∃ c ∈ key.head?, c ≠ 58 ∧ c ≠ 44

section
variable {key : Bytes} {rest : Bytes}

theorem skip_octet {search c} (other : c ≠ 34) :
    findString (34 :: search) (c :: rest) = findString (34 :: search) rest := by
  have differs : (34 == c) = false := by simpa using fun same => other same.symm
  rw [findString]
  simp [List.isPrefixOf,differs]

theorem skip_text {search text} (clean : 34 ∉ text) :
    findString (34 :: search) (text ++ rest) = findString (34 :: search) rest := by
  induction text with
  | nil => rfl
  | cons c text ih =>
    have other : c ≠ 34 := fun same => clean (by simp [same])
    rw [cons_append,skip_octet other,ih (fun mem => clean (mem_cons_of_mem _ mem))]

theorem skip_closing (keyword : Keyword key) {d} (separator : d = 58 ∨ d = 44) :
    findString (34 :: (key ++ [34])) (34 :: d :: rest) = findString (34 :: (key ++ [34])) (d :: rest) := by
  obtain ⟨c,first,notColon,notComma⟩ := keyword.letter
  cases key with
  | nil => cases first
  | cons k key =>
    obtain rfl : k = c := by simpa using first
    have differs : (k == d) = false := by
      rcases separator with rfl | rfl
      · simpa using notColon
      · simpa using notComma
    rw [findString]
    simp [List.isPrefixOf,differs]

theorem isPrefixOf_quoted {token} (clean : 34 ∉ key) (tokenClean : 34 ∉ token) :
    (34 :: (key ++ [34])).isPrefixOf (34 :: (token ++ 34 :: rest)) ↔ key = token := by
  rw [List.isPrefixOf_iff_prefix,cons_prefix_cons]
  constructor
  · rintro ⟨-,tail,same⟩
    have cut := congrArg (takeWhile (fun c : UInt8 => decide (c ≠ 34))) same
    rw [append_assoc,singleton_append,takeWhile_append_of_notMem clean,takeWhile_append_of_notMem tokenClean] at cut
    exact cut
  · rintro rfl
    exact ⟨rfl,rest,by simp⟩

theorem skip_member (keyword : Keyword key) {k v} (keyClean : 34 ∉ k) (valueClean : 34 ∉ v) (other : key ≠ k) :
    findString (34 :: (key ++ [34])) (mem k v (44 :: rest)) = findString (34 :: (key ++ [34])) rest := by
  -- The value is no key either: it is followed by a comma.
  have value : findString (34 :: (key ++ [34])) (34 :: (v ++ 34 :: 44 :: rest)) =
      findString (34 :: (key ++ [34])) (v ++ 34 :: 44 :: rest) := by
    rw [findString]
    by_cases same : key = v
    · subst same
      have after : ((34 :: (key ++ 34 :: 44 :: rest)).drop (34 :: (key ++ [34])).length) = 44 :: rest := by
        simp [drop_append]
      rw [after]
      simp [stringAfterKey,skipBlanks]
    · rw [if_neg (fun found => same ((isPrefixOf_quoted keyword.clean valueClean).mp found))]
  have notKey : ¬ (34 :: (key ++ [34])).isPrefixOf (34 :: (k ++ 34 :: 58 :: 34 :: (v ++ 34 :: 44 :: rest))) = true :=
    fun found => other ((isPrefixOf_quoted keyword.clean keyClean).mp found)
  rw [mem,findString,if_neg notKey,skip_text keyClean,skip_closing keyword (.inl rfl),skip_octet (by decide),value,
    skip_text valueClean,skip_closing keyword (.inr rfl),skip_octet (by decide)]

theorem find_member (key value rest : Bytes) :
    findString (34 :: (key ++ [34])) (mem key value rest) = some (value ++ 34 :: rest) := by
  have here : (34 :: (key ++ [34])).isPrefixOf (mem key value rest) = true := by
    rw [List.isPrefixOf_iff_prefix]
    exact ⟨58 :: 34 :: (value ++ 34 :: rest),by simp [mem]⟩
  have after : (mem key value rest).drop (34 :: (key ++ [34])).length = 58 :: 34 :: (value ++ 34 :: rest) := by
    simp [mem,drop_append]
  rw [mem] at here after ⊢
  rw [findString,if_pos here,after]
  rfl

end

/-- The common form of `helloJson` and `welcomeJson`. -/
def envelope (kind first : Bytes) (one two : Key) (id : Bytes) : Bytes :=
  123 :: mem "kind" kind (44 :: mem first (b64Encode one.bytes)
    (44 :: mem "identity_pub" (b64Encode two.bytes) (44 :: mem "instance_id" id [125])))

theorem helloJson_eq (commit identityPub : Key) (id : Bytes) :
    helloJson commit identityPub id = envelope "hello" "commit" commit identityPub id := by
  simp only [helloJson,envelope,mem,append_assoc]
  rfl

theorem welcomeJson_eq (ephPub identityPub : Key) (id : Bytes) :
    welcomeJson ephPub identityPub id = envelope "welcome" "eph_pub" ephPub identityPub id := by
  simp only [welcomeJson,envelope,mem,append_assoc]
  rfl

variable {json : Bytes}

theorem stringField_of_found {value rest key cap}
    (found : findString (34 :: (ascii key ++ [34])) json = some (value ++ 34 :: rest)) (clean : 34 ∉ value)
    (text : 0 ∉ value) (fits : value.length + 1 ≤ cap) : stringField json key cap = some value := by
  have room : ¬ cap < value.length + 1 := Nat.not_lt.mpr fits
  have field : jsonFindStringField json (ascii key) cap = ⟨value,true⟩ := by
    rw [jsonFindStringField,show [34] ++ ascii key ++ [34] = 34 :: (ascii key ++ [34]) from rfl,found]
    simp only [takeWhile_append_of_notMem clean,if_neg room]
  rw [stringField,field]
  simp [cstr_eq_iff.mpr text]

theorem keyField_of_found {rest key k}
    (found : findString (34 :: (ascii key ++ [34])) json = some (b64Encode k.bytes ++ 34 :: rest)) :
    keyField json key = some k := by
  obtain ⟨clean,text,fits⟩ := b64Encode_key k
  rw [keyField,stringField_of_found found clean text fits]
  simp [b64Decode_encode k.length.le,keyOfOctets_bytes]

/-- What is read from the fields of a hello or a welcome. -/
structure Fields (json : Bytes) (kind first : String) (one two : Key) (id : Bytes) : Prop where
  kind : KindIs json kind
  first : keyField json first = some one
  identity : keyField json "identity_pub" = some two
  instanceId : findString (34 :: (ascii "instance_id" ++ [34])) json = some (id ++ 34 :: [125])

theorem fields_of_envelope (one two : Key) (id : Bytes) {kind first} (kindClean : 34 ∉ ascii kind)
    (text : 0 ∉ ascii kind) (fits : (ascii kind).length + 1 ≤ 32) (firstWord : Keyword (ascii first))
    (notKind : ascii first ≠ "kind") (notIdentity : "identity_pub" ≠ ascii first)
    (notInstance : "instance_id" ≠ ascii first) :
    Fields (envelope (ascii kind) (ascii first) one two id) kind first one two id := by
  have oneClean := (b64Encode_key one).1
  have twoClean := (b64Encode_key two).1
  have identityWord : Keyword "identity_pub" := ⟨by decide,105,by decide⟩
  have instanceWord : Keyword "instance_id" := ⟨by decide,105,by decide⟩
  have opening : (123 : UInt8) ≠ 34 := by decide
  constructor
  · rw [KindIs,envelope]
    exact stringField_of_found ((skip_octet opening).trans (find_member _ _ _)) kindClean text fits
  · apply keyField_of_found
    rw [envelope,skip_octet opening,skip_member firstWord (by decide) kindClean notKind,find_member]
  · apply keyField_of_found
    rw [envelope,skip_octet opening,skip_member identityWord (by decide) kindClean (by decide),
      skip_member identityWord firstWord.clean oneClean notIdentity,find_member]
  · rw [envelope,skip_octet opening,skip_member instanceWord (by decide) kindClean (by decide),
      skip_member instanceWord firstWord.clean oneClean notInstance,
      skip_member instanceWord (by decide) twoClean (by decide),find_member]

theorem fields_of_hello (commit identityPub : Key) (id : Bytes) :
    Fields (helloJson commit identityPub id) "hello" "commit" commit identityPub id := by
  rw [helloJson_eq]
  exact fields_of_envelope commit identityPub id (by decide) (by decide) (by decide) ⟨by decide,99,by decide⟩
    (by decide) (by decide) (by decide)

theorem fields_of_welcome (ephPub identityPub : Key) (id : Bytes) :
    Fields (welcomeJson ephPub identityPub id) "welcome" "eph_pub" ephPub identityPub id := by
  rw [welcomeJson_eq]
  exact fields_of_envelope ephPub identityPub id (by decide) (by decide) (by decide) ⟨by decide,101,by decide⟩
    (by decide) (by decide) (by decide)

def PlainId (id : Bytes) : Prop := 34 ∉ id ∧ id.length < 64
deriving Decidable

def Nameless (id : Bytes) : Prop := id = [] ∨ id.head? = some 34

theorem takeWhile_append_quote (id rest : Bytes) :
    (id ++ 34 :: rest).takeWhile (· ≠ 34) = id.takeWhile (fun c : UInt8 => decide (c ≠ 34)) := by
  induction id with
  | nil => rfl
  | cons c id ih =>
    rw [cons_append,takeWhile_cons,takeWhile_cons,ih]

theorem instanceField_of_found {rest} (instanceId : Bytes)
    (found : findString (34 :: (ascii "instance_id" ++ [34])) json = some (cstr instanceId ++ 34 :: rest)) :
    instanceField json = ((cstr instanceId).takeWhile (fun c : UInt8 => decide (c ≠ 34))).take 63 := by
  have octets : (jsonFindStringField json "instance_id" 64).octets =
      ((cstr instanceId).takeWhile (fun c : UInt8 => decide (c ≠ 34))).take 63 := by
    rw [jsonFindStringField,show [34] ++ ascii "instance_id" ++ [34] = 34 :: (ascii "instance_id" ++ [34]) from rfl,found]
    simp only [takeWhile_append_quote]
    split
    next => rfl
    next fits =>
      have short : ((cstr instanceId).takeWhile (fun c : UInt8 => decide (c ≠ 34))).length ≤ 63 := by omega
      exact (take_of_length_le short).symm
  rw [instanceField,octets]
  refine cstr_eq_iff.mpr (fun zero => notMem_cstr instanceId ?_)
  exact (takeWhile_sublist _).mem (mem_of_mem_take zero)

theorem plain_iff (id : Bytes) : (id.takeWhile (fun c : UInt8 => decide (c ≠ 34))).take 63 = id ↔ PlainId id := by
  have shorter : (id.takeWhile (fun c : UInt8 => decide (c ≠ 34))).length ≤ id.length := (takeWhile_sublist _).length_le
  constructor
  · intro same
    have lengths := congrArg length same
    rw [length_take] at lengths
    rw [take_of_length_le (by omega)] at same
    exact ⟨takeWhile_eq_self_iff_notMem.mp same,by omega⟩
  · rintro ⟨clean,short⟩
    rw [take_of_length_le (by omega)]
    exact takeWhile_eq_self_iff_notMem.mpr clean

theorem nameless_iff (id : Bytes) : (id.takeWhile (fun c : UInt8 => decide (c ≠ 34))).take 63 = [] ↔ Nameless id := by
  cases id with
  | nil => simp [Nameless]
  | cons c id =>
    by_cases quote : c = 34
    · simp [Nameless,quote]
    · simp [Nameless,quote]

variable {prims : Primitives} {exchange : Exchange} {result : Paired}

theorem pairAcceptor_stores {own} (success : Succeeds (pairAcceptor prims own) exchange result) :
    ∃ hello, exchange[1]? = some (.recv,some hello) ∧ result.record.peerInstanceId = instanceField hello := by
  obtain ⟨_,hello,_,_,_,_,_,_,shape,-,-,-,-,-,-,-,stored⟩ := pairAcceptor_succeeds success
  refine ⟨hello,by rw [shape]; rfl,?_⟩
  rw [stored,instanceIdField,cstr_instanceField]
  exact take_of_length_le (instanceField_short hello)

theorem pairInitiator_stores {own token blind}
    (success : Succeeds (pairInitiator prims own token blind) exchange result) :
    ∃ welcome, exchange[2]? = some (.recv,some welcome) ∧ result.record.peerInstanceId =
      if instanceField welcome = [] then (cstr token.accInstance).take 63 else instanceField welcome := by
  obtain ⟨_,_,_,welcome,_,shape,-,record,-⟩ := pairInitiator_succeeds success
  refine ⟨welcome,by rw [shape]; rfl,?_⟩
  rw [record]
  by_cases empty : instanceField welcome = []
  · simp [empty,instanceIdField]
  · simp only [empty,if_false,instanceIdField,cstr_instanceField]
    exact take_of_length_le (instanceField_short welcome)

theorem printed_eq {text out} (built : printed text = some out) : out = text := by
  rw [printed] at built
  split_ifs at built
  exact (Option.some.inj built).symm

/-- Fields are read as they were passed in, the instance ID just when it is plain; so are the records, but for an ID
    read as empty, where the initiator takes the token's. -/
theorem instance_ids_iff (prims : Primitives) :
    (∀ commit identityPub instanceId hello, buildHello commit identityPub instanceId = some hello →
      KindIs hello "hello" ∧ keyField hello "commit" = some commit ∧ keyField hello "identity_pub" = some identityPub ∧
        (instanceField hello = cstr instanceId ↔ PlainId (cstr instanceId)) ∧
        ∀ own exchange result, Succeeds (pairAcceptor prims own) exchange result →
          exchange[1]? = some (.recv,some hello) →
            (result.record.peerInstanceId = cstr instanceId ↔ PlainId (cstr instanceId))) ∧
    (∀ ephPub identityPub instanceId welcome, buildWelcome ephPub identityPub instanceId = some welcome →
      KindIs welcome "welcome" ∧ keyField welcome "eph_pub" = some ephPub ∧
        keyField welcome "identity_pub" = some identityPub ∧
        (instanceField welcome = cstr instanceId ↔ PlainId (cstr instanceId)) ∧
        ∀ own token blind exchange result, Succeeds (pairInitiator prims own token blind) exchange result →
          exchange[2]? = some (.recv,some welcome) → (result.record.peerInstanceId = cstr instanceId ↔
              ¬ Nameless (cstr instanceId) ∧ PlainId (cstr instanceId) ∨
                Nameless (cstr instanceId) ∧ (cstr token.accInstance).take 63 = cstr instanceId)) := by
  constructor
  · intro commit identityPub instanceId hello built
    obtain rfl := printed_eq built
    obtain ⟨kind,first,second,found⟩ := fields_of_hello commit identityPub (cstr instanceId)
    have read := instanceField_of_found instanceId found
    refine ⟨kind,first,second,by rw [read]; exact plain_iff _,?_⟩
    intro own exchange result success arrived
    obtain ⟨hello,there,stored⟩ := pairAcceptor_stores success
    obtain rfl : helloJson commit identityPub (cstr instanceId) = hello := by simpa [arrived] using there
    rw [stored,read]
    exact plain_iff _
  · intro ephPub identityPub instanceId welcome built
    obtain rfl := printed_eq built
    obtain ⟨kind,first,second,found⟩ := fields_of_welcome ephPub identityPub (cstr instanceId)
    have read := instanceField_of_found instanceId found
    refine ⟨kind,first,second,by rw [read]; exact plain_iff _,?_⟩
    intro own token blind exchange result success arrived
    obtain ⟨welcome,there,stored⟩ := pairInitiator_stores success
    obtain rfl : welcomeJson ephPub identityPub (cstr instanceId) = welcome := by simpa [arrived] using there
    rw [stored,read]
    by_cases nameless : Nameless (cstr instanceId)
    · rw [if_pos ((nameless_iff _).mpr nameless)]
      simp [nameless]
    · rw [if_neg (fun empty => nameless ((nameless_iff _).mp empty)),plain_iff]
      simp [nameless]

def withPeer (id : Bytes) : Exchange := atServer.set 1 (.recv,some (helloJson keyB keyA id))

theorem plain_ids_stored : (onServer.record.peerInstanceId = "phone" ↔ PlainId "phone") ∧
      ((onPhone "server").record.peerInstanceId = "server" ↔ ¬ Nameless "server" ∧ PlainId "server" ∨
          Nameless "server" ∧ (cstr serverToken.accInstance).take 63 = "server") :=
  ⟨((instance_ids_iff plain).1 keyB keyA "phone" (helloJson keyB keyA "phone")
      (by decide +kernel)).2.2.2.2 server atServer onServer server_succeeds rfl,
    ((instance_ids_iff plain).2 keyA keyB "server" (welcomeJson keyA keyB "server")
      (by decide +kernel)).2.2.2.2 phone serverToken keyB (atPhone (welcomeJson keyA keyB "server"))
      (onPhone "server") phone_succeeds rfl⟩

/-- The ID `a"b` is stored as `a`, and of 64 octets the last one is lost; the ceremonies succeed. -/
theorem quoted_id_is_cut : (Succeeds (pairAcceptor plain server) (withPeer "a\"b")
        ⟨⟨⟨keyA,keyB⟩,keyA,"a"⟩,keyA.bytes ++ keyB.bytes⟩ ∧
      buildHello keyB keyA "a\"b" = some (helloJson keyB keyA "a\"b")) ∧
    (Succeeds (pairAcceptor plain server) (withPeer (replicate 64 97))
        ⟨⟨⟨keyA,keyB⟩,keyA,replicate 63 97⟩,keyA.bytes ++ keyB.bytes⟩ ∧
      buildHello keyB keyA (replicate 64 97) = some (helloJson keyB keyA (replicate 64 97))) ∧
    Succeeds (pairInitiator plain phone ⟨keyA,"a\"b"⟩ keyB) (atPhone (welcomeJson keyA keyB "a\"b"))
      (onPhone "a") := by
  decide +kernel

end Pigeon.PairingFields
