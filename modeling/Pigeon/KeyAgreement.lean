import Pigeon.Activation
import Pigeon.CSession

/-!
The key schedules of the two ends of an activated session (`pigeon.c`, `listener.c`,
`cwire/connect.go`), in C and in Go. The directional keys always agree. The forked ones are
made under the name as it is read (`heard`), in C up to its first NUL, so they agree just on
names without one (`session_keys_agree_iff`).
-/
namespace Pigeon.KeyAgreement
open Octets Sealing Crypto KeySchedule Activation List Option
open CSession (streamAead streamAead_eq pigeonMaxNameLen)

inductive Library
  | c
  | go

inductive Role
  | client
  | backend

inductive Path
  | primary
  | stream (name : Bytes)
  | datagram

section
variable (x25519 : Key → Key → Option Key) (hmac : Bytes → Bytes → Key)

/-- `derive_session_channel`. -/
def deriveSessionChannel (record : PairingRecord) (sendInfo recvInfo nonce : Bytes) : Option SessionMaterial := do
  guard (sendInfo.length + authNonceLen ≤ 64)
  guard (recvInfo.length + authNonceLen ≤ 64)
  let sendKey ← deriveSessionKey x25519 hmac record.localPrivateKey record.peerPublicKey
    (sendInfo ++ nonce.take authNonceLen)
  let recvKey ← deriveSessionKey x25519 hmac record.localPrivateKey record.peerPublicKey
    (recvInfo ++ nonce.take authNonceLen)
  return ⟨sendKey,recvKey⟩

/-- `make_session`. -/
def makeSession (record : PairingRecord) (nonce : Bytes) : Option SessionMaterial := do
  let sendKey ← deriveSessionKey x25519 hmac record.localPrivateKey record.peerPublicKey
    (backendToClient ++ nonce.take authNonceLen)
  let recvKey ← deriveSessionKey x25519 hmac record.localPrivateKey record.peerPublicKey
    (clientToBackend ++ nonce.take authNonceLen)
  return ⟨sendKey,recvKey⟩

def material : Library → Role → PairingRecord → Bytes → Option SessionMaterial
  | .c, .client, record, nonce => deriveSessionChannel x25519 hmac record clientToBackend backendToClient nonce
  | .c, .backend, record, nonce => makeSession x25519 hmac record nonce
  | .go, .client, record, nonce => deriveSessionMaterial x25519 hmac record false nonce
  | .go, .backend, record, nonce => deriveSessionMaterial x25519 hmac record true nonce

/-- `pigeon_session_bind_base_keys`: the channels of the empty name and of the datagrams. -/
def bindBaseKeys (m : SessionMaterial) : Option (Channel × Channel) := do
  let primary ← streamAead hmac m []
  let sk ← diversifyKey hmac m.sendKey aeadDatagramInfo
  let rk ← diversifyKey hmac m.recvKey aeadDatagramInfo
  return (primary,channelInit sk rk .datagrams)

def channel : Library → SessionMaterial → Path → Option Channel
  | .c, m, .primary => (bindBaseKeys hmac m).map Prod.fst
  | .c, m, .stream name => (bindBaseKeys hmac m).bind (fun _ => streamAead hmac m name)
  | .c, m, .datagram => (bindBaseKeys hmac m).map Prod.snd
  | .go, m, .primary => streamChannel hmac m []
  | .go, m, .stream name => streamChannel hmac m name
  | .go, m, .datagram => datagramChannel hmac m

def established (lib : Library) (role : Role) (record : PairingRecord) (nonce : Bytes) (path : Path) : Option Channel :=
  (material x25519 hmac lib role record nonce).bind (fun m => channel hmac lib m path)

end

def Role.sendLabel : Role → Bytes
  | .client => clientToBackend
  | .backend => backendToClient

def Role.recvLabel : Role → Bytes
  | .client => backendToClient
  | .backend => clientToBackend

def heard : Library → Bytes → Bytes
  | .c, name => cstr name
  | .go, name => name

def info (lib : Library) : Path → Bytes
  | .primary => streamInfo []
  | .stream name => streamInfo (heard lib name)
  | .datagram => aeadDatagramInfo

def Path.mode : Path → Mode
  | .primary => .strict
  | .stream _ => .strict
  | .datagram => .datagrams

def paths (names : List Bytes) : List Path := .primary :: .datagram :: names.map .stream

section
variable {x25519 : Key → Key → Option Key} {hmac : Bytes → Bytes → Key} {record : PairingRecord} {nonce : Bytes}

theorem material_eq (lib : Library) (role : Role) (length : nonce.length = authNonceLen) :
    material x25519 hmac lib role record nonce =
      (x25519 record.localPrivateKey record.peerPublicKey).map (fun shared =>
        ⟨forkKey hmac shared (role.sendLabel ++ nonce),forkKey hmac shared (role.recvLabel ++ nonce)⟩) := by
  have whole : nonce.take authNonceLen = nonce := take_of_length_le (Nat.le_of_eq length)
  have both := derive_both x25519 hmac record role.sendLabel role.recvLabel (by cases role <;> decide)
    (by cases role <;> decide) length
  cases lib with
  | c =>
    cases role with
    | client =>
      rw [material,deriveSessionChannel,whole]
      exact both
    | backend =>
      rw [material,makeSession,whole]
      exact both
  | go =>
    cases role with
    | client | backend =>
      rw [material,deriveSessionMaterial,length]
      exact both

theorem bindBaseKeys_eq (m : SessionMaterial) : bindBaseKeys hmac m =
      some (channelInit (forkKey hmac m.sendKey (streamInfo [])) (forkKey hmac m.recvKey (streamInfo [])) .strict,
        channelInit (forkKey hmac m.sendKey aeadDatagramInfo) (forkKey hmac m.recvKey aeadDatagramInfo) .datagrams) := by
  have primary : streamAead hmac m [] = some (channelInit (forkKey hmac m.sendKey (streamInfo []))
      (forkKey hmac m.recvKey (streamInfo [])) .strict) := streamAead_eq hmac m (by decide)
  have fits : aeadDatagramInfo.length ≤ 255 := by decide
  simp [bindBaseKeys,primary,diversifyKey_eq,fits]

theorem channel_eq (lib : Library) (m : SessionMaterial) {path}
    (short : ∀ name, path = .stream name → name.length < pigeonMaxNameLen) : channel hmac lib m path =
      some (channelInit (forkKey hmac m.sendKey (info lib path)) (forkKey hmac m.recvKey (info lib path)) path.mode) := by
  have stream : ∀ name : Bytes, name.length < pigeonMaxNameLen → streamChannel hmac m name = some _ :=
    fun name within => (streamChannel_eq hmac m name).trans (if_pos (by unfold pigeonMaxNameLen at within; omega))
  cases path with
  | primary =>
    cases lib with
    | c => rw [channel,bindBaseKeys_eq]; rfl
    | go => exact stream [] (by decide)
  | stream name =>
    have within := short name rfl
    have cut := length_cstr_le name
    cases lib with
    | c =>
      rw [channel,bindBaseKeys_eq,bind_some]
      exact streamAead_eq hmac m (Nat.lt_of_le_of_lt cut within)
    | go => exact stream name within
  | datagram =>
    cases lib with
    | c => rw [channel,bindBaseKeys_eq]; rfl
    | go => exact datagramChannel_eq hmac m

def derivation (lib : Library) (nonce : Bytes) (use : Path × Role) : Bytes × Bytes :=
  (use.2.sendLabel ++ nonce,info lib use.1)

theorem sendLabel_injective {one two : Role} (same : one.sendLabel ++ nonce = two.sendLabel ++ nonce) : one = two := by
  have label := append_cancel_right same
  cases one <;> cases two <;> first | rfl | exact absurd label (by decide)

theorem info_injective {lib : Library} {names : List Bytes} (named : ∀ name ∈ names, heard lib name ≠ [])
    (apart : ∀ one ∈ names, ∀ two ∈ names, heard lib one = heard lib two → one = two) {one two : Path}
    (among : one ∈ paths names) (among' : two ∈ paths names) (same : info lib one = info lib two) : one = two := by
  have known : ∀ {name : Bytes}, Path.stream name ∈ paths names → name ∈ names := by
    intro name mem
    simpa [paths] using mem
  cases one with
  | primary =>
    cases two with
    | primary => rfl
    | stream name => exact absurd (streamInfo_injective same).symm (named name (known among'))
    | datagram => exact absurd same (streamInfo_ne_datagram [])
  | stream name =>
    cases two with
    | primary => exact absurd (streamInfo_injective same) (named name (known among))
    | stream name' => rw [apart name (known among) name' (known among') (streamInfo_injective same)]
    | datagram => exact absurd same (streamInfo_ne_datagram (heard lib name))
  | datagram =>
    cases two with
    | primary => exact absurd same.symm (streamInfo_ne_datagram [])
    | stream name => exact absurd same.symm (streamInfo_ne_datagram (heard lib name))
    | datagram => rfl

end

def Complementary (publicOf : Key → Key) (client backend : PairingRecord) : Prop :=
  client.peerPublicKey = publicOf backend.localPrivateKey ∧ backend.peerPublicKey = publicOf client.localPrivateKey

def Agree (client backend : Option Channel) : Prop :=
  client.map Channel.sendKey = backend.map Channel.recvKey ∧ backend.map Channel.sendKey = client.map Channel.recvKey
deriving Decidable

section
variable {x25519 : Key → Key → Option Key} {hmac : Bytes → Bytes → Key} {publicOf : Key → Key}
  {client backend : PairingRecord} {nonce : Bytes}

section
variable (commutes : ∀ a b, x25519 a (publicOf b) = x25519 b (publicOf a))
  (paired : Complementary publicOf client backend) (length : nonce.length = authNonceLen) {path : Path}
include commutes paired length

theorem established_both (ours theirs : Library)
    (short : ∀ name, path = .stream name → name.length < pigeonMaxNameLen) :
    established x25519 hmac ours .client client nonce path =
      (material x25519 hmac .go .client client nonce).map (fun m =>
        channelInit (forkKey hmac m.sendKey (info ours path)) (forkKey hmac m.recvKey (info ours path)) path.mode) ∧
    established x25519 hmac theirs .backend backend nonce path =
      (material x25519 hmac .go .client client nonce).map (fun m =>
        channelInit (forkKey hmac m.recvKey (info theirs path)) (forkKey hmac m.sendKey (info theirs path)) path.mode) := by
  have shared : x25519 client.localPrivateKey client.peerPublicKey =
      x25519 backend.localPrivateKey backend.peerPublicKey := by
    rw [paired.1,paired.2]
    exact commutes _ _
  constructor
  · rw [established,material_eq ours .client length,material_eq .go .client length]
    cases x25519 client.localPrivateKey client.peerPublicKey with
    | none => rfl
    | some secret => exact channel_eq ours _ short
  · rw [established,material_eq theirs .backend length,material_eq .go .client length,shared]
    cases x25519 backend.localPrivateKey backend.peerPublicKey with
    | none => rfl
    | some secret => exact channel_eq theirs _ short

variable {theirs : Library}

theorem agree_of_info {ours} (short : ∀ name, path = .stream name → name.length < pigeonMaxNameLen)
    (same : material x25519 hmac .go .client client nonce = none ∨ info ours path = info theirs path) :
    Agree (established x25519 hmac ours .client client nonce path)
      (established x25519 hmac theirs .backend backend nonce path) := by
  rw [(established_both commutes paired length ours theirs short).1,
    (established_both commutes paired length ours theirs short).2]
  rcases same with failed | same
  · simp [Agree,failed]
  · rw [same]
    constructor
    · simp only [Option.map_map]
      rfl
    · simp only [Option.map_map]
      rfl

theorem info_of_agree {ours} (short : ∀ name, path = .stream name → name.length < pigeonMaxNameLen)
    {m} (derived : material x25519 hmac .go .client client nonce = some m) {labels}
    (free : CollisionFree hmac [m.sendKey] labels) (among : info ours path ∈ labels)
    (among' : info theirs path ∈ labels)
    (agree : Agree (established x25519 hmac ours .client client nonce path) (established x25519 hmac theirs .backend backend nonce path)) :
    info ours path = info theirs path := by
  rw [(established_both commutes paired length ours theirs short).1,
    (established_both commutes paired length ours theirs short).2,derived] at agree
  have base : m.sendKey ∈ [m.sendKey] := mem_singleton.mpr rfl
  exact (free _ base _ base _ among _ among' (Option.some.inj agree.1)).2

end

def streamLabels (names : List Bytes) : List Bytes := names.flatMap (fun name => [streamInfo name,streamInfo (cstr name)])

variable {names : List Bytes}

theorem path_short (short : ∀ name ∈ names, name ≠ [] ∧ name.length < pigeonMaxNameLen) {path}
    (among : path ∈ paths names) (name : Bytes) (same : path = .stream name) : name.length < pigeonMaxNameLen := by
  subst same
  have mem : name ∈ names := by simpa [paths] using among
  exact (short name mem).2

theorem stream_path {name : Bytes} (mem : name ∈ names) : Path.stream name ∈ paths names := by
  simpa [paths] using mem

theorem keys_agree_iff (commutes : ∀ a b, x25519 a (publicOf b) = x25519 b (publicOf a))
    (paired : Complementary publicOf client backend) (length : nonce.length = authNonceLen)
    (short : ∀ name ∈ names, name ≠ [] ∧ name.length < pigeonMaxNameLen)
    (free : ∀ m, material x25519 hmac .go .client client nonce = some m →
      CollisionFree hmac [m.sendKey] (streamLabels names)) :
    (∀ ours theirs, ∀ path ∈ paths names, Agree (established x25519 hmac ours .client client nonce path)
        (established x25519 hmac theirs .backend backend nonce path)) ↔
      x25519 client.localPrivateKey client.peerPublicKey = none ∨ ∀ name ∈ names, 0 ∉ name := by
  constructor
  · intro agree
    cases derived : material x25519 hmac .go .client client nonce with
    | none =>
      left
      rw [material_eq .go .client length,map_eq_none_iff] at derived
      exact derived
    | some m =>
      right
      intro name mem
      have label : ∀ info ∈ [streamInfo name,streamInfo (cstr name)], info ∈ streamLabels names :=
        fun info inside => mem_flatMap.mpr ⟨name,mem,inside⟩
      have same : info .go (.stream name) = info .c (.stream name) :=
        info_of_agree commutes paired length (path_short short (stream_path mem)) derived (free m derived)
          (label (streamInfo name) (by simp)) (label (streamInfo (cstr name)) (by simp))
          (agree .go .c (.stream name) (stream_path mem))
      exact cstr_eq_iff.mp (streamInfo_injective same).symm
  · intro clean ours theirs path among
    refine agree_of_info commutes paired length (path_short short among) ?_
    rcases clean with refused | clean
    · left
      rw [material_eq .go .client length,refused]
      rfl
    · right
      cases path with
      | primary => rfl
      | datagram => rfl
      | stream name =>
        have mem : name ∈ names := by simpa [paths] using among
        have whole := cstr_eq_iff.mpr (clean name mem)
        cases ours <;> cases theirs <;> simp [info,heard,whole]

theorem labels_distinct_iff (short : ∀ name ∈ names, name ≠ [] ∧ name.length < pigeonMaxNameLen) :
    (∀ lib, ∀ one two : Path × Role, one.1 ∈ paths names → two.1 ∈ paths names →
        derivation lib nonce one = derivation lib nonce two → one = two) ↔
      (∀ name ∈ names, cstr name ≠ []) ∧ ∀ one ∈ names, ∀ two ∈ names, cstr one = cstr two → one = two := by
  constructor
  · intro injective
    constructor
    · intro name mem empty
      have same := injective .c (.stream name,.client) (.primary,.client) (stream_path mem) mem_cons_self
        (by simp [derivation,info,heard,empty])
      cases same
    · intro one among two among' same
      have equal := injective .c (.stream one,.client) (.stream two,.client) (stream_path among) (stream_path among')
        (by simp [derivation,info,heard,same])
      cases equal
      rfl
  · rintro ⟨named,apart⟩ lib ⟨path,role⟩ ⟨path',role'⟩ among among' same
    obtain ⟨direction,label⟩ := Prod.mk.inj same
    obtain rfl := sendLabel_injective direction
    have equal : path = path' := by
      cases lib with
      | c => exact info_injective named apart among among' label
      | go =>
        have nonempty : ∀ name ∈ names, heard .go name ≠ [] := fun name mem => (short name mem).1
        exact info_injective nonempty (fun _ _ _ _ => id) among among' label
    rw [equal]

/-- The ends agree on all keys if and only if no name has a NUL (or X25519 refuses); and no two uses share their
    labels if and only if the names, cut at the first NUL, stay different and none is empty. -/
theorem session_keys_agree_iff (commutes : ∀ a b, x25519 a (publicOf b) = x25519 b (publicOf a))
    (paired : Complementary publicOf client backend) (length : nonce.length = authNonceLen) {names : List Bytes}
    (short : ∀ name ∈ names, name ≠ [] ∧ name.length < pigeonMaxNameLen)
    (free : ∀ m, material x25519 hmac .go .client client nonce = some m →
      CollisionFree hmac [m.sendKey] (streamLabels names)) :
    ((∀ ours theirs, ∀ path ∈ paths names, Agree (established x25519 hmac ours .client client nonce path)
        (established x25519 hmac theirs .backend backend nonce path)) ↔
      x25519 client.localPrivateKey client.peerPublicKey = none ∨ ∀ name ∈ names, 0 ∉ name) ∧
    ((∀ lib, ∀ one two : Path × Role, one.1 ∈ paths names → two.1 ∈ paths names →
        derivation lib nonce one = derivation lib nonce two → one = two) ↔
      (∀ name ∈ names, cstr name ≠ []) ∧ ∀ one ∈ names, ∀ two ∈ names, cstr one = cstr two → one = two) :=
  ⟨keys_agree_iff commutes paired length short free,labels_distinct_iff short⟩

end

theorem blended_length (a b : Key) : (zipWith (· + ·) a.bytes b.bytes).length = 32 := by
  rw [length_zipWith,a.length,b.length]
  rfl

def blended (a b : Key) : Option Key := some ⟨zipWith (· + ·) a.bytes b.bytes,blended_length a b⟩

theorem blended_commutes (a b : Key) : blended a (id b) = blended b (id a) := by
  simp [blended,id,zipWith_comm_of_comm (UInt8.add_comm)]

def someNonce : Bytes := replicate 16 7

theorem plain_labels_free (m : SessionMaterial)
    (derived : material blended mixed .go .client ⟨keyA,keyB⟩ someNonce = some m) :
    CollisionFree mixed [m.sendKey] (streamLabels ["chat","video"]) := by
  rw [← Option.some.inj derived]
  decide +kernel

theorem plain_names_agree : (∀ ours theirs, ∀ path ∈ paths ["chat","video"],
        Agree (established blended mixed ours .client ⟨keyA,keyB⟩ someNonce path)
          (established blended mixed theirs .backend ⟨keyB,keyA⟩ someNonce path)) ∧
      ∀ lib, ∀ one two : Path × Role, one.1 ∈ paths ["chat","video"] → two.1 ∈ paths ["chat","video"] →
        derivation lib someNonce one = derivation lib someNonce two → one = two := by
  have paired : Complementary id ⟨keyA,keyB⟩ ⟨keyB,keyA⟩ := ⟨rfl,rfl⟩
  have agreement := session_keys_agree_iff blended_commutes paired rfl (by decide) plain_labels_free
  exact ⟨agreement.1.mpr (.inr (by decide)),agreement.2.mpr (by decide)⟩

/-- A control stream with a Go client and a C listener, whose keys for it are those of its primary stream. -/
theorem lan_stream_disagrees :
    ¬ Agree (established blended mixed .go .client ⟨keyA,keyB⟩ someNonce (.stream (0 :: "pigeon.lan")))
        (established blended mixed .c .backend ⟨keyB,keyA⟩ someNonce (.stream (0 :: "pigeon.lan"))) ∧
      derivation .c someNonce (.stream (0 :: "pigeon.lan"),.client) = derivation .c someNonce (.primary,.client) := by
  decide +kernel

end Pigeon.KeyAgreement
