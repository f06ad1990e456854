import Pigeon.Framing
import Pigeon.KeySchedule

/-!
Activation of a session by a backend (`activation.c`, `listener.c`): request with a nonce,
lookup of the device, answer, and session keys from the pairing record and the nonce. Nothing
of a request outlives it, so two requests with one nonce give two sessions under one pair of
keys (`replay_repeats_keys`); otherwise the keys differ (`session_keys_fresh_iff`).
-/
namespace Pigeon.Activation
open Runs Octets Sealing Framing KeySchedule

def authMaxPayload : Nat := 512
def authMsgTagAuthRequest : UInt8 := 1
def authMsgTagAuthOk : UInt8 := 2
def authOkAccepted : UInt8 := 1
def authOkRejected : UInt8 := 0
def authMaxDeviceId : Nat := 128
def authMaxReason : Nat := 256
def authMaxRoute : Nat := 128
def authNonceLen : Nat := 16

/-- `auth_uvarint_decode` from the bit `shift` on. The shift keeps 64 bits, so the high bits of a tenth octet are
    lost. -/
def authUvarintDecode : Nat → Nat → Bytes → Option (Nat × Bytes)
  | _, _, [] => none
  | shift, value, b :: rest =>
    if 64 ≤ shift then none
    else if b.toNat < 128 then some (value + b.toNat % 128 * 2 ^ shift % 2 ^ 64,rest)
    else authUvarintDecode (shift + 7) (value + b.toNat % 128 * 2 ^ shift % 2 ^ 64) rest

/-- What an `auth_request` carries; the device ID and the route are read as C strings. -/
structure AuthRequest where
  (deviceId nonce route : Bytes)
deriving DecidableEq

/-- `pigeon_decode_auth_request`, into the buffers of the activation, which take the longest device ID and the longest
    route. -/
def decodeAuthRequest (payload : Bytes) : Option AuthRequest := do
  let tag ← payload.head?
  guard (tag = authMsgTagAuthRequest)
  let (idLen,body) ← authUvarintDecode 0 0 payload.tail
  guard (idLen ≤ authMaxDeviceId)
  guard (idLen + authNonceLen ≤ body.length)
  let (routeLen,route) ← authUvarintDecode 0 0 (body.drop (idLen + authNonceLen))
  guard (routeLen ≤ authMaxRoute)
  guard (route.length = routeLen)
  return ⟨cstr (body.take idLen),(body.drop idLen).take authNonceLen,cstr route⟩

/-- `pigeon_encode_auth_ok`. -/
def encodeAuthOk (ok : Bool) (reason : Bytes) : Option Bytes :=
  if ok then some [authMsgTagAuthOk,authOkAccepted]
  else if authMaxReason < reason.length then none
  else some ([authMsgTagAuthOk,authOkRejected] ++ putUvarint 9 reason.length ++ reason)

inductive BackendState where
  | idle
  | paired
  | authCheck
  | sessionActive
deriving DecidableEq

/-- `pigeon_backend_handle_message`. -/
def BackendState.handleAuthRequest : BackendState → Option BackendState
  | .paired => some .authCheck
  | _ => none

/-- `pigeon_backend_step` on `verify`, with the guards `device_known` and `device_unknown` and no action
    registered. -/
def BackendState.verify (known : Bool) : BackendState → Option BackendState
  | .authCheck => some (if known then .sessionActive else .idle)
  | _ => none

structure PairingRecord where
  (localPrivateKey peerPublicKey : Key)
deriving DecidableEq

/-- One connection: its first message, the answer of the pairing lookup, and whether the transport takes the reply. -/
structure Arrival where
  payload : Bytes
  resolve : Bytes → Option PairingRecord
  replied : Bool

inductive Outcome where
  | failed
  | rejected (reply : Option Bytes)
  | accepted (reply : Bytes) (request : AuthRequest) (record : PairingRecord)

/-- `pigeon_run_backend_activation`. -/
def runBackendActivation (a : Arrival) : Outcome :=
  if authMaxPayload < a.payload.length then .failed
  else match decodeAuthRequest a.payload with
    | none => .failed
    | some request =>
      match BackendState.paired.handleAuthRequest with
      | none => .failed
      | some checking =>
        match checking.verify (a.resolve request.deviceId).isSome, a.resolve request.deviceId with
        | none, _ => .failed
        | some _, none => .rejected (encodeAuthOk false "unknown client")
        | some verified, some record =>
          match encodeAuthOk true [] with
          | none => .failed
          | some reply =>
            if a.replied = false then .failed
            else if verified ≠ .sessionActive then .failed
            else .accepted reply request record

theorem accepted_iff (a : Arrival) (reply : Bytes) (request : AuthRequest) (record : PairingRecord) :
    runBackendActivation a = .accepted reply request record ↔
      a.payload.length ≤ authMaxPayload ∧ decodeAuthRequest a.payload = some request ∧
        a.resolve request.deviceId = some record ∧ a.replied ∧ reply = [authMsgTagAuthOk,authOkAccepted] := by
  by_cases long : authMaxPayload < a.payload.length
  · simp [runBackendActivation,long]
  have fits : a.payload.length ≤ authMaxPayload := Nat.not_lt.mp long
  cases decoded : decodeAuthRequest a.payload with
  | none => simp [runBackendActivation,long,decoded]
  | some known =>
    cases found : a.resolve known.deviceId with
    | none =>
      have run : runBackendActivation a = .rejected (encodeAuthOk false "unknown client") := by
        simp [runBackendActivation,long,decoded,found,BackendState.handleAuthRequest,BackendState.verify]
      rw [run]
      constructor
      · intro impossible
        cases impossible
      · rintro ⟨-,same,resolved,-⟩
        rw [← Option.some.inj same,found] at resolved
        cases resolved
    | some stored =>
      cases sent : a.replied with
      | false => simp [runBackendActivation,long,decoded,found,sent,BackendState.handleAuthRequest,BackendState.verify,
          encodeAuthOk]
      | true =>
        have run : runBackendActivation a = .accepted [authMsgTagAuthOk,authOkAccepted] known stored := by
          simp [runBackendActivation,long,decoded,found,sent,BackendState.handleAuthRequest,BackendState.verify,
            encodeAuthOk]
        rw [run]
        constructor
        · intro same
          cases same
          exact ⟨fits,rfl,found,rfl,rfl⟩
        · rintro ⟨-,same,resolved,-,rfl⟩
          cases same
          rw [Option.some.inj (found.symm.trans resolved)]

theorem guard_iff {p} [Decidable p] {u} : (guard p : Option Unit) = some u ↔ p := by
  by_cases holds : p
  · simp [guard,holds]
  · simp [guard,holds]

def clientToBackend : Bytes := "client->backend"
def backendToClient : Bytes := "backend->client"

section
variable (x25519 : Key → Key → Option Key) (hmac : Bytes → Bytes → Key)

/-- `pigeon_derive_session_key`. -/
def deriveSessionKey (privateKey peerPublicKey : Key) (info : Bytes) : Option Key := do
  let shared ← x25519 privateKey peerPublicKey
  hkdfSha256 hmac shared.bytes info 32

def deriveSessionMaterial (record : PairingRecord) (isBackend : Bool) (nonce : Bytes) : Option SessionMaterial := do
  guard (nonce.length = authNonceLen)
  let sendLabel := if isBackend then backendToClient else clientToBackend
  let recvLabel := if isBackend then clientToBackend else backendToClient
  let sendKey ← deriveSessionKey x25519 hmac record.localPrivateKey record.peerPublicKey (sendLabel ++ nonce)
  let recvKey ← deriveSessionKey x25519 hmac record.localPrivateKey record.peerPublicKey (recvLabel ++ nonce)
  return ⟨sendKey,recvKey⟩

structure Established where
  record : PairingRecord
  nonce : Bytes
  material : SessionMaterial

/-- `pigeon_listener_accept`, and `activate` of the Go listener: the activation, then the session on its keys. -/
def listenerAccept (a : Arrival) : Option Established :=
  match runBackendActivation a with
  | .failed => none
  | .rejected _ => none
  | .accepted _ request record =>
    (deriveSessionMaterial x25519 hmac record true request.nonce).map (fun material => ⟨record,request.nonce,material⟩)

structure Backend where
  sessions : List Established

def step (s : Backend) (a : Arrival) : Backend × Option Established :=
  match listenerAccept x25519 hmac a with
  | none => (s,none)
  | some session => (⟨session :: s.sessions⟩,some session)

variable {x25519} {hmac} {nonce : Bytes}

theorem deriveSessionKey_eq (label : Bytes) (short : label.length ≤ 15) (length : nonce.length = authNonceLen)
    (privateKey peerPublicKey : Key) : deriveSessionKey x25519 hmac privateKey peerPublicKey (label ++ nonce) =
      (x25519 privateKey peerPublicKey).map (fun shared => forkKey hmac shared (label ++ nonce)) := by
  have fits : (label ++ nonce).length ≤ 255 := by
    rw [List.length_append,length]
    unfold authNonceLen
    omega
  have expand : ∀ shared : Key, hkdfSha256 hmac shared.bytes (label ++ nonce) 32 = some _ :=
    fun shared => (diversifyKey_eq hmac shared (label ++ nonce)).trans (if_pos fits)
  cases agreed : x25519 privateKey peerPublicKey with
  | none => simp [deriveSessionKey,agreed]
  | some shared => simp [deriveSessionKey,agreed,expand]

variable (x25519 hmac) in
theorem derive_both (record : PairingRecord) (sendLabel recvLabel : Bytes) (shortSend : sendLabel.length ≤ 15)
    (shortRecv : recvLabel.length ≤ 15) (length : nonce.length = authNonceLen) :
    ((deriveSessionKey x25519 hmac record.localPrivateKey record.peerPublicKey (sendLabel ++ nonce)).bind (fun sendKey =>
      (deriveSessionKey x25519 hmac record.localPrivateKey record.peerPublicKey (recvLabel ++ nonce)).bind (fun recvKey =>
        some (⟨sendKey,recvKey⟩ : SessionMaterial)))) =
      (x25519 record.localPrivateKey record.peerPublicKey).map (fun shared =>
        ⟨forkKey hmac shared (sendLabel ++ nonce),forkKey hmac shared (recvLabel ++ nonce)⟩) := by
  rw [deriveSessionKey_eq sendLabel shortSend length,deriveSessionKey_eq recvLabel shortRecv length]
  cases x25519 record.localPrivateKey record.peerPublicKey with
  | none => rfl
  | some shared => rfl

variable (x25519 hmac) in
theorem backend_material (record : PairingRecord) (length : nonce.length = authNonceLen) :
    deriveSessionMaterial x25519 hmac record true nonce =
      (x25519 record.localPrivateKey record.peerPublicKey).map (fun shared =>
        ⟨forkKey hmac shared (backendToClient ++ nonce),forkKey hmac shared (clientToBackend ++ nonce)⟩) := by
  rw [deriveSessionMaterial,length]
  exact derive_both x25519 hmac record backendToClient clientToBackend (by decide) (by decide) length

theorem sendKey_of_material {record material}
    (derived : deriveSessionMaterial x25519 hmac record true nonce = some material) :
    ∃ shared, x25519 record.localPrivateKey record.peerPublicKey = some shared ∧
      material.sendKey = forkKey hmac shared (backendToClient ++ nonce) := by
  have length : nonce.length = authNonceLen := by
    obtain ⟨_,passed,-⟩ := Option.bind_eq_some_iff.mp derived
    exact guard_iff.mp passed
  rw [backend_material x25519 hmac record length] at derived
  obtain ⟨shared,agreed,rfl⟩ := Option.map_eq_some_iff.mp derived
  exact ⟨shared,agreed,rfl⟩

theorem nonce_length {payload request} (decoded : decodeAuthRequest payload = some request) :
    request.nonce.length = authNonceLen := by
  simp only [decodeAuthRequest,Option.bind_eq_bind,Option.bind_eq_some_iff,guard_iff,Prod.exists,exists_const] at decoded
  obtain ⟨_,-,-,idLen,body,-,-,long,_,_,-,-,-,same⟩ := decoded
  cases same
  rw [List.length_take,List.length_drop]
  omega

theorem listenerAccept_iff (a : Arrival) (session : Established) : listenerAccept x25519 hmac a = some session ↔
      a.payload.length ≤ authMaxPayload ∧ a.replied ∧ ∃ request, decodeAuthRequest a.payload = some request ∧
        a.resolve request.deviceId = some session.record ∧ request.nonce = session.nonce ∧
        deriveSessionMaterial x25519 hmac session.record true session.nonce = some session.material := by
  constructor
  · intro accepted
    unfold listenerAccept at accepted
    split at accepted
    · cases accepted
    · cases accepted
    · next reply request record run =>
      obtain ⟨fits,decoded,found,sent,-⟩ := (accepted_iff _ _ _ _).mp run
      obtain ⟨material,derived,rfl⟩ := Option.map_eq_some_iff.mp accepted
      exact ⟨fits,sent,request,decoded,found,rfl,derived⟩
  · rintro ⟨fits,sent,request,decoded,found,same,derived⟩
    have run := (accepted_iff a _ request session.record).mpr ⟨fits,decoded,found,sent,rfl⟩
    simp [listenerAccept,run,same,derived]

def presents (x25519 : Key → Key → Option Key) (a : Arrival) : Option (Key × Bytes) := do
  let request ← decodeAuthRequest a.payload
  let record ← a.resolve request.deviceId
  let shared ← x25519 record.localPrivateKey record.peerPublicKey
  return (shared,request.nonce)

def Separated (hmac : Bytes → Bytes → Key) (pairs : List (Key × Bytes)) : Prop :=
  ∀ one ∈ pairs, ∀ two ∈ pairs,
    forkKey hmac one.1 (backendToClient ++ one.2) = forkKey hmac two.1 (backendToClient ++ two.2) → one = two
deriving Decidable

structure MadeFrom (x25519 : Key → Key → Option Key) (hmac : Bytes → Bytes → Key) (pairs : List (Key × Bytes))
    (session : Established) : Prop where
  derived : deriveSessionMaterial x25519 hmac session.record true session.nonce = some session.material
  among : ∃ shared, (shared,session.nonce) ∈ pairs ∧
    session.material.sendKey = forkKey hmac shared (backendToClient ++ session.nonce)

variable {a : Arrival} {pairs : List (Key × Bytes)}

theorem madeFrom_of_accept {session} (accepted : listenerAccept x25519 hmac a = some session)
    (among : ∀ pair, presents x25519 a = some pair → pair ∈ pairs) : MadeFrom x25519 hmac pairs session := by
  obtain ⟨-,-,request,decoded,found,same,derived⟩ := (listenerAccept_iff a session).mp accepted
  obtain ⟨shared,agreed,key⟩ := sendKey_of_material derived
  refine ⟨derived,shared,among _ ?_,key⟩
  simp [presents,decoded,found,agreed,same]

theorem material_eq_iff (free : Separated hmac pairs) {one two}
    (madeOne : MadeFrom x25519 hmac pairs one) (madeTwo : MadeFrom x25519 hmac pairs two)
    (record : one.record = two.record) : one.material = two.material ↔ one.nonce = two.nonce := by
  constructor
  · intro same
    obtain ⟨shared,among,key⟩ := madeOne.among
    obtain ⟨shared',among',key'⟩ := madeTwo.among
    have equal := free _ among _ among' (key.symm.trans ((congrArg SessionMaterial.sendKey same).trans key'))
    exact congrArg Prod.snd equal
  · intro same
    have derived := madeOne.derived
    rw [record,same,madeTwo.derived] at derived
    exact (Option.some.inj derived).symm

def KeysDiffer (one two : Established) : Prop := one.record = two.record → one.material ≠ two.material

instance : DecidableRel KeysDiffer := fun _ _ => inferInstanceAs (Decidable (_ → _))

/-- The record and the nonce of a request that is answered, if the keys of the record agree on a secret. -/
def acceptable (x25519 : Key → Key → Option Key) (a : Arrival) : Option (PairingRecord × Bytes) := do
  guard (a.payload.length ≤ authMaxPayload ∧ a.replied)
  let request ← decodeAuthRequest a.payload
  let record ← a.resolve request.deviceId
  let _ ← x25519 record.localPrivateKey record.peerPublicKey
  return (record,request.nonce)

theorem acceptable_eq (a : Arrival) :
    acceptable x25519 a = (listenerAccept x25519 hmac a).map (fun session => (session.record,session.nonce)) := by
  ext ⟨record,nonce⟩
  simp only [acceptable,Option.bind_eq_bind,Option.bind_eq_some_iff,guard_iff,exists_const,Option.map_eq_some_iff]
  constructor
  · rintro ⟨⟨fits,sent⟩,request,decoded,record',found,shared,agreed,same⟩
    cases same
    have derived := backend_material x25519 hmac record (nonce_length decoded)
    rw [agreed] at derived
    exact ⟨⟨record,request.nonce,_⟩,(listenerAccept_iff a _).mpr ⟨fits,sent,request,decoded,found,rfl,derived⟩,rfl⟩
  · rintro ⟨session,accepted,same⟩
    cases same
    obtain ⟨fits,sent,request,decoded,found,nonce,derived⟩ := (listenerAccept_iff a session).mp accepted
    obtain ⟨shared,agreed,-⟩ := sendKey_of_material derived
    exact ⟨⟨fits,sent⟩,request,decoded,_,found,shared,agreed,by rw [nonce]; rfl⟩

theorem sessions_final (s : Backend) (arrivals : List Arrival) : (final (step x25519 hmac) s arrivals).sessions =
      (arrivals.filterMap (listenerAccept x25519 hmac)).reverse ++ s.sessions := by
  induction arrivals generalizing s with
  | nil => rfl
  | cons a rest ih =>
    rw [final_cons,ih]
    cases accepted : listenerAccept x25519 hmac a with
    | none | some => simp [step,accepted]

/-- Whatever requests reach a backend, the sessions of one record have different keys just when no two requests that
    it answers are of one record and carry one nonce. -/
theorem session_keys_fresh_iff (arrivals : List Arrival)
    (free : Separated hmac (arrivals.filterMap (presents x25519))) :
    (final (step x25519 hmac) ⟨[]⟩ arrivals).sessions.Pairwise KeysDiffer ↔
      (arrivals.filterMap (acceptable x25519)).Nodup := by
  have made : ∀ session ∈ arrivals.filterMap (listenerAccept x25519 hmac),
      MadeFrom x25519 hmac (arrivals.filterMap (presents x25519)) session := by
    intro session mem
    obtain ⟨a,arrives,accepted⟩ := List.mem_filterMap.mp mem
    exact madeFrom_of_accept accepted (fun pair presented => List.mem_filterMap.mpr ⟨a,arrives,presented⟩)
  have pairs : arrivals.filterMap (acceptable x25519) =
      (arrivals.filterMap (listenerAccept x25519 hmac)).map (fun session => (session.record,session.nonce)) := by
    rw [List.map_filterMap]
    exact congrArg (List.filterMap · arrivals) (funext acceptable_eq)
  rw [sessions_final,List.append_nil,List.pairwise_reverse,pairs,List.Nodup,List.pairwise_map]
  refine List.Pairwise.iff_of_mem ?_
  intro one two memberOne memberTwo
  have same := material_eq_iff free (made two memberTwo) (made one memberOne)
  constructor
  · intro differ equal
    obtain ⟨record,nonce⟩ := Prod.mk.injEq .. ▸ equal
    exact differ record.symm ((same record.symm).mpr nonce.symm)
  · intro apart record material
    exact apart (Prod.ext record.symm ((same record).mp material).symm)

end

def agreed (privateKey peerPublicKey : Key) : Option Key := some (mixed privateKey.bytes peerPublicKey.bytes)

def hello (fill : UInt8) : Arrival where
  payload := [1,1,97] ++ List.replicate 16 fill ++ [0]
  resolve deviceId := if deviceId = [97] then some ⟨keyA,keyB⟩ else none
  replied := true

theorem session_keys_fresh_two_nonces : (final (step agreed mixed) ⟨[]⟩ [hello 5,hello 9]).sessions.length = 2 ∧
      (final (step agreed mixed) ⟨[]⟩ [hello 5,hello 9]).sessions.Pairwise KeysDiffer :=
  ⟨by decide +kernel,(session_keys_fresh_iff [hello 5,hello 9] (by decide +kernel)).mpr (by decide +kernel)⟩

/-- The same request twice: two sessions of one record under one pair of keys. -/
theorem replay_repeats_keys : (final (step agreed mixed) ⟨[]⟩ [hello 5,hello 5]).sessions.length = 2 ∧
      ¬ (final (step agreed mixed) ⟨[]⟩ [hello 5,hello 5]).sessions.Pairwise KeysDiffer := by
  decide +kernel

end Pigeon.Activation
