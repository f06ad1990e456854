import Mathlib.Data.Sym.Sym2
import Pigeon.Activation
import Pigeon.Dialogue
import Pigeon.PairingWire

/-!
The pairing ceremony. `pairAcceptor` and `pairInitiator` are the drivers of the C library,
each walking the generated machine of its side; the network may answer anything.
`pairAcceptor_succeeds` and `pairInitiator_succeeds` say what a successful exchange looks like,
and from them what the records of both sides hold.
-/
namespace Pigeon.Pairing
open Octets Sealing KeySchedule Dialogue PairingWire List

inductive Event
  | pairBegin | tokenReceived | tokenDecoded | ephemeralReady | relayRegistered | relayConnected | revealSent
  | codeReady | userConfirm | userCancel | commitFail
deriving DecidableEq

inductive MsgType
  | hello | welcome | reveal | confirmToAcceptor | confirmToInitiator

inductive AcceptorState
  | idle | generatingEphemeral | registeringRelay | waitingForHello | waitingForReveal | derivingCode
  | awaitingUserConfirm | awaitingPeerConfirm | paired | aborted
deriving DecidableEq

/-- `pigeon_acceptor_step`. -/
def AcceptorState.step : AcceptorState → Event → Option AcceptorState
  | .idle, .pairBegin => some .generatingEphemeral
  | .generatingEphemeral, .ephemeralReady => some .registeringRelay
  | .registeringRelay, .relayRegistered => some .waitingForHello
  | .derivingCode, .codeReady => some .awaitingUserConfirm
  | .awaitingUserConfirm, .userConfirm => some .awaitingPeerConfirm
  | .awaitingUserConfirm, .userCancel => some .aborted
  | .awaitingPeerConfirm, .userCancel => some .aborted
  | .waitingForReveal, .commitFail => some .aborted
  | _, _ => none

/-- `pigeon_acceptor_handle_message`. -/
def AcceptorState.handleMessage : AcceptorState → MsgType → Option AcceptorState
  | .waitingForHello, .hello => some .waitingForReveal
  | .waitingForReveal, .reveal => some .derivingCode
  | .awaitingPeerConfirm, .confirmToAcceptor => some .paired
  | _, _ => none

inductive InitiatorState
  | idle | decodingToken | generatingEphemeral | connectingRelay | awaitingWelcome | revealing | derivingCode
  | awaitingUserConfirm | awaitingPeerConfirm | paired | aborted
deriving DecidableEq

/-- `pigeon_initiator_step`. -/
def InitiatorState.step : InitiatorState → Event → Option InitiatorState
  | .idle, .tokenReceived => some .decodingToken
  | .decodingToken, .tokenDecoded => some .generatingEphemeral
  | .generatingEphemeral, .ephemeralReady => some .connectingRelay
  | .connectingRelay, .relayConnected => some .awaitingWelcome
  | .revealing, .revealSent => some .derivingCode
  | .derivingCode, .codeReady => some .awaitingUserConfirm
  | .awaitingUserConfirm, .userConfirm => some .awaitingPeerConfirm
  | .awaitingUserConfirm, .userCancel => some .aborted
  | .awaitingPeerConfirm, .userCancel => some .aborted
  | _, _ => none

/-- `pigeon_initiator_handle_message`. -/
def InitiatorState.handleMessage : InitiatorState → MsgType → Option InitiatorState
  | .awaitingWelcome, .welcome => some .revealing
  | .awaitingPeerConfirm, .confirmToInitiator => some .paired
  | _, _ => none

/-- `pair_recv` and `pair_send`. -/
inductive Request
  | acceptStream | openStream
  | send (message : Bytes)
  | recv
  | confirm (code : Bytes)
deriving DecidableEq

abbrev Ceremony := Driver Request (Option Bytes)

abbrev Exchange := List (Request × Option Bytes)

structure Primitives where
  sha256 : Bytes → Key
  code : Key → Key → Option Bytes

structure Party where
  (ephPriv ephPub identityPub : Key)
  instanceId : Bytes

/-- `PairingToken`. -/
structure Token where
  accEphPub : Key
  accInstance : Bytes

structure PairingRecord extends Activation.PairingRecord where
  localPublicKey : Key
  peerInstanceId : Bytes
deriving DecidableEq

/-- `out_record` and `out_code`. -/
structure Paired where
  record : PairingRecord
  code : Bytes
deriving DecidableEq

/-- `strncpy` into a zeroed field of 64 octets, one of them kept. -/
def instanceIdField (text : Bytes) : Bytes := (cstr text).take 63

def KindIs (json : Bytes) (kind : String) : Prop := stringField json "kind" 32 = some (ascii kind)
deriving Decidable

section
variable (prims : Primitives) (own : Party)

/-- `pigeon_pair_acceptor`. -/
def pairAcceptor : Ceremony Paired := do
  let _ ← call .acceptStream
  let m ← require (AcceptorState.idle.step .pairBegin)
  let m ← require (m.step .ephemeralReady)
  let m ← require (m.step .relayRegistered)
  let hello ← call .recv
  guard (KindIs hello "hello")
  let peerCommit ← require (keyField hello "commit")
  let peerInstance := instanceField hello
  let m ← require (m.handleMessage .hello)
  let welcome ← require (buildWelcome own.ephPub own.identityPub own.instanceId)
  let _ ← call (.send welcome)
  let reveal ← call .recv
  guard (KindIs reveal "reveal")
  let peerEphPub ← require (keyField reveal "eph_pub")
  let peerBlind ← require (keyField reveal "blind")
  -- The machine of a driver that fails here is moved to `aborted` and dropped.
  guard (sasCommit prims.sha256 peerEphPub peerBlind = peerCommit)
  let m ← require (m.handleMessage .reveal)
  let m ← require (m.step .codeReady)
  let code ← require (prims.code own.ephPub peerEphPub)
  let _ ← call (.confirm code)
  let m ← require (m.step .userConfirm)
  let confirm ← require buildConfirm
  let _ ← call (.send confirm)
  let peerConfirm ← call .recv
  guard (KindIs peerConfirm "confirm")
  let _ ← require (m.handleMessage .confirmToAcceptor)
  return ⟨⟨⟨own.ephPriv,peerEphPub⟩,own.ephPub,instanceIdField peerInstance⟩,code⟩

/-- `pigeon_pair_initiator`. -/
def pairInitiator (token : Token) (blind : Key) : Ceremony Paired := do
  let _ ← call .openStream
  let m ← require (InitiatorState.idle.step .tokenReceived)
  let m ← require (m.step .tokenDecoded)
  let m ← require (m.step .ephemeralReady)
  let commit := sasCommit prims.sha256 own.ephPub blind
  let m ← require (m.step .relayConnected)
  let hello ← require (buildHello commit own.identityPub own.instanceId)
  let _ ← call (.send hello)
  let welcome ← call .recv
  guard (KindIs welcome "welcome")
  let peerEphPub ← require (keyField welcome "eph_pub")
  guard (peerEphPub = token.accEphPub)
  let peerInstance := instanceField welcome
  let m ← require (m.handleMessage .welcome)
  let reveal ← require (buildReveal own.ephPub blind)
  let _ ← call (.send reveal)
  let m ← require (m.step .revealSent)
  let m ← require (m.step .codeReady)
  let code ← require (prims.code token.accEphPub own.ephPub)
  let _ ← call (.confirm code)
  let m ← require (m.step .userConfirm)
  let confirm ← require buildConfirm
  let _ ← call (.send confirm)
  let peerConfirm ← call .recv
  guard (KindIs peerConfirm "confirm")
  let _ ← require (m.handleMessage .confirmToInitiator)
  return ⟨⟨⟨own.ephPriv,token.accEphPub⟩,own.ephPub,
    instanceIdField (if peerInstance = [] then token.accInstance else peerInstance)⟩,code⟩

variable {prims own}

theorem pairAcceptor_succeeds {exchange : Exchange} {result : Paired}
    (success : Succeeds (pairAcceptor prims own) exchange result) :
    ∃ accepted hello welcome sent reveal later commit blind,
      exchange = (.acceptStream,some accepted) :: (.recv,some hello) :: (.send welcome,some sent) ::
        (.recv,some reveal) :: later ∧
      keyField hello "commit" = some commit ∧ buildWelcome own.ephPub own.identityPub own.instanceId = some welcome ∧
      keyField reveal "eph_pub" = some result.record.peerPublicKey ∧ keyField reveal "blind" = some blind ∧
      sasCommit prims.sha256 result.record.peerPublicKey blind = commit ∧
      prims.code own.ephPub result.record.peerPublicKey = some result.code ∧
      result.record.localPublicKey = own.ephPub ∧
      result.record.peerInstanceId = instanceIdField (instanceField hello) := by
  simp only [pairAcceptor,succeeds_call_bind,succeeds_require_bind,succeeds_guard_bind,succeeds_pure] at success
  obtain ⟨accepted,_,shape,_,_,_,_,_,_,hello,_,rfl,_,commit,committed,_,_,welcome,built,sent,_,rfl,success⟩ := success
  obtain ⟨reveal,later,rfl,_,peerEphPub,revealed,blind,blinded,opens,_,_,_,_,code,derived,success⟩ := success
  obtain ⟨_,_,_,_,_,_,_,_,_,_,_,_,_,_,_,_,_,rfl⟩ := success
  exact ⟨accepted,hello,welcome,sent,reveal,later,commit,blind,shape,committed,built,revealed,blinded,opens,derived,
    rfl,rfl⟩

theorem pairInitiator_succeeds {token : Token} {blind : Key} {exchange : Exchange} {result : Paired}
    (success : Succeeds (pairInitiator prims own token blind) exchange result) : ∃ opened hello sent welcome later,
      exchange = (.openStream,some opened) :: (.send hello,some sent) :: (.recv,some welcome) :: later ∧
      keyField welcome "eph_pub" = some token.accEphPub ∧
      result.record = ⟨⟨own.ephPriv,token.accEphPub⟩,own.ephPub,
        instanceIdField (if instanceField welcome = [] then token.accInstance else instanceField welcome)⟩ ∧
      prims.code token.accEphPub own.ephPub = some result.code := by
  simp only [pairInitiator,succeeds_call_bind,succeeds_require_bind,succeeds_guard_bind,succeeds_pure] at success
  obtain ⟨opened,_,shape,_,_,_,_,_,_,_,_,hello,_,sent,_,rfl,welcome,later,rfl,_,_,found,rfl,success⟩ := success
  obtain ⟨_,_,_,_,_,_,_,_,_,_,_,code,derived,success⟩ := success
  obtain ⟨_,_,_,_,_,_,_,_,_,_,_,_,_,_,_,_,_,rfl⟩ := success
  exact ⟨opened,hello,sent,welcome,later,shape,found,rfl,derived⟩

def Binding (sha256 : Bytes → Key) : Prop :=
  ∀ ephPub blind other otherBlind,
    sasCommit sha256 ephPub blind = sasCommit sha256 other otherBlind → ephPub = other

def Distinguishes (code : Key → Key → Option Bytes) : Prop :=
  ∀ a b c d text, code a b = some text → code c d = some text → s(a,b) = s(c,d)

theorem keys_of_same_pair {a b token peer : Key} (same : s(a,peer) = s(token,b)) (bound : token = a ∨ a ≠ b) :
    peer = b ∧ token = a := by
  rcases Sym2.eq_iff.mp same with ⟨left,right⟩ | ⟨left,right⟩
  · exact ⟨right,left.symm⟩
  · rcases bound with fromToken | different
    · exact ⟨right.trans (fromToken.trans left),fromToken⟩
    · exact absurd left different

end

def plainDigest (message : Bytes) : Key := (keyOfOctets ((message.drop 17).take 32)).getD keyA

def pairCode (a b : Key) : Option Bytes :=
  some (if memcmpLe a.bytes b.bytes then a.bytes ++ b.bytes else b.bytes ++ a.bytes)

def plain : Primitives := ⟨plainDigest,pairCode⟩

theorem plainDigest_commit (ephPub blind : Key) : sasCommit plainDigest ephPub blind = ephPub := by
  have start : ((ascii "pigeon-sas-commit" ++ ephPub.bytes ++ blind.bytes).drop 17).take 32 = ephPub.bytes := by
    rw [append_assoc,drop_append_of_le_length (by decide +kernel)]
    rw [drop_of_length_le (by decide +kernel),nil_append,take_append_of_le_length ephPub.length.ge]
    exact take_of_length_le ephPub.length.le
  rw [sasCommit,plainDigest,start,keyOfOctets_bytes]
  rfl

theorem plainDigest_binding : Binding plainDigest := by
  intro ephPub blind other otherBlind same
  rwa [plainDigest_commit,plainDigest_commit] at same

theorem key_append_inj {a b c d : Key} (same : a.bytes ++ b.bytes = c.bytes ++ d.bytes) : a = c ∧ b = d := by
  obtain ⟨first,second⟩ := append_inj same (a.length.trans c.length.symm)
  exact ⟨Key.ext first,Key.ext second⟩

theorem pairCode_distinguishes : Distinguishes pairCode := by
  intro a b c d text left right
  have same := Option.some.inj (left.trans right.symm)
  split at same
  · split at same
    · obtain ⟨rfl,rfl⟩ := key_append_inj same
      rfl
    · obtain ⟨rfl,rfl⟩ := key_append_inj same
      exact Sym2.eq_swap
  · split at same
    · obtain ⟨rfl,rfl⟩ := key_append_inj same
      exact Sym2.eq_swap
    · obtain ⟨rfl,rfl⟩ := key_append_inj same
      rfl

def server : Party := ⟨keyA,keyA,keyB,"server"⟩

def phone : Party := ⟨keyB,keyB,keyA,"phone"⟩

def serverToken : Token := ⟨keyA,"server"⟩

def atServer : Exchange :=
  [(.acceptStream,some []),(.recv,some (helloJson keyB keyA "phone")),
    (.send (welcomeJson keyA keyB "server"),some []),(.recv,some (revealJson keyB keyB)),
    (.confirm (keyA.bytes ++ keyB.bytes),some []),(.send confirmJson,some []),(.recv,some confirmJson)]

def atPhone (welcome : Bytes) : Exchange :=
  [(.openStream,some []),(.send (helloJson keyB keyA "phone"),some []),(.recv,some welcome),
    (.send (revealJson keyB keyB),some []),(.confirm (keyA.bytes ++ keyB.bytes),some []),
    (.send confirmJson,some []),(.recv,some confirmJson)]

def onServer : Paired := ⟨⟨⟨keyA,keyB⟩,keyA,"phone"⟩,keyA.bytes ++ keyB.bytes⟩

def onPhone (peerInstance : Bytes) : Paired := ⟨⟨⟨keyB,keyA⟩,keyB,peerInstance⟩,keyA.bytes ++ keyB.bytes⟩

/-- The acceptor stores the only key that opens the commitment read before its welcome, the initiator the token's key;
    with equal codes the records hold each other's keys, if the token is the acceptor's or the keys differ. -/
theorem commit_reveal_agreement (prims : Primitives) (acceptor initiator : Party) (token : Token) (blind : Key)
    (atAcceptor atInitiator : Exchange) (accepted initiated : Paired) :
    (Succeeds (pairAcceptor prims acceptor) atAcceptor accepted →
      ∃ stream hello welcome sent reveal later commit opening,
        atAcceptor = (.acceptStream,some stream) :: (.recv,some hello) :: (.send welcome,some sent) ::
          (.recv,some reveal) :: later ∧
        keyField hello "commit" = some commit ∧
        buildWelcome acceptor.ephPub acceptor.identityPub acceptor.instanceId = some welcome ∧
        keyField reveal "blind" = some opening ∧
        sasCommit prims.sha256 accepted.record.peerPublicKey opening = commit ∧
        (Binding prims.sha256 → ∀ key other, sasCommit prims.sha256 key other = commit →
          key = accepted.record.peerPublicKey)) ∧
    (Succeeds (pairInitiator prims initiator token blind) atInitiator initiated →
      initiated.record.peerPublicKey = token.accEphPub) ∧
    (Distinguishes prims.code → (token.accEphPub = acceptor.ephPub ∨ acceptor.ephPub ≠ initiator.ephPub) →
      Succeeds (pairAcceptor prims acceptor) atAcceptor accepted →
      Succeeds (pairInitiator prims initiator token blind) atInitiator initiated → accepted.code = initiated.code →
        accepted.record.peerPublicKey = initiated.record.localPublicKey ∧
        initiated.record.peerPublicKey = accepted.record.localPublicKey) := by
  refine ⟨?_,?_,?_⟩
  · intro success
    obtain ⟨stream,hello,welcome,sent,reveal,later,commit,opening,shape,committed,built,-,blinded,opens,-,-⟩ :=
      pairAcceptor_succeeds success
    refine ⟨stream,hello,welcome,sent,reveal,later,commit,opening,shape,committed,built,blinded,opens,?_⟩
    intro binding key other alsoOpens
    exact binding _ _ _ _ (alsoOpens.trans opens.symm)
  · intro success
    obtain ⟨_,_,_,_,_,-,-,record,-⟩ := pairInitiator_succeeds success
    rw [record]
  · intro distinguishes bound atA atI sameCode
    obtain ⟨_,_,_,_,_,_,_,_,-,-,-,-,-,-,codeA,ownA,-⟩ := pairAcceptor_succeeds atA
    obtain ⟨_,_,_,_,_,-,-,record,codeI⟩ := pairInitiator_succeeds atI
    rw [← sameCode] at codeI
    rw [record,ownA]
    exact keys_of_same_pair (distinguishes _ _ _ _ _ codeA codeI) bound

theorem server_succeeds : Succeeds (pairAcceptor plain server) atServer onServer := by decide +kernel

theorem phone_succeeds : Succeeds (pairInitiator plain phone serverToken keyB)
    (atPhone (welcomeJson keyA keyB "server")) (onPhone "server") := by decide +kernel

theorem honest_ceremony_agrees :
    Binding plain.sha256 ∧ Distinguishes plain.code ∧ Succeeds (pairAcceptor plain server) atServer onServer ∧
      Succeeds (pairInitiator plain phone serverToken keyB) (atPhone (welcomeJson keyA keyB "server"))
        (onPhone "server") ∧
      onServer.record.peerPublicKey = (onPhone "server").record.localPublicKey ∧
      (onPhone "server").record.peerPublicKey = onServer.record.localPublicKey := by
  obtain ⟨-,-,agree⟩ := commit_reveal_agreement plain server phone serverToken keyB atServer _ onServer _
  exact ⟨plainDigest_binding,pairCode_distinguishes,server_succeeds,phone_succeeds,
    agree pairCode_distinguishes (Or.inl rfl) server_succeeds phone_succeeds rfl⟩

/-- What the drivers take from Foundation: the string fields of a JSON object, and `Data(base64Encoded:)`. -/
structure Foundation where
  jsonObject : Bytes → Option (Bytes → Option Bytes)
  base64 : Bytes → Option Bytes

structure ParsedMsg where
  kind : Bytes
  (commit ephPub blind identityPub : Option Key)
  instanceID : Option Bytes

namespace Foundation
variable (foundation : Foundation)

def decodeStdB64 (value : Option Bytes) : Option Key := do
  let text ← value
  let octets ← foundation.base64 text
  keyOfOctets octets

/-- `decodeStdB64`. -/
def decode (data : Bytes) : Option ParsedMsg := do
  let obj ← foundation.jsonObject data
  let kind ← obj "kind"
  if kind = "hello" then
    let commit ← foundation.decodeStdB64 (obj "commit")
    let id ← foundation.decodeStdB64 (obj "identity_pub")
    let iid ← obj "instance_id"
    return ⟨kind,some commit,none,none,some id,some iid⟩
  else if kind = "welcome" then
    let eph ← foundation.decodeStdB64 (obj "eph_pub")
    let id ← foundation.decodeStdB64 (obj "identity_pub")
    let iid ← obj "instance_id"
    return ⟨kind,none,some eph,none,some id,some iid⟩
  else if kind = "reveal" then
    let eph ← foundation.decodeStdB64 (obj "eph_pub")
    let blind ← foundation.decodeStdB64 (obj "blind")
    return ⟨kind,none,some eph,some blind,none,none⟩
  else if kind = "confirm" then
    return ⟨kind,none,none,none,none,none⟩
  else none

/-- The Swift `pairInitiator`. Its machine never stands in the way: an event that it does not expect is ignored. -/
def pairInitiator (prims : Primitives) (own : Party) (token : Token) (blind : Key) : Ceremony Paired := do
  let commit := sasCommit prims.sha256 own.ephPub blind
  let _ ← call (.send (helloJson commit own.identityPub own.instanceId))
  let welcomeBytes ← call .recv
  let welcome ← require (foundation.decode welcomeBytes)
  guard (welcome.kind = "welcome")
  let peerEph ← require welcome.ephPub
  let peerInstance ← require welcome.instanceID
  guard (peerEph = token.accEphPub)
  let _ ← call (.send (revealJson own.ephPub blind))
  let code ← require (prims.code own.ephPub token.accEphPub)
  let _ ← call (.confirm code)
  let _ ← call (.send confirmJson)
  let peerConfirmBytes ← call .recv
  let peerConfirm ← require (foundation.decode peerConfirmBytes)
  guard (peerConfirm.kind = "confirm")
  return ⟨⟨⟨own.ephPriv,token.accEphPub⟩,own.ephPub,if peerInstance = [] then token.accInstance else peerInstance⟩,code⟩

variable {foundation}

theorem pairInitiator_stores {prims own token blind exchange}
    {result} (success : Succeeds (foundation.pairInitiator prims own token blind) exchange result) :
    ∃ hello sent welcomeBytes later welcome peerInstance,
      exchange = (.send hello,some sent) :: (.recv,some welcomeBytes) :: later ∧
      foundation.decode welcomeBytes = some welcome ∧ welcome.instanceID = some peerInstance ∧
      result.record.peerInstanceId = if peerInstance = [] then token.accInstance else peerInstance := by
  simp only [pairInitiator,succeeds_call_bind,succeeds_require_bind,succeeds_guard_bind,succeeds_pure] at success
  obtain ⟨sent,_,shape,welcomeBytes,later,rfl,welcome,decoded,_,_,_,peerInstance,named,success⟩ := success
  obtain ⟨_,_,_,_,_,_,_,_,_,_,_,_,_,_,_,_,_,_,_,rfl⟩ := success
  exact ⟨_,sent,welcomeBytes,later,welcome,peerInstance,shape,decoded,named,rfl⟩

end Foundation

theorem found_short (json key : Bytes) : (jsonFindStringField json key 64).octets.length ≤ 63 := by
  rw [jsonFindStringField]
  cases findString ([34] ++ key ++ [34]) json with
  | none => exact Nat.zero_le 63
  | some content =>
    by_cases long : 64 < (content.takeWhile (· ≠ 34)).length + 1
    · simp only [if_pos long]
      exact length_take_le 63 _
    · simp only [if_neg long]
      omega

theorem instanceField_short (json : Bytes) : (instanceField json).length ≤ 63 :=
  (length_cstr_le _).trans (found_short json _)

theorem cstr_instanceField (json : Bytes) : cstr (instanceField json) = instanceField json := by
  simp [instanceField,cstr,takeWhile_takeWhile]

theorem stored_iff (welcome accInstance : Bytes) :
    instanceIdField (if instanceField welcome = [] then accInstance else instanceField welcome) = cstr accInstance ↔
      instanceField welcome = [] ∧ (cstr accInstance).length ≤ 63 ∨ instanceField welcome = cstr accInstance := by
  by_cases empty : instanceField welcome = []
  · rw [if_pos empty,instanceIdField,take_eq_self_iff,empty]
    constructor
    · intro fits
      exact Or.inl ⟨rfl,fits⟩
    · rintro (⟨-,fits⟩ | none)
      · exact fits
      · rw [← none]
        exact Nat.zero_le 63
  · rw [if_neg empty,instanceIdField,cstr_instanceField,take_of_length_le (instanceField_short welcome)]
    constructor
    · exact Or.inr
    · rintro (⟨none,-⟩ | same)
      · exact absurd none empty
      · exact same

/-- The initiator stores the token's instance ID just when the welcome names none or the same; the C library cuts one
    of more than 63 octets. -/
theorem initiator_stores_token_instance_iff (prims : Primitives) (own : Party) (token : Token) (blind : Key)
    (foundation : Foundation) (exchange : Exchange) (result : Paired) :
    (Succeeds (pairInitiator prims own token blind) exchange result →
      ∃ welcome, exchange[2]? = some (.recv,some welcome) ∧ (result.record.peerInstanceId = cstr token.accInstance ↔
          instanceField welcome = [] ∧ (cstr token.accInstance).length ≤ 63 ∨
            instanceField welcome = cstr token.accInstance)) ∧
    (Succeeds (foundation.pairInitiator prims own token blind) exchange result →
      ∃ welcomeBytes welcome, exchange[1]? = some (.recv,some welcomeBytes) ∧
        foundation.decode welcomeBytes = some welcome ∧
        (result.record.peerInstanceId = token.accInstance ↔
          welcome.instanceID = some [] ∨ welcome.instanceID = some token.accInstance)) := by
  constructor
  · intro success
    obtain ⟨_,_,_,welcome,_,shape,-,record,-⟩ := pairInitiator_succeeds success
    rw [shape,record]
    exact ⟨welcome,rfl,stored_iff welcome token.accInstance⟩
  · intro success
    obtain ⟨_,_,welcomeBytes,_,welcome,peerInstance,shape,decoded,named,stored⟩ :=
      Foundation.pairInitiator_stores success
    rw [shape,stored]
    refine ⟨welcomeBytes,welcome,rfl,decoded,?_⟩
    rw [named]
    by_cases empty : peerInstance = []
    · simp [empty]
    · simp [empty]

def scanner : Foundation :=
  ⟨fun json => some (fun key => if (jsonFindStringField json key 1024).found then
      some (jsonFindStringField json key 1024).octets else none),
    fun text => b64Decode text 1024⟩

def atSwift (welcome : Bytes) : Exchange := (atPhone welcome).drop 1

/-- A welcome that names the instance of the token. -/
theorem welcome_of_server_stores_token :
    (∃ welcome, (atPhone (welcomeJson keyA keyB "server"))[2]? = some (.recv,some welcome) ∧
      ((onPhone "server").record.peerInstanceId = cstr serverToken.accInstance ↔
        instanceField welcome = [] ∧ (cstr serverToken.accInstance).length ≤ 63 ∨
          instanceField welcome = cstr serverToken.accInstance)) ∧
    ∃ welcomeBytes welcome, (atSwift (welcomeJson keyA keyB "server"))[1]? = some (.recv,some welcomeBytes) ∧
      scanner.decode welcomeBytes = some welcome ∧
      ((onPhone "server").record.peerInstanceId = serverToken.accInstance ↔
        welcome.instanceID = some [] ∨ welcome.instanceID = some serverToken.accInstance) :=
  ⟨(initiator_stores_token_instance_iff plain phone serverToken keyB scanner _ _).1 phone_succeeds,
    (initiator_stores_token_instance_iff plain phone serverToken keyB scanner _ _).2 (by decide +kernel)⟩

/-- Another instance ID in the welcome is stored under the same code; a token's ID of 64 octets loses the last. -/
theorem replaced_instance_stored : (Succeeds (pairAcceptor plain server) atServer onServer ∧
      Succeeds (pairInitiator plain phone serverToken keyB) (atPhone (welcomeJson keyA keyB "mallory"))
        (onPhone "mallory") ∧
      Succeeds (scanner.pairInitiator plain phone serverToken keyB) (atSwift (welcomeJson keyA keyB "mallory"))
        (onPhone "mallory") ∧
      onServer.code = (onPhone "mallory").code ∧
      (onPhone "mallory").record.peerInstanceId ≠ serverToken.accInstance) ∧
    Succeeds (pairInitiator plain phone ⟨keyA,replicate 64 97⟩ keyB) (atPhone (welcomeJson keyA keyB []))
      (onPhone (replicate 63 97)) := by
  exact ⟨⟨server_succeeds,by decide +kernel,by decide +kernel,rfl,by decide +kernel⟩,by decide +kernel⟩

end Pigeon.Pairing
