import Pigeon.ActivationWire
import Pigeon.KeyAgreement

/-!
Both ends of an activation: `pigeon_connect_on_transport` with a pairing record against
`pigeon_listener_accept`. The transport is what the client gets for its request; nothing in an
answer is authenticated (`active_iff`). Over a transport that changes nothing the client has a
session just when the backend has one, and their keys mirror each other (`sessions_mirrored`).
-/
namespace Pigeon.ActivationRun
open Octets Sealing KeySchedule Activation ActivationWire KeyAgreement Option

inductive ClientState
  | reconnect
  | sendAuth
  | sessionActive
deriving DecidableEq

/-- `pigeon_client_step`. -/
def ClientState.relayConnected : ClientState → Option ClientState
  | .reconnect => some .sendAuth
  | _ => none

/-- `pigeon_client_handle_message`. -/
def ClientState.handleAuthOk : ClientState → Option ClientState
  | .sendAuth => some .sessionActive
  | _ => none

inductive ClientOutcome
  | failed
  | rejected (reason : Bytes)
  | active (nonce : Bytes)

/-- `pigeon_run_client_activation` with the nonce that it draws; `exchange` is `none` when the transport does not take
    the request or has no answer. -/
def runClientActivation (deviceId nonce : Bytes) (route : Option Bytes) (outReasonCap : Nat)
    (exchange : Bytes → Option Bytes) : ClientOutcome :=
  match ClientState.reconnect.relayConnected with
  | none => .failed
  | some sending =>
    if sending ≠ .sendAuth then .failed
    else match (encodeAuthRequest deviceId nonce route authMaxPayload).bind exchange with
      | none => .failed
      | some answer =>
        if authMaxPayload < answer.length then .failed
        else match decodeAuthOk answer outReasonCap with
          | none => .failed
          | some (false,reason) => .rejected reason
          | some (true,_) => if sending.handleAuthOk = some .sessionActive then .active nonce else .failed

/-- `pigeon_connect_on_transport` with a record, up to the keys of the session. -/
def connectOnTransport (x25519 : Key → Key → Option Key) (hmac : Bytes → Bytes → Key) (record : PairingRecord)
    (deviceId nonce : Bytes) (exchange : Bytes → Option Bytes) : Option SessionMaterial :=
  if cstr deviceId = [] then none
  else match runClientActivation deviceId nonce (some []) 0 exchange with
    | .active nonce => material x25519 hmac .c .client record nonce
    | _ => none

/-- What a backend sends back. -/
def answered (resolve : Bytes → Option PairingRecord) (replied : Bool) (request : Bytes) : Option Bytes :=
  match runBackendActivation ⟨request,resolve,replied⟩ with
  | .failed => none
  | .rejected reply => if replied then reply else none
  | .accepted reply _ _ => some reply

def acceptance : Bytes := [authMsgTagAuthOk,authOkAccepted]

section
variable {deviceId nonce : Bytes}

theorem accepts_iff (outReasonCap : Nat) {answer} : (∃ reason, decodeAuthOk answer outReasonCap = some (true,reason)) ↔
    acceptance <+: answer := by
  simp only [decodeAuthOk_iff]
  constructor
  · rintro ⟨reason,parts,-,rfl,same⟩
    cases parts with
    | accepted trailing => exact ⟨trailing,rfl⟩
    | rejected length reason => cases same
  · rintro ⟨trailing,rfl⟩
    exact ⟨[],.accepted trailing,trivial,rfl,rfl⟩

theorem active_iff {route outReasonCap exchange n} :
    runClientActivation deviceId nonce route outReasonCap exchange = .active n ↔ n = nonce ∧
      ∃ answer, (encodeAuthRequest deviceId nonce route authMaxPayload).bind exchange = some answer ∧
        answer.length ≤ authMaxPayload ∧ acceptance <+: answer := by
  simp only [runClientActivation,ClientState.relayConnected,ne_eq,not_true,if_false,ClientState.handleAuthOk,if_true]
  cases (encodeAuthRequest deviceId nonce route authMaxPayload).bind exchange with
  | none => simp
  | some answer =>
    by_cases long : authMaxPayload < answer.length
    · simp [long]
    · simp only [if_neg long,some.injEq,exists_eq_left',Nat.not_lt.mp long,true_and,← accepts_iff outReasonCap]
      cases decodeAuthOk answer outReasonCap with
      | none => simp
      | some read =>
        obtain ⟨ok,reason⟩ := read
        cases ok <;> simp [eq_comm]

/-- The request of `pigeon_connect_on_transport` arrives as it was meant. -/
theorem request_read {request} (length : nonce.length = authNonceLen)
    (sent : encodeAuthRequest deviceId nonce (some []) authMaxPayload = some request) :
    request.length ≤ authMaxPayload ∧ decodeAuthRequest request = some ⟨cstr deviceId,nonce,[]⟩ := by
  have clean : cstr (cstr deviceId) = cstr deviceId := cstr_eq_iff.mpr (notMem_cstr deviceId)
  obtain ⟨fits,same⟩ := ite_none_left_eq_some.mp sent
  cases same
  simp only [not_or,Nat.not_lt] at fits
  refine ⟨fits.2.2,(decodeAuthRequest_iff _ _).mpr ⟨written ⟨cstr deviceId,nonce,[]⟩,
    written_fits fits.1 length (Nat.zero_le _),?_,?_⟩⟩
  · simp [RequestParts.wire,written,← length]
    rfl
  · rw [RequestParts.request,written,clean]
    rfl

theorem run_read {request asked} (resolve : Bytes → Option PairingRecord)
    (fits : request.length ≤ authMaxPayload) (decoded : decodeAuthRequest request = some asked) (replied : Bool) :
    runBackendActivation ⟨request,resolve,replied⟩ = (resolve asked.deviceId).elim
      (.rejected (encodeAuthOk false "unknown client"))
      fun record => if replied then .accepted acceptance asked record else .failed := by
  cases found : resolve asked.deviceId <;> cases replied <;> simp [runBackendActivation,Nat.not_lt.mpr fits,decoded,found,
    BackendState.handleAuthRequest,BackendState.verify,encodeAuthOk,acceptance]

variable {x25519 : Key → Key → Option Key} {hmac : Bytes → Bytes → Key} {publicOf : Key → Key} {own : PairingRecord}
  {resolve : Bytes → Option PairingRecord}

theorem connect_eq_none {exchange}
    (refused : ∀ answer, (encodeAuthRequest deviceId nonce (some []) authMaxPayload).bind exchange = some answer →
      ¬ acceptance <+: answer) : connectOnTransport x25519 hmac own deviceId nonce exchange = none := by
  unfold connectOnTransport
  split_ifs
  · rfl
  cases run : runClientActivation deviceId nonce (some []) 0 exchange with
  | active n =>
    obtain ⟨-,answer,received,-,accepted⟩ := active_iff.mp run
    exact absurd accepted (refused answer received)
  | failed | rejected => rfl

/-- Over a transport that delivers what is sent, a client with the other half of the record has a session just when
    the backend has one for its request, and the keys are each other's. -/
theorem sessions_mirrored (commutes : ∀ a b, x25519 a (publicOf b) = x25519 b (publicOf a))
    (length : nonce.length = authNonceLen)
    (paired : ∀ record ∈ resolve (cstr deviceId), Complementary publicOf own record) (replied : Bool) :
    connectOnTransport x25519 hmac own deviceId nonce (answered resolve replied) =
      if cstr deviceId = [] then none
      else ((encodeAuthRequest deviceId nonce (some []) authMaxPayload).bind fun request =>
        listenerAccept x25519 hmac ⟨request,resolve,replied⟩).map fun session => session.material.swap := by
  by_cases empty : cstr deviceId = []
  · rw [connectOnTransport,if_pos empty,if_pos empty]
  rw [if_neg empty]
  cases sent : encodeAuthRequest deviceId nonce (some []) authMaxPayload with
  | none => exact connect_eq_none (by simp [sent])
  | some request =>
    obtain ⟨fits,decoded⟩ := request_read length sent
    have backend := run_read resolve fits decoded replied
    cases found : resolve (cstr deviceId) with
    | none =>
      rw [found] at backend
      have refused : connectOnTransport x25519 hmac own deviceId nonce (answered resolve replied) = none := by
        refine connect_eq_none (fun answer received accepted => ?_)
        simp only [sent,bind_some,answered,backend,elim_none] at received
        obtain ⟨-,rejection⟩ := ite_none_right_eq_some.mp received
        cases rejection
        exact absurd accepted (by decide)
      simp [refused,listenerAccept,backend]
    | some record =>
      rw [found] at backend
      cases replied with
      | false =>
        rw [connect_eq_none (by simp [sent,answered,backend])]
        simp [listenerAccept,backend]
      | true =>
        have run : runClientActivation deviceId nonce (some []) 0 (answered resolve true) = .active nonce := by
          refine active_iff.mpr ⟨rfl,acceptance,?_,by decide,List.prefix_rfl⟩
          simp [sent,answered,backend]
        have mirrored : material x25519 hmac .c .client own nonce =
            (material x25519 hmac .go .backend record nonce).map SessionMaterial.swap := by
          obtain ⟨ours,theirs⟩ := paired record found
          rw [material_eq .c .client length,material_eq .go .backend length,ours,theirs,commutes,map_map]
          rfl
        rw [connectOnTransport,if_neg empty,run]
        refine mirrored.trans ?_
        simp [listenerAccept,backend,material,Function.comp_def]

end

def knownDevice (deviceId : Bytes) : Option PairingRecord := if deviceId = [97] then some ⟨keyB,keyA⟩ else none

theorem known_device_connects :
    (connectOnTransport blended mixed ⟨keyA,keyB⟩ [97] someNonce (answered knownDevice true)).isSome := by
  have paired : ∀ record ∈ knownDevice (cstr [97]), Complementary id ⟨keyA,keyB⟩ record := by
    rintro record ⟨⟩
    exact ⟨rfl,rfl⟩
  rw [sessions_mirrored blended_commutes rfl paired true]
  decide +kernel

end Pigeon.ActivationRun
