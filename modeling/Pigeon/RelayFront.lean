import Pigeon.Dialogue
import Pigeon.Greeting
import Pigeon.RelayHub

/-!
The two front ends of the relay, `QUICServer.handleConnection` (`quicserver.go`) and
`WebTransportServer.handlePigeon` (`webtransport.go`). A handler asks the hub, writes and waits;
`answer` says what comes back. They differ in `handleConnect`: QUIC refuses instance IDs of more
than 64 octets (`front_ends_alike_iff`).
-/
namespace Pigeon.RelayFront
open Octets KeySchedule Runs Dialogue Unions Greeting RelayHub

structure Auth where
  verifyRegister : Option (Bytes → Bytes → Bool)
  verifyConnect : Option (Bytes → Bool)

def Auth.admitsRegister (auth : Auth) (token instanceID : Bytes) : Bool :=
  auth.verifyRegister.all (fun verify => verify token instanceID)

def Auth.admitsConnect (auth : Auth) (instanceID : Bytes) : Bool :=
  auth.verifyConnect.all (fun verify => verify instanceID)

/-- What a handler does and waits for. The hub's `get` comes with the event that goes on to `parkListen` or
    `matchListen`. -/
inductive Ask
  | generateID
  | hub (e : Event)
  | write (message : Bytes)
  | contextDone
  | parkReturns (listen : Nat)
  | matchReturns (client : Nat)
  | closeListen (listen : Nat)
  | bridge (client listen : Nat)

structure Reply where
  ok : Bool
  index : Nat
  text : Bytes

inductive Outcome
  | served
  | closed (code : Nat) (reason : String)

def Outcome.accepted : Outcome → Bool
  | .served => true
  | .closed _ _ => false

abbrev Handler := Prog Ask Reply Outcome

def leave (inst : Nat) (outcome : Outcome) : Handler :=
  .ask (.hub (.unregister inst)) fun _ => .ask (.hub (.cancel inst)) fun _ => .done outcome

def withID (requestedID : Bytes) (next : Bytes → Handler) : Handler :=
  if requestedID = [] then .ask .generateID fun made => next made.text else next requestedID

/-- `handleRegister`, for a front end that closes connections with `close`. -/
def registerWith (close : String → Outcome) (auth : Auth) (token requestedID : Bytes) : Handler :=
  if auth.admitsRegister token requestedID = false then .done (close "unauthorized")
  else
    withID requestedID fun id =>
      .ask (.hub (.newInstance id)) fun made =>
        .ask (.hub (.register made.index)) fun registered =>
          if registered.ok = false then .done (close "instance ID in use")
          else
            .ask (.write id) fun wrote =>
              if wrote.ok = false then leave made.index (close "failed to write ID")
              else .ask .contextDone fun _ => leave made.index .served

/-- `handleListen`; the session `parkListen` gave up is closed with code 0 by both. -/
def listenWith (close : String → Outcome) (auth : Auth) (token instanceID : Bytes) : Handler :=
  if instanceID = [] then .done (close "missing instance ID")
  else if auth.admitsRegister token instanceID = false then .done (close "unauthorized")
  else
    .ask (.hub (.listen instanceID)) fun found =>
      if found.ok = false then .done (close "instance not found")
      else
        .ask (.write instanceID) fun wrote =>
          if wrote.ok = false then .done (close "write ack failed")
          else
            .ask (.hub (.parkListen found.index)) fun _ =>
              .ask (.parkReturns found.index) fun parked =>
                if parked.ok = false then .done (.closed 0 "") else .done .served

def connectWith (close : String → Outcome) (auth : Auth) (instanceID : Bytes) : Handler :=
  if auth.admitsConnect instanceID = false then .done (close "unauthorized")
  else
    .ask (.hub (.connect instanceID)) fun found =>
      if found.ok = false then .done (close "instance not found")
      else
        .ask (.hub (.matchListen found.index)) fun _ =>
          .ask (.matchReturns found.index) fun matched =>
            if matched.ok = false then .done (close "no listener")
            else
              .ask (.write (ascii "ok")) fun wrote =>
                if wrote.ok = false then
                  .ask (.closeListen matched.index) fun _ => .done (close "write ack failed")
                else .ask (.bridge found.index matched.index) fun _ => .done .served

def quicClose (reason : String) : Outcome := .closed 1 reason

/-- `QUICServer.handleRegister`. -/
def quicHandleRegister (auth : Auth) := registerWith quicClose auth

/-- `QUICServer.handleListen`. -/
def quicHandleListen (auth : Auth) := listenWith quicClose auth

/-- `QUICServer.handleConnect`. -/
def quicHandleConnect (auth : Auth) (instanceID : Bytes) : Handler :=
  if instanceID.length = 0 ∨ 64 < instanceID.length then .done (quicClose "invalid instance ID")
  else connectWith quicClose auth instanceID

/-- `QUICServer.handleConnection`. -/
def quicHandleConnection (auth : Auth) (handshake : Bytes) : Handler :=
  match decodeRelayGreeting handshake with
  | .error _ => .done (quicClose "bad handshake")
  | .ok dec =>
    match dec.variant with
    | .register => quicHandleRegister auth dec.token dec.instanceId
    | .listen => quicHandleListen auth dec.token dec.instanceId
    | .connect => quicHandleConnect auth dec.instanceId

def wtClose (_ : String) : Outcome := .closed 0 ""

/-- The `Authorization` header and the `token` parameter of the upgrade request. -/
structure HTTPRequest where
  (authorization token : Bytes)

def bearer : Bytes := ascii "Bearer "

def bearerToken (r : HTTPRequest) : Bytes :=
  if bearer.isPrefixOf r.authorization then r.authorization.drop bearer.length else r.token

/-- `WebTransportServer.handleRegister`. -/
def wtHandleRegister (auth : Auth) := registerWith wtClose auth

/-- `WebTransportServer.handleListen`. -/
def wtHandleListen (auth : Auth) := listenWith wtClose auth

/-- `WebTransportServer.handleConnect`. -/
def wtHandleConnect (auth : Auth) (instanceID : Bytes) : Handler :=
  if instanceID = [] then .done (wtClose "missing instance ID") else connectWith wtClose auth instanceID

/-- `WebTransportServer.handlePigeon`. -/
def wtHandlePigeon (auth : Auth) (r : HTTPRequest) (handshake : Bytes) : Handler :=
  match decodeRelayGreeting handshake with
  | .error _ => .done (.closed 0 "bad handshake")
  | .ok dec =>
    let token := if dec.token = [] then bearerToken r else dec.token
    match dec.variant with
    | .register => wtHandleRegister auth token dec.instanceId
    | .listen => wtHandleListen auth token dec.instanceId
    | .connect => wtHandleConnect auth dec.instanceId

def noCredentials : HTTPRequest := ⟨[],[]⟩

/-- Other connections act on the hub, the connection takes a write or not; also the ID that is generated. -/
structure Turn where
  others : List Event
  ok : Bool
  text : Bytes

def reply (h : Hub) (turn : Turn) : Ask → Hub × Reply
  | .generateID => (h,⟨true,0,turn.text⟩)
  | .hub (.newInstance id) => ((step h (.newInstance id)).1,⟨true,h.made.length,[]⟩)
  | .hub (.register inst) => ((step h (.register inst)).1,⟨decide ((step h (.register inst)).2 = some true),inst,[]⟩)
  | .hub (.listen id) => ((step h (.listen id)).1,⟨(h.instances id).isSome,h.listens.length,[]⟩)
  | .hub (.connect id) => ((step h (.connect id)).1,⟨(h.instances id).isSome,h.clients.length,[]⟩)
  | .hub e => ((step h e).1,⟨true,0,[]⟩)
  | .write _ => (h,⟨turn.ok,0,[]⟩)
  | .contextDone => (h,⟨true,0,[]⟩)
  | .parkReturns listen =>
    match h.listens[listen]? with
    | some ⟨_,.returned err⟩ => (h,⟨err.isNone,0,[]⟩)
    | _ => ((step h (.parkEnds listen .context)).1,⟨false,0,[]⟩)
  | .matchReturns client =>
    match h.clients[client]? with
    | some ⟨_,.matched listen⟩ => (h,⟨true,listen,[]⟩)
    | some ⟨_,.failed _⟩ => (h,⟨false,0,[]⟩)
    | _ => ((step h (.matchEnds client .context)).1,⟨false,0,[]⟩)
  | .closeListen _ => (h,⟨true,0,[]⟩)
  | .bridge _ _ => (h,⟨true,0,[]⟩)

def answer (h : Hub) (turn : Turn) (request : Ask) : Hub × Reply := reply (final step h turn.others) turn request

def service (p : Handler) (h : Hub) (turns : List Turn) : Hub × List Ask × Option Bool :=
  (p.relabel Outcome.accepted).serve answer h turns

def CanServe (p : Handler) (h : Hub) : Prop := ∃ turns, (service p h turns).2.2 = some true

section
variable {close close' : String → Outcome} (refuses : ∀ reason, (close reason).accepted = false)
  (refuses' : ∀ reason, (close' reason).accepted = false) (auth : Auth)
include refuses refuses'

theorem register_alike (token requestedID : Bytes) :
    (registerWith close auth token requestedID).relabel Outcome.accepted =
      (registerWith close' auth token requestedID).relabel Outcome.accepted := by
  simp only [registerWith,withID,leave,relabel_ite,Prog.relabel,refuses,refuses']

theorem listen_alike (token instanceID : Bytes) : (listenWith close auth token instanceID).relabel Outcome.accepted =
      (listenWith close' auth token instanceID).relabel Outcome.accepted := by
  simp only [listenWith,relabel_ite,Prog.relabel,refuses,refuses']

theorem connect_alike (instanceID : Bytes) : (connectWith close auth instanceID).relabel Outcome.accepted =
      (connectWith close' auth instanceID).relabel Outcome.accepted := by
  simp only [connectWith,relabel_ite,Prog.relabel,refuses,refuses']

end

theorem quicClose_refuses (reason : String) : (quicClose reason).accepted = false := rfl

theorem wtClose_refuses (reason : String) : (wtClose reason).accepted = false := rfl

theorem token_without_credentials (token : Bytes) :
    (if token = [] then bearerToken noCredentials else token) = token := by
  by_cases empty : token = []
  · rw [if_pos empty,empty]
    rfl
  · rw [if_neg empty]

def Overlong (auth : Auth) (greeting : Bytes) : Prop :=
  ∃ instanceID, greeting = encodeRelayGreetingConnect instanceID ∧ 64 < instanceID.length ∧
    auth.admitsConnect instanceID = true

theorem handlers_alike {auth greeting} (fits : ¬ Overlong auth greeting) :
    (quicHandleConnection auth greeting).relabel Outcome.accepted =
      (wtHandlePigeon auth noCredentials greeting).relabel Outcome.accepted := by
  rw [quicHandleConnection,wtHandlePigeon]
  cases decoded : decodeRelayGreeting greeting with
  | error err => rfl
  | ok dec =>
    obtain ⟨variant,instanceID,token⟩ := dec
    simp only [token_without_credentials]
    cases variant with
    | register => exact register_alike quicClose_refuses wtClose_refuses auth token instanceID
    | listen => exact listen_alike quicClose_refuses wtClose_refuses auth token instanceID
    | connect =>
      by_cases empty : instanceID = []
      · simp [quicHandleConnect,wtHandleConnect,empty,Prog.relabel,quicClose,wtClose,Outcome.accepted]
      · by_cases long : 64 < instanceID.length
        · -- The policy refuses the client, then, and so do both front ends.
          have refused : auth.admitsConnect instanceID = false := by
            rw [Bool.eq_false_iff]
            exact fun admitted => fits ⟨instanceID,connect_of_decode decoded,long,admitted⟩
          simp [quicHandleConnect,wtHandleConnect,connectWith,empty,long,refused,Prog.relabel,quicClose,wtClose,
            Outcome.accepted]
        · have checked : ¬ (instanceID.length = 0 ∨ 64 < instanceID.length) := by
            rw [List.length_eq_zero_iff]
            exact fun either => either.elim empty long
          simp only [quicHandleConnect,wtHandleConnect,if_neg checked,if_neg empty]
          exact connect_alike quicClose_refuses wtClose_refuses auth instanceID

def matchedTurns (h : Hub) (instanceID : Bytes) : List Turn :=
  [⟨[],true,[]⟩,⟨[],true,[]⟩,
    ⟨[.listen instanceID,.parkListen h.listens.length,.handOver h.listens.length h.clients.length],true,[]⟩,
    ⟨[],true,[]⟩,⟨[],true,[]⟩]

theorem connectWith_serves (close : String → Outcome) {auth instanceID h inst}
    (admitted : auth.admitsConnect instanceID) (registered : h.instances instanceID = some inst) :
    (service (connectWith close auth instanceID) h (matchedTurns h instanceID)).2.2 = some true := by
  simp [service,connectWith,admitted,relabel_ite,Prog.relabel,Prog.serve,matchedTurns,answer,reply,step,final,
    Hub.connect,Hub.matchListen,Hub.listen,Hub.parkListen,Hub.handOver,registered,Outcome.accepted]

section
variable (auth : Auth) {instanceID : Bytes}
include auth

theorem quic_refuses_long (long : 64 < instanceID.length) :
    quicHandleConnection auth (encodeRelayGreetingConnect instanceID) = .done (quicClose "invalid instance ID") := by
  simp only [quicHandleConnection,encode_connect,decode_connect,quicHandleConnect]
  rw [if_pos (Or.inr long)]

theorem quic_connects (filled : instanceID ≠ []) (fits : instanceID.length ≤ 64) :
    quicHandleConnection auth (encodeRelayGreetingConnect instanceID) = connectWith quicClose auth instanceID := by
  have checked : ¬ (instanceID.length = 0 ∨ 64 < instanceID.length) := by
    rw [List.length_eq_zero_iff]
    exact fun either => either.elim filled (by omega)
  simp only [quicHandleConnection,encode_connect,decode_connect,quicHandleConnect]
  rw [if_neg checked]

theorem wt_connects (filled : instanceID ≠ []) :
    wtHandlePigeon auth noCredentials (encodeRelayGreetingConnect instanceID) = connectWith wtClose auth instanceID := by
  simp only [wtHandlePigeon,encode_connect,decode_connect,wtHandleConnect]
  rw [if_neg filled]

theorem quic_cannot_serve (long : 64 < instanceID.length) (h : Hub) :
    ¬ CanServe (quicHandleConnection auth (encodeRelayGreetingConnect instanceID)) h := by
  rintro ⟨turns,served⟩
  rw [quic_refuses_long auth long] at served
  cases served

end

theorem wt_can_serve {auth instanceID h inst} (filled : instanceID ≠ [])
    (admitted : auth.admitsConnect instanceID) (registered : h.instances instanceID = some inst) :
    CanServe (wtHandlePigeon auth noCredentials (encodeRelayGreetingConnect instanceID)) h := by
  refine ⟨matchedTurns h instanceID,?_⟩
  rw [wt_connects auth filled]
  exact connectWith_serves wtClose admitted registered

theorem overlong_apart {auth greeting} (long : Overlong auth greeting) :
    ∃ h turns, service (quicHandleConnection auth greeting) h turns ≠
      service (wtHandlePigeon auth noCredentials greeting) h turns := by
  obtain ⟨instanceID,rfl,long,admitted⟩ := long
  have filled : instanceID ≠ [] := by
    rintro rfl
    simp at long
  refine ⟨newHub,[],?_⟩
  rw [quic_refuses_long auth long,wt_connects auth filled]
  simp [service,connectWith,admitted,Prog.relabel,Prog.serve]

/-- The front ends treat a greeting alike just when it does not ask for an admitted instance with an ID of more than
    64 octets. Clients get to an instance through both just when its ID has at most 64. -/
theorem front_ends_alike_iff (auth : Auth) (greeting : Bytes) :
    ((∀ h turns, service (quicHandleConnection auth greeting) h turns =
        service (wtHandlePigeon auth noCredentials greeting) h turns) ↔ ¬ Overlong auth greeting) ∧
      ∀ (h : Hub) (instanceID : Bytes) (inst : Nat), h.instances instanceID = some inst → instanceID ≠ [] →
        auth.admitsConnect instanceID = true →
          CanServe (wtHandlePigeon auth noCredentials (encodeRelayGreetingConnect instanceID)) h ∧
          (CanServe (quicHandleConnection auth (encodeRelayGreetingConnect instanceID)) h ↔
            instanceID.length ≤ 64) := by
  refine ⟨⟨?_,?_⟩,?_⟩
  · intro alike long
    obtain ⟨h,turns,apart⟩ := overlong_apart long
    exact apart (alike h turns)
  · intro fits h turns
    rw [service,service,handlers_alike fits]
  · intro h instanceID inst registered filled admitted
    refine ⟨wt_can_serve filled admitted registered,?_,?_⟩
    · intro serves
      by_contra long
      exact quic_cannot_serve auth (by omega) h serves
    · intro fits
      refine ⟨matchedTurns h instanceID,?_⟩
      rw [quic_connects auth filled fits]
      exact connectWith_serves quicClose admitted registered

def openRelay : Auth := ⟨none,none⟩

def oneInstance : Hub := run [.newInstance [97],.register 0]

theorem short_instance_reached :
    oneInstance.instances [97] = some 0 ∧ ¬ Overlong openRelay (encodeRelayGreetingRegister [] [97]) ∧
      CanServe (quicHandleConnection openRelay (encodeRelayGreetingConnect [97])) oneInstance := by
  have registered : oneInstance.instances [97] = some 0 := by decide
  have alike := front_ends_alike_iff openRelay (encodeRelayGreetingRegister [] [97])
  refine ⟨registered,?_,((alike.2 oneInstance [97] 0 registered (by decide) rfl).2).mpr (by decide)⟩
  rintro ⟨instanceID,same,-⟩
  rw [encode_connect] at same
  have first : (encodeRelayGreetingRegister [] [97]).head? = some 99 := congrArg List.head? same
  exact absurd first (by decide)

def longID : Bytes := List.replicate 65 97

def registering : List Turn := [⟨[],true,[]⟩,⟨[],true,[]⟩,⟨[],true,[]⟩]

def longInstance : Hub :=
  (service (quicHandleConnection openRelay (encodeRelayGreetingRegister [] longID)) newHub registering).1

/-- Clients get to that backend through the WebTransport front end only. -/
theorem long_instance_out_of_reach : longInstance.instances longID = some 0 ∧
      CanServe (wtHandlePigeon openRelay noCredentials (encodeRelayGreetingConnect longID)) longInstance ∧
      ¬ CanServe (quicHandleConnection openRelay (encodeRelayGreetingConnect longID)) longInstance := by
  have registered : longInstance.instances longID = some 0 := by decide
  exact ⟨registered,wt_can_serve (by decide) rfl registered,quic_cannot_serve openRelay (by decide) longInstance⟩

end Pigeon.RelayFront
