import Pigeon.Runs
import Pigeon.TableMachines

/-!
The switching of paths (`protocol/pathswitch.yaml`): backend, client and relay as tables of
transitions over shared variables, with a queue for each ordered pair; a receiver drops what no
row takes. The functions named by `do` and the fields of messages touch no variable.

The monitor and the backoff follow the backend alone (`Standing`). The dispatcher and the
signal are set by both sides; the invariants about them hold just in the runs in which no side
switches against the other (`path_switch_invariants`).
-/
namespace Pigeon.PathSwitch
open Runs TableMachines List

inductive Actor
  | backend | client | relay
deriving DecidableEq

inductive Message
  | lanOffer | lanVerify | lanConfirm | pathPing | pathPong | relayResume | relayResumed
deriving DecidableEq

inductive Event
  | lanServerReady | offerTimeout | pingTick | pingTimeout | backoffExpired | lanServerChanged | readvertiseTick
  | lanDialOk | lanDialFailed | verifyTimeout | lanError | relayOk
  | backendRegister | clientConnect | clientDisconnect | backendDisconnect
deriving DecidableEq

inductive Input
  | event (e : Event)
  | recv (m : Message)
deriving DecidableEq

inductive Guard
  | challengeValid | challengeInvalid | lanEnabled | lanDisabled | lanServerAvailable | underMaxFailures | atMaxFailures

inductive Place
  | relay | lan | none
deriving DecidableEq

inductive Signal
  | pending | ready
deriving DecidableEq

inductive Bridge
  | idle | active

/-- The variables that a transition sets. -/
structure Vars where
  (pingFailures backoffLevel : Nat)
  (activePath dispatcherPath monitorTarget : Place)
  lanSignal : Signal
  relayBridge : Bridge

/-- The variables that a guard or an update reads and none sets. -/
structure Constants where
  (challengeBytes offerChallenge : String)
  (maxPingFailures maxBackoffLevel : Nat)
  lanServerAddr : String

def declared : Constants := ⟨"none","none",3,5,"none"⟩

def holds (k : Constants) (v : Vars) : Guard → Bool
  | .challengeValid => k.offerChallenge = k.challengeBytes
  | .challengeInvalid => k.offerChallenge ≠ k.challengeBytes
  | .lanEnabled => true
  | .lanDisabled => false
  | .lanServerAvailable => k.lanServerAddr ≠ "none"
  | .underMaxFailures => v.pingFailures + 1 < k.maxPingFailures
  | .atMaxFailures => v.pingFailures + 1 ≥ k.maxPingFailures

abbrev Row (S : Type) := TableMachines.Row S Input Guard Empty (Vars → Vars) (Actor × Message)

abbrev Machine (S : Type) := Table S Input Guard Empty (Vars → Vars) (Actor × Message) Vars Input

def machine {S : Type} (k : Constants) (rows : List (Row S)) : Machine S :=
  ⟨rows,id,fun v _ => holds k v,fun _ _ => true,fun u => u⟩

def on {S : Type} (origin : S) (e : Event) (target : S) : Row S := ⟨origin,target,.event e,none,none,id,[]⟩

def onRecv {S : Type} (origin : S) (m : Message) (target : S) : Row S := ⟨origin,target,.recv m,none,none,id,[]⟩

inductive Backend
  | relayConnected | lanOffered | lanActive | lanDegraded | relayBackoff
deriving DecidableEq

/-- `Min(backoff_level + 1, max_backoff_level)`. -/
def Constants.backOff (k : Constants) (v : Vars) : Vars :=
  { v with backoffLevel := min (v.backoffLevel + 1) k.maxBackoffLevel }

/-- The transitions of `backend` in `pathswitch.yaml`. -/
def backendRows (k : Constants) : List (Row Backend) :=
  [(on .relayConnected .lanServerReady .lanOffered).emitting [(.client,.lanOffer)],
    (((onRecv .lanOffered .lanVerify .lanActive).guarded .challengeValid).setting fun v => { v with
      pingFailures := 0, backoffLevel := 0, activePath := .lan, monitorTarget := .lan, dispatcherPath := .lan,
      lanSignal := .ready }).emitting [(.client,.lanConfirm)],
    (onRecv .lanOffered .lanVerify .relayConnected).guarded .challengeInvalid,
    (on .lanOffered .offerTimeout .relayBackoff).setting k.backOff,
    (on .lanActive .pingTick .lanActive).emitting [(.client,.pathPing)],
    (on .lanActive .pingTimeout .lanDegraded).setting fun v => { v with pingFailures := 1 },
    (on .lanDegraded .pingTick .lanDegraded).emitting [(.client,.pathPing)],
    (onRecv .lanDegraded .pathPong .lanActive).setting fun v => { v with pingFailures := 0 },
    ((on .lanDegraded .pingTimeout .lanDegraded).guarded .underMaxFailures).setting fun v => { v with
      pingFailures := v.pingFailures + 1 },
    ((on .lanDegraded .pingTimeout .relayBackoff).guarded .atMaxFailures).setting fun v => { k.backOff v with
      activePath := .relay, monitorTarget := .none, dispatcherPath := .relay, lanSignal := .pending,
      pingFailures := 0 },
    (on .relayBackoff .backoffExpired .lanOffered).emitting [(.client,.lanOffer)],
    ((on .relayBackoff .lanServerChanged .lanOffered).setting fun v => { v with backoffLevel := 0 }).emitting
      [(.client,.lanOffer)],
    ((on .relayConnected .readvertiseTick .lanOffered).guarded .lanServerAvailable).emitting [(.client,.lanOffer)]]

inductive Client
  | relayConnected | lanConnecting | lanVerifying | lanActive | relayFallback
deriving DecidableEq

/-- The transitions of `client`. -/
def clientRows : List (Row Client) :=
  [(onRecv .relayConnected .lanOffer .lanConnecting).guarded .lanEnabled,
    (onRecv .relayConnected .lanOffer .relayConnected).guarded .lanDisabled,
    (on .lanConnecting .lanDialOk .lanVerifying).emitting [(.backend,.lanVerify)],
    on .lanConnecting .lanDialFailed .relayConnected,
    (onRecv .lanVerifying .lanConfirm .lanActive).setting fun v => { v with
      activePath := .lan, dispatcherPath := .lan, lanSignal := .ready },
    (on .lanVerifying .verifyTimeout .relayConnected).setting fun v => { v with dispatcherPath := .relay },
    (onRecv .lanActive .pathPing .lanActive).emitting [(.backend,.pathPong)],
    (on .lanActive .lanError .relayFallback).setting fun v => { v with
      activePath := .relay, dispatcherPath := .relay, lanSignal := .pending },
    on .relayFallback .relayOk .relayConnected,
    (onRecv .lanActive .lanOffer .lanConnecting).guarded .lanEnabled]

inductive Relay
  | idle | backendRegistered | bridged
deriving DecidableEq

/-- The transitions of `relay`. -/
def relayRows : List (Row Relay) :=
  [on .idle .backendRegister .backendRegistered,
    (on .backendRegistered .clientConnect .bridged).setting fun v => { v with relayBridge := .active },
    (on .bridged .clientDisconnect .backendRegistered).setting fun v => { v with relayBridge := .idle },
    (onRecv .bridged .relayResume .bridged).emitting [(.client,.relayResumed)],
    on .backendRegistered .backendDisconnect .idle]

structure View where
  backend : Backend
  client : Client
  relay : Relay
  vars : Vars

structure State extends View where
  channels : Actor → Actor → List Message

def start : State := ⟨⟨.relayConnected,.relayConnected,.idle,⟨0,0,.relay,.relay,.none,.pending,.idle⟩⟩,fun _ _ => []⟩

/-- An actor takes an event or a message: the first row that fits, with what it sends. -/
def View.react (k : Constants) (v : View) (x : Input) : Actor → View × List (Actor × Message)
  | .backend => ((machine k (backendRows k)).taken ⟨v.backend,v.vars,[]⟩ x).elim (v,[])
      fun r => ({ v with backend := r.target, vars := r.updates v.vars },r.emits)
  | .client => ((machine k clientRows).taken ⟨v.client,v.vars,[]⟩ x).elim (v,[])
      fun r => ({ v with client := r.target, vars := r.updates v.vars },r.emits)
  | .relay => ((machine k relayRows).taken ⟨v.relay,v.vars,[]⟩ x).elim (v,[])
      fun r => ({ v with relay := r.target, vars := r.updates v.vars },r.emits)

def put (channels : Actor → Actor → List Message) (a b : Actor) (queue : List Message) : Actor → Actor → List Message :=
  Function.update channels a (Function.update (channels a) b queue)

def State.take (k : Constants) (s : State) (x : Input) (actor : Actor) : State :=
  ⟨(s.react k x actor).1,(s.react k x actor).2.foldl (fun channels (receiver,m) =>
    put channels actor receiver (channels actor receiver ++ [m])) s.channels⟩

inductive Move
  | event (actor : Actor) (e : Event)
  | deliver (sender receiver : Actor)

def step (k : Constants) (s : State) : Move → State × Unit
  | .event actor e => (s.take k (.event e) actor,())
  | .deliver sender receiver =>
    match s.channels sender receiver with
    | [] => (s,())
    | m :: rest => (State.take k { s with channels := put s.channels sender receiver rest } (.recv m) receiver,())

structure Kept (k : Constants) (v : View) : Prop where
  backoffBounded : v.vars.backoffLevel ≤ k.maxBackoffLevel
  backoffResetsOnSuccess : v.backend = .lanActive → v.vars.backoffLevel = 0
  monitorOnlyWhenLANActive : v.vars.monitorTarget = .lan → v.backend = .lanActive ∨ v.backend = .lanDegraded
  monitorOffOnFallback : v.backend = .relayBackoff → v.vars.monitorTarget = .none
  lanSignalReady : v.backend = .lanActive ∧ v.vars.lanSignal = .ready → v.vars.activePath = .lan

@[mk_iff] structure Agreed (v : View) : Prop where
  dispatcherMatchesActivePath : v.backend = .lanActive ∨ v.client = .lanActive → v.vars.dispatcherPath = .lan
  dispatcherRelayOnFallback : v.backend = .relayBackoff ∨ v.client = .relayFallback → v.vars.dispatcherPath = .relay
  lanSignalPendingOnFallback : v.backend = .relayBackoff → v.vars.lanSignal = .pending

/-- What the backend has to find when it turns to the path or away from it. -/
def View.BackendMay (v : View) : Backend → Backend → Prop
  | .lanOffered,.lanActive => v.client ≠ .relayFallback
  | .lanDegraded,.lanActive => v.vars.dispatcherPath = .lan
  | .lanOffered,.relayBackoff => v.vars.dispatcherPath = .relay ∧ v.vars.lanSignal = .pending
  | .lanDegraded,.relayBackoff => v.client ≠ .lanActive
  | _,_ => True

def View.ClientMay (v : View) : Client → Client → Prop
  | .lanVerifying,.lanActive => v.backend ≠ .relayBackoff
  | .lanVerifying,.relayConnected => v.backend ≠ .lanActive
  | .lanActive,.relayFallback => v.backend ≠ .lanActive
  | _,_ => True

def View.May (v w : View) : Prop := v.BackendMay v.backend w.backend ∧ v.ClientMay v.client w.client

variable {k : Constants} {v w : View}

/-- All that a move can do to the actors and the variables. -/
inductive Moves (k : Constants) (v : View) : View → Prop
  | stays : Moves k v v
  | backend (r : Row Backend) (among : r ∈ backendRows k) (origin : r.origin = v.backend) :
      Moves k v { v with backend := r.target, vars := r.updates v.vars }
  | client (r : Row Client) (among : r ∈ clientRows) (origin : r.origin = v.client) :
      Moves k v { v with client := r.target, vars := r.updates v.vars }
  | relay (r : Row Relay) (among : r ∈ relayRows) : Moves k v { v with relay := r.target, vars := r.updates v.vars }

theorem react_moves (k : Constants) (v : View) (x : Input) (actor : Actor) : Moves k v (v.react k x actor).1 := by
  cases actor with
  | backend =>
    rw [View.react]
    cases taken : (machine k (backendRows k)).taken ⟨v.backend,v.vars,[]⟩ x with
    | none => exact .stays
    | some r => exact .backend r (Table.taken_spec taken).1 (Table.taken_spec taken).2.1
  | client =>
    rw [View.react]
    cases taken : (machine k clientRows).taken ⟨v.client,v.vars,[]⟩ x with
    | none => exact .stays
    | some r => exact .client r (Table.taken_spec taken).1 (Table.taken_spec taken).2.1
  | relay =>
    rw [View.react]
    cases taken : (machine k relayRows).taken ⟨v.relay,v.vars,[]⟩ x with
    | none => exact .stays
    | some r => exact .relay r (Table.taken_spec taken).1

theorem step_moves (k : Constants) (s : State) (move : Move) : Moves k s.toView (step k s move).1.toView := by
  cases move with
  | event actor e => exact react_moves k s.toView (.event e) actor
  | deliver sender receiver =>
    rw [step]
    cases s.channels sender receiver with
    | nil => exact .stays
    | cons m rest => exact react_moves k s.toView (.recv m) receiver

def Backend.onLan : Backend → Bool
  | .lanActive => true
  | .lanDegraded => true
  | _ => false

/-- What every move keeps. -/
structure Standing (k : Constants) (v : View) : Prop where
  bounded : v.vars.backoffLevel ≤ k.maxBackoffLevel
  backoff : v.backend.onLan = true → v.vars.backoffLevel = 0
  monitor : v.vars.monitorTarget = if v.backend.onLan then .lan else .none
  signal : v.vars.lanSignal = .ready ↔ v.vars.activePath = .lan

theorem Standing.kept (standing : Standing k v) : Kept k v where
  backoffBounded := standing.bounded
  backoffResetsOnSuccess active := standing.backoff (by rw [active]; rfl)
  monitorOnlyWhenLANActive on := by
    have target := standing.monitor
    cases state : v.backend <;> simp_all [Backend.onLan]
  monitorOffOnFallback fallen := by
    rw [standing.monitor,fallen]
    rfl
  lanSignalReady both := standing.signal.mp both.2

theorem Moves.standing (moves : Moves k v w) (old : Standing k v) : Standing k w := by
  obtain ⟨b,c,relay,vars⟩ := v
  obtain ⟨bounded,backoff,monitor,signal⟩ := old
  have less := Nat.min_le_right (vars.backoffLevel + 1) k.maxBackoffLevel
  -- most rows touch none of these
  cases moves with
  | stays => exact ⟨bounded,backoff,monitor,signal⟩
  | backend r among origin =>
    simp only [backendRows,mem_cons,not_mem_nil,or_false] at among
    rcases among with rfl | rfl | rfl | rfl | rfl | rfl | rfl | rfl | rfl | rfl | rfl | rfl | rfl <;> cases origin <;>
      try exact ⟨bounded,backoff,monitor,signal⟩
    · exact ⟨Nat.zero_le _,fun _ => rfl,rfl,iff_of_true rfl rfl⟩
    · exact ⟨less,(fun off => nomatch off),monitor,signal⟩
    · exact ⟨less,(fun off => nomatch off),rfl,iff_of_false (fun ready => nomatch ready) (fun lan => nomatch lan)⟩
    · exact ⟨Nat.zero_le _,fun _ => rfl,monitor,signal⟩
  | client r among origin =>
    simp only [clientRows,mem_cons,not_mem_nil,or_false] at among
    rcases among with rfl | rfl | rfl | rfl | rfl | rfl | rfl | rfl | rfl | rfl <;>
      try exact ⟨bounded,backoff,monitor,signal⟩
    · exact ⟨bounded,backoff,monitor,iff_of_true rfl rfl⟩
    · exact ⟨bounded,backoff,monitor,iff_of_false (fun ready => nomatch ready) (fun lan => nomatch lan)⟩
  | relay r among =>
    simp only [relayRows,mem_cons,not_mem_nil,or_false] at among
    rcases among with rfl | rfl | rfl | rfl | rfl <;> exact ⟨bounded,backoff,monitor,signal⟩

/-- From a state in which the two agree, just the switches against the other end that. -/
theorem Moves.agreed_iff (moves : Moves k v w) (old : Agreed v) : Agreed w ↔ v.May w := by
  obtain ⟨b,c,relay,vars⟩ := v
  have backend : View.BackendMay ⟨b,c,relay,vars⟩ b b := by cases b <;> trivial
  have client : View.ClientMay ⟨b,c,relay,vars⟩ c c := by cases c <;> trivial
  obtain ⟨matched,fallen,pending⟩ := old
  cases moves with
  | stays => exact iff_of_true ⟨matched,fallen,pending⟩ ⟨backend,client⟩
  | backend r among origin =>
    simp only [backendRows,mem_cons,not_mem_nil,or_false] at among
    rw [PathSwitch.agreed_iff]
    rcases among with rfl | rfl | rfl | rfl | rfl | rfl | rfl | rfl | rfl | rfl | rfl | rfl | rfl <;> cases origin <;>
      simp_all [on,onRecv,Row.emitting,Row.guarded,Row.setting,View.May,View.BackendMay,Constants.backOff]
  | client r among origin =>
    simp only [clientRows,mem_cons,not_mem_nil,or_false] at among
    rw [PathSwitch.agreed_iff]
    rcases among with rfl | rfl | rfl | rfl | rfl | rfl | rfl | rfl | rfl | rfl <;> cases origin <;>
      simp_all [on,onRecv,Row.emitting,Row.guarded,Row.setting,View.May,View.ClientMay]
  | relay r among =>
    refine iff_of_true ?_ ⟨backend,client⟩
    simp only [relayRows,mem_cons,not_mem_nil,or_false] at among
    rcases among with rfl | rfl | rfl | rfl | rfl <;> exact ⟨matched,fallen,pending⟩

/-- The declared invariants. In every run those about the backoff and the monitor and `LANSignalReady` hold; the three
    others hold at every point just when no side turns to the path or away from it while the other stands against
    it. -/
theorem path_switch_invariants (k : Constants) (moves : List Move) : Kept k (final (step k) start moves).toView ∧
    ((∀ first last, moves = first ++ last → Agreed (final (step k) start first).toView) ↔
      Along (step k) (fun s move => s.toView.May (step k s move).1.toView) start moves) := by
  have standing : Standing k start.toView := ⟨Nat.zero_le _,fun off => (nomatch off),rfl,by decide⟩
  refine ⟨(final_kept (I := fun s => Standing k s.toView) (fun s move => (step_moves k s move).standing) standing
    moves).kept,?_⟩
  refine always_iff_along (I := fun s : State => Agreed s.toView) (fun _ agreed => agreed) ?_ ?_ ?_ moves
  · exact fun s move agreed may => ((step_moves k s move).agreed_iff agreed).mpr may
  · exact fun s move agreed against after => against (((step_moves k s move).agreed_iff agreed).mp after)
  · exact ⟨by decide,by decide,by decide⟩

def confirming : List Move :=
  [.event .backend .lanServerReady,.deliver .backend .client,.event .client .lanDialOk,.deliver .client .backend]

def errorAtClient : List Move := confirming ++ [.deliver .backend .client,.event .client .lanError]

def lateConfirmation : List Move :=
  confirming ++ replicate 3 (.event .backend .pingTimeout) ++ [.deliver .backend .client]

/-- In the first run the backend is on the path and the dispatcher is not; in the second the backend has fallen back,
    the dispatcher is on the path and the signal ready. -/
theorem sides_switch_apart : (final (step declared) start errorAtClient).backend = .lanActive ∧
    (final (step declared) start errorAtClient).vars.dispatcherPath = .relay ∧
    (final (step declared) start lateConfirmation).backend = .relayBackoff ∧
    (final (step declared) start lateConfirmation).vars.dispatcherPath = .lan ∧
    (final (step declared) start lateConfirmation).vars.lanSignal = .ready := by decide

end Pigeon.PathSwitch
