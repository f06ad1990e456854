import Pigeon.Runs
import Pigeon.TableMachines

/-!
The paths of a session (`protocol/session.yaml`): the tables of backend and client with the
commands they emit, run by the generated `HandleEvent`. Variables that tell the path, the
failed pings and the backoff are kept; rows of superstates stand last. The backend keeps to its
paths (`backend_paths`); the client does in the runs without new candidates on an active path
and fallbacks during a check (`client_paths_iff`).
-/
namespace Pigeon.SessionPaths
open Runs TableMachines

inductive Input
  | cliInitPair | tokenCreated | relayRegistered | recvPairHello | ecdhComplete | signalCodeDisplay | cliCodeEntered
  | checkCode | finalise | recvAuthRequest | verify | sessionEstablished | candidatesGathered | recvPairCheck
  | candidatesTimeout | pingTick | pingTimeout | altStreamError | recvPathPong | backoffExpired | candidatesChanged
  | candidatesRefreshTick | appForceFallback | disconnect | appSend | relayStreamData | relayStreamError
  | appSendDatagram | relayDatagram | altStreamData | altDatagram | backchannelReceived | secretParsed | relayConnected
  | keyPairGenerated | recvPairHelloAck | recvPairConfirm | codeDisplayed | recvPairComplete | appLaunch | recvAuthOk
  | recvCandidates | dialOk | dialFailed | recvPairCheckAck | verifyTimeout | recvPathPing | altError | relayOk
deriving DecidableEq

inductive Guard
  | tokenValid | tokenInvalid | codeCorrect | codeWrong | deviceKnown | deviceUnknown | challengeValid
  | challengeInvalid | localCandidatesAvailable | underMaxFailures | atMaxFailures | altEnabled | altDisabled
deriving DecidableEq

inductive Action
  | generateToken | registerRelay | deriveSecret | storeDevice | verifyDevice | activateLan | fallbackToRelay
  | resetFailures | sendPairHello | storeSecret | dialCandidate
deriving DecidableEq

inductive Command
  | sendCandidates | sendPairCheckAck | startAltStreamReader | startAltDgReader | startMonitor | signalAltReady
  | setCryptoDatagram | resetAltReady | startBackoffTimer | sendPathPing | startPongTimeout | cancelPongTimeout
  | stopMonitor | stopAltStreamReader | stopAltDgReader | closeAltPath | writeActiveStream | deliverRecv
  | deliverRecvError | sendActiveDatagram | deliverRecvDatagram | dialCandidate | sendPairCheck | sendPathPong
deriving DecidableEq

/-- What the path variables hold, `"relay"`, `"alt"` or `"none"`. -/
inductive Place
  | relay | alt | none
deriving DecidableEq

/-- The variables of an actor; those of the client start with `c_` where those of the backend start with `b_`, and it
    has no others of these. -/
structure Vars where
  (activePath dispatcherPath monitorTarget : Place)
  (pingFailures backoffLevel : Nat)

inductive Failures
  | zero | one | next
deriving DecidableEq

inductive Backoff
  | zero | next
deriving DecidableEq

structure Updates where
  (activePath dispatcherPath monitorTarget : Option Place)
  pingFailures : Option Failures
  backoffLevel : Option Backoff

def keep : Updates := ⟨none,none,none,none,none⟩

abbrev Row (S : Type) := TableMachines.Row S Input Guard Action Updates Command

/-- A row without a guard, an action, updates and commands. -/
def on {S : Type} (origin : S) (input : Input) (target : S) : Row S := ⟨origin,target,input,none,none,keep,[]⟩

def Failures.value (pings : Nat) : Failures → Nat
  | .zero => 0
  | .one => 1
  | .next => pings + 1

/-- `Min(backoff_level + 1, max_backoff_level)`, or zero. -/
def Backoff.value (cap level : Nat) : Backoff → Nat
  | .zero => 0
  | .next => min (level + 1) cap

def update (cap : Nat) (u : Updates) (v : Vars) : Vars :=
  ⟨u.activePath.getD v.activePath,u.dispatcherPath.getD v.dispatcherPath,u.monitorTarget.getD v.monitorTarget,
    (u.pingFailures.map (Failures.value v.pingFailures)).getD v.pingFailures,
    (u.backoffLevel.map (Backoff.value cap v.backoffLevel)).getD v.backoffLevel⟩

inductive Question
  | token | code | device | challenge | localCandidates | alt

structure Step where
  input : Input
  answer : Question → Bool
  succeeds : Bool

def holds (limit : Nat) (v : Vars) (x : Step) : Guard → Bool
  | .tokenValid => x.answer .token
  | .tokenInvalid => !x.answer .token
  | .codeCorrect => x.answer .code
  | .codeWrong => !x.answer .code
  | .deviceKnown => x.answer .device
  | .deviceUnknown => !x.answer .device
  | .challengeValid => x.answer .challenge
  | .challengeInvalid => !x.answer .challenge
  | .localCandidatesAvailable => x.answer .localCandidates
  | .underMaxFailures => v.pingFailures + 1 < limit
  | .atMaxFailures => limit ≤ v.pingFailures + 1
  | .altEnabled => x.answer .alt
  | .altDisabled => !x.answer .alt

/-- `HandleEvent` over a table, `limit` being `max_ping_failures` and `cap` the `max_backoff_level`. -/
def generated {S : Type} (limit cap : Nat) (rows : List (Row S)) :
    Table S Input Guard Action Updates Command Vars Step :=
  ⟨rows,Step.input,holds limit,fun x _ => x.succeeds,update cap⟩

def initialVars : Vars := ⟨.relay,.relay,.none,0,0⟩

def loops {S : Type} (leaves : List S) (reactions : List (Input × Command)) : List (Row S) :=
  reactions.flatMap fun (input,command) => leaves.map fun s => (on s input s).emitting [command]

def connectedLoops : List (Input × Command) :=
  [(.appSend,.writeActiveStream),(.relayStreamData,.deliverRecv),(.relayStreamError,.deliverRecvError),
    (.appSendDatagram,.sendActiveDatagram),(.relayDatagram,.deliverRecvDatagram)]

def altLoops : List (Input × Command) := [(.altStreamData,.deliverRecv),(.altDatagram,.deliverRecvDatagram)]

inductive Backend
  | idle | generateToken | registerRelay | waitingForClient | deriveSecret | sendAck | waitingForCode | validateCode
  | storePaired | paired | authCheck | sessionActive | relayConnected | candidatesAdvertised | altActive | altDegraded
  | relayBackoff
deriving DecidableEq

def activation : Updates := ⟨some .alt,some .alt,some .alt,some .zero,some .zero⟩

def fallback : Updates := ⟨some .relay,some .relay,some .none,some .zero,some .next⟩

def fallbackCommands : List Command :=
  [.stopMonitor,.stopAltStreamReader,.stopAltDgReader,.closeAltPath,.resetAltReady,.startBackoffTimer]

def forcedCommands : List Command :=
  [.stopMonitor,.cancelPongTimeout,.stopAltStreamReader,.stopAltDgReader,.closeAltPath,.resetAltReady,
    .startBackoffTimer]

def fallsBack (origin : Backend) (input : Input) (commands : List Command) : Row Backend :=
  (((on origin input .relayBackoff).doing .fallbackToRelay).setting fallback).emitting commands

/-- The transitions of `backend` in `session.yaml`. -/
def backendRows : List (Row Backend) :=
  [(on .idle .cliInitPair .generateToken).doing .generateToken,
    (on .generateToken .tokenCreated .registerRelay).doing .registerRelay,
    on .registerRelay .relayRegistered .waitingForClient,
    ((on .waitingForClient .recvPairHello .deriveSecret).guarded .tokenValid).doing .deriveSecret,
    (on .waitingForClient .recvPairHello .idle).guarded .tokenInvalid,
    on .deriveSecret .ecdhComplete .sendAck,
    on .sendAck .signalCodeDisplay .waitingForCode,
    on .waitingForCode .cliCodeEntered .validateCode,
    (on .validateCode .checkCode .storePaired).guarded .codeCorrect,
    (on .validateCode .checkCode .idle).guarded .codeWrong,
    (on .storePaired .finalise .paired).doing .storeDevice,
    on .paired .recvAuthRequest .authCheck,
    ((on .authCheck .verify .sessionActive).guarded .deviceKnown).doing .verifyDevice,
    (on .authCheck .verify .idle).guarded .deviceUnknown,
    on .sessionActive .sessionEstablished .relayConnected,
    (on .relayConnected .candidatesGathered .candidatesAdvertised).emitting [.sendCandidates],
    ((((on .candidatesAdvertised .recvPairCheck .altActive).guarded .challengeValid).doing
      .activateLan).setting activation).emitting [.sendPairCheckAck,.startAltStreamReader,.startAltDgReader,
        .startMonitor,.signalAltReady,.setCryptoDatagram],
    (on .candidatesAdvertised .recvPairCheck .relayConnected).guarded .challengeInvalid,
    ((on .candidatesAdvertised .candidatesTimeout .relayBackoff).setting
      { keep with backoffLevel := some .next }).emitting [.resetAltReady,.startBackoffTimer],
    (on .altActive .pingTick .altActive).emitting [.sendPathPing,.startPongTimeout],
    (on .altActive .pingTimeout .altDegraded).setting { keep with pingFailures := some .one },
    (on .altDegraded .pingTick .altDegraded).emitting [.sendPathPing,.startPongTimeout],
    fallsBack .altActive .altStreamError fallbackCommands,
    fallsBack .altDegraded .altStreamError fallbackCommands,
    (((on .altDegraded .recvPathPong .altActive).doing .resetFailures).setting
      { keep with pingFailures := some .zero }).emitting [.cancelPongTimeout],
    ((on .altDegraded .pingTimeout .altDegraded).guarded .underMaxFailures).setting
      { keep with pingFailures := some .next },
    (fallsBack .altDegraded .pingTimeout fallbackCommands).guarded .atMaxFailures,
    (on .relayBackoff .backoffExpired .candidatesAdvertised).emitting [.sendCandidates],
    ((on .relayBackoff .candidatesChanged .candidatesAdvertised).setting
      { keep with backoffLevel := some .zero }).emitting [.sendCandidates],
    ((on .relayConnected .candidatesRefreshTick .candidatesAdvertised).guarded
      .localCandidatesAvailable).emitting [.sendCandidates],
    (on .candidatesAdvertised .appForceFallback .relayConnected).emitting [.resetAltReady],
    fallsBack .altActive .appForceFallback forcedCommands,
    fallsBack .altDegraded .appForceFallback forcedCommands,
    on .relayConnected .disconnect .paired] ++
  loops [.relayConnected,.candidatesAdvertised,.altActive,.altDegraded,.relayBackoff] connectedLoops ++
  loops [.altActive,.altDegraded] altLoops

def backend (limit cap : Nat) : Table Backend Input Guard Action Updates Command Vars Step :=
  generated limit cap backendRows

def Backend.onAlt : Backend → Bool
  | .altActive => true
  | .altDegraded => true
  | _ => false

inductive Client
  | idle | obtainBackchannelSecret | connectRelay | genKeyPair | waitAck | e2eReady | showCode | waitPairComplete
  | paired | reconnect | sendAuth | sessionActive | relayConnected | pairDialing | pairChecking | altActive
  | relayFallback
deriving DecidableEq

def clientPaths (p : Place) : Updates := { keep with activePath := some p, dispatcherPath := some p }

def closeCommands : List Command := [.stopAltStreamReader,.stopAltDgReader,.closeAltPath]

def leavesAlt (input : Input) (target : Client) : Row Client :=
  (((on .altActive input target).doing .fallbackToRelay).setting (clientPaths .relay)).emitting
    (closeCommands ++ [.resetAltReady])

/-- The transitions of `client`. -/
def clientRows : List (Row Client) :=
  [on .idle .backchannelReceived .obtainBackchannelSecret,
    on .obtainBackchannelSecret .secretParsed .connectRelay,
    on .connectRelay .relayConnected .genKeyPair,
    (on .genKeyPair .keyPairGenerated .waitAck).doing .sendPairHello,
    (on .waitAck .recvPairHelloAck .e2eReady).doing .deriveSecret,
    on .e2eReady .recvPairConfirm .showCode,
    on .showCode .codeDisplayed .waitPairComplete,
    (on .waitPairComplete .recvPairComplete .paired).doing .storeSecret,
    on .paired .appLaunch .reconnect,
    on .reconnect .relayConnected .sendAuth,
    on .sendAuth .recvAuthOk .sessionActive,
    on .sessionActive .sessionEstablished .relayConnected,
    (((on .relayConnected .recvCandidates .pairDialing).guarded .altEnabled).doing .dialCandidate).emitting
      [.dialCandidate],
    (on .relayConnected .recvCandidates .relayConnected).guarded .altDisabled,
    (on .pairDialing .dialOk .pairChecking).emitting [.sendPairCheck],
    on .pairDialing .dialFailed .relayConnected,
    (((on .pairChecking .recvPairCheckAck .altActive).doing .activateLan).setting (clientPaths .alt)).emitting
      [.startAltStreamReader,.startAltDgReader,.signalAltReady,.setCryptoDatagram],
    (on .pairChecking .verifyTimeout .relayConnected).setting { keep with dispatcherPath := some .relay },
    (on .altActive .recvPathPing .altActive).emitting [.sendPathPong],
    leavesAlt .altError .relayFallback,
    leavesAlt .altStreamError .relayFallback,
    on .relayFallback .relayOk .relayConnected,
    -- The only row that leaves `AltActive` and sets no variable.
    (((on .altActive .recvCandidates .pairDialing).guarded .altEnabled).doing .dialCandidate).emitting
      (closeCommands ++ [.dialCandidate]),
    on .pairDialing .appForceFallback .relayConnected,
    ((on .pairChecking .appForceFallback .relayConnected).setting
      { keep with dispatcherPath := some .relay }).emitting closeCommands,
    leavesAlt .appForceFallback .relayConnected,
    on .relayConnected .disconnect .paired] ++
  loops [.relayConnected,.pairDialing,.pairChecking,.altActive,.relayFallback] connectedLoops ++
  loops [.altActive] altLoops

def client (limit cap : Nat) : Table Client Input Guard Action Updates Command Vars Step :=
  generated limit cap clientRows

inductive Resource
  | altStreamReader | altDgReader | monitor

def Resource.start : Resource → Command
  | .altStreamReader => .startAltStreamReader
  | .altDgReader => .startAltDgReader
  | .monitor => .startMonitor

def Resource.stop : Resource → Command
  | .altStreamReader => .stopAltStreamReader
  | .altDgReader => .stopAltDgReader
  | .monitor => .stopMonitor

/-- Whether a resource runs after a command; `none` after a stop of one that did not run, or if `alternate` a start of
    one that did. -/
def watch (alternate : Bool) (r : Resource) : Option Bool → Command → Option Bool
  | none, _ => none
  | some running, c =>
    if c = r.start then if running && alternate then none else some true
    else if c = r.stop then if running then some false else none
    else some running

def running (alternate : Bool) (r : Resource) (history : List Command) : Option Bool :=
  history.foldl (watch alternate r) (some false)

/-- An update of a path variable keeps it `"alt"` exactly on the alternative path. -/
def Tracks (u : Option Place) (before after : Bool) : Prop :=
  match u with
  | none => before = after
  | some p => p = .alt ↔ after = true

instance decidableTracks : ∀ u before after, Decidable (Tracks u before after)
  | none, before, after => inferInstanceAs (Decidable (before = after))
  | some p, _, after => inferInstanceAs (Decidable (p = .alt ↔ after = true))

theorem Tracks.getD {u before after p} (tracks : Tracks u before after)
    (was : p = .alt ↔ before) : u.getD p = .alt ↔ after := by
  cases u with
  | none =>
    rw [← show before = after from tracks]
    exact was
  | some new => exact tracks

section
variable {S : Type} (alternate : Bool) (resources : List Resource) (onAlt : S → Bool)

/-- The resources are running, and the path is the alternative one, exactly in the states of `onAlt`. -/
structure Follows (q : Status S Vars Command) : Prop where
  commands : ∀ resource ∈ resources, running alternate resource q.history = some (onAlt q.state)
  activePath : q.vars.activePath = .alt ↔ onAlt q.state = true
  dispatcherPath : q.vars.dispatcherPath = .alt ↔ onAlt q.state = true

abbrev Keeps (r : Row S) : Prop :=
  (∀ resource ∈ resources, r.emits.foldl (watch alternate resource) (some (onAlt r.origin)) = some (onAlt r.target)) ∧
    Tracks r.updates.activePath (onAlt r.origin) (onAlt r.target) ∧
    Tracks r.updates.dispatcherPath (onAlt r.origin) (onAlt r.target)

variable {alternate resources onAlt}

theorem Follows.after {limit cap rows q r}
    (old : Follows alternate resources onAlt q) (origin : r.origin = q.state) (keeps : Keeps alternate resources onAlt r) :
    Follows alternate resources onAlt ((generated limit cap rows).after q r) := by
  obtain ⟨commands,active,dispatcher⟩ := keeps
  rw [origin] at active dispatcher
  refine ⟨fun resource listed => ?_,active.getD old.activePath,dispatcher.getD old.dispatcherPath⟩
  have before := old.commands resource listed
  rw [running] at before
  rw [running,Table.after,List.foldl_append,before,← origin]
  exact commands resource listed

end

def backendResources : List Resource := [.altStreamReader,.altDgReader,.monitor]

theorem backend_rows : ∀ r ∈ backendRows, Keeps true backendResources Backend.onAlt r ∧
    Tracks r.updates.monitorTarget r.origin.onAlt r.target.onAlt ∧
    (r.target.onAlt → r.updates.backoffLevel = some .zero ∨ r.updates.backoffLevel = none ∧ r.origin.onAlt) := by decide

/-- A row with which a count of missed pings starts again: a pong, or a path that is started. -/
def resets (r : Row Backend) : Bool := r.input = .recvPathPong || r.emits.any (· = .startMonitor)

/-- The timeouts in a row once another row is taken. -/
def tally (r : Row Backend) (missed : Nat) : Nat :=
  if resets r then 0 else if r.input = .pingTimeout then missed + 1 else missed

theorem backend_failures : ∀ r ∈ backendRows, r.target.onAlt →
    resets r ∧ r.updates.pingFailures = some .zero ∧ r.target = .altActive ∨
    ¬ resets r ∧ r.input = .pingTimeout ∧ r.target = .altDegraded ∧ (r.updates.pingFailures = some .one ∧
      r.origin = .altActive ∨ r.updates.pingFailures = some .next ∧ r.guard = some .underMaxFailures ∧ r.origin.onAlt) ∨
    ¬ resets r ∧ r.input ≠ .pingTimeout ∧ r.target = r.origin ∧ r.updates.pingFailures = none := by decide

theorem backend_timeouts : ∀ r ∈ backendRows, r.input = .pingTimeout →
    r.origin = .altActive ∧ r.target = .altDegraded ∨ r.origin = .altDegraded ∧
      (r.target = .altDegraded ∧ r.guard = some .underMaxFailures ∨
        r.target = .relayBackoff ∧ r.guard = some .atMaxFailures) := by decide

theorem backend_has_timeouts : (∃ r ∈ backendRows, r.origin = .altActive ∧ r.input = .pingTimeout ∧ r.guard = none) ∧
    (∃ r ∈ backendRows, r.origin = .altDegraded ∧ r.input = .pingTimeout ∧ r.guard = some .underMaxFailures) ∧
    ∃ r ∈ backendRows, r.origin = .altDegraded ∧ r.input = .pingTimeout ∧ r.guard = some .atMaxFailures := by decide

/-- A step of the backend, next to the count of the timeouts in a row. -/
def counted (limit cap : Nat) (s : Status Backend Vars Command × Nat) (x : Step) :
    (Status Backend Vars Command × Nat) × Option (List Command) :=
  ((((backend limit cap).handle s.1 x).1,((backend limit cap).taken s.1 x).elim s.2 fun r => tally r s.2),
    ((backend limit cap).handle s.1 x).2)

def backendStart : Status Backend Vars Command × Nat := (⟨.idle,initialVars,[]⟩,0)

/-- What is running and which path is used agree with the state. -/
structure Places (q : Status Backend Vars Command) : Prop extends Follows true backendResources Backend.onAlt q where
  monitorTarget : q.vars.monitorTarget = .alt ↔ q.state.onAlt = true
  backoffLevel : q.state.onAlt = true → q.vars.backoffLevel = 0

/-- `ping_failures` is the count of the timeouts in a row, and under the limit. -/
structure Counts (limit : Nat) (s : Status Backend Vars Command × Nat) : Prop where
  failures : s.1.state.onAlt = true → s.1.vars.pingFailures = s.2
  fresh : s.1.state = .altActive → s.2 = 0
  below : s.1.state = .altDegraded → s.2 < limit

section
variable {limit cap : Nat} {q : Status Backend Vars Command} {n : Nat} {x : Step} {r : Row Backend}

theorem Places.after (old : Places q) (taken : (backend limit cap).taken q x = some r) :
    Places ((backend limit cap).after q r) := by
  obtain ⟨among,origin,_⟩ := Table.taken_spec taken
  obtain ⟨keeps,monitor,backoff⟩ := backend_rows r among
  refine ⟨old.toFollows.after origin keeps,(origin ▸ monitor).getD old.monitorTarget,fun onAlt => ?_⟩
  change (r.updates.backoffLevel.map (Backoff.value cap q.vars.backoffLevel)).getD q.vars.backoffLevel = 0
  rcases backoff onAlt with zero | ⟨kept,onAlt⟩
  · rw [zero]
    rfl
  · rw [kept]
    exact old.backoffLevel (origin ▸ onAlt)

theorem Counts.after (limited : 2 ≤ limit) (old : Counts limit (q,n)) (taken : (backend limit cap).taken q x = some r) :
    Counts limit ((backend limit cap).after q r,tally r n) := by
  obtain ⟨among,origin,_,guard,_⟩ := Table.taken_spec taken
  have fails : ((backend limit cap).after q r).vars.pingFailures =
      (r.updates.pingFailures.map (Failures.value q.vars.pingFailures)).getD q.vars.pingFailures := rfl
  have states : ((backend limit cap).after q r).state = r.target := rfl
  by_cases onAlt : r.target.onAlt = true
  · rcases backend_failures r among onAlt with ⟨reset,zero,active⟩ | ⟨counts,timeout,degraded,failed⟩ |
      ⟨counts,other,same,kept⟩
    · refine ⟨fun _ => ?_,fun _ => ?_,fun degraded => ?_⟩
      · simp [fails,zero,tally,reset,Failures.value]
      · simp [tally,reset]
      · cases active.symm.trans degraded
    · have more : tally r n = n + 1 := by simp [tally,counts,timeout]
      rcases failed with ⟨one,active⟩ | ⟨next,under,wasAlt⟩
      · obtain rfl : n = 0 := old.fresh (origin ▸ active)
        refine ⟨fun _ => by simp only [fails,one,more]; rfl,fun active => ?_,fun _ => by simp only; omega⟩
        cases degraded.symm.trans active
      · have failures : q.vars.pingFailures = n := old.failures (origin ▸ wasAlt)
        rw [under] at guard
        have room : q.vars.pingFailures + 1 < limit := by simpa [backend,generated,holds] using guard
        refine ⟨fun _ => by simp [fails,next,more,failures,Failures.value],fun active => ?_,
          fun _ => by simp only; omega⟩
        cases degraded.symm.trans active
    · have still : tally r n = n := by simp [tally,counts,other]
      have state : ((backend limit cap).after q r).state = q.state := by rw [states,same,origin]
      have failures : ((backend limit cap).after q r).vars.pingFailures = q.vars.pingFailures := by
        rw [fails,kept]
        rfl
      exact ⟨by simpa only [still,state,failures] using old.failures,by simpa only [still,state] using old.fresh,
        by simpa only [still,state] using old.below⟩
  · have elsewhere : ∀ state, r.target = state → state.onAlt = false := by
      rintro _ rfl
      simpa using onAlt
    exact ⟨fun onAlt' => absurd onAlt' onAlt,fun active => (nomatch elsewhere _ active),
      fun degraded => (nomatch elsewhere _ degraded)⟩

theorem counted_keeps (cap : Nat) (limited : 2 ≤ limit) (s : Status Backend Vars Command × Nat) (x : Step)
    (old : Places s.1 ∧ Counts limit s) :
    Places (counted limit cap s x).1.1 ∧ Counts limit (counted limit cap s x).1 := by
  unfold counted
  rcases (backend limit cap).handle_cases s.1 x with ⟨taken,same⟩ | ⟨r,taken,moved⟩
  · rw [taken,same]
    exact old
  · rw [taken,moved]
    exact ⟨old.1.after taken,old.2.after limited taken⟩

theorem Counts.fallback (limited : 2 ≤ limit) (counts : Counts limit (q,n))
    (taken : (backend limit cap).taken q x = some r) (timeout : r.input = .pingTimeout) :
    r.target = .relayBackoff ↔ n + 1 = limit := by
  obtain ⟨among,origin,_,guard,_⟩ := Table.taken_spec taken
  rcases backend_timeouts r among timeout with ⟨active,goes⟩ | ⟨degraded,row⟩
  · have fresh : n = 0 := counts.fresh (origin ▸ active)
    exact iff_of_false (by simp [goes]) (by omega)
  · have state := origin.symm.trans degraded
    have failures : q.vars.pingFailures = n := counts.failures (by rw [state]; rfl)
    have below : n < limit := counts.below state
    rcases row with ⟨goes,under⟩ | ⟨goes,atMax⟩
    · rw [under] at guard
      have room : q.vars.pingFailures + 1 < limit := by simpa [backend,generated,holds] using guard
      exact iff_of_false (by simp [goes]) (by omega)
    · rw [atMax] at guard
      have full : limit ≤ q.vars.pingFailures + 1 := by simpa [backend,generated,holds] using guard
      exact iff_of_true goes (by omega)

theorem exists_taken_of_timeout (onAlt : q.state.onAlt) (timeout : x.input = .pingTimeout)
    (succeeds : x.succeeds) : ∃ r, (backend limit cap).taken q x = some r := by
  have row : ∃ r ∈ backendRows, r.origin = q.state ∧ r.input = x.input ∧ r.guard.all (holds limit q.vars x) = true := by
    obtain ⟨⟨first,listed,active,on1,free⟩,⟨second,listed2,degraded2,on2,under⟩,⟨third,listed3,degraded3,on3,atMax⟩⟩ :=
      backend_has_timeouts
    rw [timeout]
    cases state : q.state with
    | altActive => exact ⟨first,listed,active,on1,by rw [free]; rfl⟩
    | altDegraded =>
      by_cases room : q.vars.pingFailures + 1 < limit
      · exact ⟨second,listed2,degraded2,on2,by simp [under,holds,room]⟩
      · exact ⟨third,listed3,degraded3,on3,by simp [atMax,holds]; omega⟩
    | _ => simp [state,Backend.onAlt] at onAlt
  obtain ⟨r,among,origin,input,guard⟩ := row
  refine Table.exists_taken among (by simp [Table.fits,backend,generated,origin,input,guard]) fun other _ _ => ?_
  cases other.action with
  | none => rfl
  | some action => exact succeeds

end

/-- The starts and stops of each reader and the monitor alternate; they run, and the variables are `"alt"`, exactly in
    `AltActive` and `AltDegraded`, where `backoff_level` is zero and every timeout is handled unless its action fails;
    it leads to the relay exactly when `max_ping_failures` came in a row. -/
theorem backend_paths (limit cap : Nat) (limited : 2 ≤ limit) (steps : List Step) :
    Places (final (counted limit cap) backendStart steps).1 ∧
    ∀ x : Step, x.input = .pingTimeout →
      ((final (counted limit cap) backendStart steps).1.state.onAlt = true → x.succeeds = true →
        ∃ r, (backend limit cap).taken (final (counted limit cap) backendStart steps).1 x = some r) ∧
      ∀ r, (backend limit cap).taken (final (counted limit cap) backendStart steps).1 x = some r →
        (r.target = .relayBackoff ↔ (final (counted limit cap) backendStart steps).2 + 1 = limit) := by
  have start : Places backendStart.1 ∧ Counts limit backendStart :=
    ⟨⟨⟨by decide,by decide,by decide⟩,by decide,by decide⟩,⟨fun _ => rfl,fun _ => rfl,by rintro ⟨⟩⟩⟩
  have reached := final_kept (counted_keeps cap limited) start steps
  refine ⟨reached.1,fun x timeout => ⟨fun onAlt => exists_taken_of_timeout onAlt timeout,fun r taken => ?_⟩⟩
  exact reached.2.fallback limited taken ((Table.taken_spec taken).2.2.1.trans timeout)

/-- An input that every guard finds well and whose action succeeds. -/
def agreeing (input : Input) : Step := ⟨input,fun _ => true,true⟩

def toAltActive : List Input :=
  [.cliInitPair,.tokenCreated,.relayRegistered,.recvPairHello,.ecdhComplete,.signalCodeDisplay,.cliCodeEntered,
    .checkCode,.finalise,.recvAuthRequest,.verify,.sessionEstablished,.candidatesGathered,.recvPairCheck]

set_option maxRecDepth 4000 in
theorem third_timeout_falls_back :
    let s := final (counted 3 5) backendStart (List.map agreeing (toAltActive ++ [.pingTick,.pingTimeout,.pingTimeout]))
    ∃ r, (backend 3 5).taken s.1 (agreeing .pingTimeout) = some r ∧ r.target = .relayBackoff := by
  have timeout := (backend_paths 3 5 (by decide) (List.map agreeing (toAltActive ++
    [.pingTick,.pingTimeout,.pingTimeout]))).2 (agreeing .pingTimeout) rfl
  obtain ⟨r,taken⟩ := timeout.1 (by decide) rfl
  exact ⟨r,taken,(timeout.2 r taken).mpr (by decide)⟩

def Client.onAlt (s : Client) : Bool := s = .altActive

def clientResources : List Resource := [.altStreamReader,.altDgReader]

/-- The two rows that do not keep to the paths: new candidates on the alternative path, and a fallback while a path is
    checked. -/
def strays (state : Client) (input : Input) : Bool :=
  state = .altActive && input = .recvCandidates || state = .pairChecking && input = .appForceFallback

theorem client_rows : ∀ r ∈ clientRows, strays r.origin r.input = false → Keeps false clientResources Client.onAlt r := by decide

theorem client_strays : ∀ r ∈ clientRows, strays r.origin r.input →
    r.origin = .altActive ∧ r.target = .pairDialing ∧ r.updates.activePath = none ∨
    r.origin = .pairChecking ∧ r.emits.foldl (watch false .altStreamReader) (some false) = none := by decide

/-- Every stop of a reader follows a start with no stop in between, and the path variables are `"alt"` exactly in
    `AltActive`. -/
structure KeepsPaths (q : Status Client Vars Command) : Prop where
  stops : ∀ reader ∈ clientResources, (running false reader q.history).isSome = true
  activePath : q.vars.activePath = .alt ↔ q.state = .altActive
  dispatcherPath : q.vars.dispatcherPath = .alt ↔ q.state = .altActive

def Stays (limit cap : Nat) (q : Status Client Vars Command) (x : Step) : Prop :=
  ∀ r, (client limit cap).taken q x = some r → strays r.origin r.input = false

def clientStart : Status Client Vars Command := ⟨.idle,initialVars,[]⟩

section
variable {limit cap : Nat} {q : Status Client Vars Command} {x : Step} {r : Row Client}

theorem Follows.keepsPaths (follows : Follows false clientResources Client.onAlt q) : KeepsPaths q where
  stops reader listed := by rw [follows.commands reader listed]; rfl
  activePath := by simpa [Client.onAlt] using follows.activePath
  dispatcherPath := by simpa [Client.onAlt] using follows.dispatcherPath

theorem Follows.not_keepsPaths (old : Follows false clientResources Client.onAlt q)
    (taken : (client limit cap).taken q x = some r) (stray : strays r.origin r.input) :
    ¬ KeepsPaths ((client limit cap).after q r) := by
  intro keeps
  obtain ⟨among,origin,_⟩ := Table.taken_spec taken
  rcases client_strays r among stray with ⟨active,dialing,kept⟩ | ⟨checking,stops⟩
  · have still : ((client limit cap).after q r).vars.activePath = .alt := by
      change r.updates.activePath.getD q.vars.activePath = .alt
      rw [kept]
      exact old.activePath.mpr (by rw [← origin,active]; rfl)
    cases dialing.symm.trans (keeps.activePath.mp still)
  · have before := old.commands .altStreamReader (by simp [clientResources])
    have after := keeps.stops .altStreamReader (by simp [clientResources])
    rw [← origin,checking,running] at before
    rw [running,Table.after,List.foldl_append,before,show some (Client.onAlt .pairChecking) = some false from rfl,
      stops] at after
    cases after

end

/-- Stops follow starts and the path variables are `"alt"` exactly in `AltActive`, just when the run takes neither of
    the two rows that stray. -/
theorem client_paths_iff (limit cap : Nat) (steps : List Step) :
    (∀ first last, steps = first ++ last → KeepsPaths (final (client limit cap).handle clientStart first)) ↔
      Along (client limit cap).handle (Stays limit cap) clientStart steps := by
  refine always_iff_along (I := Follows false clientResources Client.onAlt) (fun q follows => follows.keepsPaths) ?_ ?_
    ⟨by decide,by decide,by decide⟩ steps
  · intro q x old stays
    rcases (client limit cap).handle_cases q x with ⟨_,same⟩ | ⟨r,taken,moved⟩
    · rw [same]
      exact old
    · obtain ⟨among,origin,_⟩ := Table.taken_spec taken
      rw [moved]
      exact old.after origin (client_rows r among (stays r taken))
  · intro q x old leaves
    unfold Stays at leaves
    push Not at leaves
    obtain ⟨r,taken,stray⟩ := leaves
    rw [Table.handle_taken taken]
    exact old.not_keepsPaths taken (by simpa using stray)

def dialling : List Input :=
  [.backchannelReceived,.secretParsed,.relayConnected,.keyPairGenerated,.recvPairHelloAck,.recvPairConfirm,
    .codeDisplayed,.recvPairComplete,.appLaunch,.relayConnected,.recvAuthOk,.sessionEstablished,.recvCandidates,.dialOk]

set_option maxRecDepth 4000 in
/-- New candidates close the path and leave it active; a fallback during a check stops readers that never started. -/
theorem closed_path_stays_active :
    (let q := final (client 3 5).handle clientStart
      (List.map agreeing (dialling ++ [.recvPairCheckAck,.recvCandidates,.dialFailed,.appSend]))
    q.state = .relayConnected ∧ q.vars.activePath = .alt ∧
      q.history.drop 6 = closeCommands ++ [.dialCandidate,.writeActiveStream]) ∧
    (let q := final (client 3 5).handle clientStart (List.map agreeing (dialling ++ [.appForceFallback]))
    q.history = [.dialCandidate,.sendPairCheck] ++ closeCommands ∧
      running false .altStreamReader q.history = none) := by decide

end Pigeon.SessionPaths
