import Pigeon.Pairing

/-!
The pairing ceremony as `pairing.yaml` defines it, with a queue of messages each way and an
adversary that may rewrite the hello, welcome or reveal at the head of one. `holds_final`
carries one invariant along every run, from which five of the declared ones follow; the sixth
is about the users, and `agreed_final` gives it for runs in which the second one compares the
codes.
-/
namespace Pigeon.PairingProtocol
open Runs List
open Pairing (Event MsgType AcceptorState InitiatorState)

inductive EphPub
  | none | acceptorEph | initiatorEph | advEph
deriving DecidableEq

inductive Commit
  | none | initiatorCommit | advCommit | acceptorCommit | unknownCommit
deriving DecidableEq

inductive IdentityPub
  | none | acceptorId | initiatorId
deriving DecidableEq

inductive InstanceId
  | none | acceptorInstance | initiatorInstance
deriving DecidableEq

inductive Blind
  | initiatorBlind | advBlind
deriving DecidableEq

inductive Code
  | none
  | code (a b : EphPub)
deriving DecidableEq

def keyRank : EphPub → Nat
  | .advEph => 0
  | .initiatorEph => 1
  | .acceptorEph => 2
  | .none => 3

/-- `DeriveCode` of the description. -/
def deriveCode (a b : EphPub) : Code := if keyRank a ≤ keyRank b then .code a b else .code b a

def commitOf : EphPub → Commit
  | .initiatorEph => .initiatorCommit
  | .advEph => .advCommit
  | .acceptorEph => .acceptorCommit
  | .none => .unknownCommit

def CommitMatches (commit : Commit) (eph : EphPub) : Prop := commit = commitOf eph
deriving Decidable

inductive ToAcceptor
  | hello (commit : Commit) (identityPub : IdentityPub) (instanceId : InstanceId)
  | reveal (ephPub : EphPub) (blind : Blind)
  | confirmToAcceptor
deriving DecidableEq

inductive ToInitiator
  | welcome (ephPub : EphPub) (identityPub : IdentityPub) (instanceId : InstanceId)
  | confirmToInitiator
deriving DecidableEq

structure Acceptor where
  state : AcceptorState := .idle
  ephPub : EphPub := .none
  receivedCommit : Commit := .none
  receivedEphPub : EphPub := .none
  receivedIdentity : IdentityPub := .none
  receivedInstance : InstanceId := .none
  commitOk : Bool := false
  code : Code := .none
  userConfirmed : Bool := false
  receivedConfirm : Bool := false

def Acceptor.step (a : Acceptor) (event : Event) : Option (Acceptor × List ToInitiator) :=
  match a.state, event with
  | .idle, .pairBegin => some ({ a with state := .generatingEphemeral, ephPub := .acceptorEph },[])
  | .generatingEphemeral, .ephemeralReady => some ({ a with state := .registeringRelay },[])
  | .registeringRelay, .relayRegistered => some ({ a with state := .waitingForHello },[])
  | .derivingCode, .codeReady => some ({ a with state := .awaitingUserConfirm },[])
  | .awaitingUserConfirm, .userConfirm =>
    some ({ a with state := .awaitingPeerConfirm, userConfirmed := true },[.confirmToInitiator])
  | .awaitingUserConfirm, .userCancel => some ({ a with state := .aborted },[])
  | .awaitingPeerConfirm, .userCancel => some ({ a with state := .aborted },[])
  | .waitingForReveal, .commitFail => some ({ a with state := .aborted },[])
  | _, _ => none

def Acceptor.recv (a : Acceptor) (msg : ToAcceptor) : Option (Acceptor × List ToInitiator) :=
  match a.state, msg with
  | .waitingForHello, .hello commit identityPub instanceId =>
    some ({ a with
      state := .waitingForReveal
      receivedCommit := commit
      receivedIdentity := identityPub
      receivedInstance := instanceId },[.welcome a.ephPub .acceptorId .acceptorInstance])
  | .waitingForReveal, .reveal ephPub _ =>
    some ({ a with
      state := .derivingCode
      receivedEphPub := ephPub
      commitOk := decide (CommitMatches a.receivedCommit ephPub)
      code := if CommitMatches a.receivedCommit ephPub then deriveCode a.ephPub ephPub else .none },[])
  | .awaitingPeerConfirm, .confirmToAcceptor => some ({ a with state := .paired, receivedConfirm := true },[])
  | _, _ => none

structure Initiator where
  state : InitiatorState := .idle
  ephPub : EphPub := .none
  commit : Commit := .none
  receivedAcceptorEphPub : EphPub := .none
  receivedAcceptorIdentity : IdentityPub := .none
  receivedAcceptorInstance : InstanceId := .none
  receivedEphPub : EphPub := .none
  receivedIdentity : IdentityPub := .none
  receivedInstance : InstanceId := .none
  code : Code := .none
  userConfirmed : Bool := false
  receivedConfirm : Bool := false

def Initiator.step (i : Initiator) (event : Event) : Option (Initiator × List ToAcceptor) :=
  match i.state, event with
  | .idle, .tokenReceived =>
    some ({ i with
      state := .decodingToken
      receivedAcceptorEphPub := .acceptorEph
      receivedAcceptorIdentity := .acceptorId
      receivedAcceptorInstance := .acceptorInstance },[])
  | .decodingToken, .tokenDecoded =>
    some ({ i with state := .generatingEphemeral, ephPub := .initiatorEph, commit := .initiatorCommit },[])
  | .generatingEphemeral, .ephemeralReady => some ({ i with state := .connectingRelay },[])
  | .connectingRelay, .relayConnected =>
    some ({ i with state := .awaitingWelcome },[.hello i.commit .initiatorId .initiatorInstance])
  | .revealing, .revealSent =>
    some ({ i with state := .derivingCode, code := deriveCode i.ephPub i.receivedEphPub },[])
  | .derivingCode, .codeReady => some ({ i with state := .awaitingUserConfirm },[])
  | .awaitingUserConfirm, .userConfirm =>
    some ({ i with state := .awaitingPeerConfirm, userConfirmed := true },[.confirmToAcceptor])
  | .awaitingUserConfirm, .userCancel => some ({ i with state := .aborted },[])
  | .awaitingPeerConfirm, .userCancel => some ({ i with state := .aborted },[])
  | _, _ => none

def Initiator.recv (i : Initiator) (msg : ToInitiator) : Option (Initiator × List ToAcceptor) :=
  match i.state, msg with
  | .awaitingWelcome, .welcome ephPub identityPub instanceId =>
    some ({ i with
      state := .revealing
      receivedEphPub := ephPub
      receivedIdentity := identityPub
      receivedInstance := instanceId },[.reveal i.ephPub .initiatorBlind])
  | .awaitingPeerConfirm, .confirmToInitiator => some ({ i with state := .paired, receivedConfirm := true },[])
  | _, _ => none

structure State where
  acceptor : Acceptor := {}
  initiator : Initiator := {}
  toAcceptor : List ToAcceptor := []
  toInitiator : List ToInitiator := []
  adversaryKeys : List EphPub := []
  advSavedAcceptorEph : EphPub := .none
  advSavedInitiatorEph : EphPub := .none
  advSavedInitiatorCommit : Commit := .none

def start : State := {}

inductive Action
  | acceptor (event : Event)
  | acceptorRecv
  | initiator (event : Event)
  | initiatorRecv
  | mitmHello
  | mitmWelcome
  | mitmReveal
deriving DecidableEq

/-- An actor takes one of its events or the message at the head of its queue, or the adversary rewrites that. -/
def step (s : State) : Action → State × Bool
  | .acceptor event =>
    match s.acceptor.step event with
    | some (a,sent) => ({ s with acceptor := a, toInitiator := s.toInitiator ++ sent },true)
    | none => (s,false)
  | .acceptorRecv =>
    match s.toAcceptor with
    | msg :: rest =>
      match s.acceptor.recv msg with
      | some (a,sent) =>
        ({ s with acceptor := a, toAcceptor := rest, toInitiator := s.toInitiator ++ sent },true)
      | none => (s,false)
    | [] => (s,false)
  | .initiator event =>
    match s.initiator.step event with
    | some (i,sent) => ({ s with initiator := i, toAcceptor := s.toAcceptor ++ sent },true)
    | none => (s,false)
  | .initiatorRecv =>
    match s.toInitiator with
    | msg :: rest =>
      match s.initiator.recv msg with
      | some (i,sent) =>
        ({ s with initiator := i, toInitiator := rest, toAcceptor := s.toAcceptor ++ sent },true)
      | none => (s,false)
    | [] => (s,false)
  | .mitmHello =>
    match s.toAcceptor with
    | .hello commit identityPub instanceId :: rest =>
      ({ s with
        advSavedInitiatorCommit := commit
        adversaryKeys := s.adversaryKeys.insert .advEph
        toAcceptor := .hello .advCommit identityPub instanceId :: rest },true)
    | _ => (s,false)
  | .mitmWelcome =>
    match s.toInitiator with
    | .welcome ephPub identityPub instanceId :: rest =>
      ({ s with
        advSavedAcceptorEph := ephPub
        adversaryKeys := s.adversaryKeys.insert .advEph
        toInitiator := .welcome .advEph identityPub instanceId :: rest },true)
    | _ => (s,false)
  | .mitmReveal =>
    match s.toAcceptor with
    | .reveal ephPub _ :: rest =>
      ({ s with
        advSavedInitiatorEph := ephPub
        adversaryKeys := s.adversaryKeys.insert .advEph
        toAcceptor := .reveal .advEph .advBlind :: rest },true)
    | _ => (s,false)

def MitMDetectedByCodeMismatch (s : State) : Prop :=
  .advEph ∈ s.adversaryKeys ∧ s.acceptor.code ≠ .none ∧ s.initiator.code ≠ .none →
    s.acceptor.code ≠ s.initiator.code

def MitMPreventsPairing (s : State) : Prop :=
  .advEph ∈ s.adversaryKeys ∧ s.acceptor.code ≠ s.initiator.code →
    s.acceptor.state ≠ .paired ∨ s.initiator.state ≠ .paired
deriving Decidable

def HonestPairingMatchesCodes (s : State) : Prop :=
  s.adversaryKeys = [] ∧ s.acceptor.code ≠ .none ∧ s.initiator.code ≠ .none → s.acceptor.code = s.initiator.code

def ValidPairingRecord (peerInstanceId : InstanceId) (peerEphPub : EphPub) : Prop :=
  peerInstanceId ≠ .none ∧ peerEphPub ≠ .none

def PairingProducesValidRecord (s : State) : Prop :=
  (s.acceptor.state = .paired → ValidPairingRecord s.acceptor.receivedInstance s.acceptor.receivedEphPub) ∧
    (s.initiator.state = .paired → ValidPairingRecord s.initiator.receivedInstance s.initiator.receivedEphPub)

def CodeRequiresCommit (s : State) : Prop := s.acceptor.code ≠ .none → s.acceptor.commitOk = true

def RevealBoundByCommit (s : State) : Prop :=
  s.acceptor.receivedEphPub ≠ .none ∧ s.acceptor.commitOk = true →
    CommitMatches s.acceptor.receivedCommit s.acceptor.receivedEphPub

def Acceptor.heard (a : Acceptor) : Bool :=
  match a.state with
  | .idle | .generatingEphemeral | .registeringRelay | .waitingForHello => false
  | _ => true

def Initiator.greeted (i : Initiator) : Bool :=
  match i.state with
  | .idle | .decodingToken | .generatingEphemeral | .connectingRelay => false
  | _ => true

def Initiator.welcomed (i : Initiator) : Bool :=
  match i.state with
  | .idle | .decodingToken | .generatingEphemeral | .connectingRelay | .awaitingWelcome => false
  | _ => true

def Acceptor.shown (a : Acceptor) : Bool := decide (a.receivedEphPub ≠ .none)

def ToAcceptor.Known : ToAcceptor → Prop
  | .hello _ _ instanceId => instanceId = .initiatorInstance
  | .reveal ephPub _ => ephPub = .initiatorEph ∨ ephPub = .advEph
  | .confirmToAcceptor => True

def ToInitiator.Known : ToInitiator → Prop
  | .welcome ephPub _ instanceId => (ephPub = .acceptorEph ∨ ephPub = .advEph) ∧ instanceId = .acceptorInstance
  | .confirmToInitiator => True

structure Acceptor.Ok (a : Acceptor) : Prop where
  key : a.state = .idle ∨ a.ephPub = .acceptorEph
  unheard : a.heard = false → a.receivedCommit = .none
  instanceId : a.heard = true → a.receivedInstance = .initiatorInstance
  unshown : a.heard = false ∨ a.state = .waitingForReveal →
    a.receivedEphPub = .none ∧ a.commitOk = false ∧ a.code = .none ∧ a.userConfirmed = false
  shown : a.heard = true → a.state ≠ .waitingForReveal → a.state ≠ .aborted → a.receivedEphPub ≠ .none
  seen : a.receivedEphPub = .none ∨ a.receivedEphPub = .initiatorEph ∨ a.receivedEphPub = .advEph
  checked : a.commitOk = true → CommitMatches a.receivedCommit a.receivedEphPub
  coded : a.code = .none ∨
    (a.commitOk = true ∧ a.receivedEphPub ≠ .none ∧ a.code = deriveCode .acceptorEph a.receivedEphPub)
  confirmed : a.state = .awaitingPeerConfirm ∨ a.state = .paired → a.userConfirmed = true

structure Initiator.Ok (i : Initiator) : Prop where
  key : i.state = .idle ∨ i.state = .decodingToken ∨ (i.ephPub = .initiatorEph ∧ i.commit = .initiatorCommit)
  unwelcomed : i.welcomed = false → i.receivedEphPub = .none
  welcome : i.welcomed = true →
    (i.receivedEphPub = .acceptorEph ∨ i.receivedEphPub = .advEph) ∧ i.receivedInstance = .acceptorInstance
  uncoded : i.welcomed = false ∨ i.state = .revealing → i.code = .none ∧ i.userConfirmed = false
  coded : i.code = .none ∨ i.code = deriveCode .initiatorEph i.receivedEphPub
  confirmed : i.state = .awaitingPeerConfirm ∨ i.state = .paired → i.userConfirmed = true

def ToAcceptor.isHello : ToAcceptor → Bool
  | .hello .. => true
  | _ => false

def ToAcceptor.isReveal : ToAcceptor → Bool
  | .reveal .. => true
  | _ => false

def ToInitiator.isWelcome : ToInitiator → Bool
  | .welcome .. => true
  | _ => false

def ToAcceptor.tampered : ToAcceptor → Bool
  | .hello commit _ _ => decide (commit = .advCommit)
  | .reveal ephPub _ => decide (ephPub = .advEph)
  | .confirmToAcceptor => false

def ToInitiator.tampered : ToInitiator → Bool
  | .welcome ephPub _ _ => decide (ephPub = .advEph)
  | .confirmToInitiator => false

def Acceptor.tampered (a : Acceptor) : Bool :=
  decide (a.receivedCommit = .advCommit) || decide (a.receivedEphPub = .advEph)

def Initiator.tampered (i : Initiator) : Bool := decide (i.receivedEphPub = .advEph)

def State.traced (s : State) : Bool :=
  s.toAcceptor.any ToAcceptor.tampered || s.toInitiator.any ToInitiator.tampered ||
    s.acceptor.tampered || s.initiator.tampered

structure Acceptor.Turn (a : Acceptor) (read : List ToAcceptor) (pressed : Bool) (a' : Acceptor)
    (sent : List ToInitiator) : Prop where
  ok : a'.Ok
  hellos : a'.heard.toNat = a.heard.toNat + read.countP ToAcceptor.isHello
  reveals : a'.shown.toNat = a.shown.toNat + read.countP ToAcceptor.isReveal
  welcomes : sent.countP ToInitiator.isWelcome = read.countP ToAcceptor.isHello
  marks : a'.tampered = (a.tampered || read.any ToAcceptor.tampered)
  known : ∀ msg ∈ sent, msg.Known
  clean : sent.any ToInitiator.tampered = false
  confirmed : a'.userConfirmed = (a.userConfirmed || pressed)
  settled : a'.userConfirmed = true → a'.code = a.code

structure Initiator.Turn (i : Initiator) (read : List ToInitiator) (pressed : Bool) (i' : Initiator)
    (sent : List ToAcceptor) : Prop where
  ok : i'.Ok
  hellos : i'.greeted.toNat = i.greeted.toNat + sent.countP ToAcceptor.isHello
  reveals : sent.countP ToAcceptor.isReveal = read.countP ToInitiator.isWelcome
  welcomes : i'.welcomed.toNat = i.welcomed.toNat + read.countP ToInitiator.isWelcome
  marks : i'.tampered = (i.tampered || read.any ToInitiator.tampered)
  known : ∀ msg ∈ sent, msg.Known
  clean : sent.any ToAcceptor.tampered = false
  confirmed : i'.userConfirmed = (i.userConfirmed || pressed)
  settled : i'.userConfirmed = true → i'.code = i.code

theorem Acceptor.turn_step {a a' : Acceptor} {event : Event} {sent : List ToInitiator} (ok : a.Ok)
    (moved : a.step event = some (a',sent)) : a.Turn [] (decide (event = .userConfirm)) a' sent := by
  have ⟨key,unheard,instanceId,unshown,shown,seen,checked,coded,confirmed⟩ := ok
  unfold Acceptor.step at moved
  split at moved <;> try contradiction
  all_goals
    rename_i state
    obtain ⟨rfl,rfl⟩ : _ ∧ _ := by simpa using moved
    simp only [Acceptor.heard,state] at unheard instanceId unshown shown
    constructor
    · constructor <;> simp_all [Acceptor.heard]
    all_goals simp_all [Acceptor.heard,Acceptor.shown,Acceptor.tampered,ToInitiator.isWelcome,
      ToInitiator.tampered,ToInitiator.Known]

theorem Acceptor.turn_recv {a a' : Acceptor} {msg : ToAcceptor} {sent : List ToInitiator} (ok : a.Ok)
    (known : msg.Known) (moved : a.recv msg = some (a',sent)) : a.Turn [msg] false a' sent := by
  have ⟨key,unheard,instanceId,unshown,shown,seen,checked,coded,confirmed⟩ := ok
  unfold Acceptor.recv at moved
  split at moved <;> try contradiction
  all_goals
    rename_i state
    obtain ⟨rfl,rfl⟩ : _ ∧ _ := by simpa using moved
    simp only [Acceptor.heard,state] at unheard instanceId unshown shown
  case h_2 ephPub _ =>
    have present : ephPub ≠ .none := by rintro rfl; simp [ToAcceptor.Known] at known
    constructor
    · constructor <;> simp_all [Acceptor.heard,ToAcceptor.Known]
      by_cases opened : CommitMatches a.receivedCommit ephPub <;> simp [opened]
    all_goals simp_all [Acceptor.heard,Acceptor.shown,Acceptor.tampered,ToAcceptor.isHello,ToAcceptor.isReveal,
      ToAcceptor.tampered,ToInitiator.Known]
  all_goals
    constructor
    · constructor <;> simp_all [Acceptor.heard,ToAcceptor.Known]
    all_goals simp_all [Acceptor.heard,Acceptor.shown,Acceptor.tampered,ToAcceptor.isHello,ToAcceptor.isReveal,
      ToAcceptor.tampered,ToInitiator.isWelcome,ToInitiator.tampered,ToInitiator.Known]

theorem Initiator.turn_step {i i' : Initiator} {event : Event} {sent : List ToAcceptor} (ok : i.Ok)
    (moved : i.step event = some (i',sent)) : i.Turn [] (decide (event = .userConfirm)) i' sent := by
  have ⟨key,unwelcomed,welcome,uncoded,coded,confirmed⟩ := ok
  unfold Initiator.step at moved
  split at moved <;> try contradiction
  all_goals
    rename_i state
    obtain ⟨rfl,rfl⟩ : _ ∧ _ := by simpa using moved
    simp only [Initiator.welcomed,state] at unwelcomed welcome uncoded
    constructor
    · constructor <;> simp_all [Initiator.welcomed]
    all_goals simp_all [Initiator.greeted,Initiator.welcomed,Initiator.tampered,ToAcceptor.isHello,
      ToAcceptor.isReveal,ToAcceptor.tampered,ToAcceptor.Known]

theorem Initiator.turn_recv {i i' : Initiator} {msg : ToInitiator} {sent : List ToAcceptor} (ok : i.Ok)
    (known : msg.Known) (moved : i.recv msg = some (i',sent)) : i.Turn [msg] false i' sent := by
  have ⟨key,unwelcomed,welcome,uncoded,coded,confirmed⟩ := ok
  unfold Initiator.recv at moved
  split at moved <;> try contradiction
  all_goals
    rename_i state
    obtain ⟨rfl,rfl⟩ : _ ∧ _ := by simpa using moved
    simp only [Initiator.welcomed,state] at unwelcomed welcome uncoded
    constructor
    · constructor <;> simp_all [Initiator.welcomed,ToInitiator.Known]
    all_goals simp_all [Initiator.greeted,Initiator.welcomed,Initiator.tampered,ToInitiator.isWelcome,
      ToInitiator.tampered,ToAcceptor.isHello,ToAcceptor.isReveal,ToAcceptor.tampered,ToAcceptor.Known]

/-- The variables and messages are as they can be, each message is on its way or read, and a key is injected just when
    a mark of it is left. -/
structure Holds (s : State) : Prop where
  acceptor : s.acceptor.Ok
  initiator : s.initiator.Ok
  toAcceptor : ∀ msg ∈ s.toAcceptor, msg.Known
  toInitiator : ∀ msg ∈ s.toInitiator, msg.Known
  hellos : s.toAcceptor.countP ToAcceptor.isHello + s.acceptor.heard.toNat = s.initiator.greeted.toNat
  reveals : s.toAcceptor.countP ToAcceptor.isReveal + s.acceptor.shown.toNat = s.initiator.welcomed.toNat
  welcomes : s.toInitiator.countP ToInitiator.isWelcome + s.initiator.welcomed.toNat = s.acceptor.heard.toNat
  keys : s.adversaryKeys = if s.traced then [.advEph] else []

theorem holds_start : Holds start := by
  constructor <;> try simp [start,Acceptor.heard,Acceptor.shown,Initiator.greeted,Initiator.welcomed]
  · constructor <;> simp [Acceptor.heard]
  · constructor <;> simp [Initiator.welcomed]
  · simp [State.traced,Acceptor.tampered,Initiator.tampered]

inductive Moves (s : State) (action : Action) : State → Prop
  | none : Moves s action s
  | acceptor {read rest : List ToAcceptor} {pressed : Bool} {a : Acceptor} {sent : List ToInitiator}
      (queue : s.toAcceptor = read ++ rest) (turn : s.acceptor.Turn read pressed a sent)
      (press : pressed = true → action = .acceptor .userConfirm) :
      Moves s action { s with acceptor := a, toAcceptor := rest, toInitiator := s.toInitiator ++ sent }
  | initiator {read rest : List ToInitiator} {pressed : Bool} {i : Initiator} {sent : List ToAcceptor}
      (queue : s.toInitiator = read ++ rest) (turn : s.initiator.Turn read pressed i sent)
      (press : pressed = true → action = .initiator .userConfirm) :
      Moves s action { s with initiator := i, toInitiator := rest, toAcceptor := s.toAcceptor ++ sent }
  | toAcceptor {msg msg' : ToAcceptor} {rest : List ToAcceptor} (eph : EphPub) (commit : Commit)
      (queue : s.toAcceptor = msg :: rest) (hello : msg'.isHello = msg.isHello)
      (reveal : msg'.isReveal = msg.isReveal) (known : msg.Known → msg'.Known) (mark : msg'.tampered = true) :
      Moves s action { s with
        advSavedInitiatorEph := eph
        advSavedInitiatorCommit := commit
        adversaryKeys := s.adversaryKeys.insert .advEph
        toAcceptor := msg' :: rest }
  | toInitiator {msg msg' : ToInitiator} {rest : List ToInitiator} (eph : EphPub)
      (queue : s.toInitiator = msg :: rest) (welcome : msg'.isWelcome = msg.isWelcome)
      (known : msg.Known → msg'.Known) (mark : msg'.tampered = true) :
      Moves s action { s with
        advSavedAcceptorEph := eph
        adversaryKeys := s.adversaryKeys.insert .advEph
        toInitiator := msg' :: rest }

theorem moves_step {s : State} (holds : Holds s) (action : Action) : Moves s action (step s action).1 := by
  cases action with
  | acceptor event =>
    simp only [step]
    split
    · exact .acceptor rfl (Acceptor.turn_step holds.acceptor ‹_›) (by simp)
    · exact .none
  | acceptorRecv =>
    simp only [step]
    split
    · split
      · rename_i queue _ _ _ moved
        have known := holds.toAcceptor _ (by rw [queue]; exact mem_cons_self)
        exact .acceptor queue (Acceptor.turn_recv holds.acceptor known moved) (by simp)
      · exact .none
    · exact .none
  | initiator event =>
    simp only [step]
    split
    · exact .initiator rfl (Initiator.turn_step holds.initiator ‹_›) (by simp)
    · exact .none
  | initiatorRecv =>
    simp only [step]
    split
    · split
      · rename_i queue _ _ _ moved
        have known := holds.toInitiator _ (by rw [queue]; exact mem_cons_self)
        exact .initiator queue (Initiator.turn_recv holds.initiator known moved) (by simp)
      · exact .none
    · exact .none
  | mitmHello =>
    simp only [step]
    split
    · rename_i queue
      exact .toAcceptor _ _ queue rfl rfl id rfl
    · exact .none
  | mitmWelcome =>
    simp only [step]
    split
    · rename_i queue
      exact .toInitiator _ queue rfl (fun known => ⟨.inr rfl,known.2⟩) rfl
    · exact .none
  | mitmReveal =>
    simp only [step]
    split
    · rename_i queue
      exact .toAcceptor _ _ queue rfl rfl (fun _ => .inr rfl) rfl
    · exact .none

theorem insert_advEph (traced : Bool) : (if traced then [EphPub.advEph] else []).insert .advEph = [.advEph] := by
  cases traced <;> rfl

theorem Holds.moves {s t action} (holds : Holds s) (moves : Moves s action t) : Holds t := by
  have ⟨acceptor,initiator,toAcceptor,toInitiator,hellos,reveals,welcomes,keys⟩ := holds
  cases moves with
  | none => exact holds
  | acceptor queue turn =>
    rw [queue,countP_append] at hellos reveals
    have turnHellos := turn.hellos
    have turnReveals := turn.reveals
    have turnWelcomes := turn.welcomes
    refine ⟨turn.ok,initiator,?_,?_,?_,?_,?_,?_⟩
    · exact fun msg waiting => toAcceptor msg (by simp [queue,waiting])
    · simpa [or_imp,forall_and] using ⟨toInitiator,turn.known⟩
    · simp only; omega
    · simp only; omega
    · simp only [countP_append]; omega
    · rw [keys]
      congr 2
      simp only [State.traced,queue,turn.marks,turn.clean,any_append,Bool.or_false]
      ac_rfl
  | initiator queue turn =>
    rw [queue,countP_append] at welcomes
    have turnHellos := turn.hellos
    have turnReveals := turn.reveals
    have turnWelcomes := turn.welcomes
    refine ⟨acceptor,turn.ok,?_,?_,?_,?_,?_,?_⟩
    · simpa [or_imp,forall_and] using ⟨toAcceptor,turn.known⟩
    · exact fun msg waiting => toInitiator msg (by simp [queue,waiting])
    · simp only [countP_append]; omega
    · simp only [countP_append]; omega
    · simp only; omega
    · rw [keys]
      congr 2
      simp only [State.traced,queue,turn.marks,turn.clean,any_append,Bool.or_false]
      ac_rfl
  | toAcceptor eph commit queue hello reveal known mark =>
    rw [queue] at toAcceptor hellos reveals
    refine ⟨acceptor,initiator,?_,toInitiator,?_,?_,welcomes,?_⟩
    · simp only [mem_cons,forall_eq_or_imp] at toAcceptor ⊢
      exact ⟨known toAcceptor.1,toAcceptor.2⟩
    · simpa [countP_cons,hello] using hellos
    · simpa [countP_cons,reveal] using reveals
    · rw [keys,insert_advEph]
      simp [State.traced,mark]
  | toInitiator eph queue welcome known mark =>
    rw [queue] at toInitiator welcomes
    refine ⟨acceptor,initiator,toAcceptor,?_,hellos,reveals,?_,?_⟩
    · simp only [mem_cons,forall_eq_or_imp] at toInitiator ⊢
      exact ⟨known toInitiator.1,toInitiator.2⟩
    · simpa [countP_cons,welcome] using welcomes
    · rw [keys,insert_advEph]
      simp [State.traced,mark]

theorem holds_step (s : State) (action : Action) (holds : Holds s) : Holds (step s action).1 :=
  holds.moves (moves_step holds action)

theorem holds_final (actions : List Action) : Holds (final step start actions) :=
  final_kept holds_step holds_start actions

theorem not_tampered_of_read {messages : List ToAcceptor} (hellos : messages.countP ToAcceptor.isHello = 0)
    (reveals : messages.countP ToAcceptor.isReveal = 0) : messages.any ToAcceptor.tampered = false := by
  rw [countP_eq_zero] at hellos reveals
  rw [any_eq_false]
  intro msg waiting
  cases msg with
  | hello => exact absurd rfl (hellos _ waiting)
  | reveal => exact absurd rfl (reveals _ waiting)
  | confirmToAcceptor => exact Bool.false_ne_true

theorem not_tampered_of_welcomed {messages : List ToInitiator}
    (welcomes : messages.countP ToInitiator.isWelcome = 0) : messages.any ToInitiator.tampered = false := by
  rw [countP_eq_zero] at welcomes
  rw [any_eq_false]
  intro msg waiting
  cases msg with
  | welcome => exact absurd rfl (welcomes _ waiting)
  | confirmToInitiator => exact Bool.false_ne_true

section
variable {s : State} (holds : Holds s)
include holds

theorem Holds.traced_of_codes (acceptorCode : s.acceptor.code ≠ .none) (initiatorCode : s.initiator.code ≠ .none) :
    s.traced = (s.acceptor.tampered || s.initiator.tampered) := by
  have ⟨acceptor,initiator,_,_,hellos,reveals,welcomes,_⟩ := holds
  have heard : s.acceptor.heard = true := by
    rw [← Bool.not_eq_false]
    exact fun unheard => acceptorCode (acceptor.unshown (.inl unheard)).2.2.1
  have shown : s.acceptor.shown = true := decide_eq_true (acceptor.coded.resolve_left acceptorCode).2.1
  have welcomed : s.initiator.welcomed = true := by
    rw [← Bool.not_eq_false]
    exact fun unwelcomed => initiatorCode (initiator.uncoded (.inl unwelcomed)).1
  have greeted := s.initiator.greeted.toNat_le
  simp only [heard,shown,welcomed,Bool.toNat_true] at hellos reveals welcomes
  have atAcceptor : s.toAcceptor.any ToAcceptor.tampered = false := not_tampered_of_read (by omega) (by omega)
  have atInitiator : s.toInitiator.any ToInitiator.tampered = false := not_tampered_of_welcomed (by omega)
  rw [State.traced,atAcceptor,atInitiator,Bool.false_or,Bool.false_or]

theorem Holds.codes_eq_iff (acceptorCode : s.acceptor.code ≠ .none) (initiatorCode : s.initiator.code ≠ .none) :
    s.acceptor.code = s.initiator.code ↔ s.traced = false := by
  obtain ⟨opened,present,acceptorIs⟩ := holds.acceptor.coded.resolve_left acceptorCode
  have bound := holds.acceptor.checked opened
  have initiatorIs := holds.initiator.coded.resolve_left initiatorCode
  have welcomed : s.initiator.welcomed = true := by
    rw [← Bool.not_eq_false]
    exact fun unwelcomed => initiatorCode (holds.initiator.uncoded (.inl unwelcomed)).1
  rw [holds.traced_of_codes acceptorCode initiatorCode,acceptorIs,initiatorIs,Acceptor.tampered,Initiator.tampered,bound]
  rcases holds.acceptor.seen.resolve_left present with shown | shown <;>
    rcases (holds.initiator.welcome welcomed).1 with read | read <;> rw [shown,read] <;> decide

theorem Holds.advEph_mem_iff : .advEph ∈ s.adversaryKeys ↔ s.traced := by
  rw [holds.keys]
  cases s.traced <;> simp

theorem Holds.keys_eq_nil_iff : s.adversaryKeys = [] ↔ s.traced = false := by
  rw [holds.keys]
  cases s.traced <;> simp

theorem Holds.mitMDetected : MitMDetectedByCodeMismatch s := by
  rintro ⟨injected,acceptorCode,initiatorCode⟩ same
  have clean := (holds.codes_eq_iff acceptorCode initiatorCode).mp same
  simp [holds.advEph_mem_iff.mp injected] at clean

theorem Holds.honestMatches : HonestPairingMatchesCodes s := by
  rintro ⟨honest,acceptorCode,initiatorCode⟩
  exact (holds.codes_eq_iff acceptorCode initiatorCode).mpr (holds.keys_eq_nil_iff.mp honest)

theorem Holds.validRecord : PairingProducesValidRecord s := by
  constructor
  · intro paired
    have heard : s.acceptor.heard = true := by simp [Acceptor.heard,paired]
    refine ⟨by simp [holds.acceptor.instanceId heard],holds.acceptor.shown heard ?_ ?_⟩ <;> simp [paired]
  · intro paired
    obtain ⟨eph,instanceId⟩ := holds.initiator.welcome (by simp [Initiator.welcomed,paired])
    refine ⟨by simp [instanceId],?_⟩
    rcases eph with eph | eph <;> simp [eph]

end

def Compared (s : State) (action : Action) : Prop :=
  (action = .acceptor .userConfirm → s.initiator.userConfirmed = true → s.acceptor.code = s.initiator.code) ∧
    (action = .initiator .userConfirm → s.acceptor.userConfirmed = true → s.acceptor.code = s.initiator.code)
deriving Decidable

def Agreed (s : State) : Prop :=
  s.acceptor.userConfirmed = true → s.initiator.userConfirmed = true → s.acceptor.code = s.initiator.code

theorem Agreed.moves {s t action} (agreed : Agreed s) (compared : Compared s action)
    (moves : Moves s action t) : Agreed t := by
  cases moves with
  | none | toAcceptor | toInitiator => exact agreed
  | acceptor queue turn press =>
    intro acceptor initiator
    have before := turn.confirmed
    simp only at acceptor initiator ⊢
    rw [turn.settled acceptor]
    rw [acceptor,eq_comm,Bool.or_eq_true] at before
    rcases before with before | pressed
    · exact agreed before initiator
    · exact compared.1 (press pressed) initiator
  | initiator queue turn press =>
    intro acceptor initiator
    have before := turn.confirmed
    simp only at acceptor initiator ⊢
    rw [turn.settled initiator]
    rw [initiator,eq_comm,Bool.or_eq_true] at before
    rcases before with before | pressed
    · exact agreed acceptor before
    · exact compared.2 (press pressed) acceptor

theorem Holds.mitMPrevents {s} (holds : Holds s) (agreed : Agreed s) : MitMPreventsPairing s := by
  rintro ⟨-,differ⟩
  by_contra both
  simp only [not_or,not_not] at both
  exact differ (agreed (holds.acceptor.confirmed (.inr both.1)) (holds.initiator.confirmed (.inr both.2)))

theorem agreed_final {actions} (compared : Along step Compared start actions) :
    Agreed (final step start actions) := by
  have kept : ∀ s action, Holds s ∧ Agreed s → Compared s action →
      Holds (step s action).1 ∧ Agreed (step s action).1 := fun s action held compared =>
    ⟨holds_step s action held.1,held.2.moves compared (moves_step held.1 action)⟩
  exact (final_invariant kept ⟨holds_start,fun _ _ => rfl⟩ compared).2

/-- Five declared invariants hold in every reachable state, `MitMPreventsPairing` if the second user to confirm has
    compared the codes. -/
theorem declared_invariants_hold (actions : List Action) :
    MitMDetectedByCodeMismatch (final step start actions) ∧ HonestPairingMatchesCodes (final step start actions) ∧
      PairingProducesValidRecord (final step start actions) ∧ CodeRequiresCommit (final step start actions) ∧
      RevealBoundByCommit (final step start actions) ∧
      (Along step Compared start actions → MitMPreventsPairing (final step start actions)) := by
  have holds := holds_final actions
  refine ⟨holds.mitMDetected,holds.honestMatches,holds.validRecord,?_,?_,?_⟩
  · exact fun code => (holds.acceptor.coded.resolve_left code).1
  · exact fun ⟨_,opened⟩ => holds.acceptor.checked opened
  · exact fun compared => holds.mitMPrevents (agreed_final compared)

def upToCodes (interference : List Action) : List Action :=
  [.acceptor .pairBegin,.acceptor .ephemeralReady,.acceptor .relayRegistered,.initiator .tokenReceived,
    .initiator .tokenDecoded,.initiator .ephemeralReady,.initiator .relayConnected,.acceptorRecv] ++ interference ++
  [.initiatorRecv,.initiator .revealSent,.initiator .codeReady,.acceptorRecv,.acceptor .codeReady]

def bothConfirm : List Action :=
  [.acceptor .userConfirm,.initiator .userConfirm,.acceptorRecv,.initiatorRecv]

/-- Left alone they end up paired; with the welcome rewritten the one who compares cancels. -/
theorem users_compare : (Along step Compared start (upToCodes [] ++ bothConfirm) ∧
      (final step start (upToCodes [] ++ bothConfirm)).acceptor.state = .paired ∧
      (final step start (upToCodes [] ++ bothConfirm)).initiator.state = .paired) ∧
    Along step Compared start (upToCodes [.mitmWelcome] ++ [.acceptor .userConfirm,.initiator .userCancel]) ∧
    MitMPreventsPairing
      (final step start (upToCodes [.mitmWelcome] ++ [.acceptor .userConfirm,.initiator .userCancel])) := by
  have compared :
      Along step Compared start (upToCodes [.mitmWelcome] ++ [.acceptor .userConfirm,.initiator .userCancel]) := by
    decide
  exact ⟨by decide,compared,(declared_invariants_hold _).2.2.2.2.2 compared⟩

/-- With the welcome rewritten and both users confirming, both sides are paired under different codes. -/
theorem paired_under_different_codes :
    ¬ MitMPreventsPairing (final step start (upToCodes [.mitmWelcome] ++ bothConfirm)) := by
  decide

end Pigeon.PairingProtocol
