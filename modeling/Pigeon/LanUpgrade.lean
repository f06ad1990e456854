import Pigeon.Runs

/-!
The move of a session pair to a direct connection (`lan_upgrade.go`, `lan.go`): `offerLAN`,
`handleConn` and `handleLANOffer`, with other offers under the same identity. The client moves
as soon as it has read `ok`, while an offer whose context ends then, or that is still listed
when it has given up, is abandoned. Otherwise the sides agree (`upgrade_agrees`).
-/
namespace Pigeon.LanUpgrade
open Runs

/-- Where `offerLAN` is. -/
inductive Offer
  | starting
  /-- The entry is registered, the control stream is being opened. -/
  | registered
  /-- In `st.Send`. -/
  | sending
  /-- In the `select`. -/
  | waiting
  /-- It has received the connection. -/
  | received
  /-- The session has been swapped; the deferred calls are left. -/
  | swapped
  /-- It is about to return without a connection; the deferred calls are left. -/
  | givenUp
  | returned
deriving DecidableEq

inductive Entry
  | absent
  /-- That of this offer. -/
  | ours
  /-- That of an offer of another session. -/
  | other
deriving DecidableEq

/-- Where `handleConn` is with the connection of the client. -/
inductive Server
  | unconnected
  | connected
  /-- The entry is taken and the challenge was equal. -/
  | took
  /-- `ok` has been written. -/
  | confirmed
  | returned
deriving DecidableEq

/-- Where `handleLANOffer` is. -/
inductive Client
  | receiving
  | dialing
  /-- It has sent its `lanVerify` and reads. -/
  | verifying
  /-- It has read `ok`. -/
  | confirmed
  | returned
deriving DecidableEq

structure State where
  offer : Offer
  entry : Entry
  server : Server
  client : Client
  /-- The context of the offer is done. -/
  expired : Bool
  /-- The offer may have reached the client. -/
  offered : Bool
  /-- The channel `verified` has the connection. -/
  onChannel : Bool
  /-- The server has confirmed the connection. -/
  verified : Bool
  /-- The offer was given up; the session of each side was swapped. -/
  (abandoned backendSwapped clientSwapped backendClosed clientClosed : Bool)
  /-- The direct connection is closed, at whichever end. -/
  connClosed : Bool

def start : State :=
  { offer := .starting, entry := .absent, server := .unconnected, client := .receiving, expired := false,
    offered := false, onChannel := false, verified := false, abandoned := false, backendSwapped := false,
    clientSwapped := false, backendClosed := false, clientClosed := false, connClosed := false }

inductive Event
  /-- `RegisterPending`. -/
  | registers
  /-- `OpenStream` returns. -/
  | opens (ok : Bool)
  /-- `st.Send` returns. -/
  | sends (ok : Bool)
  /-- The branches of the `select`. -/
  | receives
  | givesUp
  /-- `swapTransport` on the backend. -/
  | backendSwaps
  /-- The deferred `UnregisterPending`. -/
  | unregisters
  /-- The timeout, or the end of the context of the session. -/
  | expires
  /-- The client has the offer. -/
  | reads
  /-- It dials, and sends its `lanVerify`. -/
  | dials
  /-- It reads `ok`. -/
  | readsOk
  /-- One of its steps fails. -/
  | clientFails
  /-- `swapTransport` on the client. -/
  | clientSwaps
  /-- `handleConn` takes the entry and compares the challenge. -/
  | looksUp
  /-- It writes `ok`. -/
  | confirms
  /-- It calls `onVerify`. -/
  | callsBack
  /-- It cannot read the `lanVerify`, or cannot write `ok`. -/
  | serverFails
  /-- Another session of the same client registers, or its entry is removed. -/
  | otherRegisters
  | otherRemoves
  /-- The direct connection is lost. -/
  | breaks
  | backendCloses
  | clientCloses

def State.abandon (s : State) : State := { s with offer := .givenUp, abandoned := true }

def State.opens (s : State) (ok : Bool) : State :=
  if s.offer = .registered then if ok then { s with offer := .sending, offered := true } else s.abandon else s

def State.sends (s : State) (ok : Bool) : State :=
  if s.offer = .sending then if ok then { s with offer := .waiting } else s.abandon else s

def State.looksUp (s : State) : State :=
  if s.server = .connected then
    match s.entry with
    | .ours => { s with server := .took, entry := .absent }
    | .other | .absent => { s with server := .returned, entry := .absent, connClosed := true }
  else s

/-- `dialLAN` fails. -/
def State.clientFails (s : State) : State :=
  match s.client with
  | .receiving => { s with client := .returned }
  | .dialing | .verifying => { s with client := .returned, connClosed := true }
  | .confirmed | .returned => s

/-- The steps of `Session.offerLAN`, of the client and of the server. -/
def step (s : State) : Event → State × Unit
  | .registers => (if s.offer = .starting then { s with offer := .registered, entry := .ours } else s,())
  | .opens ok => (s.opens ok,())
  | .sends ok => (s.sends ok,())
  | .receives =>
    (if s.offer = .waiting ∧ s.onChannel = true then { s with offer := .received, onChannel := false } else s,())
  | .givesUp => (if s.offer = .waiting ∧ s.expired = true then s.abandon else s,())
  | .backendSwaps => (if s.offer = .received then { s with offer := .swapped, backendSwapped := true } else s,())
  | .unregisters =>
    (if s.offer = .swapped ∨ s.offer = .givenUp then { s with offer := .returned, entry := .absent } else s,())
  | .expires => ({ s with expired := true },())
  | .reads => (if s.client = .receiving ∧ s.offered = true then { s with client := .dialing } else s,())
  | .dials => (if s.client = .dialing then { s with client := .verifying, server := .connected } else s,())
  | .readsOk => (if s.client = .verifying ∧ s.verified = true then { s with client := .confirmed } else s,())
  | .clientFails => (s.clientFails,())
  | .clientSwaps => (if s.client = .confirmed then { s with client := .returned, clientSwapped := true } else s,())
  | .looksUp => (s.looksUp,())
  | .confirms => (if s.server = .took then { s with server := .confirmed, verified := true } else s,())
  | .callsBack => (if s.server = .confirmed then { s with server := .returned, onChannel := true } else s,())
  | .serverFails =>
    (if s.server = .connected ∨ s.server = .took then { s with server := .returned, connClosed := true } else s,())
  | .otherRegisters => ({ s with entry := .other },())
  | .otherRemoves => ({ s with entry := .absent },())
  | .breaks => ({ s with connClosed := true },())
  | .backendCloses =>
    ({ s with backendClosed := true, expired := true, connClosed := s.connClosed || s.backendSwapped },())
  | .clientCloses => ({ s with clientClosed := true, connClosed := s.connClosed || s.clientSwapped },())

def State.taken (s : State) : Prop := s.server = .took ∨ s.server = .confirmed ∨ s.verified = true
deriving Decidable

def OnTime (s : State) : Event → Prop
  | .looksUp => s.server = .connected ∧ s.entry = .ours → s.offer ≠ .givenUp
  | .opens ok => s.offer = .registered ∧ ok = false → ¬ s.taken
  | .sends ok => s.offer = .sending ∧ ok = false → ¬ s.taken
  | .givesUp => s.offer = .waiting ∧ s.expired = true → ¬ s.taken
  | _ => True

instance (s : State) : (e : Event) → Decidable (OnTime s e)
  | .looksUp | .opens _ | .sends _ | .givesUp => inferInstanceAs (Decidable (_ → _))
  | .registers | .receives | .backendSwaps | .unregisters | .expires | .reads | .dials | .readsOk | .clientFails
  | .clientSwaps | .confirms | .callsBack | .serverFails | .otherRegisters | .otherRemoves | .breaks | .backendCloses
  | .clientCloses => .isTrue trivial

/-- The client is on the direct connection only if the offer was not abandoned or a session is closed; in the end a
    verified connection is the backend's or closed. -/
def State.agreed (s : State) : Prop :=
  (s.clientSwapped = true → s.abandoned = true → s.backendClosed = true ∨ s.clientClosed = true) ∧
    (s.offer = .returned → s.server = .returned → s.verified = true → s.backendSwapped = false → s.connClosed = true)
deriving Decidable

structure Together (s : State) : Prop where
  listed : s.entry = .ours → s.offer ≠ .returned
  gone : s.abandoned = true → s.offer = .givenUp ∨ s.offer = .returned
  ended : s.offer = .returned → s.backendSwapped = true ∨ s.abandoned = true
  moved : s.offer = .swapped → s.backendSwapped = true
  left : s.offer = .givenUp → s.abandoned = true
  untaken : s.abandoned = true → ¬ s.taken
  read : s.client = .confirmed ∨ s.clientSwapped = true → s.verified = true

theorem together_start : Together start := by
  constructor <;> simp [start]

section
variable {s : State}

theorem together_abandon (old : Together s) (free : ¬ s.taken) : Together s.abandon where
  listed _ := nofun
  gone _ := Or.inl rfl
  ended := nofun
  moved := nofun
  left _ := rfl
  untaken _ := free
  read := old.read

theorem not_abandoned (old : Together s) (pending : s.offer ≠ .givenUp ∧ s.offer ≠ .returned) : s.abandoned ≠ true := by
  intro abandoned
  rcases old.gone abandoned with given | returned
  · exact pending.1 given
  · exact pending.2 returned

theorem together_offer (old : Together s) {t : State} (pending : s.offer ≠ .givenUp ∧ s.offer ≠ .returned)
    (going : t.offer ≠ .givenUp ∧ t.offer ≠ .returned) (moved : t.offer = .swapped → t.backendSwapped)
    (abandoned : t.abandoned = s.abandoned) (client : t.client = s.client) (clientSwapped : t.clientSwapped = s.clientSwapped)
    (verified : t.verified = s.verified) : Together t where
  listed _ := going.2
  gone given := absurd (abandoned.symm.trans given) (not_abandoned old pending)
  ended returned := absurd returned going.2
  moved
  left given := absurd given going.1
  untaken given := absurd (abandoned.symm.trans given) (not_abandoned old pending)
  read := by rw [client,clientSwapped,verified]; exact old.read

theorem untaken_elsewhere (old : Together s) {t : State} (server : t.server ≠ .took ∧ t.server ≠ .confirmed)
    (verified : t.verified = s.verified) (given : s.abandoned) : ¬ t.taken := by
  rintro (took | confirmed | seen)
  · exact server.1 took
  · exact server.2 confirmed
  · exact old.untaken given (Or.inr (Or.inr (verified.symm.trans seen)))

section
variable (old : Together s)
include old

theorem together_unregisters (here : s.offer = .swapped ∨ s.offer = .givenUp) :
    Together { s with offer := .returned, entry := .absent } where
  listed := nofun
  gone _ := Or.inr rfl
  ended _ := here.imp old.moved old.left
  moved := nofun
  left := nofun
  untaken := old.untaken
  read := old.read

theorem together_looksUp (onTime : OnTime s .looksUp) : Together s.looksUp := by
  refine of_guard old (fun here => ?_)
  cases entry : s.entry with
  | ours =>
    have unabandoned := not_abandoned old ⟨onTime ⟨here,entry⟩,old.listed entry⟩
    exact { old with listed := nofun, untaken := fun given => absurd given unabandoned }
  | other | absent => exact { old with listed := nofun, untaken := untaken_elsewhere old ⟨nofun,nofun⟩ rfl }

theorem together_step (e : Event) (onTime : OnTime s e) : Together (step s e).1 := by
  cases e with
  | registers | receives =>
    refine of_guard old (fun here => ?_)
    exact together_offer old (by simp [here]) ⟨nofun,nofun⟩ nofun rfl rfl rfl rfl
  | opens ok | sends ok =>
    refine of_guard old (fun here => ?_)
    cases ok with
    | true => exact together_offer old (by simp [here]) ⟨nofun,nofun⟩ nofun rfl rfl rfl rfl
    | false => exact together_abandon old (onTime ⟨here,rfl⟩)
  | givesUp => exact of_guard old (fun here => together_abandon old (onTime here))
  | backendSwaps =>
    refine of_guard old (fun here => ?_)
    exact together_offer old (by simp [here]) ⟨nofun,nofun⟩ (fun _ => rfl) rfl rfl rfl rfl
  | unregisters => exact of_guard old (fun here => together_unregisters old here)
  | looksUp => exact together_looksUp old onTime
  | confirms =>
    refine of_guard old (fun here => ?_)
    exact { old with untaken := fun given _ => old.untaken given (Or.inl here), read := fun _ => rfl }
  | callsBack =>
    refine of_guard old (fun here => ?_)
    exact { old with untaken := fun given _ => old.untaken given (Or.inr (Or.inl here)) }
  | serverFails =>
    refine of_guard old (fun _ => ?_)
    exact { old with untaken := untaken_elsewhere old ⟨nofun,nofun⟩ rfl }
  | reads =>
    refine of_guard old (fun here => ?_)
    exact { old with read := by simpa [here.1] using old.read }
  | dials =>
    refine of_guard old (fun here => ?_)
    exact { old with untaken := untaken_elsewhere old ⟨nofun,nofun⟩ rfl, read := by simpa [here] using old.read }
  | readsOk =>
    refine of_guard old (fun here => ?_)
    exact { old with read := fun _ => here.2 }
  | clientFails =>
    simp only [step,State.clientFails]
    split
    next here => exact { old with read := by simpa [here] using old.read }
    next here => exact { old with read := by simpa [here] using old.read }
    next here => exact { old with read := by simpa [here] using old.read }
    next => exact old
    next => exact old
  | clientSwaps =>
    refine of_guard old (fun here => ?_)
    exact { old with read := fun _ => old.read (Or.inl here) }
  | otherRegisters | otherRemoves => exact { old with listed := nofun }
  | expires | breaks | backendCloses | clientCloses => exact { old with }

theorem agreed_of_together : s.agreed := by
  refine ⟨fun swapped abandoned => ?_,fun returned _ verified unswapped => ?_⟩
  · exact absurd (Or.inr (Or.inr (old.read (Or.inr swapped)))) (old.untaken abandoned)
  · rcases old.ended returned with swapped | abandoned
    · rw [unswapped] at swapped
      cases swapped
    · exact absurd (Or.inr (Or.inr verified)) (old.untaken abandoned)

end

end

/-- As long as the entry is taken only while the offer waits, and the offer is not given up after that, the two sides
    agree after every step. -/
theorem upgrade_agrees (events : List Event) (onTime : Along step OnTime start events) :
    (final step start events).agreed :=
  agreed_of_together
    (final_invariant (I := Together) (fun _ e old onTime => together_step old e onTime) together_start onTime)

def takenEntry : List Event := [.registers,.opens true,.sends true,.reads,.dials,.looksUp]

def upgraded : List Event :=
  takenEntry ++ [.confirms,.readsOk,.callsBack,.receives,.clientSwaps,.backendSwaps,.unregisters,.backendCloses]

theorem upgraded_agrees : Along step OnTime start upgraded ∧ (final step start upgraded).clientSwapped = true ∧
      (final step start upgraded).agreed :=
  ⟨by decide,by decide,upgrade_agrees upgraded (by decide)⟩

def gaveUpLate : List Event :=
  takenEntry ++ [.expires,.givesUp,.confirms,.readsOk,.clientSwaps,.callsBack,.unregisters]

/-- The client has moved over, the backend has abandoned the offer, and the connection stays open. -/
theorem gave_up_late_disagrees :
    (final step start gaveUpLate).clientSwapped = true ∧ (final step start gaveUpLate).abandoned = true ∧
      (final step start gaveUpLate).backendClosed = false ∧ (final step start gaveUpLate).clientClosed = false ∧
      (final step start gaveUpLate).onChannel = true ∧ (final step start gaveUpLate).offer = .returned ∧
      (final step start gaveUpLate).connClosed = false ∧ ¬ (final step start gaveUpLate).agreed := by
  decide

end Pigeon.LanUpgrade
