import Pigeon.Custody
import Pigeon.Sequence

/-!
`Session.Close` of the Go session while `swapTransport` moves it to a LAN connection
(`api.go`, `lan_upgrade.go`). A swap does not look whether the session is closed. Each carrier
is in one place (`Consistent.kept`), and all are closed in the end just when none was installed
after `Close` took the last one (`carriers_closed_iff`).
-/
namespace Pigeon.CarrierSwap
open Runs Sequence Custody

/-- Where the body of `Close` is (`closeOnce` lets it run once). -/
inductive Closing
  | idle
  /-- The context is cancelled; parked and primary streams are being closed. -/
  | cancelled
  /-- After its section: the local `tr` and `owns`. -/
  | took (tr : Option Nat) (owns : Bool)
  | returned
deriving DecidableEq

/-- Where a call of `swapTransport` is. -/
inductive Swap
  | entered (tr : Nat)
  /-- `onLAN` was set: the carrier is about to be closed. -/
  | refused (tr : Nat)
  /-- The carrier is installed; `old` is the local variable. -/
  | installed (old : Option Nat)
  | returned
deriving DecidableEq

inductive Loop
  | starting
  /-- It has pinned its carrier and serves it. -/
  | serving (tr : Nat)
  | ended
deriving DecidableEq

structure State where
  /-- `s.ctx` is done. -/
  cancelled : Bool
  transport : Option Nat
  (ownsTransport onLAN : Bool)
  closing : Closing
  swaps : List Swap
  /-- The goroutines of the delayed close. -/
  delayed : List Nat
  loops : List Loop
  /-- How many carriers the session has been given. -/
  made : Nat
  closed : List Nat

def start : State :=
  { cancelled := false, transport := some 0, ownsTransport := true, onLAN := false, closing := .idle, swaps := [],
    delayed := [], loops := [.starting,.starting], made := 1, closed := [] }

inductive Event
  /-- `Close` is called. -/
  | close
  /-- Its section under `transportMu`. -/
  | takes
  /-- The rest of it. -/
  | finishes
  /-- `swapTransport` is called with a new carrier, by `offerLAN` or by `handleLANOffer`. -/
  | swap
  /-- The section of a call of it. -/
  | locks (call : Nat)
  /-- The rest of that call. -/
  | goesOn (call : Nat)
  /-- The delayed close of a replaced carrier. -/
  | expires (tr : Nat)
  /-- A loop reads `currentTransport`. -/
  | pins (loop : Nat)
  /-- Its `AcceptStream` or `ReceiveDatagram` fails. -/
  | fails (loop : Nat)
  /-- The context that the session was made with ends. -/
  | parentEnds

/-- `Session.Close`. -/
def State.close (s : State) : State :=
  if s.closing = .idle then { s with closing := .cancelled, cancelled := true } else s

def State.takes (s : State) : State :=
  if s.closing = .cancelled then { s with closing := .took s.transport s.ownsTransport, transport := none } else s

def State.finishes (s : State) : State :=
  match s.closing with
  | .took (some tr) true => { s with closing := .returned, closed := tr :: s.closed }
  | .took _ _ => { s with closing := .returned }
  | _ => s

/-- `Session.swapTransport`. -/
def State.swap (s : State) : State := { s with swaps := s.swaps ++ [.entered s.made], made := s.made + 1 }

def State.locks (s : State) (call : Nat) : State :=
  match s.swaps[call]? with
  | some (.entered tr) =>
    if s.onLAN then { s with swaps := s.swaps.set call (.refused tr) }
    else { s with
      swaps := s.swaps.set call (.installed s.transport)
      transport := some tr
      ownsTransport := true
      onLAN := true }
  | _ => s

def State.goesOn (s : State) (call : Nat) : State :=
  match s.swaps[call]? with
  | some (.refused tr) => { s with swaps := s.swaps.set call .returned, closed := tr :: s.closed }
  | some (.installed old) =>
    { s with
      swaps := s.swaps.set call .returned
      loops := s.loops ++ [.starting,.starting]
      delayed := old.toList ++ s.delayed }
  | _ => s

def State.expires (s : State) (tr : Nat) : State :=
  if tr ∈ s.delayed then { s with delayed := s.delayed.erase tr, closed := tr :: s.closed } else s

/-- A round of `Session.acceptLoop`. -/
def State.pins (s : State) (loop : Nat) : State :=
  if s.loops[loop]? = some .starting then
    { s with loops := s.loops.set loop (match s.transport with | some tr => .serving tr | none => .ended) }
  else s

def State.fails (s : State) (loop : Nat) : State :=
  match s.loops[loop]? with
  | some (.serving tr) => if s.cancelled ∨ tr ∈ s.closed then { s with loops := s.loops.set loop .ended } else s
  | _ => s

def step (s : State) : Event → State × Unit
  | .close => (s.close,())
  | .takes => (s.takes,())
  | .finishes => (s.finishes,())
  | .swap => (s.swap,())
  | .locks call => (s.locks call,())
  | .goesOn call => (s.goesOn call,())
  | .expires tr => (s.expires tr,())
  | .pins loop => (s.pins loop,())
  | .fails loop => (s.fails loop,())
  | .parentEnds => ({ s with cancelled := true },())

def State.past (s : State) : Bool :=
  match s.closing with
  | .took _ _ | .returned => true
  | _ => false

def State.installs (s : State) (call : Nat) : Bool :=
  match s.swaps[call]? with
  | some (.entered _) => !s.onLAN
  | _ => false

/-- No carrier is installed once `Close` has taken the last one. -/
def InTime (s : State) : Event → Prop
  | .locks call => s.installs call = true → s.past = false
  | _ => True

instance (s : State) : (e : Event) → Decidable (InTime s e)
  | .locks _ => inferInstanceAs (Decidable (_ → _))
  | .close | .takes | .finishes | .swap | .goesOn _ | .expires _ | .pins _ | .fails _ | .parentEnds => .isTrue trivial

def State.over (s : State) : Prop := s.closing = .returned ∧ (∀ x ∈ s.swaps, x = .returned) ∧ s.delayed = []
deriving Decidable

def Loop.live (closed : List Nat) : Loop → Bool
  | .serving tr => tr ∉ closed
  | _ => false

def State.released (s : State) : Prop :=
  (∀ c < s.made, c ∈ s.closed) ∧ ∀ x ∈ s.loops, x.live s.closed = false

instance (s : State) : Decidable s.released := inferInstanceAs (Decidable (_ ∧ _))

def Closing.holds (c : Nat) : Closing → Nat
  | .took tr _ => held tr c
  | _ => 0

def Swap.holds (c : Nat) : Swap → Nat
  | .entered tr | .refused tr => held (some tr) c
  | .installed old => held old c
  | .returned => 0

def places (s : State) (c : Nat) : Nat :=
  s.closed.count c + held s.transport c + s.delayed.count c + (s.swaps.map (Swap.holds c)).sum + s.closing.holds c

structure Consistent (s : State) : Prop where
  kept : InCustody (places s) s.made
  owns : s.ownsTransport = true
  took : ∀ tr owns, s.closing = .took tr owns → owns = true
  pinned : ∀ tr, .serving tr ∈ s.loops → tr < s.made

theorem consistent_start : Consistent start := by
  refine ⟨fun c => ?_,rfl,fun tr owns => nofun,by simp [start]⟩
  simp [places,start,held_some,Closing.holds,eq_comm]

section
variable {s : State}

section
variable (old : Consistent s)
include old

theorem Consistent.moved {t} (same : ∀ c, places t c = places s c) (made : t.made = s.made)
    (owns : t.ownsTransport) (took : ∀ tr owns, t.closing = .took tr owns → owns)
    (pinned : ∀ tr, .serving tr ∈ t.loops → .serving tr ∈ s.loops ∨ s.transport = some tr) : Consistent t where
  kept := by rw [made]; exact old.kept.moved same
  owns
  took
  pinned tr mem := by
    rw [made]
    rcases pinned tr mem with before | current
    · exact old.pinned tr before
    · have one : held s.transport tr = 1 := if_pos current
      exact old.kept.inside (by rw [places]; omega)

theorem consistent_close : Consistent s.close := by
  refine of_guard old (fun idle => old.moved (fun c => ?_) rfl old.owns (fun tr owns => nofun) (fun _ => Or.inl))
  simp [places,idle,Closing.holds]

theorem consistent_takes : Consistent s.takes := by
  refine of_guard old (fun here => old.moved (fun c => ?_) rfl old.owns ?_ (fun _ => Or.inl))
  · simp only [places,here,Closing.holds,held_none]
    omega
  · intro tr owns same
    cases same
    exact old.owns

theorem consistent_finishes : Consistent s.finishes := by
  unfold State.finishes
  split
  next tr here =>
    refine old.moved (fun c => ?_) rfl old.owns (fun tr owns => nofun) (fun _ => Or.inl)
    simp only [places,here,Closing.holds,count_cons_held]
    omega
  next tr owns other here =>
    refine old.moved (fun c => ?_) rfl old.owns (fun tr owns => nofun) (fun _ => Or.inl)
    have nothing : tr = none := by
      cases tr with
      | none => rfl
      | some tr => exact absurd (old.took _ _ here) (other tr rfl)
    simp [places,here,Closing.holds,nothing]
  next => exact old

theorem consistent_swap : Consistent s.swap := by
  refine ⟨old.kept.grown (fun c => ?_),old.owns,old.took,?_⟩
  · simp only [places,State.swap,sum_map_snoc,Swap.holds]
    omega
  · intro tr mem
    exact Nat.lt_succ_of_lt (old.pinned tr mem)

theorem consistent_locks (call : Nat) : Consistent (s.locks call) := by
  unfold State.locks
  split
  next tr found =>
    split
    next =>
      refine old.moved (fun c => ?_) rfl old.owns old.took (fun _ => Or.inl)
      have change := sum_map_set (Swap.holds c) found (.refused tr)
      simp only [Swap.holds] at change
      simp only [places]
      omega
    next =>
      refine old.moved (fun c => ?_) rfl rfl old.took (fun _ => Or.inl)
      have change := sum_map_set (Swap.holds c) found (.installed s.transport)
      simp only [Swap.holds] at change
      simp only [places]
      omega
  next => exact old

theorem consistent_goesOn (call : Nat) : Consistent (s.goesOn call) := by
  unfold State.goesOn
  split
  next tr found =>
    refine old.moved (fun c => ?_) rfl old.owns old.took (fun _ => Or.inl)
    have change := sum_map_set (Swap.holds c) found .returned
    simp only [Swap.holds] at change
    simp only [places,count_cons_held]
    omega
  next replaced found =>
    refine old.moved (fun c => ?_) rfl old.owns old.took (fun tr mem => Or.inl (by simpa using mem))
    have change := sum_map_set (Swap.holds c) found .returned
    simp only [Swap.holds] at change
    simp only [places,List.count_append,count_toList]
    omega
  next => exact old

theorem consistent_expires (tr : Nat) : Consistent (s.expires tr) := by
  refine of_guard old (fun waits => old.moved (fun c => ?_) rfl old.owns old.took (fun _ => Or.inl))
  have change := count_erase_held waits c
  simp only [places,count_cons_held]
  omega

theorem consistent_pins (loop : Nat) : Consistent (s.pins loop) := by
  refine of_guard old (fun _ => old.moved (fun _ => rfl) rfl old.owns old.took ?_)
  intro tr mem
  rcases List.mem_or_eq_of_mem_set mem with before | new
  · exact Or.inl before
  · cases current : s.transport with
    | none => simp [current] at new
    | some carrier =>
      rw [current] at new
      cases new
      exact Or.inr rfl

theorem consistent_fails (loop : Nat) : Consistent (s.fails loop) := by
  unfold State.fails
  split
  next =>
    refine of_guard old (fun _ => old.moved (fun _ => rfl) rfl old.owns old.took ?_)
    intro tr mem
    rcases List.mem_or_eq_of_mem_set mem with before | new
    · exact Or.inl before
    · cases new
  next => exact old

theorem consistent_step (e : Event) : Consistent (step s e).1 := by
  cases e with
  | close => exact consistent_close old
  | takes => exact consistent_takes old
  | finishes => exact consistent_finishes old
  | swap => exact consistent_swap old
  | locks call => exact consistent_locks old call
  | goesOn call => exact consistent_goesOn old call
  | expires tr => exact consistent_expires old tr
  | pins loop => exact consistent_pins old loop
  | fails loop => exact consistent_fails old loop
  | parentEnds => exact old.moved (fun _ => rfl) rfl old.owns old.took (fun _ => Or.inl)

end

/-- A carrier is installed although `Close` has taken one out. -/
def Late (s : State) : Prop := s.past = true ∧ s.transport ≠ none

theorem past_finishes : s.finishes.past = s.past := by
  unfold State.finishes
  split
  next here => simp [State.past,here]
  next here => simp [State.past,here]
  next => rfl

theorem transport_finishes : s.finishes.transport = s.transport := by
  unfold State.finishes
  split <;> rfl

theorem past_locks (call : Nat) : (s.locks call).past = s.past := by
  unfold State.locks
  split
  next => split <;> rfl
  next => rfl

theorem transport_locks (call : Nat) : (s.locks call).transport ≠ none ↔ s.installs call ∨ s.transport ≠ none := by
  unfold State.locks State.installs
  split
  next =>
    cases lan : s.onLAN with
    | true => simp
    | false => simp
  next => simp

theorem late_goesOn (call : Nat) : Late (s.goesOn call) ↔ Late s := by
  unfold State.goesOn
  split <;> rfl

theorem late_fails (loop : Nat) : Late (s.fails loop) ↔ Late s := by
  unfold State.fails
  split
  next => exact of_guard (P := fun t => Late t ↔ Late s) Iff.rfl (fun _ => Iff.rfl)
  next => rfl

theorem late_step (e : Event) : Late (step s e).1 ↔ Late s ∨ ¬ InTime s e := by
  cases e with
  | close =>
    refine of_guard (P := fun t => Late t ↔ Late s ∨ ¬ True) (by simp) (fun idle => ?_)
    simp [Late,State.past,idle]
  | takes =>
    refine of_guard (P := fun t => Late t ↔ Late s ∨ ¬ True) (by simp) (fun here => ?_)
    simp [Late,State.past,here]
  | finishes => simp [step,InTime,Late,past_finishes,transport_finishes]
  | locks call =>
    simp only [step,InTime,Late,past_locks,transport_locks]
    cases s.past <;> simp [or_comm]
  | goesOn call => simp [step,InTime,late_goesOn]
  | expires | pins =>
    exact of_guard (P := fun t => Late t ↔ Late s ∨ ¬ True) (by simp) (fun _ => by simp [Late,State.past])
  | fails loop => simp [step,InTime,late_fails]
  | swap => simp [step,InTime,Late,State.past,State.swap]
  | parentEnds => simp [step,InTime,Late,State.past]

end

theorem consistent_final (events : List Event) : Consistent (final step start events) :=
  final_kept (I := Consistent) (fun _ e old => consistent_step old e) consistent_start events

theorem late_final (events : List Event) : Late (final step start events) ↔ ¬ Along step InTime start events :=
  final_iff_not_along (I := fun _ => True) (D := Late) (fun _ _ _ => trivial)
    (fun _ e _ late => (late_step e).mpr (Or.inl late))
    (fun _ e _ fine => (late_step e).trans (or_iff_right fine)) trivial (by simp [Late,State.past,start]) events

theorem places_over {s} (ended : s.over) (c : Nat) : places s c = s.closed.count c + held s.transport c := by
  have idle : (s.swaps.map (Swap.holds c)).sum = 0 := sum_map_zero (fun x mem => by rw [ended.2.1 x mem]; rfl)
  simp [places,ended.1,ended.2.2,idle,Closing.holds]

/-- When all have returned and the delayed closes have run: every carrier is closed and no loop
    serves an open one, if and only if none was installed after `Close` had taken the last one.
    -/
theorem carriers_closed_iff (events : List Event) (ended : (final step start events).over) :
    (final step start events).released ↔ Along step InTime start events := by
  have old := consistent_final events
  rw [← not_iff_not,← late_final events]
  generalize final step start events = s at ended old
  have past : s.past = true := by simp [State.past,ended.1]
  simp only [Late,past,true_and]
  constructor
  · intro unreleased installed
    have closed : ∀ c < s.made, c ∈ s.closed := by
      intro c inside
      have one := old.kept.one inside
      rw [places_over ended,installed,held_none] at one
      exact List.count_pos_iff.mp (by omega)
    refine unreleased ⟨closed,fun x mem => ?_⟩
    cases x with
    | serving tr => simp [Loop.live,closed tr (old.pinned tr mem)]
    | starting | ended => rfl
  · intro installed released
    obtain ⟨tr,current⟩ := Option.ne_none_iff_exists'.mp installed
    have one : held s.transport tr = 1 := if_pos current
    have most := old.kept.atMost tr
    have inside := old.kept.inside (c := tr) (by rw [places_over ended]; omega)
    have closed := List.count_pos_iff.mpr (released.1 tr inside)
    rw [places_over ended] at most
    omega

def swappedFirst : List Event :=
  [.pins 0,.swap,.close,.locks 0,.takes,.goesOn 0,.pins 1,.finishes,.pins 2,.expires 0,.fails 0]

theorem swapped_first_closes : (final step start swappedFirst).over ∧ Along step InTime start swappedFirst ∧
      (final step start swappedFirst).released :=
  ⟨by decide,by decide,(carriers_closed_iff swappedFirst (by decide)).mpr (by decide)⟩

def closedFirst : List Event :=
  [.pins 0,.swap,.close,.takes,.locks 0,.finishes,.goesOn 0,.pins 2]

/-- Everything has returned, the carrier of the swap is open and a loop serves it. -/
theorem closed_first_leaks : (final step start closedFirst).over ∧ 1 < (final step start closedFirst).made ∧
      1 ∉ (final step start closedFirst).closed ∧ .serving 1 ∈ (final step start closedFirst).loops ∧
      ¬ (final step start closedFirst).released := by
  decide

end Pigeon.CarrierSwap
