import Pigeon.Custody
import Pigeon.Sequence

/-!
The shutdown of the Go listener (`api.go`): `acceptWorker`s that dial, track and send
sessions, and `Listener.Close`. An event is one step of one goroutine. `Close` does not empty
the channel and does not see what is tracked later. Everything is released if no session is in
the channel when the listener is cancelled, none is sent afterwards, and none of the
connections is tracked after the last section of `Close` (`shutdown_releases`).
-/
namespace Pigeon.ListenerClose
open Runs Sequence Custody List

def acceptedCap : Nat := 8

inductive AcceptResult
  | session (tr : Nat)
  | err
deriving DecidableEq

inductive Worker
  /-- At the condition of the loop. -/
  | top
  /-- In `dialListen`. -/
  | dialing
  /-- In the `select` after a failed dial. -/
  | backoff
  /-- Before `trackListen`. -/
  | dialled (tr : Nat)
  /-- In `activate`. -/
  | activating (tr : Nat)
  /-- `activate` failed: before `untrackListen`, and before `tr.Close`. -/
  | failed (tr : Nat)
  | untracked (tr : Nat)
  /-- In the `select` with the error. -/
  | reporting
  /-- `activate` returned a session: before `untrackListen`, and in the `select`. -/
  | activated (tr : Nat)
  | sending (tr : Nat)
  | returned
deriving DecidableEq

/-- Where the body of `Close` is. -/
inductive Closing
  | idle
  | cancelled
  | controlClosed
  | returned
deriving DecidableEq

/-- `Listener`. -/
structure State where
  /-- `l.ctx` is done. -/
  cancelled : Bool
  /-- `l.parked`, `none` for nil. -/
  parked : Option (List Nat)
  accepted : List AcceptResult
  workers : List Worker
  closing : Closing
  controlClosed : Bool
  /-- How many listen connections have been dialled. -/
  made : Nat
  /-- Connections that `Close` found tracked, and that a worker closed. -/
  (shut closed : List Nat)
  /-- Connections whose session a worker closed, and whose session an `Accept` returned. -/
  (sessionClosed given : List Nat)

/-- The listener that `Register` returns, with a pool of any size. -/
def start (pool : Nat) : State :=
  { cancelled := false, parked := some [], accepted := [], workers := List.replicate pool .top, closing := .idle,
    controlClosed := false, made := 0, shut := [], closed := [], sessionClosed := [], given := [] }

inductive Event
  /-- A worker looks at the condition of its loop. -/
  | loops (w : Nat)
  /-- Its `dialListen` returns. -/
  | dials (w : Nat) (ok : Bool)
  /-- The timer of its backoff. -/
  | retries (w : Nat)
  | tracks (w : Nat)
  /-- Its `activate` returns. -/
  | activates (w : Nat) (ok : Bool)
  | untracks (w : Nat)
  /-- `tr.Close` and the look at the context after it. -/
  | closes (w : Nat)
  /-- The send of a `select`. -/
  | sends (w : Nat)
  /-- The branch `<-l.ctx.Done()` of a `select`. -/
  | quits (w : Nat)
  /-- An `Accept` receives. -/
  | accept
  | close
  | closesControl
  /-- The section of `Close` under the lock. -/
  | closesParked
  /-- The context given to `Register` ends. -/
  | parentEnds

section
variable (s : State) (w : Nat)

def State.goto (x : Worker) : State := { s with workers := s.workers.set w x }

def State.loops : State :=
  if s.workers[w]? = some .top then s.goto w (if s.cancelled then .returned else .dialing) else s

def State.dials (ok : Bool) : State :=
  if s.workers[w]? = some .dialing then
    if ok then { s.goto w (.dialled s.made) with made := s.made + 1 }
    else s.goto w (if s.cancelled then .returned else .backoff)
  else s

def State.retries : State := if s.workers[w]? = some .backoff then s.goto w .top else s

/-- `trackListen`. -/
def State.tracks : State :=
  match s.workers[w]? with
  | some (.dialled tr) => { s.goto w (.activating tr) with parked := s.parked.map (tr :: ·) }
  | _ => s

def State.activates (ok : Bool) : State :=
  match s.workers[w]? with
  | some (.activating tr) => s.goto w (if ok then .activated tr else .failed tr)
  | _ => s

/-- `untrackListen`. -/
def State.untracks : State :=
  match s.workers[w]? with
  | some (.failed tr) => { s.goto w (.untracked tr) with parked := s.parked.map (·.erase tr) }
  | some (.activated tr) => { s.goto w (.sending tr) with parked := s.parked.map (·.erase tr) }
  | _ => s

def State.closes : State :=
  match s.workers[w]? with
  | some (.untracked tr) =>
    { s.goto w (if s.cancelled then .returned else .reporting) with closed := tr :: s.closed }
  | _ => s

def State.sends : State :=
  if s.accepted.length < acceptedCap then
    match s.workers[w]? with
    | some .reporting => { s.goto w .top with accepted := s.accepted ++ [.err] }
    | some (.sending tr) => { s.goto w .top with accepted := s.accepted ++ [.session tr] }
    | _ => s
  else s

def State.quits : State :=
  if s.cancelled then
    match s.workers[w]? with
    | some .backoff => s.goto w .returned
    | some .reporting => s.goto w .returned
    | some (.sending tr) => { s.goto w .returned with sessionClosed := tr :: s.sessionClosed }
    | _ => s
  else s

/-- `Listener.Accept`. -/
def State.accept : State :=
  match s.accepted with
  | .session tr :: rest => { s with accepted := rest, given := tr :: s.given }
  | .err :: rest => { s with accepted := rest }
  | [] => s

/-- `Listener.Close`. -/
def State.close : State := if s.closing = .idle then { s with closing := .cancelled, cancelled := true } else s

def State.closesControl : State :=
  if s.closing = .cancelled then { s with closing := .controlClosed, controlClosed := true } else s

def State.closesParked : State :=
  if s.closing = .controlClosed then
    { s with closing := .returned, shut := s.parked.getD [] ++ s.shut, parked := none }
  else s

end

/-- The steps are those of `Accept`, `Close` and `acceptWorker`. -/
def step (s : State) : Event → State × Unit
  | .loops w => (s.loops w,())
  | .dials w ok => (s.dials w ok,())
  | .retries w => (s.retries w,())
  | .tracks w => (s.tracks w,())
  | .activates w ok => (s.activates w ok,())
  | .untracks w => (s.untracks w,())
  | .closes w => (s.closes w,())
  | .sends w => (s.sends w,())
  | .quits w => (s.quits w,())
  | .accept => (s.accept,())
  | .close => (s.close,())
  | .closesControl => (s.closesControl,())
  | .closesParked => (s.closesParked,())
  | .parentEnds => ({ s with cancelled := true },())

def State.isClosed (s : State) (tr : Nat) : Prop := tr ∈ s.shut ∨ tr ∈ s.closed ∨ tr ∈ s.sessionClosed
deriving Decidable

def State.rests (s : State) : Worker → Prop
  | .returned => True
  | .activating tr => ¬ s.isClosed tr
  | _ => False

instance (s : State) : (x : Worker) → Decidable (s.rests x)
  | .returned => .isTrue trivial
  | .activating tr => inferInstanceAs (Decidable (¬ s.isClosed tr))
  | .top | .dialing | .backoff | .dialled _ | .failed _ | .untracked _ | .reporting | .activated _ | .sending _ =>
    .isFalse id

/-- `Close` has returned and no worker has a step of its own left. -/
def State.settled (s : State) : Prop := s.closing = .returned ∧ ∀ x ∈ s.workers, s.rests x
deriving Decidable

def State.isActivated (s : State) (tr : Nat) : Prop :=
  .activated tr ∈ s.workers ∨ .sending tr ∈ s.workers ∨ .session tr ∈ s.accepted ∨ tr ∈ s.given ∨ tr ∈ s.sessionClosed
deriving Decidable

/-- Every connection is closed or in a session that an `Accept` returned, and every other session is closed. -/
def State.released (s : State) : Prop :=
  ∀ tr < s.made, (s.isClosed tr ∨ tr ∈ s.given) ∧ (s.isActivated tr → tr ∈ s.given ∨ tr ∈ s.sessionClosed)

instance (s : State) : Decidable s.released := inferInstanceAs (Decidable (∀ tr < s.made, _))

def State.drained (s : State) : Prop := (∀ r ∈ s.accepted, r = .err) ∧ ∀ x ∈ s.workers, x = .returned
deriving Decidable

def Worker.conn : Worker → Option Nat
  | .dialled tr | .activating tr | .failed tr | .untracked tr | .activated tr | .sending tr => some tr
  | .top | .dialing | .backoff | .reporting | .returned => none

def Worker.holds (tr : Nat) (x : Worker) : Nat := held x.conn tr

theorem count_session_cons (conn : Nat) (results : List AcceptResult) (tr : Nat) :
    (AcceptResult.session conn :: results).count (.session tr) = results.count (.session tr) + held (some conn) tr := by
  rw [count_cons,held_some]
  simp [AcceptResult.session.injEq]

def stored (s : State) (tr : Nat) : Nat :=
  s.accepted.count (.session tr) + s.given.count tr + s.closed.count tr + s.sessionClosed.count tr

def places (s : State) (tr : Nat) : Nat := (s.workers.map (Worker.holds tr)).sum + stored s tr

def Consistent (s : State) : Prop := InCustody (places s) s.made

theorem consistent_start (pool : Nat) : Consistent (start pool) := by
  intro tr
  simp [places,stored,start,Worker.holds,Worker.conn]

section
variable {s : State} {w : Nat} {x : Worker}

theorem places_handed (found : s.workers[w]? = some x) {new t}
    (workers : t.workers = s.workers.set w new) (tr : Nat) :
    places t tr + stored s tr + held x.conn tr = places s tr + stored t tr + held new.conn tr := by
  have change := sum_map_set (Worker.holds tr) found new
  simp only [Worker.holds] at change
  simp only [places,workers]
  omega

section
variable (old : Consistent s)
include old

theorem Consistent.handed (found : s.workers[w]? = some x) {new t}
    (workers : t.workers = s.workers.set w new) (made : t.made = s.made)
    (same : ∀ tr, stored t tr + held new.conn tr = stored s tr + held x.conn tr) : Consistent t := by
  rw [Consistent,made]
  refine old.moved (fun tr => ?_)
  have change := places_handed found workers tr
  have moved := same tr
  omega

theorem Consistent.goto (found : s.workers[w]? = some x) {new} (same : new.conn = x.conn) :
    Consistent (s.goto w new) :=
  old.handed found rfl rfl (fun tr => by rw [same]; rfl)

theorem consistent_dials (w : Nat) (ok : Bool) : Consistent (s.dials w ok) := by
  refine of_guard old (fun here => ?_)
  cases ok with
  | true =>
    refine old.grown (fun tr => ?_)
    have change := places_handed here (t := s.goto w (.dialled s.made)) rfl tr
    simp only [Worker.conn,held_none] at change
    show places (s.goto w (.dialled s.made)) tr = _
    have same : stored (s.goto w (.dialled s.made)) tr = stored s tr := rfl
    omega
  | false => exact old.goto here (by split <;> rfl)

theorem consistent_closes (w : Nat) : Consistent (s.closes w) := by
  unfold State.closes
  split
  next conn here =>
    refine old.handed here rfl rfl (fun tr => ?_)
    have without : held (if s.cancelled then Worker.returned else .reporting).conn tr = 0 := by split <;> rfl
    rw [without]
    simp only [stored,State.goto,count_cons_held,Worker.conn]
    omega
  next => exact old

theorem consistent_sends (w : Nat) : Consistent (s.sends w) := by
  refine of_guard old (fun _ => ?_)
  split
  next here =>
    refine old.handed here rfl rfl (fun tr => ?_)
    simp [stored,State.goto,Worker.conn]
  next conn here =>
    refine old.handed here rfl rfl (fun tr => ?_)
    simp only [stored,State.goto,Worker.conn,count_append,count_session_cons,count_nil,held_none]
    omega
  next => exact old

theorem consistent_quits (w : Nat) : Consistent (s.quits w) := by
  refine of_guard old (fun _ => ?_)
  split
  next here => exact old.goto here rfl
  next here => exact old.goto here rfl
  next conn here =>
    refine old.handed here rfl rfl (fun tr => ?_)
    simp only [stored,State.goto,Worker.conn,count_cons_held,held_none]
    omega
  next => exact old

theorem consistent_accept : Consistent s.accept := by
  unfold State.accept
  split
  next conn rest waiting =>
    refine old.moved (fun tr => ?_)
    have first := count_session_cons conn rest tr
    simp only [places,stored,waiting,first,count_cons_held]
    omega
  next rest waiting =>
    refine old.moved (fun tr => ?_)
    simp [places,stored,waiting]
  next => exact old

theorem consistent_step (e : Event) : Consistent (step s e).1 := by
  cases e with
  | loops w => exact of_guard old (fun here => old.goto here (by split <;> rfl))
  | dials w ok => exact consistent_dials old w ok
  | retries w => exact of_guard old (fun here => old.goto here rfl)
  | tracks w =>
    simp only [step,State.tracks]
    split
    next tr here => exact old.handed here rfl rfl (fun _ => rfl)
    next => exact old
  | activates w ok =>
    simp only [step,State.activates]
    split
    next tr here => exact old.goto here (by split <;> rfl)
    next => exact old
  | untracks w =>
    simp only [step,State.untracks]
    split
    next tr here => exact old.handed here rfl rfl (fun _ => rfl)
    next tr here => exact old.handed here rfl rfl (fun _ => rfl)
    next => exact old
  | closes w => exact consistent_closes old w
  | sends w => exact consistent_sends old w
  | quits w => exact consistent_quits old w
  | accept => exact consistent_accept old
  | close | closesControl | closesParked => exact of_guard old (fun _ => old)
  | parentEnds => exact old

theorem Consistent.of_workers {v tr y} (found : s.workers[w]? = some x) (has : x.conn = some tr)
    (apart : v ≠ w) (foundOther : s.workers[v]? = some y) : y.conn ≠ some tr := by
  intro same
  have still : (s.workers.set w .returned)[v]? = some y := by rw [getElem?_set_ne apart.symm,foundOther]
  have part := le_sum_map (Worker.holds tr) (mem_of_getElem? still)
  have change := sum_map_set (Worker.holds tr) found .returned
  have oneX : Worker.holds tr x = 1 := by rw [Worker.holds,has]; exact if_pos rfl
  have oneY : Worker.holds tr y = 1 := by rw [Worker.holds,same]; exact if_pos rfl
  have nothing : Worker.holds tr .returned = 0 := rfl
  have most := old.atMost tr
  rw [places] at most
  omega

end

end

theorem consistent_final (pool : Nat) (events : List Event) : Consistent (final step (start pool) events) :=
  final_kept (I := Consistent) (fun _ e old => consistent_step old e) (consistent_start pool) events

theorem released_of_drained {s} (old : Consistent s) (drained : s.drained) : s.released := by
  obtain ⟨empty,returned⟩ := drained
  intro tr inside
  have noSession : .session tr ∉ s.accepted := fun waiting => nomatch empty _ waiting
  have idle : (s.workers.map (Worker.holds tr)).sum = 0 := sum_map_zero (fun x mem => by rw [returned x mem]; rfl)
  have one := old.one inside
  rw [places,stored,idle,count_eq_zero.mpr noSession] at one
  refine ⟨?_,?_⟩
  · by_contra lost
    simp only [State.isClosed,not_or] at lost
    rw [count_eq_zero.mpr lost.2,count_eq_zero.mpr lost.1.2.1,count_eq_zero.mpr lost.1.2.2] at one
    cases one
  · rintro (activated | sending | waiting | given | closed)
    · exact nomatch returned _ activated
    · exact nomatch returned _ sending
    · exact absurd waiting noSession
    · exact Or.inl given
    · exact Or.inr closed

def leftInChannel : List Event :=
  [.loops 0,.dials 0 true,.tracks 0,.activates 0 true,.untracks 0,.close,.sends 0,.loops 0,.closesControl,.closesParked]

def trackedLate : List Event :=
  [.loops 0,.dials 0 true,.close,.closesControl,.closesParked,.tracks 0]

/-- In the first run the session is left open in the channel, in the second the connection is left open with its
    worker. -/
theorem late_connections_leak :
    (final step (start 1) leftInChannel).settled ∧ (final step (start 1) leftInChannel).isActivated 0 ∧
      0 ∉ (final step (start 1) leftInChannel).given ∧ ¬ (final step (start 1) leftInChannel).isClosed 0 ∧
      ¬ (final step (start 1) leftInChannel).released ∧ (final step (start 1) trackedLate).settled ∧
      ¬ (final step (start 1) trackedLate).isClosed 0 ∧ 0 ∉ (final step (start 1) trackedLate).given ∧
      ¬ (final step (start 1) trackedLate).released := by
  decide

def InTime (s : State) : Event → Prop
  | .tracks w => ∀ tr, s.workers[w]? = some (.dialled tr) → s.parked ≠ none
  | _ => True

/-- Where `Close` finds a connection, or has found it. -/
def State.watches (s : State) (tr : Nat) : Prop :=
  match s.parked with
  | some parked => tr ∈ parked
  | none => tr ∈ s.shut

def Watched (s : State) : Prop := ∀ v tr : Nat, s.workers[v]? = some (.activating tr) → s.watches tr

def Worker.left : Worker → Nat
  | .dialing => 7
  | .dialled _ => 6
  | .activating _ => 5
  | .failed _ | .activated _ => 4
  | .untracked _ | .sending _ => 3
  | .backoff | .reporting => 2
  | .top => 1
  | .returned => 0

def State.left (s : State) : Nat := (s.workers.map Worker.left).sum

def Nearer (s t : State) : Prop := t.workers = s.workers ∨ t.left < s.left

/-- `Close` does not leave a list of tracked connections behind. -/
def Forgotten (s : State) : Prop := s.closing = .returned → s.parked = none

/-- The tracked connections after a step that takes a worker from `x` to `y`. -/
inductive Parks (s : State) (e : Event) (x y : Worker) : Option (List Nat) → Prop
  | kept (other : ∀ tr, y ≠ .activating tr) : Parks s e x y s.parked
  | tracked {tr : Nat} (here : y = .activating tr) (inTime : InTime s e → s.parked ≠ none) :
    Parks s e x y (s.parked.map (tr :: ·))
  | untracked {tr : Nat} (has : x.conn = some tr) (other : ∀ tr, y ≠ .activating tr) :
    Parks s e x y (s.parked.map (·.erase tr))

/-- What a step does: it leaves the workers alone, it is the last section of `Close`, or it takes one worker on,
    nearer to its end once the listener is cancelled. -/
inductive Acts (s : State) (e : Event) (t : State) : Prop
  | aside (workers : t.workers = s.workers) (same : (t.parked,t.shut) = (s.parked,s.shut))
      (cancelled : s.cancelled = true → t.cancelled = true) (closing : t.closing = .returned → s.closing = .returned)
  | shuts (workers : t.workers = s.workers) (cancelled : t.cancelled = s.cancelled) (parked : t.parked = none)
      (shut : t.shut = s.parked.getD [] ++ s.shut)
  | takes {w : Nat} {x y : Worker} (found : s.workers[w]? = some x) (workers : t.workers = s.workers.set w y)
      (same : (t.cancelled,t.closing,t.shut) = (s.cancelled,s.closing,s.shut))
      (less : s.cancelled = true → y.left < x.left) (parks : Parks s e x y t.parked)

theorem acts_step (s : State) (e : Event) : Acts s e (step s e).1 := by
  have still : Acts s e s := .aside rfl rfl id id
  cases e with
  | loops w =>
    refine of_guard (P := Acts s _) still (fun here => .takes here rfl rfl (fun ended => ?_) (.kept ?_))
    · simp [ended,Worker.left]
    · split <;> exact nofun
  | dials w ok =>
    refine of_guard (P := Acts s _) still (fun here => ?_)
    cases ok with
    | true => exact .takes here rfl rfl (fun _ => Nat.lt_succ_self 6) (.kept nofun)
    | false =>
      refine .takes here rfl rfl (fun ended => ?_) (.kept ?_)
      · simp [ended,Worker.left]
      · split <;> exact nofun
  | retries w =>
    exact of_guard (P := Acts s _) still (fun here => .takes here rfl rfl (fun _ => Nat.lt_succ_self 1) (.kept nofun))
  | tracks w =>
    simp only [step,State.tracks]
    split
    next tr here =>
      exact .takes here rfl rfl (fun _ => Nat.lt_succ_self 5) (.tracked rfl (fun inTime => inTime tr here))
    next => exact still
  | activates w ok =>
    simp only [step,State.activates]
    split
    next here =>
      refine .takes here rfl rfl (fun _ => ?_) (.kept ?_)
      · split <;> exact Nat.lt_succ_self 4
      · split <;> exact nofun
    next => exact still
  | untracks w =>
    simp only [step,State.untracks]
    split
    next here => exact .takes here rfl rfl (fun _ => Nat.lt_succ_self 3) (.untracked rfl nofun)
    next here => exact .takes here rfl rfl (fun _ => Nat.lt_succ_self 3) (.untracked rfl nofun)
    next => exact still
  | closes w =>
    simp only [step,State.closes]
    split
    next here =>
      refine .takes here rfl rfl (fun ended => ?_) (.kept ?_)
      · simp [ended,Worker.left]
      · split <;> exact nofun
    next => exact still
  | sends w =>
    refine of_guard (P := Acts s _) still (fun _ => ?_)
    split
    next here => exact .takes here rfl rfl (fun _ => Nat.lt_succ_self 1) (.kept nofun)
    next here => exact .takes here rfl rfl (fun _ => Nat.succ_lt_succ Nat.two_pos) (.kept nofun)
    next => exact still
  | quits w =>
    refine of_guard (P := Acts s _) still (fun _ => ?_)
    split
    next here => exact .takes here rfl rfl (fun _ => Nat.two_pos) (.kept nofun)
    next here => exact .takes here rfl rfl (fun _ => Nat.two_pos) (.kept nofun)
    next here => exact .takes here rfl rfl (fun _ => Nat.zero_lt_succ 2) (.kept nofun)
    next => exact still
  | accept =>
    simp only [step,State.accept]
    split <;> exact .aside rfl rfl id id
  | close => exact of_guard (P := Acts s _) still (fun _ => .aside rfl rfl (fun _ => rfl) nofun)
  | closesControl => exact of_guard (P := Acts s _) still (fun _ => .aside rfl rfl id nofun)
  | closesParked => exact of_guard (P := Acts s _) still (fun _ => .shuts rfl rfl rfl rfl)
  | parentEnds => exact .aside rfl rfl (fun _ => rfl) id

section
variable {s t : State} {e : Event} (acts : Acts s e t)
include acts

theorem watched_of_acts (kept : Consistent s) (old : Watched s) (inTime : InTime s e) : Watched t := by
  intro v tr found
  cases acts with
  | aside workers same _ _ =>
    obtain ⟨parked,shut⟩ := Prod.mk.inj same
    rw [State.watches,parked,shut]
    exact old v tr (workers ▸ found)
  | shuts workers _ parked shut =>
    have listed := old v tr (workers ▸ found)
    rw [State.watches] at listed
    rw [State.watches,parked,shut]
    cases tracked : s.parked with
    | none => simpa [tracked] using listed
    | some list => exact mem_append_left _ (by simpa [tracked] using listed)
  | @takes w x y here workers same _ parks =>
    obtain ⟨-,-,shut⟩ : t.cancelled = s.cancelled ∧ t.closing = s.closing ∧ t.shut = s.shut := by simpa using same
    rw [workers] at found
    rw [State.watches,shut]
    generalize t.parked = after at parks
    rcases getElem?_set_cases found with ⟨-,same⟩ | ⟨apart,before⟩
    · cases parks with
      | kept other => exact absurd same.symm (other tr)
      | untracked _ other => exact absurd same.symm (other tr)
      | tracked here late =>
        obtain ⟨list,tracked⟩ := Option.ne_none_iff_exists'.mp (late inTime)
        cases same.trans here
        rw [tracked]
        exact mem_cons_self
    · have listed := old v tr before
      rw [State.watches] at listed
      cases parks with
      | kept => exact listed
      | tracked _ late =>
        obtain ⟨list,tracked⟩ := Option.ne_none_iff_exists'.mp (late inTime)
        rw [tracked] at listed ⊢
        exact mem_cons_of_mem _ listed
      | @untracked conn has =>
        -- no other worker has the connection that is dropped from the list
        have different : tr ≠ conn := by
          rintro rfl
          exact kept.of_workers here has apart before rfl
        cases tracked : s.parked with
        | none => simpa [tracked] using listed
        | some list => exact (mem_erase_of_ne different).mpr (by simpa [tracked] using listed)

theorem forgotten_of_acts (old : Forgotten s) : Forgotten t := by
  intro returned
  cases acts with
  | aside _ same _ closing => exact (congrArg Prod.fst same).trans (old (closing returned))
  | shuts _ _ parked _ => exact parked
  | takes _ _ same _ parks =>
    have before := old ((congrArg (·.2.1) same).symm.trans returned)
    generalize t.parked = after at parks
    cases parks <;> simp [before]

theorem cancelled_of_acts (cancelled : s.cancelled) : t.cancelled := by
  cases acts with
  | aside _ _ stays _ => exact stays cancelled
  | shuts _ same _ _ => exact same.trans cancelled
  | takes _ _ same _ _ => exact (congrArg Prod.fst same).trans cancelled

theorem nearer_of_acts (cancelled : s.cancelled) : Nearer s t := by
  cases acts with
  | aside workers _ _ _ => exact .inl workers
  | shuts workers _ _ _ => exact .inl workers
  | @takes w x y found workers _ less _ =>
    have change := sum_map_set Worker.left found y
    have nearer := less cancelled
    refine .inr ?_
    rw [State.left,State.left,workers]
    omega

end

section
variable {pool : Nat} {events : List Event}

theorem watched_final (inTime : Along step InTime (start pool) events) : Watched (final step (start pool) events) := by
  refine (final_invariant (I := fun s => Consistent s ∧ Watched s) ?_ ⟨consistent_start pool,?_⟩ inTime).2
  · rintro s e ⟨kept,old⟩ inTime
    exact ⟨consistent_step kept e,watched_of_acts (acts_step s e) kept old inTime⟩
  · intro v tr found
    have top := eq_of_mem_replicate (mem_of_getElem? found)
    cases top

theorem forgotten_final : Forgotten (final step (start pool) events) :=
  final_kept (I := Forgotten) (fun s e old => forgotten_of_acts (acts_step s e) old) (by simp [Forgotten,start]) events

end

theorem returned_of_watched {s} (watched : Watched s) (forgotten : Forgotten s) (settled : s.settled) :
    ∀ x ∈ s.workers, x = .returned := by
  intro x mem
  obtain ⟨v,inside,found⟩ := getElem_of_mem mem
  have rests := settled.2 x mem
  cases x with
  | returned => rfl
  | activating tr =>
    have listed := watched v tr (List.getElem?_eq_some_iff.mpr ⟨inside,found⟩)
    rw [State.watches,forgotten settled.1] at listed
    exact absurd (Or.inl listed) rests
  | top | dialing | backoff | dialled | failed | untracked | reporting | activated | sending => exact absurd rests id

/-- In a run in time no worker is left waiting. -/
theorem none_waits (pool : Nat) (events : List Event) (inTime : Along step InTime (start pool) events)
    (settled : (final step (start pool) events).settled) :
    ∀ x ∈ (final step (start pool) events).workers, x = .returned :=
  returned_of_watched (watched_final inTime) forgotten_final settled

def trackedInTime : List Event :=
  [.loops 0,.dials 0 true,.tracks 0,.close,.closesControl,.closesParked,.activates 0 false,.untracks 0,.closes 0]

theorem tracked_in_time_returns : (final step (start 1) trackedInTime).made = 1 ∧
    ∀ x ∈ (final step (start 1) trackedInTime).workers, x = .returned :=
  ⟨rfl,none_waits 1 trackedInTime ⟨trivial,trivial,fun _ _ => nofun,trivial,trivial,trivial,trivial,trivial,trivial,trivial⟩
    (by decide)⟩

/-- No session is in the channel when the listener is cancelled, none is sent afterwards, and no connection is tracked
    when `Close` has taken the list. -/
def OnTime (s : State) : Event → Prop
  | .tracks w => InTime s (.tracks w)
  | .sends w => ∀ tr, s.workers[w]? = some (.sending tr) → s.cancelled = false
  | .close | .parentEnds => ∀ r ∈ s.accepted, r = .err
  | .loops _ | .dials _ _ | .retries _ | .activates _ _ | .untracks _ | .closes _ | .quits _ | .accept | .closesControl
  | .closesParked => True

theorem OnTime.inTime {s e} (onTime : OnTime s e) : InTime s e := by
  cases e with
  | tracks w => exact onTime
  | _ => trivial

structure Swept (s : State) : Prop where
  cancelled : s.closing ≠ .idle → s.cancelled = true
  empty : s.cancelled = true → ∀ r ∈ s.accepted, r = .err

theorem Swept.moved {s t} (old : Swept s)
    (same : (t.closing,t.cancelled,t.accepted) = (s.closing,s.cancelled,s.accepted)) : Swept t := by
  simp only [Prod.mk.injEq] at same
  refine ⟨?_,?_⟩
  · rw [same.1,same.2.1]
    exact old.cancelled
  · rw [same.2.1,same.2.2]
    exact old.empty

theorem swept_step {s e} (old : Swept s) (onTime : OnTime s e) : Swept (step s e).1 := by
  cases e with
  | loops w | retries w => exact of_guard old (fun _ => old.moved rfl)
  | dials w ok => exact of_guard old (fun _ => by cases ok <;> exact old.moved rfl)
  | tracks w | activates w ok | untracks w | closes w =>
    simp only [step,State.tracks,State.activates,State.untracks,State.closes]
    split <;> exact old.moved rfl
  | sends w =>
    refine of_guard old (fun _ => ?_)
    split
    next here =>
      refine ⟨old.cancelled,fun cancelled r mem => ?_⟩
      rcases mem_snoc.mp mem with before | rfl
      · exact old.empty cancelled r before
      · rfl
    next tr here =>
      exact ⟨old.cancelled,fun cancelled => absurd (cancelled.symm.trans (onTime tr here)) nofun⟩
    next => exact old
  | quits w =>
    refine of_guard old (fun _ => ?_)
    split <;> exact old.moved rfl
  | accept =>
    simp only [step,State.accept]
    split
    next waiting =>
      refine ⟨old.cancelled,fun cancelled r mem => old.empty cancelled r ?_⟩
      exact waiting ▸ mem_cons_of_mem _ mem
    next waiting =>
      refine ⟨old.cancelled,fun cancelled r mem => old.empty cancelled r ?_⟩
      exact waiting ▸ mem_cons_of_mem _ mem
    next => exact old
  | close => exact of_guard old (fun _ => ⟨fun _ => rfl,fun _ => onTime⟩)
  | closesControl | closesParked =>
    exact of_guard old (fun here => ⟨fun _ => old.cancelled (by rw [here]; exact nofun),old.empty⟩)
  | parentEnds => exact ⟨fun _ => rfl,fun _ => onTime⟩

/-- When `Close` has returned and no worker has a step left, every connection is closed or was returned by an `Accept`,
    and so is every session, if all steps were in time. -/
theorem shutdown_releases (pool : Nat) (events : List Event) (onTime : Along step OnTime (start pool) events)
    (settled : (final step (start pool) events).settled) : (final step (start pool) events).released := by
  have inTime : Along step InTime (start pool) events := along_mono (fun _ _ meets => meets.inTime) onTime
  have swept : Swept (final step (start pool) events) :=
    final_invariant (I := Swept) (fun _ _ => swept_step) ⟨fun moved => absurd rfl moved,nofun⟩ onTime
  refine released_of_drained (consistent_final pool events) ⟨swept.empty (swept.cancelled ?_),?_⟩
  · rw [settled.1]
    exact nofun
  · exact returned_of_watched (watched_final inTime) forgotten_final settled

def closedInTime : List Event :=
  [.loops 0,.dials 0 true,.tracks 0,.activates 0 true,.untracks 0,.sends 0,.accept,.loops 0,.dials 0 true,.tracks 0,
    .close,.closesControl,.closesParked,.activates 0 false,.untracks 0,.closes 0]

theorem closed_in_time_drains :
    (final step (start 1) closedInTime).settled ∧ (final step (start 1) closedInTime).made = 2 ∧
      (final step (start 1) closedInTime).released := by
  refine ⟨by decide,by decide,shutdown_releases 1 closedInTime ?_ (by decide)⟩
  exact ⟨trivial,trivial,fun _ _ => nofun,trivial,trivial,fun _ _ => rfl,trivial,trivial,trivial,fun _ _ => nofun,
    nofun,trivial,trivial,trivial,trivial,trivial,trivial⟩

def moves (s : State) : List Event → Nat
  | [] => 0
  | e :: rest => (if (step s e).1.workers = s.workers then 0 else 1) + moves (step s e).1 rest

/-- After the end of the context the workers take at most `left` steps. -/
theorem moves_le {s : State} (cancelled : s.cancelled = true) (events : List Event) : moves s events ≤ s.left := by
  induction events generalizing s with
  | nil => exact Nat.zero_le _
  | cons e rest ih =>
    have later := ih (cancelled_of_acts (acts_step s e) cancelled)
    rw [moves]
    split
    next same =>
      have unchanged : (step s e).1.left = s.left := by rw [State.left,State.left,same]
      omega
    next moved =>
      have less := (nearer_of_acts (acts_step s e) cancelled).resolve_left moved
      omega

theorem cancelled_dialing_ends : (final step (start 1) [.loops 0,.close]).left = 7 ∧
    moves (final step (start 1) [.loops 0,.close]) (trackedInTime.drop 1) ≤ (final step (start 1) [.loops 0,.close]).left :=
  ⟨rfl,moves_le rfl (trackedInTime.drop 1)⟩

end Pigeon.ListenerClose
