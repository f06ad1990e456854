import Pigeon.Runs

/-!
Closing a pairing ceremony of the Go library (`pairing.go`) while its acceptor runs. `Close`
closes the session that is published when it takes its snapshot; one that is published later,
or that the listener yields after it, is closed by nobody (`close_releases_iff`).
-/
namespace Pigeon.CeremonyClose
open Runs

inductive Acceptor
  /-- In `listener.Accept`. -/
  | accepting
  /-- The session is a local variable. -/
  | holding
  /-- In `AcceptStream`. -/
  | published
  /-- In `runAcceptorOnStream`. -/
  | onStream
  | finished
deriving DecidableEq

/-- Where `Close` is. -/
inductive Closer
  | idle
  | locked
  | cancelled
  | sessionDone
  | finished
deriving DecidableEq

/-- `Ceremony`. -/
structure State where
  acceptor : Acceptor
  closer : Closer
  /-- `cer.sess` has been set. -/
  sess : Bool
  /-- The local `sess` of `Close` is a session; `none` before it is read. -/
  snapshot : Option Bool
  /-- The context of the ceremony is done. -/
  cancelled : Bool
  /-- The listener has yielded a session. -/
  (obtained sessionClosed listenerClosed : Bool)

/-- `newCeremony` in `Pairer.Accept`. -/
def start : State := ⟨.accepting,.idle,false,none,false,false,false,false⟩

inductive Event
  /-- `listener.Accept` returns a session: its `select` may take one that waits even if the context is done. -/
  | accepts
  /-- It returns an error: the context or the listener's is done, or a client failed. -/
  | acceptFails
  | publishes
  | streamArrives
  | streamFails
  /-- The driver on the stream returns. -/
  | ends
  /-- The section of `Close` under the lock. -/
  | close
  | cancels
  | closesSession
  | closesListener
  /-- The parent context ends (`Pairer.Close`). -/
  | parentEnds

/-- The steps of `Ceremony.Close` and of the goroutine that accepts. -/
def step (s : State) : Event → State × Unit
  | .accepts => (if s.acceptor = .accepting then { s with acceptor := .holding, obtained := true } else s,())
  | .acceptFails => (if s.acceptor = .accepting then { s with acceptor := .finished } else s,())
  | .publishes => (if s.acceptor = .holding then { s with acceptor := .published, sess := true } else s,())
  | .streamArrives => (if s.acceptor = .published then { s with acceptor := .onStream } else s,())
  | .streamFails => (if s.acceptor = .published then { s with acceptor := .finished } else s,())
  | .ends => (if s.acceptor = .onStream then { s with acceptor := .finished } else s,())
  | .close => (if s.closer = .idle then { s with closer := .locked, snapshot := some s.sess } else s,())
  | .cancels => (if s.closer = .locked then { s with closer := .cancelled, cancelled := true } else s,())
  | .closesSession =>
    (if s.closer = .cancelled then
      { s with closer := .sessionDone, sessionClosed := s.sessionClosed || s.snapshot = some true }
    else s,())
  | .closesListener => (if s.closer = .sessionDone then { s with closer := .finished, listenerClosed := true } else s,())
  | .parentEnds => ({ s with cancelled := true },())

def OnTime (s : State) : Event → Prop
  | .accepts => s.acceptor = .accepting → s.closer = .idle
  | .close => s.closer = .idle → s.acceptor ≠ .holding
  | _ => True

instance (s : State) : (e : Event) → Decidable (OnTime s e)
  | .accepts | .close => inferInstanceAs (Decidable (_ → _))
  | .acceptFails | .publishes | .streamArrives | .streamFails | .ends | .cancels | .closesSession | .closesListener
  | .parentEnds => .isTrue trivial

def State.over (s : State) : Prop := s.closer = .finished ∧ s.acceptor = .finished
deriving Decidable

def State.released (s : State) : Prop := (s.obtained = true → s.sessionClosed = true) ∧ s.listenerClosed = true
deriving Decidable

structure Consistent (s : State) : Prop where
  waiting : s.acceptor = .accepting → s.obtained = false
  holding : s.acceptor = .holding → s.obtained = true
  published : s.sess = true ↔ s.obtained = true ∧ s.acceptor ≠ .holding
  idle : s.closer = .idle ↔ s.snapshot = none
  seen : s.snapshot = some true → s.sess = true
  closes : s.sessionClosed = true ↔ s.snapshot = some true ∧ (s.closer = .sessionDone ∨ s.closer = .finished)
  finished : s.closer = .finished → s.listenerClosed = true

theorem consistent_start : Consistent start := by
  constructor <;> simp [start]

section
variable {s : State} (kept : Consistent s)
include kept

theorem consistent_later {here next} (at_here : s.acceptor = here) (unheld : here ≠ .holding)
    (later : next ≠ .accepting ∧ next ≠ .holding) : Consistent { s with acceptor := next } := by
  subst at_here
  refine ⟨fun same => absurd same later.1,fun same => absurd same later.2,?_,kept.idle,kept.seen,kept.closes,
    kept.finished⟩
  rw [kept.published]
  simp [unheld,later.2]

theorem read_of_busy {here} (at_here : s.closer = here) (busy : here ≠ .idle) : s.snapshot ≠ none := by
  intro unread
  exact busy (at_here.symm.trans (kept.idle.mpr unread))

theorem unclosed_of_early {here} (at_here : s.closer = here) (early : here ≠ .sessionDone ∧ here ≠ .finished) :
    s.sessionClosed = false := by
  subst at_here
  rw [← Bool.not_eq_true,kept.closes]
  simp [early.1,early.2]

theorem consistent_step (e : Event) : Consistent (step s e).1 := by
  obtain ⟨waiting,holding,published,idle,seen,closes,finished⟩ := id kept
  cases e with
  | accepts =>
    refine of_guard kept (fun here => ?_)
    have unset : s.sess ≠ true := by
      rw [Ne,published,waiting here]
      simp
    exact ⟨by simp,by simp,by simp [unset],idle,seen,closes,finished⟩
  | publishes =>
    refine of_guard kept (fun here => ?_)
    exact ⟨by simp,by simp,by simp [holding here],idle,by simp,closes,finished⟩
  | acceptFails | streamArrives | streamFails | ends =>
    exact of_guard kept (fun here => consistent_later kept here (by decide) (by decide))
  | close =>
    refine of_guard kept (fun here => ?_)
    have unclosed := unclosed_of_early kept here (by decide)
    exact ⟨waiting,holding,published,by simp,by simp,by simp [unclosed],by simp⟩
  | cancels | closesSession =>
    refine of_guard kept (fun here => ?_)
    have read := read_of_busy kept here (by decide)
    have unclosed := unclosed_of_early kept here (by decide)
    exact ⟨waiting,holding,published,by simp [read],seen,by simp [unclosed],by simp⟩
  | closesListener =>
    refine of_guard kept (fun here => ?_)
    have read := read_of_busy kept here (by decide)
    exact ⟨waiting,holding,published,by simp [read],seen,by simp [closes,here],by simp⟩
  | parentEnds => exact ⟨waiting,holding,published,idle,seen,closes,finished⟩

end

/-- `Close` looked without finding the session that the goroutine obtains. -/
def Missed (s : State) : Prop := s.obtained = true ∧ s.snapshot = some false

theorem missed_step {s} (kept : Consistent s) (e : Event) (missed : Missed s) : Missed (step s e).1 := by
  have busy : s.closer ≠ .idle := by
    intro idle
    have unread := kept.idle.mp idle
    rw [missed.2] at unread
    cases unread
  cases e with
  | accepts => exact of_guard missed (fun _ => ⟨rfl,missed.2⟩)
  | close => exact of_guard missed (fun idle => absurd idle busy)
  | acceptFails | publishes | streamArrives | streamFails | ends | cancels | closesSession | closesListener =>
    exact of_guard missed (fun _ => missed)
  | parentEnds => exact missed

theorem missed_iff {s} (kept : Consistent s) (fine : ¬ Missed s) (e : Event) :
    Missed (step s e).1 ↔ ¬ OnTime s e := by
  cases e with
  | accepts =>
    simp only [step,OnTime]
    split
    next here =>
      have unseen : s.snapshot ≠ some true := by
        intro read
        have obtained := (kept.published.mp (kept.seen read)).1
        rw [kept.waiting here] at obtained
        cases obtained
      simp only [Missed,kept.idle,true_and,forall_const,here]
      cases read : s.snapshot with
      | none => simp
      | some found =>
        cases found with
        | false => simp
        | true => exact absurd read unseen
    next elsewhere => simp [fine,elsewhere]
  | close =>
    simp only [step,OnTime]
    split
    next idle =>
      simp only [Missed,Option.some.injEq,idle,forall_const,not_not]
      constructor
      · rintro ⟨obtained,unset⟩
        by_contra unheld
        rw [kept.published.mpr ⟨obtained,unheld⟩] at unset
        cases unset
      · intro held
        refine ⟨kept.holding held,?_⟩
        rw [← Bool.not_eq_true,kept.published]
        simp [held]
    next busy => simp [fine,busy]
  | acceptFails | publishes | streamArrives | streamFails | ends | cancels | closesSession | closesListener =>
    simp only [step,OnTime,not_true_eq_false,iff_false]
    exact of_guard (P := fun t => ¬ Missed t) fine (fun _ => fine)
  | parentEnds => simpa [step,OnTime,Missed] using fine

theorem consistent_final (events : List Event) : Consistent (final step start events) :=
  final_kept (I := Consistent) (fun _ e kept => consistent_step kept e) consistent_start events

/-- When both have returned, the session, if any, and the listener are closed if and only if no session came too
    late. -/
theorem close_releases_iff (events : List Event) (ended : (final step start events).over) :
    (final step start events).released ↔ Along step OnTime start events := by
  have kept := consistent_final events
  have missed : Missed (final step start events) ↔ ¬ Along step OnTime start events :=
    final_iff_not_along (I := Consistent) (D := Missed) (fun _ e kept => consistent_step kept e)
      (fun _ e kept => missed_step kept e) (fun _ e kept fine => missed_iff kept fine e) consistent_start
      (by simp [Missed,start]) events
  have read := read_of_busy kept ended.1 (by decide)
  rw [← not_iff_not,← missed,State.released,kept.closes]
  simp only [Missed,ended.1,kept.finished ended.1,or_true,and_true,Classical.not_imp]
  cases snapshot : (final step start events).snapshot with
  | none => exact absurd snapshot read
  | some found => cases found <;> simp

def closedInTime : List Event :=
  [.accepts,.publishes,.close,.cancels,.streamFails,.closesSession,.closesListener]

theorem closed_in_time_releases :
    (final step start closedInTime).over ∧ Along step OnTime start closedInTime ∧ (final step start closedInTime).released :=
  ⟨by decide,by decide,(close_releases_iff closedInTime (by decide)).mpr (by decide)⟩

def closedBetween : List Event :=
  [.accepts,.close,.publishes,.cancels,.streamFails,.closesSession,.closesListener]

/-- Both have returned and the session is open; likewise when the listener yields one after the close. -/
theorem closed_between_leaks :
    (final step start closedBetween).over ∧ (final step start closedBetween).obtained = true ∧
      (final step start closedBetween).sessionClosed = false ∧
      (final step start [.close,.cancels,.closesSession,.closesListener,.accepts,.publishes,.streamFails]).over ∧
      ¬ (final step start [.close,.cancels,.closesSession,.closesListener,.accepts,.publishes,.streamFails]).released := by
  decide

end Pigeon.CeremonyClose
