import Pigeon.Sequence

/-!
Accepting on the backchannel (`backchannel/server.go`). Each `Accept` has a helper that sets
a deadline in the past on the shared listener when the call's context ends. A live call fails
on an open server just where it meets such a deadline of another's (`accept_fails_alone_iff`).
-/
namespace Pigeon.BackchannelAccept
open Runs Sequence

/-- What `Accept` returns: a session, the error of its context, `net.ErrClosed`, or the error of the listener. -/
inductive Result
  | session
  | ctxErr
  | errClosed
  | acceptErr
deriving DecidableEq

/-- A call waits in `AcceptUnix`, has an error or a connection from it, or has returned. -/
inductive Phase
  | accepting
  | failed
  | accepted
  | returned (result : Result)
deriving DecidableEq

structure Call where
  phase : Phase
  (cancelled helper : Bool)

/-- `Server`. -/
structure State where
  (closed deadline : Bool)
  waiting : Nat
  calls : List Call

def start : State := ⟨false,false,0,[]⟩

inductive Event
  | accept
  | cancel (i : Nat)
  /-- The helper sees the end of the context. -/
  | setDeadline (i : Nat)
  /-- The helper sees that the call is done with `AcceptUnix`. -/
  | stopHelper (i : Nat)
  | connect
  /-- `AcceptUnix` of a call returns, if it does not have to wait. -/
  | acceptUnix (i : Nat)
  /-- The rest of `Accept`. -/
  | finish (i : Nat)
  | close

def State.set (s : State) (i : Nat) (call : Call) : State := { s with calls := s.calls.set i call }

def State.acceptUnix (s : State) (i : Nat) (call : Call) : State :=
  if s.closed || s.deadline then s.set i { call with phase := .failed }
  else if s.waiting = 0 then s
  else { s with waiting := s.waiting - 1 }.set i { call with phase := .accepted }

def State.errorOf (s : State) (call : Call) : Result :=
  if call.cancelled then .ctxErr else if s.closed then .errClosed else .acceptErr

def State.finish (s : State) (i : Nat) (call : Call) : State :=
  match call.phase with
  | .failed => s.set i { call with phase := .returned (s.errorOf call) }
  | .accepted => { s with deadline := false }.set i { call with phase := .returned .session }
  | _ => s

/-- A step of a call of `Server.Accept` or of its helper. -/
def step (s : State) : Event → State × Unit
  | .accept => ({ s with calls := s.calls ++ [⟨.accepting,false,true⟩] },())
  | .cancel i =>
    match s.calls[i]? with
    | some call => (s.set i { call with cancelled := true },())
    | none => (s,())
  | .setDeadline i =>
    match s.calls[i]? with
    | some call =>
      (if call.helper ∧ call.cancelled then { s with deadline := true }.set i { call with helper := false } else s,())
    | none => (s,())
  | .stopHelper i =>
    match s.calls[i]? with
    | some call => (if call.helper ∧ call.phase ≠ .accepting then s.set i { call with helper := false } else s,())
    | none => (s,())
  | .connect => ({ s with waiting := s.waiting + 1 },())
  | .acceptUnix i =>
    match s.calls[i]? with
    | some call => (if call.phase = .accepting then s.acceptUnix i call else s,())
    | none => (s,())
  | .finish i =>
    match s.calls[i]? with
    | some call => (s.finish i call,())
    | none => (s,())
  | .close => ({ s with closed := true },())

def Fine (s : State) : Prop := ∀ (i : Nat) call, s.calls[i]? = some call → call.phase ≠ .returned .acceptErr

/-- `AcceptUnix` of a call that is not cancelled, on an open server, meets no deadline. -/
def Unpoisoned (s : State) : Event → Prop
  | .acceptUnix i => ∀ call, s.calls[i]? = some call → call.phase = .accepting → call.cancelled = false →
    s.closed = false → s.deadline = false
  | _ => True

/-- An error of `AcceptUnix` has its reason in the call or in the server. -/
def Call.Excused (closed : Bool) (call : Call) : Prop :=
  call.phase ≠ .returned .acceptErr ∧ (call.phase = .failed → call.cancelled = true ∨ closed = true)

def Excused (s : State) : Prop := ∀ (i : Nat) call, s.calls[i]? = some call → call.Excused s.closed

variable {s : State}

theorem Excused.fine (excused : Excused s) : Fine s := fun i call at_i => (excused i call at_i).1

variable {i : Nat} {call : Call}

theorem Excused.set (old : Excused s) {t} (closed : t.closed = s.closed)
    (calls : t.calls = s.calls.set i call) (excused : call.Excused s.closed) : Excused t := by
  intro j other at_j
  rw [calls] at at_j
  rw [closed]
  rcases getElem?_set_cases at_j with ⟨-,rfl⟩ | ⟨-,was⟩
  · exact excused
  · exact old j other was

theorem Excused.acceptUnix (old : Excused s) (at_i : s.calls[i]? = some call)
    (waits : call.phase = .accepting) (unpoisoned : Unpoisoned s (.acceptUnix i)) : Excused (s.acceptUnix i call) := by
  unfold State.acceptUnix
  split
  next fails =>
    refine old.set rfl rfl ⟨by simp,fun _ => ?_⟩
    by_contra alone
    simp only [not_or,Bool.not_eq_true] at alone
    rw [alone.2,unpoisoned call at_i waits alone.1 alone.2] at fails
    simp at fails
  next =>
    split
    next => exact old
    next => exact old.set rfl rfl ⟨by simp,by simp⟩

theorem Excused.finish (old : Excused s) (at_i : s.calls[i]? = some call) : Excused (s.finish i call) := by
  unfold State.finish
  split
  next failed =>
    refine old.set rfl rfl ⟨?_,by simp⟩
    rcases (old i call at_i).2 failed with cancelled | closed
    · simp [State.errorOf,cancelled]
    · cases cancelled : call.cancelled <;> simp [State.errorOf,cancelled,closed]
  next => exact old.set rfl rfl ⟨by simp,by simp⟩
  next => exact old

theorem Excused.step (old : Excused s) {e} (unpoisoned : Unpoisoned s e) : Excused (step s e).1 := by
  cases e with
  | accept =>
    intro j other at_j
    rcases getElem?_snoc_cases at_j with before | ⟨-,rfl⟩
    · exact old j other before
    · exact ⟨by simp,by simp⟩
  | cancel i =>
    simp only [BackchannelAccept.step]
    split
    next call at_i => exact old.set rfl rfl ⟨(old i call at_i).1,fun _ => Or.inl rfl⟩
    next => exact old
  | setDeadline i | stopHelper i =>
    simp only [BackchannelAccept.step]
    split
    next call at_i => exact of_guard old (fun _ => old.set rfl rfl (old i call at_i))
    next => exact old
  | connect => exact old
  | acceptUnix i =>
    simp only [BackchannelAccept.step]
    split
    next call at_i => exact of_guard old (fun waits => old.acceptUnix at_i waits unpoisoned)
    next => exact old
  | finish i =>
    simp only [BackchannelAccept.step]
    split
    next call at_i => exact old.finish at_i
    next => exact old
  | close => exact fun i call at_i => ⟨(old i call at_i).1,fun _ => Or.inr rfl⟩

theorem excused_start : Excused start := by
  intro i call none
  cases none

theorem not_fine_of_failed (at_i : s.calls[i]? = some call) (failed : call.phase = .failed)
    (live : call.cancelled = false) (opened : s.closed = false) : ¬ Fine (step s (.finish i)).1 := by
  have error : s.errorOf call = .acceptErr := by simp [State.errorOf,live,opened]
  have returns : (step s (.finish i)).1 = s.set i { call with phase := .returned .acceptErr } := by
    simp only [step,at_i,State.finish,failed,error]
  rw [returns]
  intro fine
  exact fine i _ (getElem?_set_found at_i) rfl

theorem not_fine_of_poisoned (poisoned : ¬ Unpoisoned s (.acceptUnix i)) :
    ¬ Fine (step (step s (.acceptUnix i)).1 (.finish i)).1 := by
  simp only [Unpoisoned,not_forall] at poisoned
  obtain ⟨call,at_i,waits,live,opened,passed⟩ := poisoned
  have fails : (step s (.acceptUnix i)).1 = s.set i { call with phase := .failed } := by
    simp [step,at_i,waits,State.acceptUnix,passed]
  have there : (s.set i { call with phase := .failed }).calls[i]? = some { call with phase := .failed } :=
    getElem?_set_found at_i
  rw [fails]
  exact not_fine_of_failed there rfl live opened

/-- No call fails with a live context on an open server just when no `AcceptUnix` of such a call meets a deadline. -/
theorem accept_fails_alone_iff (events : List Event) :
    (∀ before after, events = before ++ after → ∀ i, Fine (final step start (before ++ [.finish i]))) ↔
      Along step Unpoisoned start events := by
  constructor
  · intro fine
    rw [along_iff_split]
    intro first e last split
    cases e with
    | acceptUnix i =>
      by_contra poisoned
      have whole : events = (first ++ [.acceptUnix i]) ++ last := by rw [split]; simp
      have next := fine (first ++ [.acceptUnix i]) last whole i
      rw [final_append,final_append] at next
      exact not_fine_of_poisoned poisoned next
    | accept => trivial
    | cancel i => trivial
    | setDeadline i => trivial
    | stopHelper i => trivial
    | connect => trivial
    | finish i => trivial
    | close => trivial
  · rintro along before after rfl i
    have whole : Along step Unpoisoned start (before ++ [.finish i]) :=
      (along_append _ _ _ _ _).mpr ⟨((along_append _ _ _ _ _).mp along).1,trivial,trivial⟩
    exact (final_invariant (I := Excused) (fun _ _ old unpoisoned => Excused.step old unpoisoned) excused_start whole).fine

def afterCancelled : List Event :=
  [.accept,.cancel 0,.setDeadline 0,.acceptUnix 0,.finish 0,.connect,.accept,.acceptUnix 1,.finish 1]

def lateHelper : List Event :=
  [.connect,.accept,.acceptUnix 0,.finish 0,.cancel 0,.setDeadline 0,.connect,.accept,.acceptUnix 1,.finish 1]

theorem cancelled_accept_fails_next :
    (final step start afterCancelled).calls.map Call.phase = [.returned .ctxErr,.returned .acceptErr] ∧
      (final step start afterCancelled).calls.map Call.cancelled = [true,false] ∧
      (final step start afterCancelled).closed = false ∧
      (final step start lateHelper).calls.map Call.phase = [.returned .session,.returned .acceptErr] ∧
      (final step start lateHelper).calls.map Call.cancelled = [true,false] ∧
      (final step start lateHelper).closed = false := by
  refine ⟨by decide,by decide,by decide,by decide,by decide,by decide⟩

end Pigeon.BackchannelAccept
