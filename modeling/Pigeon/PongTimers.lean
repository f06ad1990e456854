import Pigeon.SessionPaths

/-!
The health monitoring of the backend in `protocol/session.yaml`. A ping starts a timer
(`start_pong_timeout`), whose end is a `ping_timeout`; `cancel_pong_timeout` disarms what is
armed. Timers have the numbers of their pings. A start adds a timer, or replaces the one
there is (`single`); a pong says which ping it answers. `AltActive` has no row for a pong, and
of the fallbacks only the forced one cancels (`pong_timers_iff`).
-/
namespace Pigeon.PongTimers
open Runs TableMachines SessionPaths

structure Timers where
  armed : List Nat
  started : Nat

def Timers.command (single : Bool) (t : Timers) : Command → Timers
  | .startPongTimeout => ⟨t.started :: if single then [] else t.armed,t.started + 1⟩
  | .cancelPongTimeout => { t with armed := [] }
  | _ => t

/-- The backend with its timers, and the timers whose pong came before they ended. -/
structure State where
  status : Status Backend Vars Command
  timers : Timers
  answered : List Nat

/-- An input with the number of the timer that ends or of the ping that is answered. -/
structure Event extends Step where
  number : Nat

def State.left (s : State) (e : Event) : List Nat :=
  if e.input = .pingTimeout then s.timers.armed.erase e.number else s.timers.armed

def State.hears (s : State) (e : Event) : Prop := e.input = .recvPathPong ∧ e.number ∈ s.timers.armed
deriving Decidable

/-- A row of `backend`, and what it does to the timers. -/
def step (single : Bool) (limit cap : Nat) (s : State) (e : Event) : State × Option (List Command) :=
  (⟨((backend limit cap).handle s.status e.toStep).1,
    (((backend limit cap).taken s.status e.toStep).elim [] Row.emits).foldl (Timers.command single)
      { s.timers with armed := s.left e },
    if s.hears e then e.number :: s.answered else s.answered⟩,((backend limit cap).handle s.status e.toStep).2)

def start : State := ⟨backendStart.1,⟨[],0⟩,[]⟩

/-- A `ping_timeout` comes only from a timer that is armed. -/
def Fires (s : State) (e : Event) : Prop := e.input = .pingTimeout → e.number ∈ s.timers.armed
deriving Decidable

/-- No timer is left to end whose pong has come, and none at all after a fallback. -/
structure Stopped (s : State) : Prop where
  answered : ∀ n ∈ s.answered, n ∉ s.timers.armed
  fallback : s.status.state = .relayBackoff → s.timers.armed = []

/-- A pong in time finds the backend in `AltDegraded`, and a fallback that is not forced no timer but the one that has
    just ended. -/
structure Disarms (limit cap : Nat) (s : State) (e : Event) : Prop where
  pong : s.hears e → s.status.state = .altDegraded ∧ e.succeeds = true
  fallback : ∀ r, (backend limit cap).taken s.status e.toStep = some r → r.target = .relayBackoff →
    r.input = .appForceFallback ∨ s.left e = []

theorem commands_unstarted {single : Bool} {commands : List Command} (unstarted : .startPongTimeout ∉ commands)
    (t : Timers) : commands.foldl (Timers.command single) t =
      if .cancelPongTimeout ∈ commands then { t with armed := [] } else t := by
  induction commands generalizing t with
  | nil => rfl
  | cons c rest ih =>
    obtain ⟨other,unstarted⟩ := List.ne_and_not_mem_of_not_mem_cons unstarted
    rw [List.foldl_cons,ih unstarted]
    by_cases cancels : c = .cancelPongTimeout
    · subst cancels
      simp [Timers.command]
    · have same : t.command single c = t := by
        cases c with
        | startPongTimeout => exact absurd rfl other
        | cancelPongTimeout => exact absurd rfl cancels
        | _ => rfl
      simp [same,Ne.symm cancels]

theorem start_rows : ∀ r ∈ backendRows, .startPongTimeout ∈ r.emits →
    r.emits = [.sendPathPing,.startPongTimeout] ∧ r.input = .pingTick ∧ r.target.onAlt := by decide

theorem pong_rows : ∀ r ∈ backendRows, r.input = .recvPathPong →
    r.origin = .altDegraded ∧ r.action = some .resetFailures ∧ .cancelPongTimeout ∈ r.emits := by decide

theorem has_pong_row : ∃ r ∈ backendRows, r.origin = .altDegraded ∧ r.input = .recvPathPong ∧ r.guard = none := by decide

theorem fallback_rows : ∀ r ∈ backendRows, r.target = .relayBackoff → .startPongTimeout ∉ r.emits ∧
    (.cancelPongTimeout ∈ r.emits ↔ r.input = .appForceFallback) := by decide

theorem leaving_rows : ∀ r ∈ backendRows, r.origin.onAlt → r.target.onAlt = false → r.target = .relayBackoff := by
  decide

/-- Timers run on the alternative path only, and have numbers that are given once. -/
structure Kept (s : State) : Prop where
  answered : ∀ n ∈ s.answered, n ∉ s.timers.armed ∧ n < s.timers.started
  armed : ∀ n ∈ s.timers.armed, n < s.timers.started
  onAlt : s.timers.armed ≠ [] → s.status.state.onAlt = true

variable {single : Bool} {limit cap : Nat} {s : State} {e : Event} {r : Row Backend}

theorem left_subset : s.left e ⊆ s.timers.armed := by
  unfold State.left
  split
  · exact List.erase_subset
  · exact List.Subset.refl _

theorem taken_pong (limit cap : Nat) (degraded : s.status.state = .altDegraded) (pong : e.input = .recvPathPong)
    (succeeds : e.succeeds) : ∃ r, (backend limit cap).taken s.status e.toStep = some r := by
  obtain ⟨r,among,origin,input,free⟩ := has_pong_row
  refine Table.exists_taken among ?_ (fun other _ _ => ?_)
  · simp [Table.fits,backend,generated,origin,input,free,degraded,pong]
  · cases other.action with
    | none => rfl
    | some action => exact succeeds

theorem step_taken (single : Bool) (taken : (backend limit cap).taken s.status e.toStep = some r) :
    (step single limit cap s e).1.status.state = r.target ∧
    (step single limit cap s e).1.timers =
      r.emits.foldl (Timers.command single) { s.timers with armed := s.left e } := by
  simp only [step,Table.handle_taken taken,taken]
  exact ⟨rfl,rfl⟩

theorem step_untaken (single : Bool) (untaken : (backend limit cap).taken s.status e.toStep = none) :
    (step single limit cap s e).1.status = s.status ∧
    (step single limit cap s e).1.timers = { s.timers with armed := s.left e } := by
  rcases (backend limit cap).handle_cases s.status e.toStep with ⟨_,same⟩ | ⟨r,taken,_⟩
  · refine ⟨same,?_⟩
    simp only [step,untaken]
    rfl
  · cases untaken.symm.trans taken

section
variable (old : Kept s)
include old

theorem Kept.heard : ∀ n ∈ (step single limit cap s e).1.answered,
    n < s.timers.started ∧ (¬ s.hears e → n ∉ s.left e) := by
  intro n mem
  simp only [step] at mem
  by_cases hears : s.hears e
  · rw [if_pos hears] at mem
    refine ⟨?_,fun not => absurd hears not⟩
    rcases List.mem_cons.mp mem with rfl | before
    · exact old.armed _ hears.2
    · exact (old.answered n before).2
  · rw [if_neg hears] at mem
    obtain ⟨stopped,given⟩ := old.answered n mem
    exact ⟨given,fun _ armed => stopped (left_subset armed)⟩

theorem Kept.untouched (timers : (step single limit cap s e).1.timers = { s.timers with armed := s.left e })
    (unheard : ¬ s.hears e) (onAlt : s.left e ≠ [] → (step single limit cap s e).1.status.state.onAlt) :
    Kept (step single limit cap s e).1 := by
  refine ⟨fun n mem => ?_,?_,?_⟩
  · obtain ⟨given,stopped⟩ := old.heard n mem
    rw [timers]
    exact ⟨stopped unheard,given⟩
  · rw [timers]
    exact fun n mem => old.armed n (left_subset mem)
  · rw [timers]
    exact onAlt

theorem Kept.onAlt_of_left (some_left : s.left e ≠ []) : s.status.state.onAlt :=
  old.onAlt fun none => some_left (List.subset_nil.mp (none ▸ left_subset))

theorem Kept.next (disarms : Disarms limit cap s e) : Kept (step single limit cap s e).1 := by
  cases taken : (backend limit cap).taken s.status e.toStep with
  | none =>
    obtain ⟨status,timers⟩ := step_untaken single taken
    refine old.untouched timers ?_ fun some_left => by rw [status]; exact old.onAlt_of_left some_left
    intro hears
    obtain ⟨degraded,succeeds⟩ := disarms.pong hears
    obtain ⟨r,some⟩ := taken_pong limit cap degraded hears.1 succeeds
    cases taken.symm.trans some
  | some r =>
    obtain ⟨state,timers⟩ := step_taken single taken
    obtain ⟨among,origin,input,_⟩ := Table.taken_spec taken
    by_cases starts : .startPongTimeout ∈ r.emits
    · obtain ⟨emits,tick,onAlt⟩ := start_rows r among starts
      have unheard : ¬ s.hears e := fun hears => nomatch tick.symm.trans (input.trans hears.1)
      rw [emits] at timers
      refine ⟨fun n mem => ?_,?_,fun _ => by rw [state]; exact onAlt⟩
      · obtain ⟨given,stopped⟩ := old.heard n mem
        rw [timers]
        refine ⟨?_,Nat.lt_succ_of_lt given⟩
        cases single <;> simp [Timers.command,Nat.ne_of_lt given,stopped unheard]
      · rw [timers]
        intro n mem
        rcases List.mem_cons.mp mem with rfl | before
        · exact Nat.lt_succ_self _
        · cases single with
          | true => cases before
          | false => exact Nat.lt_succ_of_lt (old.armed n (left_subset before))
    · rw [commands_unstarted starts] at timers
      by_cases cancels : .cancelPongTimeout ∈ r.emits
      · rw [if_pos cancels] at timers
        refine ⟨fun n mem => ?_,?_,?_⟩ <;> rw [timers]
        · exact ⟨List.not_mem_nil,(old.heard n mem).1⟩
        · exact fun n mem => nomatch mem
        · exact fun some_left => absurd rfl some_left
      · rw [if_neg cancels] at timers
        refine old.untouched timers (fun hears => cancels (pong_rows r among (input.trans hears.1)).2.2) ?_
        intro some_left
        rw [state]
        by_contra away
        have back := leaving_rows r among (origin ▸ old.onAlt_of_left some_left) (by simpa using away)
        rcases disarms.fallback r taken back with forced | none
        · exact cancels ((fallback_rows r among back).2.mpr forced)
        · exact some_left none

end

theorem not_stopped (spoils : ¬ Disarms limit cap s e) : ¬ Stopped (step single limit cap s e).1 := by
  intro stopped
  refine spoils ⟨fun hears => ?_,fun r taken back => ?_⟩
  · cases taken : (backend limit cap).taken s.status e.toStep with
    | none =>
      have still := stopped.answered e.number (by simp [step,hears])
      rw [(step_untaken single taken).2,State.left,if_neg (by simp [hears.1])] at still
      exact absurd hears.2 still
    | some r =>
      obtain ⟨among,origin,input,_,ok⟩ := Table.taken_spec taken
      obtain ⟨degraded,action,_⟩ := pong_rows r among (input.trans hears.1)
      rw [action] at ok
      exact ⟨origin ▸ degraded,ok⟩
  · obtain ⟨state,timers⟩ := step_taken single taken
    obtain ⟨among,_⟩ := Table.taken_spec taken
    obtain ⟨unstarted,cancels⟩ := fallback_rows r among back
    have none_left := stopped.fallback (state.trans back)
    rw [timers,commands_unstarted unstarted] at none_left
    by_cases forced : r.input = .appForceFallback
    · exact .inl forced
    · rw [if_neg fun emitted => forced (cancels.mp emitted)] at none_left
      exact .inr none_left

/-- Whichever timers the `ping_timeout`s come from: a pong in time always leaves its timer disarmed and no timer is
    armed in `RelayBackoff`, just when every pong in time comes in `AltDegraded` and every fallback that is not forced
    leaves no other timer behind. -/
theorem pong_timers_iff (single : Bool) (limit cap : Nat) (events : List Event) :
    (∀ first last, events = first ++ last → Stopped (final (step single limit cap) start first)) ↔
      Along (step single limit cap) (Disarms limit cap) start events :=
  always_iff_along (I := Kept) (fun s kept => ⟨fun n mem => (kept.answered n mem).1,fun fallen => by
      by_contra some_left
      have onAlt := kept.onAlt some_left
      rw [fallen] at onAlt
      cases onAlt⟩)
    (fun _ _ kept disarms => kept.next disarms) (fun _ _ _ spoils => not_stopped spoils)
    ⟨by simp [start],by simp [start],by simp [start]⟩ events

/-- An input that every guard finds well, with a number. -/
def agreed (input : Input) (number : Nat) : Event := ⟨agreeing input,number⟩

def onAltActive (rest : List Event) : List Event := toAltActive.map (agreed · 0) ++ rest

def promptPong : List Event := onAltActive [agreed .pingTick 0,agreed .recvPathPong 0]

def errorBeforePong : List Event := onAltActive [agreed .pingTick 0,agreed .altStreamError 0]

set_option maxRecDepth 4000 in
/-- A pong that comes at once does not stop its timer, which ends and degrades the path; after an error of the stream
    the timer runs on in `RelayBackoff`. -/
theorem pong_timer_runs_on :
    (∀ single : Bool, Along (step single 3 5) Fires start (promptPong ++ [agreed .pingTimeout 0]) ∧
      (final (step single 3 5) start promptPong).answered = [0] ∧
      (final (step single 3 5) start promptPong).timers.armed = [0] ∧
      (final (step single 3 5) start (promptPong ++ [agreed .pingTimeout 0])).status.state = .altDegraded) ∧
    ∀ single : Bool, Along (step single 3 5) Fires start errorBeforePong ∧
      (final (step single 3 5) start errorBeforePong).status.state = .relayBackoff ∧
      (final (step single 3 5) start errorBeforePong).timers.armed = [0] := by decide

end Pigeon.PongTimers
