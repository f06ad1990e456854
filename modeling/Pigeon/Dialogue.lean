import Mathlib.Tactic.Common

/-!
Programs that make requests and go on with the replies. `Prog.replay` says what a program
comes to in an exchange, `Prog.serve` runs it against surroundings with a state. A `Driver` can
give up; the `succeeds_*` lemmas take a successful exchange apart.
-/
namespace Pigeon.Dialogue

/-- A program with requests `Req` and replies `Rep`. -/
inductive Prog (Req Rep A : Type)
  | done (result : A)
  | ask (request : Req) (next : Rep → Prog Req Rep A)

section
variable {Req Rep A B : Type}

def Prog.bind : Prog Req Rep A → (A → Prog Req Rep B) → Prog Req Rep B
  | .done result, f => f result
  | .ask request next, f => .ask request (fun reply => (next reply).bind f)

instance : Monad (Prog Req Rep) where
  pure := .done
  bind := Prog.bind

def Prog.relabel (f : A → B) : Prog Req Rep A → Prog Req Rep B
  | .done result => .done (f result)
  | .ask request next => .ask request (fun reply => (next reply).relabel f)

theorem relabel_ite (f : A → B) (c : Prop) [Decidable c] (p q : Prog Req Rep A) :
    (if c then p else q).relabel f = if c then p.relabel f else q.relabel f := apply_ite _ c p q

/-- A run against surroundings that answer from a state, with one choice for each request; no result if the choices
    end first. -/
def Prog.serve {S C : Type} (answer : S → C → Req → S × Rep) : Prog Req Rep A → S → List C → S × List Req × Option A
  | .done result, s, _ => (s,[],some result)
  | .ask _ _, s, [] => (s,[],none)
  | .ask request next, s, choice :: rest =>
    let answered := answer s choice request
    let later := (next answered.2).serve answer answered.1 rest
    (later.1,request :: later.2.1,later.2.2)

abbrev Driver (Req Rep : Type) := OptionT (Prog Req Rep)

def call (what : Req) : Driver Req (Option A) A := OptionT.mk (.ask what .done)

def require (value : Option A) : Driver Req Rep A := OptionT.mk (.done value)

variable [DecidableEq Req]

def Prog.replay : Prog Req Rep A → List (Req × Rep) → Option A
  | .done result, [] => some result
  | .done _, _ :: _ => none
  | .ask _ _, [] => none
  | .ask request next, (asked,reply) :: rest => if asked = request then (next reply).replay rest else none

def Succeeds (p : Driver Req Rep A) (exchange : List (Req × Rep)) (result : A) : Prop :=
  p.run.replay exchange = some (some result)

instance [DecidableEq A] (p : Driver Req Rep A) (exchange : List (Req × Rep)) (result : A) :
    Decidable (Succeeds p exchange result) :=
  inferInstanceAs (Decidable (_ = _))

theorem replay_bind {p : Prog Req Rep A} {f : A → Prog Req Rep B} {exchange : List (Req × Rep)} {b : B} :
    (p.bind f).replay exchange = some b ↔
      ∃ first rest a, exchange = first ++ rest ∧ p.replay first = some a ∧ (f a).replay rest = some b := by
  induction p generalizing exchange with
  | done result =>
    constructor
    · intro whole
      exact ⟨[],exchange,result,rfl,rfl,whole⟩
    · rintro ⟨first,rest,a,rfl,before,after⟩
      cases first with
      | nil =>
        cases (Option.some.inj before : result = a)
        exact after
      | cons entry more => cases before
  | ask what next ih =>
    cases exchange with
    | nil =>
      constructor
      · intro impossible
        cases impossible
      · rintro ⟨first,rest,a,split,before,-⟩
        rw [(List.append_eq_nil_iff.mp split.symm).1] at before
        cases before
    | cons entry more =>
      obtain ⟨asked,reply⟩ := entry
      by_cases same : asked = what
      · simp only [Prog.bind,Prog.replay,same,if_true,ih]
        constructor
        · rintro ⟨first,rest,a,rfl,before,after⟩
          exact ⟨(what,reply) :: first,rest,a,rfl,by rw [Prog.replay,if_pos rfl]; exact before,after⟩
        · rintro ⟨first,rest,a,split,before,after⟩
          cases first with
          | nil => cases before
          | cons other first =>
            cases split
            rw [Prog.replay,if_pos rfl] at before
            exact ⟨first,rest,a,rfl,before,after⟩
      · simp only [Prog.bind,Prog.replay,same,if_false]
        constructor
        · intro impossible
          cases impossible
        · rintro ⟨first,rest,a,split,before,-⟩
          cases first with
          | nil => cases before
          | cons other first =>
            cases split
            rw [Prog.replay,if_neg same] at before
            cases before

theorem succeeds_bind {p} {f : A → Driver Req Rep B} {exchange : List (Req × Rep)} {b} :
    Succeeds (p >>= f) exchange b ↔
      ∃ first rest a, exchange = first ++ rest ∧ Succeeds p first a ∧ Succeeds (f a) rest b := by
  constructor
  · intro whole
    obtain ⟨first,rest,result,split,before,after⟩ := replay_bind.mp whole
    cases result with
    | none =>
      cases rest with
      | nil => cases (Option.some.inj after : (none : Option B) = some b)
      | cons entry more => cases after
    | some a => exact ⟨first,rest,a,split,before,after⟩
  · rintro ⟨first,rest,a,split,before,after⟩
    exact replay_bind.mpr ⟨first,rest,some a,split,before,after⟩

theorem succeeds_pure {a b exchange} : Succeeds (pure a : Driver Req Rep A) exchange b ↔ exchange = [] ∧ a = b := by
  cases exchange with
  | nil =>
    constructor
    · intro same
      exact ⟨rfl,Option.some.inj (Option.some.inj same)⟩
    · rintro ⟨-,rfl⟩
      rfl
  | cons entry more =>
    constructor
    · intro impossible
      cases impossible
    · rintro ⟨impossible,-⟩
      cases impossible

theorem succeeds_call_bind {what} {f : A → Driver Req (Option A) B} {exchange : List (Req × Option A)} {b} :
    Succeeds (call what >>= f) exchange b ↔
      ∃ reply rest, exchange = (what,some reply) :: rest ∧ Succeeds (f reply) rest b := by
  rw [succeeds_bind]
  constructor
  · rintro ⟨first,rest,reply,rfl,asked,after⟩
    cases first with
    | nil => cases asked
    | cons entry more =>
      obtain ⟨other,given⟩ := entry
      by_cases same : other = what
      · subst same
        have last : (Prog.done given : Prog Req (Option A) (Option A)).replay more = some (some reply) := by
          simpa [Succeeds,call,Prog.replay] using asked
        cases more with
        | nil =>
          cases (Option.some.inj last : given = some reply)
          exact ⟨reply,rest,rfl,after⟩
        | cons third more => cases last
      · simp [Succeeds,call,Prog.replay,same] at asked
  · rintro ⟨reply,rest,rfl,after⟩
    exact ⟨[(what,some reply)],rest,reply,rfl,by simp [Succeeds,call,Prog.replay],after⟩

theorem succeeds_require_bind {value : Option A} {f : A → Driver Req Rep B} {exchange : List (Req × Rep)} {b} :
    Succeeds (require value >>= f) exchange b ↔ ∃ a, value = some a ∧ Succeeds (f a) exchange b := by
  rw [succeeds_bind]
  constructor
  · rintro ⟨first,rest,a,rfl,given,after⟩
    cases first with
    | nil => exact ⟨a,Option.some.inj given,after⟩
    | cons entry more => cases given
  · rintro ⟨a,given,after⟩
    exact ⟨[],exchange,a,rfl,congrArg some given,after⟩

theorem succeeds_guard_bind {p} [Decidable p] {f : Unit → Driver Req Rep B} {exchange : List (Req × Rep)}
    {b} : Succeeds (guard p >>= f) exchange b ↔ p ∧ Succeeds (f ()) exchange b := by
  have same : (guard p : Driver Req Rep Unit) = require (if p then some () else none) := by
    by_cases holds : p
    · rw [guard,if_pos holds,if_pos holds]
      rfl
    · rw [guard,if_neg holds,if_neg holds]
      rfl
  rw [same,succeeds_require_bind]
  constructor
  · rintro ⟨⟨⟩,given,after⟩
    by_cases holds : p
    · exact ⟨holds,after⟩
    · rw [if_neg holds] at given
      cases given
  · rintro ⟨holds,after⟩
    exact ⟨(),if_pos holds,after⟩

end

end Pigeon.Dialogue
