import Mathlib.Data.List.Basic

/-!
Systems given by their initial states and a step relation. What holds initially
and is kept by every step holds in every reachable state (`invariant`), and a
system reaches what another one reaches when it can match its steps
(`reachable_simulated`).
-/
namespace Pigeon.Systems
universe u v

structure System (S : Type u) where
  Init : S → Prop
  Next : S → S → Prop

variable {S : Type u} {T : Type v}

inductive System.Reachable (sys : System S) : S → Prop
  | init {s : S} (start : sys.Init s) : sys.Reachable s
  | step {s s' : S} (before : sys.Reachable s) (next : sys.Next s s') : sys.Reachable s'

def System.withSteps (sys : System S) (other : S → S → Prop) : System S :=
  ⟨sys.Init,fun s s' => sys.Next s s' ∨ other s s'⟩

theorem System.Reachable.invariant {sys : System S} {I : S → Prop} (start : ∀ s, sys.Init s → I s)
    (kept : ∀ s s', I s → sys.Next s s' → I s') {s : S} (reached : sys.Reachable s) : I s := by
  induction reached with
  | init first => exact start _ first
  | step _ next ih => exact kept _ _ ih next

theorem System.Reachable.of_withSteps {sys : System S} {other : S → S → Prop}
    (covered : ∀ s s', other s s' → sys.Next s s') {s : S} (reached : (sys.withSteps other).Reachable s) :
    sys.Reachable s := by
  refine reached.invariant (fun s first => .init first) ?_
  rintro s s' before (next | step)
  · exact before.step next
  · exact before.step (covered s s' step)

theorem reachable_simulated {low : System S} {high : System T} {R : S → T → Prop}
    (start : ∀ s, low.Init s → ∃ t, high.Init t ∧ R s t)
    (kept : ∀ s s' t, R s t → low.Next s s' → ∃ t', high.Next t t' ∧ R s' t') {s : S} (reached : low.Reachable s) :
    ∃ t, high.Reachable t ∧ R s t := by
  induction reached with
  | init first =>
    obtain ⟨t,initial,related⟩ := start _ first
    exact ⟨t,.init initial,related⟩
  | step _ next ih =>
    obtain ⟨t,reached,related⟩ := ih
    obtain ⟨t',step,after⟩ := kept _ _ t related next
    exact ⟨t',reached.step step,after⟩

end Pigeon.Systems
