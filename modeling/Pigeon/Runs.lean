import Mathlib.Data.List.Basic

/-!
Runs of a machine that answers each input. `Along` says that every step meets a condition;
an invariant that such steps keep holds in the last state (`final_invariant`), damage that only
other steps do shows just when there was one (`final_iff_not_along`), and two machines that
answer alike on such steps answer the run alike (`answers_simulated`).
-/
namespace Pigeon.Runs
universe u v w x y

variable {S : Type u} {T : Type x} {A : Type v} {B : Type w} {C : Type y}

def final (step : S → A → S × B) : S → List A → S
  | s, [] => s
  | s, a :: rest => final step (step s a).1 rest

def answers (step : S → A → S × B) : S → List A → List B
  | _, [] => []
  | s, a :: rest => (step s a).2 :: answers step (step s a).1 rest

def Along (step : S → A → S × B) (cond : S → A → Prop) : S → List A → Prop
  | _, [] => True
  | s, a :: rest => cond s a ∧ Along step cond (step s a).1 rest

instance decidableAlong (step : S → A → S × B) (cond : S → A → Prop) [∀ s a, Decidable (cond s a)] :
    ∀ s inputs, Decidable (Along step cond s inputs)
  | _, [] => .isTrue trivial
  | s, a :: rest => @instDecidableAnd _ _ _ (decidableAlong step cond (step s a).1 rest)

@[simp] theorem final_nil (step : S → A → S × B) (s : S) : final step s [] = s := rfl
@[simp] theorem final_cons (step : S → A → S × B) (s : S) (a : A) (rest : List A) :
    final step s (a :: rest) = final step (step s a).1 rest := rfl
@[simp] theorem answers_nil (step : S → A → S × B) (s : S) : answers step s [] = [] := rfl
@[simp] theorem answers_cons (step : S → A → S × B) (s : S) (a : A) (rest : List A) :
    answers step s (a :: rest) = (step s a).2 :: answers step (step s a).1 rest := rfl
@[simp] theorem along_nil (step : S → A → S × B) (cond : S → A → Prop) (s : S) : Along step cond s [] := trivial
@[simp] theorem along_cons (step : S → A → S × B) (cond : S → A → Prop) (s : S) (a : A) (rest : List A) :
    Along step cond s (a :: rest) ↔ cond s a ∧ Along step cond (step s a).1 rest := Iff.rfl

section
variable (step : S → A → S × B)
include step

theorem final_append (s : S) (first second : List A) :
    final step s (first ++ second) = final step (final step s first) second := by
  induction first generalizing s with
  | nil => rfl
  | cons a rest ih => simp [ih]

theorem along_append (cond : S → A → Prop) (s : S) (first second : List A) :
    Along step cond s (first ++ second) ↔ Along step cond s first ∧ Along step cond (final step s first) second := by
  induction first generalizing s with
  | nil => simp
  | cons a rest ih => simp [ih,and_assoc]

theorem getElem?_answers (s : S) (inputs : List A) (n : Nat) :
    (answers step s inputs)[n]? = (inputs[n]?).map (fun a => (step (final step s (inputs.take n)) a).2) := by
  induction inputs generalizing s n with
  | nil => rfl
  | cons a rest ih =>
    cases n with
    | zero => rfl
    | succ n => simp [ih]

theorem answers_map (f : C → A) (s : S) (inputs : List C) :
    answers (fun t c => step t (f c)) s inputs = answers step s (inputs.map f) := by
  induction inputs generalizing s with
  | nil => rfl
  | cons c rest ih => simp [ih]

end

theorem along_mono {step : S → A → S × B} {cond cond' : S → A → Prop} (weaker : ∀ s a, cond s a → cond' s a)
    {s : S} {inputs : List A} (along : Along step cond s inputs) : Along step cond' s inputs := by
  induction inputs generalizing s with
  | nil => trivial
  | cons a rest ih => exact ⟨weaker s a along.1,ih along.2⟩

theorem along_and_iff {step : S → A → S × B} {cond cond' : S → A → Prop} {s : S} {inputs : List A} :
    Along step (fun s a => cond s a ∧ cond' s a) s inputs ↔ Along step cond s inputs ∧ Along step cond' s inputs := by
  induction inputs generalizing s with
  | nil => simp
  | cons a rest ih =>
    rw [along_cons,along_cons,along_cons,ih]
    exact and_and_and_comm

theorem along_of_invariant {step : S → A → S × B} {I : S → Prop} {P : A → Prop}
    (kept : ∀ s a, I s → I (step s a).1) {s : S} {inputs : List A} (start : I s) (each : ∀ a ∈ inputs, P a) :
    Along step (fun s a => I s ∧ P a) s inputs := by
  induction inputs generalizing s with
  | nil => trivial
  | cons a rest ih =>
    refine ⟨⟨start,each a List.mem_cons_self⟩,ih (kept s a start) ?_⟩
    exact fun b mem => each b (List.mem_cons_of_mem _ mem)

theorem along_of_forall {step : S → A → S × B} {P : A → Prop} {s : S} {inputs : List A} (each : ∀ a ∈ inputs, P a) :
    Along step (fun _ a => P a) s inputs :=
  along_mono (fun _ _ both => both.2) (along_of_invariant (I := fun _ => True) (fun _ _ _ => trivial) trivial each)

theorem along_forall_iff {step : S → A → S × B} {P : A → Prop} {s} {inputs : List A} :
    Along step (fun _ a => P a) s inputs ↔ ∀ a ∈ inputs, P a := by
  refine ⟨?_,along_of_forall⟩
  intro along
  induction inputs generalizing s with
  | nil => simp
  | cons a rest ih => exact List.forall_mem_cons.mpr ⟨along.1,ih along.2⟩

theorem along_iff_split {step : S → A → S × B} {cond : S → A → Prop} {s : S} {inputs : List A} :
    Along step cond s inputs ↔ ∀ first a last, inputs = first ++ a :: last → cond (final step s first) a := by
  constructor
  · rintro along first a last rfl
    exact ((along_append step cond s first (a :: last)).mp along).2.1
  · intro each
    induction inputs generalizing s with
    | nil => trivial
    | cons a rest ih =>
      refine ⟨each [] a rest rfl,ih ?_⟩
      intro first b last split
      exact each (a :: first) b last (by rw [split]; rfl)

theorem along_of_final {step : S → A → S × B} {P : S → Prop} (back : ∀ s a, P (step s a).1 → P s) {s : S}
    {inputs : List A} (last : P (final step s inputs)) : Along step (fun s a => P (step s a).1) s inputs := by
  have first : ∀ {s : S} {inputs : List A}, P (final step s inputs) → P s := by
    intro s inputs last
    induction inputs generalizing s with
    | nil => exact last
    | cons a rest ih => exact back s a (ih last)
  induction inputs generalizing s with
  | nil => trivial
  | cons a rest ih => exact ⟨first last,ih last⟩

theorem final_invariant {step : S → A → S × B} {cond : S → A → Prop} {I : S → Prop}
    (kept : ∀ s a, I s → cond s a → I (step s a).1) {s : S} {inputs : List A} (start : I s)
    (along : Along step cond s inputs) : I (final step s inputs) := by
  induction inputs generalizing s with
  | nil => exact start
  | cons a rest ih => exact ih (kept s a start along.1) along.2

theorem final_kept {step : S → A → S × B} {I : S → Prop} (kept : ∀ s a, I s → I (step s a).1) {s} (start : I s)
    (inputs : List A) : I (final step s inputs) := by
  induction inputs generalizing s with
  | nil => exact start
  | cons a rest ih => exact ih (kept s a start)

theorem final_kept_or_taken {step : S → A → S × B} {cond may : S → A → Prop} {P : S → Prop}
    (kept : ∀ s a, cond s a → P s → P (step s a).1 ∨ may s a) {s : S} {inputs : List A}
    (along : Along step cond s inputs) (start : P s) :
    P (final step s inputs) ∨ ∃ first a last, inputs = first ++ a :: last ∧ may (final step s first) a := by
  induction inputs generalizing s with
  | nil => exact Or.inl start
  | cons a rest ih =>
    rcases kept s a along.1 start with still | taken
    · rcases ih along.2 still with holds | ⟨first,b,last,rfl,taken⟩
      · exact Or.inl holds
      · exact Or.inr ⟨a :: first,b,last,rfl,taken⟩
    · exact Or.inr ⟨[],a,rest,rfl,taken⟩

theorem of_guard {P : S → Prop} {s t : S} {c : Prop} [Decidable c] (old : P s) (new : c → P t) :
    P (if c then t else s) := by
  split
  next holds => exact new holds
  next => exact old

/-- What just the excluded steps bring about, and never goes away, is there just when `cond` fails along the run. -/
theorem final_iff_not_along {step : S → A → S × B} {cond : S → A → Prop} {I D : S → Prop}
    (kept : ∀ s a, I s → I (step s a).1) (stays : ∀ s a, I s → D s → D (step s a).1)
    (arises : ∀ s a, I s → ¬ D s → (D (step s a).1 ↔ ¬ cond s a)) {s} (start : I s) (fine : ¬ D s)
    (inputs : List A) : D (final step s inputs) ↔ ¬ Along step cond s inputs := by
  induction inputs generalizing s with
  | nil => simp [fine]
  | cons a rest ih =>
    rw [final_cons,along_cons]
    by_cases bad : D (step s a).1
    · have excluded := (arises s a start fine).mp bad
      have both : I (final step (step s a).1 rest) ∧ D (final step (step s a).1 rest) :=
        final_kept (I := fun t => I t ∧ D t) (fun t b holds => ⟨kept t b holds.1,stays t b holds.1 holds.2⟩)
          ⟨kept s a start,bad⟩ rest
      simp [both.2,excluded]
    · have admitted : cond s a := by
        by_contra excluded
        exact bad ((arises s a start fine).mpr excluded)
      simp [ih (kept s a start) bad,admitted]

/-- If every step that `cond` excludes spoils what an invariant gives, a run is fine at every point just when `cond`
    holds along it. -/
theorem always_iff_along_within {step : S → A → S × B} {within cond : S → A → Prop} {I G : S → Prop}
    (good : ∀ s, I s → G s) (kept : ∀ s a, I s → within s a → cond s a → I (step s a).1)
    (spoiled : ∀ s a, I s → within s a → ¬ cond s a → ¬ G (step s a).1) {s : S} (start : I s) {inputs : List A}
    (inside : Along step within s inputs) :
    (∀ first last, inputs = first ++ last → G (final step s first)) ↔ Along step cond s inputs := by
  induction inputs generalizing s with
  | nil =>
    refine iff_of_true (fun first last split => ?_) trivial
    obtain rfl := (List.append_eq_nil_iff.mp split.symm).1
    exact good s start
  | cons a rest ih =>
    constructor
    · intro each
      have admitted : cond s a := by
        by_contra excluded
        exact spoiled s a start inside.1 excluded (each [a] rest rfl)
      refine ⟨admitted,(ih (kept s a start inside.1 admitted) inside.2).mp ?_⟩
      intro first last split
      exact each (a :: first) last (by rw [split]; rfl)
    · rintro ⟨admitted,along⟩ first last split
      cases first with
      | nil => exact good s start
      | cons b first =>
        obtain ⟨rfl,tail⟩ := List.cons.inj split
        exact (ih (kept s a start inside.1 admitted) inside.2).mpr along first last tail

theorem always_iff_along {step : S → A → S × B} {cond : S → A → Prop} {I G : S → Prop} (good : ∀ s, I s → G s)
    (kept : ∀ s a, I s → cond s a → I (step s a).1) (spoiled : ∀ s a, I s → ¬ cond s a → ¬ G (step s a).1) {s : S}
    (start : I s) (inputs : List A) :
    (∀ first last, inputs = first ++ last → G (final step s first)) ↔ Along step cond s inputs :=
  always_iff_along_within good (fun s a old _ => kept s a old) (fun s a old _ => spoiled s a old) start
    (along_of_forall (P := fun _ => True) fun _ _ => trivial)

/-- Two machines that answer alike from related states, and stay related, on the steps that `cond` admits answer an
    admitted run alike. -/
theorem answers_simulated {step : S → A → S × B} {step' : T → A → T × B} {cond : S → A → Prop} {R : S → T → Prop}
    (alike : ∀ s t a, R s t → cond s a → (step s a).2 = (step' t a).2 ∧ R (step s a).1 (step' t a).1)
    {s : S} {t : T} {inputs : List A} (start : R s t) (along : Along step cond s inputs) :
    answers step s inputs = answers step' t inputs ∧ R (final step s inputs) (final step' t inputs) := by
  induction inputs generalizing s t with
  | nil => exact ⟨rfl,start⟩
  | cons a rest ih =>
    obtain ⟨same,related⟩ := alike s t a start along.1
    obtain ⟨sameRest,relatedEnd⟩ := ih related along.2
    exact ⟨by simp [same,sameRest],relatedEnd⟩

end Pigeon.Runs
