import Pigeon.Machines

/-!
`Step` of the interpreter without an event (`protocol/machine.go`). Go ranges over the
entries of the index in any order; inside an entry the order is that of the table. So `Step`
takes the first transition whose guard holds just when the first ones of all events go to one
state by one action (`step_fires_first_iff`).
-/
namespace Pigeon.Machines
open Protocols List

def internalFrom (a : Actor) (state : Name) : List Transition :=
  a.flattenedTransitions.filter fun t => t.trigger.kind = .internal ∧ t.origin = state

def RangeOrder (a : Actor) (state : Name) (order : List Name) : Prop :=
  order.Perm ((internalFrom a state).map fun t => t.trigger.desc).dedup

/-- The guards and actions of the transitions are registered, and the guards answer as `outcome` says. -/
structure Answers {σ ε : Type} (hooks : Hooks σ ε) (outcome : Name → Bool) (ctx : σ) (ts : List Transition) : Prop where
  guards : ∀ t ∈ ts, t.guard ≠ [] → ∃ guard, hooks.guards t.guard = some guard ∧ guard ctx = (outcome t.guard,ctx)
  actions : ∀ t ∈ ts, t.action ≠ [] → ∃ action, hooks.actions t.action = some action

def enabled (outcome : Name → Bool) (t : Transition) : Bool := t.guard = [] || outcome t.guard

def firstEnabled (outcome : Name → Bool) (ts : List Transition) : Option Transition := ts.find? (enabled outcome)

structure FiresFirst {σ ε : Type} (hooks : Hooks σ ε) (outcome : Name → Bool) (a : Actor) (r : Running σ)
    (result : Running σ × Option (StepError ε)) : Prop where
  fires : ∀ t, firstEnabled outcome (internalFrom a r.state) = some t → result = fire hooks t r
  fails : result.2 ≠ none → firstEnabled outcome (internalFrom a r.state) = none ∨
    ∃ t action ctx error, firstEnabled outcome (internalFrom a r.state) = some t ∧
      hooks.actions t.action = some action ∧ action r.ctx = (ctx,some error)

def FirstsAgree (a : Actor) (state : Name) (outcome : Name → Bool) : Prop :=
  ∀ first, firstEnabled outcome (internalFrom a state) = some first → ∀ event t,
    firstEnabled outcome ((internalFrom a state).filter fun t => t.trigger.desc = event) = some t →
      t.target = first.target ∧ t.action = first.action

section
variable {σ ε : Type} {hooks : Hooks σ ε} {outcome : Name → Bool} {a : Actor} {r : Running σ} {ts : List Transition}

theorem Answers.mono {ts'} (answers : Answers hooks outcome r.ctx ts) (subset : ts' ⊆ ts) :
    Answers hooks outcome r.ctx ts' :=
  ⟨fun t among => answers.guards t (subset among),fun t among => answers.actions t (subset among)⟩

theorem tryTransitions_eq (answers : Answers hooks outcome r.ctx ts) :
    tryTransitions hooks ts r = match firstEnabled outcome ts with
      | some t => fire hooks t r
      | none => (r,some (.guardsFailed r.state)) := by
  induction ts with
  | nil => rfl
  | cons t rest ih =>
    have others := ih (answers.mono (subset_cons_self t rest))
    rw [tryTransitions,firstEnabled]
    split
    next free => simp [enabled,free]
    next guarded =>
      obtain ⟨guard,registered,answer⟩ := answers.guards t mem_cons_self guarded
      simp only [registered,answer]
      cases holds : outcome t.guard with
      | true => simp [enabled,holds]
      | false =>
        rw [find?_cons_of_neg (by simp [enabled,guarded,holds])]
        exact others

theorem internalIndex_eq (a : Actor) (state event : Name) :
    (machineOf a).internalIndex (state,event) = (internalFrom a state).filter fun t => t.trigger.desc = event := by
  show index internalKey (fun _ => []) a.flattenedTransitions (state,event) = _
  rw [index_eq,nil_append,internalFrom,filter_filter]
  refine filter_congr (fun t _ => ?_)
  by_cases kind : t.trigger.kind = .internal <;> simp [internalKey,kind,Bool.and_comm]

/-- The transitions that `Step` tries, entry by entry. -/
def rangeOver (a : Actor) (state : Name) (order : List Name) : List Transition :=
  order.flatMap fun event => (internalFrom a state).filter fun t => t.trigger.desc = event

variable {state : Name} {order : List Name} {t : Transition}

theorem mem_rangeOver (range : RangeOrder a state order) :
    t ∈ rangeOver a state order ↔ t ∈ internalFrom a state := by
  rw [rangeOver,mem_flatMap]
  constructor
  · rintro ⟨event,_,among⟩
    exact (mem_filter.mp among).1
  · intro among
    refine ⟨t.trigger.desc,?_,mem_filter.mpr ⟨among,by simp⟩⟩
    exact range.mem_iff.mpr (mem_dedup.mpr (mem_map.mpr ⟨t,among,rfl⟩))

theorem step_empty_eq (answers : Answers hooks outcome r.ctx (internalFrom a r.state))
    (range : RangeOrder a r.state order) :
    step hooks (machineOf a) order r [] = match firstEnabled outcome (rangeOver a r.state order) with
      | some t => fire hooks t r
      | none => (r,some (if internalFrom a r.state = [] then .noInternalAny r.state else .guardsFailed r.state)) := by
  have tried : (order.flatMap fun event => (machineOf a).internalIndex (r.state,event)) = rangeOver a r.state order := by
    simp [internalIndex_eq,rangeOver]
  have same : internalFrom a r.state = [] ↔ rangeOver a r.state order = [] := by
    simp [eq_nil_iff_forall_not_mem,mem_rangeOver range]
  rw [step,if_neg (by simp),tried]
  cases list : rangeOver a r.state order with
  | nil => simp [firstEnabled,same.mpr list]
  | cons t rest =>
    have more : internalFrom a r.state ≠ [] := by simp [same,list]
    show tryTransitions hooks (t :: rest) r = _
    rw [← list,tryTransitions_eq (answers.mono fun t among => (mem_rangeOver range).mp among),if_neg more]

theorem firstEnabled_range (found : firstEnabled outcome (rangeOver a state order) = some t) :
    ∃ event, firstEnabled outcome ((internalFrom a state).filter fun t => t.trigger.desc = event) = some t := by
  rw [firstEnabled,rangeOver,find?_flatMap] at found
  obtain ⟨event,_,own⟩ := exists_of_findSome?_eq_some found
  exact ⟨event,own⟩

theorem firstEnabled_range_eq_none (range : RangeOrder a state order) :
    firstEnabled outcome (rangeOver a state order) = none ↔ firstEnabled outcome (internalFrom a state) = none := by
  simp [firstEnabled,mem_rangeOver range]

theorem fire_congr {u} (target : t.target = u.target) (action : t.action = u.action) :
    fire hooks t r = fire hooks u r := by
  simp [fire,target,action]

theorem fire_succeeding (t : Transition) (idle : ∀ action, hooks.actions action = some fun ctx => (ctx,none)) :
    (fire hooks t r).1 = ⟨t.target,r.ctx,r.ran ++ if t.action = [] then [] else [t.action]⟩ := by
  rw [fire]
  split
  next none => simp
  next => simp [idle]

theorem fire_fails (registered : t.action ≠ [] → ∃ action, hooks.actions t.action = some action)
    (failed : (fire hooks t r).2 ≠ none) :
    ∃ action ctx error, hooks.actions t.action = some action ∧ action r.ctx = (ctx,some error) := by
  rw [fire] at failed
  split at failed
  next => exact absurd rfl failed
  next acts =>
    obtain ⟨action,known⟩ := registered acts
    simp only [known] at failed
    cases result : action r.ctx with
    | mk ctx error =>
      cases error with
      | none => simp [result] at failed
      | some error => exact ⟨action,ctx,error,known,result⟩

end

/-- With everything registered, in whatever order Go ranges over the index, `Step` without an event fires the first
    internal transition whose guard holds, just when the first ones of all events agree. -/
theorem step_fires_first_iff (a : Actor) (state : Name) (outcome : Name → Bool) :
    (∀ (σ ε : Type) (hooks : Hooks σ ε) (r : Running σ) (order : List Name), r.state = state →
      Answers hooks outcome r.ctx (internalFrom a state) → RangeOrder a state order →
        FiresFirst hooks outcome a r (step hooks (machineOf a) order r [])) ↔ FirstsAgree a state outcome := by
  constructor
  · intro always first found event t own
    -- A range that comes to `event` first, over guards and actions that do nothing else.
    let hooks : Hooks Unit Unit := ⟨fun g => some fun ctx => (outcome g,ctx),fun _ => some fun ctx => (ctx,none)⟩
    let r : Running Unit := ⟨state,(),[]⟩
    have answers : Answers hooks outcome r.ctx (internalFrom a state) :=
      ⟨fun t _ _ => ⟨_,rfl,rfl⟩,fun t _ _ => ⟨_,rfl⟩⟩
    have among := mem_filter.mp (mem_of_find?_eq_some own)
    have desc : t.trigger.desc = event := by simpa using among.2
    have known : event ∈ ((internalFrom a state).map fun t => t.trigger.desc).dedup :=
      mem_dedup.mpr (mem_map.mpr ⟨t,among.1,desc⟩)
    have range : RangeOrder a state (event :: ((internalFrom a state).map fun t => t.trigger.desc).dedup.erase event) :=
      (perm_cons_erase known).symm
    have taken : firstEnabled outcome (rangeOver a state
        (event :: ((internalFrom a state).map fun t => t.trigger.desc).dedup.erase event)) = some t := by
      rw [rangeOver,flatMap_cons,firstEnabled,find?_append]
      rw [firstEnabled] at own
      simp [own]
    have fires := (always Unit Unit hooks r _ rfl answers range).fires first found
    rw [step_empty_eq answers range,show r.state = state from rfl,taken] at fires
    have idle : ∀ action, hooks.actions action = some fun ctx => (ctx,none) := fun _ => rfl
    have both := congrArg Prod.fst fires
    simp only [fire_succeeding _ idle,Running.mk.injEq,true_and,append_cancel_left_eq] at both
    refine ⟨both.1,?_⟩
    have actions := both.2
    split_ifs at actions with none none'
    · rw [none,none']
    · exact (cons.inj actions).1
  · rintro agree σ ε hooks r order rfl answers range
    rw [step_empty_eq answers range]
    cases found : firstEnabled outcome (rangeOver a r.state order) with
    | none =>
      have nothing := (firstEnabled_range_eq_none range).mp found
      exact ⟨fun t some => by simp [nothing] at some,fun _ => .inl nothing⟩
    | some t =>
      obtain ⟨event,own⟩ := firstEnabled_range found
      have nonempty : firstEnabled outcome (internalFrom a r.state) ≠ none := by
        intro nothing
        rw [(firstEnabled_range_eq_none range).mpr nothing] at found
        cases found
      obtain ⟨first,declared⟩ := Option.ne_none_iff_exists'.mp nonempty
      obtain ⟨target,action⟩ := agree first declared event t own
      have same : fire hooks t r = fire hooks first r := fire_congr target action
      have mem : first ∈ internalFrom a r.state := mem_of_find?_eq_some declared
      show FiresFirst hooks outcome a r (fire hooks t r)
      rw [same]
      constructor
      · intro u chosen
        cases declared.symm.trans chosen
        rfl
      · intro failed
        obtain ⟨act,ctx,error,known,result⟩ := fire_fails (answers.actions first mem) failed
        exact .inr ⟨first,act,ctx,error,declared,known,result⟩

/-- A backend that is connected, as in `session.yaml`: candidates may have been gathered, or it may be
    disconnected. -/
def connected : Actor where
  name := "backend"
  initial := "RelayConnected"
  transitions := [
    ⟨"RelayConnected","CandidatesAdvertised",⟨.internal,[],"candidates_gathered"⟩,[],[],[],[],[]⟩,
    ⟨"RelayConnected","Paired",⟨.internal,[],"disconnect"⟩,[],[],[],[],[]⟩]
  stateIndex := []
  roots := []
  machines := []
  routes := []

/-- When the range comes to `disconnect` first, the second transition is fired. -/
theorem later_transition_fired : RangeOrder connected connected.initial ["disconnect","candidates_gathered"] ∧
      (firstEnabled (fun _ => true) (internalFrom connected connected.initial)).map Transition.target =
        some "CandidatesAdvertised" ∧
      (step (ε := Empty) ⟨fun _ => none,fun _ => none⟩ (machineOf connected)
        ["disconnect","candidates_gathered"] ⟨connected.initial,(),[]⟩ []).1.state = "Paired" := by
  refine ⟨?_,by decide,by decide⟩
  show Perm _ _
  decide

end Pigeon.Machines
