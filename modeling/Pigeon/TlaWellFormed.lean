import Pigeon.TlaExport

/-!
When the exported module is well formed: no name defined twice, one next value for every
declared variable, and only those primed. Names are joined without regard to collisions, and
`Validate` asks nothing of what a transition assigns. Where different things have different
names in the module (`Legible`), it is well formed just when the transitions, their sends and
updates and the phase are in order (`wellFormed_iff_tidy`).
-/
namespace Pigeon.TlaExport
open Protocols TlaModules List Function
open GoGen (sortedKeys)

def assignedBy (base : Name) (t : Transition) : List Name :=
  (received t).map recvVar ++ t.sends.map (fun s => recvVar s.msg) ++
    stateVar base :: t.updates.map fun u => sanitiseTLA u.var

def Step.assigned : Step → List Name
  | .transition owner t => assignedBy owner.base t
  | .route a r => r.sends.map fun s => stateVar (machineBase a.name s.receiver)

def Step.operators : Step → List Name
  | .transition owner t =>
    owner.actionName t :: if t.emits = [] then [] else ["Cmds_" ++ owner.actionName t]
  | .route a r => [makeRouteActionName a.name r]

section
variable (p : Model) (phase : Option Phase)

def stateNames (a : Actor) : List Name :=
  if a.isComposed then
    a.machines.flatMap fun m =>
      (collectStates m.initial m.flattenedTransitions).map (stateConst (machineBase a.name m.name))
  else
    ((collectStates a.initial a.flattenedTransitions).filter fun s =>
      (phaseStates phase).isEmpty || s ∈ phaseStates phase || isNeighbour phase a s).map (stateConst (actorBase a.name))

/-- The names of states, messages, events, commands and operators, and the two that every module has before the
    actions. -/
def namesBefore : List Name :=
  p.actors.flatMap (stateNames phase) ++
    (usedMessages p phase).map (fun m => msgConst m.type) ++
    (sortedKeys (usedEvents p phase)).map evtConst ++ (sortedKeys (usedCmds p phase)).map cmdConst ++
    p.operators.map (fun op => sanitiseTLA op.name) ++ ["vars".toList,"Init".toList]

/-- `Next` and `Spec`, and the names of the properties. -/
def namesAfter : List Name :=
  ["Next".toList,"Spec".toList] ++
    (p.properties.filter (propertyRelevant p phase)).map fun prop => sanitiseTLA prop.name

def operatorNames : List Name :=
  namesBefore p phase ++ (steps p phase).flatMap Step.operators ++ namesAfter p phase

inductive Declared : Name → Prop
  | actor {a : Actor} {t : Transition} (own : (a,t) ∈ phaseTransitions p phase) (moves : t.origin ≠ t.target) :
    Declared (stateVar (actorBase a.name))
  | machine {a : Actor} {m : SubMachine} (actor : a ∈ p.actors) (composed : a.isComposed = true)
    (mem : m ∈ a.machines) : Declared (stateVar (machineBase a.name m.name))
  | var {v : VarDef} (known : v ∈ phaseVars p phase) (varies : sanitiseTLA v.name ∉ constVars p phase) :
    Declared (sanitiseTLA v.name)
  | message {t : Transition} (own : t ∈ transitions p phase) (receives : t.trigger.kind = .recv) :
    Declared (recvVar t.trigger.msg)

/-- The module is well formed, by what it defines and assigns. -/
structure Regular : Prop where
  operators : (operatorNames p phase).Nodup
  apart : ∀ step ∈ steps p phase, step.assigned.Nodup
  declared : ∀ step ∈ steps p phase, ∀ v ∈ step.assigned, Declared p phase v
  single : ∀ step ∈ steps p phase, ∀ v ∉ step.assigned, ¬ Duplicate v (allVarNames p phase)

def stateVars : List Name :=
  (p.actors.filter fun a => !a.isComposed).map (fun a => stateVar (actorBase a.name)) ++ machineVars p

def otherNames : List Name := namesBefore p phase ++ namesAfter p phase

/-- Two transitions of one machine between the same states, on the same trigger and with the same guard, or two routes
    of one actor for the same event of the same machine. -/
def Step.Same : Step → Step → Prop
  | .transition owner t, .transition owner' t' =>
    owner = owner' ∧ t.origin = t'.origin ∧ t.target = t'.target ∧ t.trigger = t'.trigger ∧ t.guard = t'.guard
  | .route a r, .route a' r' => a.name = a'.name ∧ r.source = r'.source ∧ r.event = r'.event
  | _, _ => False

/-- Different names of the protocol are different in the module. -/
structure Legible : Prop where
  others : (otherNames p phase).Nodup
  actions : ∀ x ∈ steps p phase, ∀ y ∈ steps p phase, x.name = y.name → x.Same y
  commands : ∀ x ∈ steps p phase, ∀ y ∈ steps p phase, x.name ≠ "Cmds_".toList ++ y.name
  operators : ∀ x ∈ steps p phase, x.name ∉ otherNames p phase ∧ "Cmds_".toList ++ x.name ∉ otherNames p phase
  apart : (stateVars p ++ p.vars.map fun v => sanitiseTLA v.name).Nodup
  spelled : ∀ v ∈ p.vars, ∀ u ∈ modifiedVars p phase, sanitiseTLA v.name = sanitiseTLA u → v.name = u
  vars : ∀ v ∈ p.vars.map VarDef.name ++ modifiedVars p phase, sanitiseTLA v ∉ stateVars p ∧
    ∀ msg ∈ usedMsgs p phase, sanitiseTLA v ≠ recvVar msg
  messages : ∀ msg ∈ usedMsgs p phase, recvVar msg ∉ stateVars p
  routes : ∀ a r, .route a r ∈ steps p phase → ∀ send ∈ r.sends, ∃ m ∈ a.machines, m.name = send.receiver

/-- No two transitions are the same. A transition sends each message once, not the one that it receives, and only what
    is received in the phase; it updates a variable once, and only those of the phase. An actor that has transitions in
    the phase changes its state in one, and a route sends a machine one event. -/
structure Tidy : Prop where
  legible : Legible p phase
  different : (steps p phase).Pairwise fun x y => ¬ x.Same y
  messages : ∀ owner t, .transition owner t ∈ steps p phase →
    ((received t ++ t.sends.map Send.msg).map sanitiseTLA).Nodup
  heard : ∀ owner t, .transition owner t ∈ steps p phase → ∀ send ∈ t.sends, ∃ u ∈ transitions p phase,
    u.trigger.kind = .recv ∧ sanitiseTLA u.trigger.msg = sanitiseTLA send.msg
  updates : ∀ owner t, .transition owner t ∈ steps p phase → (t.updates.map fun u => sanitiseTLA u.var).Nodup
  known : ∀ owner t, .transition owner t ∈ steps p phase → ∀ u ∈ t.updates, ∃ v ∈ phaseVars p phase, v.name = u.var
  moves : ∀ a t, (a,t) ∈ phaseTransitions p phase → ∃ u, (a,u) ∈ phaseTransitions p phase ∧ u.origin ≠ u.target
  once : ∀ a r, .route a r ∈ steps p phase → (r.sends.map RouteSend.receiver).Nodup

end

section
variable {p : Model} {phase : Option Phase} {sameFold : Char → Char → Bool}

variable {a : Actor} {t : Transition}

theorem mem_phaseTransitions : (a,t) ∈ phaseTransitions p phase ↔
      a ∈ p.actors ∧ a.isComposed = false ∧ t ∈ a.flattenedTransitions ∧ inPhase phase t := by
  simp only [phaseTransitions,mem_flatMap]
  constructor
  · rintro ⟨b,actor,entry⟩
    split at entry
    next => simp at entry
    next flat =>
      obtain ⟨u,kept,same⟩ := mem_map.mp entry
      obtain ⟨rfl,rfl⟩ := Prod.mk.injEq _ _ _ _ ▸ same
      obtain ⟨mem,stays⟩ := mem_filter.mp kept
      exact ⟨actor,by simpa using flat,mem,stays⟩
  · rintro ⟨actor,flat,mem,stays⟩
    refine ⟨a,actor,?_⟩
    rw [if_neg (by simp [flat])]
    exact mem_map_of_mem (mem_filter.mpr ⟨mem,stays⟩)

variable {msg : Name}

theorem mem_received : msg ∈ received t ↔ t.trigger.kind = .recv ∧ msg = t.trigger.msg := by
  rw [received]
  split
  next receives => simp [receives]
  next other => simp [other]

variable {v : Name}

theorem mem_recvVars :
    v ∈ recvVars p phase ↔ ∃ t ∈ transitions p phase, t.trigger.kind = .recv ∧ v = recvVar t.trigger.msg := by
  rw [recvVars,mem_collect]
  simp only [not_mem_nil,false_or,mem_map,mem_flatMap,mem_received]
  constructor
  · rintro ⟨_,⟨t,own,receives,rfl⟩,rfl⟩
    exact ⟨t,own,receives,rfl⟩
  · rintro ⟨t,own,receives,rfl⟩
    exact ⟨_,⟨t,own,receives,rfl⟩,rfl⟩

theorem mem_actorVars : v ∈ actorVars p phase ↔
      ∃ a t, (a,t) ∈ phaseTransitions p phase ∧ t.origin ≠ t.target ∧ v = stateVar (actorBase a.name) := by
  simp only [actorVars,mem_map,mem_filter,Bool.and_eq_true,actorChangesState,any_eq_true,decide_eq_true_eq]
  constructor
  · rintro ⟨a,⟨_,_,⟨b,t⟩,own,named,moves⟩,rfl⟩
    exact ⟨b,t,own,moves,by rw [← named]⟩
  · rintro ⟨a,t,own,moves,rfl⟩
    have placed := mem_phaseTransitions.mp own
    refine ⟨a,⟨placed.1,⟨by simp [placed.2.1],?_⟩,(a,t),own,rfl,moves⟩,rfl⟩
    exact any_eq_true.mpr ⟨(a,t),own,decide_eq_true rfl⟩

theorem mem_allVarNames : v ∈ allVarNames p phase ↔ Declared p phase v := by
  simp only [allVarNames,mem_append,mem_actorVars,mem_recvVars]
  constructor
  · rintro (((⟨a,t,own,moves,rfl⟩ | machine) | plain) | ⟨t,own,receives,rfl⟩)
    · exact .actor own moves
    · obtain ⟨a,composed,m⟩ := mem_flatMap.mp machine
      obtain ⟨m,mem,rfl⟩ := mem_map.mp m
      obtain ⟨actor,composed⟩ := mem_filter.mp composed
      exact .machine actor composed mem
    · obtain ⟨d,kept,rfl⟩ := mem_map.mp plain
      obtain ⟨known,varies⟩ := mem_filter.mp kept
      exact .var known (of_decide_eq_true varies)
    · exact .message own receives
  · intro declared
    cases declared with
    | actor own moves => exact .inl (.inl (.inl ⟨_,_,own,moves,rfl⟩))
    | machine actor composed mem =>
      refine .inl (.inl (.inr (mem_flatMap.mpr ⟨_,mem_filter.mpr ⟨actor,composed⟩,?_⟩)))
      exact mem_map.mpr ⟨_,mem,rfl⟩
    | var known varies =>
      exact .inl (.inr (mem_map.mpr ⟨_,mem_filter.mpr ⟨known,decide_eq_true varies⟩,rfl⟩))
    | message own receives => exact .inr ⟨_,own,receives,rfl⟩

theorem header_names : namesBefore p phase = (header p phase).map Definition.name ++ ["vars".toList,"Init".toList] := by
  have states : ∀ a : Actor, (stateConstants phase a).map Definition.name = stateNames phase a := by
    intro a
    rw [stateConstants,stateNames]
    split
    next => simp [map_flatMap,comp_def]
    next => simp [comp_def]
  simp only [namesBefore,header,map_append,map_flatMap,states,messageConstants,eventConstants,commandConstants,
    operatorDefinitions,map_map,comp_def]

theorem Step.definitions_names (step : Step) :
    (step.definitions p phase sameFold).map Definition.name = step.operators := by
  cases step with
  | transition owner t =>
    rw [Step.definitions,Step.commands,Step.operators,map_cons]
    split
    next => rfl
    next => rfl
  | route a r => rfl

theorem defined_eq : (exportModule p phase sameFold).defined = operatorNames p phase := by
  simp only [Module.defined,exportModule,behaviour,map_append,header_names,map_flatMap,Step.definitions_names,
    map_cons,map_nil,propertyDefinitions,map_map,operatorNames,namesAfter,comp_def,append_assoc]

theorem transitionPrimed_names (base : Name) (t : Transition) :
    (transitionPrimed base t).map Prod.fst = assignedBy base t := by
  simp [transitionPrimed,assignedBy,comp_def]

theorem routeSend_names (a : Actor) (r : Route) :
    (r.sends.map (routeSend a)).map Prod.fst = (Step.route a r).assigned := by
  simp [Step.assigned,routeSend,comp_def]

theorem Step.action_eq (p : Model) (phase : Option Phase) (sameFold : Char → Char → Bool) (step : Step) :
    ∃ guards primed, step.action p phase sameFold = framed (allVarNames p phase) guards primed ∧
      primed.map Prod.fst = step.assigned := by
  cases step with
  | transition owner t => exact ⟨_,_,rfl,transitionPrimed_names owner.base t⟩
  | route a r => exact ⟨_,_,rfl,routeSend_names a r⟩

theorem Step.primedNames (p : Model) (phase : Option Phase) (sameFold : Char → Char → Bool) (step : Step) :
    (step.action p phase sameFold).primedNames = step.assigned := by
  obtain ⟨guards,primed,same,names⟩ := step.action_eq p phase sameFold
  rw [same]
  exact names

theorem plain_quoted (text : Name) : (Body.quoted text).Plain := ⟨rfl,rfl,rfl⟩

variable {d : Definition Name}

theorem plain_header (mem : d ∈ header p phase) : d.body.Plain := by
  simp only [header,mem_append,mem_flatMap] at mem
  rcases mem with (((⟨a,_,state⟩ | message) | event) | command) | operator
  · rw [stateConstants] at state
    split at state
    next =>
      obtain ⟨m,_,named⟩ := mem_flatMap.mp state
      obtain ⟨s,_,rfl⟩ := mem_map.mp named
      exact plain_quoted _
    next =>
      obtain ⟨s,_,rfl⟩ := mem_map.mp state
      exact plain_quoted _
  · obtain ⟨m,_,rfl⟩ := mem_map.mp message
    exact plain_quoted _
  · obtain ⟨e,_,rfl⟩ := mem_map.mp event
    exact plain_quoted _
  · obtain ⟨c,_,rfl⟩ := mem_map.mp command
    exact plain_quoted _
  · obtain ⟨op,_,rfl⟩ := mem_map.mp operator
    exact ⟨rfl,rfl,rfl⟩

theorem plain_property (mem : d ∈ propertyDefinitions p phase) : d.body.Plain := by
  obtain ⟨prop,_,rfl⟩ := mem_map.mp mem
  rw [propertyBody]
  split
  next => exact ⟨rfl,rfl,rfl⟩
  next => exact ⟨rfl,rfl,rfl⟩
  next => exact ⟨rfl,rfl,rfl⟩

theorem Step.definitions_action (step : Step) :
    ((step.definitions p phase sameFold).filterMap fun d => d.body.actionOf) = [step.action p phase sameFold] := by
  cases step with
  | transition owner t =>
    rw [Step.definitions,Step.commands]
    split
    next => rfl
    next => rfl
  | route a r => rfl

theorem actions_eq : (exportModule p phase sameFold).actions = (steps p phase).map (Step.action p phase sameFold) := by
  have first : ((header p phase).filterMap fun d => d.body.actionOf) = [] :=
    filterMap_eq_nil_iff.mpr fun d mem => (plain_header mem).noAction
  have last : ((propertyDefinitions p phase).filterMap fun d => d.body.actionOf) = [] :=
    filterMap_eq_nil_iff.mpr fun d mem => (plain_property mem).noAction
  have middle : (((steps p phase).flatMap (Step.definitions p phase sameFold)).filterMap fun d => d.body.actionOf) =
      (steps p phase).map (Step.action p phase sameFold) := by
    rw [filterMap_flatMap,flatMap_congr fun step _ => step.definitions_action,← map_eq_flatMap]
  rw [Module.actions,exportModule,behaviour]
  simp only [filterMap_append,first,last,middle]
  simp [Body.actionOf]

theorem Step.assigned_iff (p : Model) (phase : Option Phase) (sameFold : Char → Char → Bool) (step : Step) :
    ((∀ v ∈ allVarNames p phase, (step.action p phase sameFold).assignments v = 1) ∧
      ∀ v ∈ step.assigned, v ∈ allVarNames p phase) ↔
    step.assigned.Nodup ∧ (∀ v ∈ step.assigned, Declared p phase v) ∧
      ∀ v ∉ step.assigned, ¬ Duplicate v (allVarNames p phase) := by
  obtain ⟨guards,primed,same,names⟩ := step.action_eq p phase sameFold
  have framed := framed_assigned_iff (allVarNames p phase) guards primed
  rw [← same,names] at framed
  simpa only [mem_allVarNames] using framed

theorem Regular.of_wellFormed (formed : (exportModule p phase sameFold).WellFormed) : Regular p phase := by
  have each : ∀ step ∈ steps p phase, step.assigned.Nodup ∧ (∀ v ∈ step.assigned, Declared p phase v) ∧
      ∀ v ∉ step.assigned, ¬ Duplicate v (allVarNames p phase) := by
    intro step mem
    have action : step.action p phase sameFold ∈ (exportModule p phase sameFold).actions :=
      actions_eq ▸ mem_map_of_mem mem
    refine (step.assigned_iff p phase sameFold).mp ⟨formed.assignedOnce _ action,?_⟩
    rw [← step.primedNames p phase sameFold]
    exact formed.primedDeclared _ action
  refine ⟨defined_eq ▸ formed.definedOnce,?_,?_,?_⟩
  · exact fun step mem => (each step mem).1
  · exact fun step mem => (each step mem).2.1
  · exact fun step mem => (each step mem).2.2

theorem Regular.wellFormed (regular : Regular p phase) : (exportModule p phase sameFold).WellFormed := by
  have each : ∀ action ∈ (exportModule p phase sameFold).actions,
      (∀ v ∈ allVarNames p phase, action.assignments v = 1) ∧ ∀ v ∈ action.primedNames, v ∈ allVarNames p phase := by
    intro action mem
    rw [actions_eq] at mem
    obtain ⟨step,own,rfl⟩ := mem_map.mp mem
    rw [step.primedNames]
    exact (step.assigned_iff p phase sameFold).mpr ⟨regular.apart step own,regular.declared step own,regular.single step own⟩
  refine ⟨defined_eq ▸ regular.operators,?_,?_⟩
  · exact fun action mem => (each action mem).1
  · exact fun action mem => (each action mem).2

theorem mem_usedMsgs :
    msg ∈ usedMsgs p phase ↔ ∃ t ∈ transitions p phase, msg ∈ received t ∨ ∃ send ∈ t.sends, send.msg = msg := by
  simp [usedMsgs]

theorem received_used (own : t ∈ transitions p phase) (receives : t.trigger.kind = .recv) :
    t.trigger.msg ∈ usedMsgs p phase :=
  mem_usedMsgs.mpr ⟨t,own,.inl (mem_received.mpr ⟨receives,rfl⟩)⟩

theorem mem_modifiedVars {u} :
    u ∈ modifiedVars p phase ↔ ∃ t ∈ transitions p phase, ∃ update ∈ t.updates, update.var = u := by
  simp [modifiedVars]

theorem recvVar_eq_iff {msg'} : recvVar msg = recvVar msg' ↔ sanitiseTLA msg = sanitiseTLA msg' := by
  simp [recvVar,joined]

theorem nodup_collect {seen names} (apart : seen.Nodup) : (collect seen names).Nodup := by
  induction names generalizing seen with
  | nil => exact apart
  | cons name rest ih =>
    rw [collect]
    split
    next => exact ih apart
    next new => exact ih (nodup_append.mpr ⟨apart,by simp,fun x old y last same => new (by simp_all)⟩)

theorem mem_operators {step : Step} (mem : v ∈ step.operators) : v = step.name ∨ v = "Cmds_" ++ step.name := by
  cases step with
  | transition owner t =>
    rw [Step.operators,mem_cons] at mem
    refine mem.imp id (fun listed => ?_)
    split at listed
    · cases listed
    · exact mem_singleton.mp listed
  | route a r => exact .inl (mem_singleton.mp mem)

theorem name_mem_operators (step : Step) : step.name ∈ step.operators := by
  cases step <;> exact mem_cons_self

theorem name_of_same {x y : Step} (same : x.Same y) : x.name = y.name := by
  cases x with
  | transition owner t =>
    cases y with
    | transition owner' t' =>
      obtain ⟨rfl,origin,target,trigger,guard⟩ := same
      cases owner <;> simp only [Step.name,Owner.actionName,makeActionName,makeComposedActionName,transitionName,origin,
        target,trigger,guard]
    | route a r => cases same
  | route a r =>
    cases y with
    | transition owner t => cases same
    | route a' r' =>
      obtain ⟨name,source,event⟩ := same
      simp [Step.name,makeRouteActionName,name,source,event]

/-- What a step assigns, in the protocol's own terms. -/
theorem step_cases {step} (own : step ∈ steps p phase) :
    (∃ a t, (a,t) ∈ phaseTransitions p phase ∧ step = .transition (.actor a.name) t) ∨
      (∃ a m t, a ∈ p.actors ∧ a.isComposed ∧ m ∈ a.machines ∧ t ∈ m.flattenedTransitions ∧
        step = .transition (.machine a.name m.name) t) ∨
      ∃ a r, a ∈ p.actors ∧ a.isComposed ∧ step = .route a r := by
  rcases mem_append.mp own with first | second
  · obtain ⟨⟨a,t⟩,listed,rfl⟩ := mem_map.mp first
    exact .inl ⟨a,t,listed,rfl⟩
  · obtain ⟨a,kept,listed⟩ := mem_flatMap.mp second
    obtain ⟨actor,composed⟩ := mem_filter.mp kept
    rcases mem_append.mp listed with below | routes
    · obtain ⟨m,machine,mapped⟩ := mem_flatMap.mp below
      obtain ⟨t,transition,rfl⟩ := mem_map.mp mapped
      exact .inr (.inl ⟨a,m,t,actor,composed,machine,transition,rfl⟩)
    · obtain ⟨r,_,rfl⟩ := mem_map.mp routes
      exact .inr (.inr ⟨a,r,actor,composed,rfl⟩)

theorem route_of_step {r} (own : .route a r ∈ steps p phase) : a ∈ p.actors ∧ a.isComposed := by
  rcases step_cases own with ⟨_,_,_,same⟩ | ⟨_,_,_,_,_,_,_,same⟩ | ⟨_,_,actor,composed,same⟩
  · cases same
  · cases same
  · cases same
    exact ⟨actor,composed⟩

theorem flat_stateVar (actor : a ∈ p.actors) (flat : a.isComposed = false) :
    stateVar (actorBase a.name) ∈ stateVars p :=
  mem_append_left _ (mem_map.mpr ⟨a,mem_filter.mpr ⟨actor,by simp [flat]⟩,rfl⟩)

theorem transition_of_step {owner} (own : .transition owner t ∈ steps p phase) :
    t ∈ transitions p phase ∧ stateVar owner.base ∈ stateVars p := by
  rcases step_cases own with ⟨a,t,listed,same⟩ | ⟨a,m,t,actor,composed,machine,transition,same⟩ | ⟨a,r,_,_,same⟩
  · cases same
    obtain ⟨actor,flat,_⟩ := mem_phaseTransitions.mp listed
    exact ⟨mem_append_left _ (mem_map_of_mem listed),flat_stateVar actor flat⟩
  · cases same
    refine ⟨mem_append_right _ (mem_map.mpr ⟨(a,m,t),?_,rfl⟩),mem_append_right _ ?_⟩
    · refine mem_flatMap.mpr ⟨a,actor,?_⟩
      rw [if_pos composed]
      exact mem_flatMap.mpr ⟨m,machine,mem_map_of_mem transition⟩
    · exact mem_flatMap.mpr ⟨a,mem_filter.mpr ⟨actor,composed⟩,mem_map_of_mem machine⟩
  · cases same

theorem Declared.cases (declared : Declared p phase v) : v ∈ stateVars p ∨
    (∃ w ∈ phaseVars p phase, v = sanitiseTLA w.name) ∨
      ∃ t ∈ transitions p phase, t.trigger.kind = .recv ∧ v = recvVar t.trigger.msg := by
  cases declared with
  | actor own _ =>
    obtain ⟨actor,flat,_⟩ := mem_phaseTransitions.mp own
    exact .inl (flat_stateVar actor flat)
  | machine actor composed mem =>
    refine .inl (mem_append_right _ (mem_flatMap.mpr ⟨_,mem_filter.mpr ⟨actor,composed⟩,?_⟩))
    exact mem_map_of_mem mem
  | var known _ => exact .inr (.inl ⟨_,known,rfl⟩)
  | message own receives => exact .inr (.inr ⟨_,own,receives,rfl⟩)

section
variable (legible : Legible p phase)
include legible

theorem operators_iff : (operatorNames p phase).Nodup ↔ (steps p phase).Pairwise fun x y => ¬ x.Same y := by
  have reordered : (operatorNames p phase).Perm (otherNames p phase ++ (steps p phase).flatMap Step.operators) := by
    rw [operatorNames,otherNames,append_assoc,append_assoc]
    exact .append_left _ perm_append_comm
  have apart : ∀ x ∈ otherNames p phase, ∀ y ∈ (steps p phase).flatMap Step.operators, x ≠ y := by
    rintro x other _ mem rfl
    obtain ⟨step,own,named⟩ := mem_flatMap.mp mem
    rcases mem_operators named with rfl | rfl
    · exact (legible.operators step own).1 other
    · exact (legible.operators step own).2 other
  rw [reordered.nodup_iff,nodup_append,nodup_flatMap]
  constructor
  · rintro ⟨_,⟨_,pairs⟩,_⟩
    refine pairs.imp fun disjoint same => ?_
    exact disjoint (name_mem_operators _) (name_of_same same ▸ name_mem_operators _)
  · intro different
    refine ⟨legible.others,⟨fun step own => ?_,different.imp_of_mem fun {x y} ownX ownY differ v left right => ?_⟩,apart⟩
    · cases step with
      | transition owner t =>
        rw [Step.operators]
        split
        · simp
        · simpa [Step.name] using legible.commands _ own _ own
      | route a r => exact nodup_singleton _
    · rcases mem_operators left with rfl | rfl <;> rcases mem_operators right with same | same
      · exact differ (legible.actions x ownX y ownY same)
      · exact legible.commands x ownX y ownY same
      · exact legible.commands y ownY x ownX same.symm
      · exact differ (legible.actions x ownX y ownY (append_cancel_left same))

theorem var_apart {v} (known : v ∈ p.vars) :
    sanitiseTLA v.name ∉ stateVars p ∧ ∀ msg ∈ usedMsgs p phase, sanitiseTLA v.name ≠ recvVar msg :=
  legible.vars v.name (mem_append_left _ (mem_map_of_mem known))

theorem nodup_allVarNames : (allVarNames p phase).Nodup := by
  have states : (actorVars p phase ++ machineVars p).Sublist (stateVars p) := by
    refine .append_right (.map _ ?_) _
    refine monotone_filter_right _ fun a kept => ?_
    simp only [Bool.and_eq_true] at kept
    exact kept.1.1
  have plain : ((plainVars p phase).map fun v => sanitiseTLA v.name).Sublist (p.vars.map fun v => sanitiseTLA v.name) :=
    .map _ (filter_sublist.trans filter_sublist)
  refine nodup_append.mpr ⟨legible.apart.sublist (states.append plain),nodup_collect .nil,?_⟩
  rintro v first _ received rfl
  obtain ⟨t,own,receives,rfl⟩ := mem_recvVars.mp received
  have used := received_used own receives
  rcases mem_append.mp first with state | plainVar
  · exact legible.messages _ used (states.subset state)
  · obtain ⟨d,known,same⟩ := mem_map.mp (plain.subset plainVar)
    exact (var_apart legible known).2 _ used same

theorem declared_message (used : msg ∈ usedMsgs p phase) : Declared p phase (recvVar msg) ↔
    ∃ u ∈ transitions p phase, u.trigger.kind = .recv ∧ sanitiseTLA u.trigger.msg = sanitiseTLA msg := by
  constructor
  · intro declared
    rcases declared.cases with state | ⟨v,known,same⟩ | ⟨u,own,receives,same⟩
    · exact absurd state (legible.messages msg used)
    · exact absurd same.symm ((var_apart legible (mem_filter.mp known).1).2 msg used)
    · exact ⟨u,own,receives,(recvVar_eq_iff.mp same).symm⟩
  · rintro ⟨u,own,receives,same⟩
    rw [← recvVar_eq_iff.mpr same]
    exact .message own receives

theorem declared_var {u} (modified : u ∈ modifiedVars p phase) : Declared p phase (sanitiseTLA u) ↔
    ∃ v ∈ phaseVars p phase, v.name = u := by
  obtain ⟨stateless,other⟩ := legible.vars u (mem_append_right _ modified)
  constructor
  · intro declared
    rcases declared.cases with state | ⟨v,known,same⟩ | ⟨t,own,receives,same⟩
    · exact absurd state stateless
    · exact ⟨v,known,legible.spelled v (mem_filter.mp known).1 u modified same.symm⟩
    · exact absurd same (other _ (received_used own receives))
  · rintro ⟨v,known,rfl⟩
    refine .var known (fun constant => ?_)
    rcases mem_append.mp constant with unmodified | state
    · obtain ⟨w,kept,same⟩ := mem_map.mp unmodified
      obtain ⟨listed,fixed⟩ := mem_filter.mp kept
      rw [legible.spelled w (mem_filter.mp listed).1 _ modified same] at fixed
      exact of_decide_eq_true fixed modified
    · obtain ⟨a,kept,same⟩ := mem_map.mp state
      obtain ⟨actor,flat⟩ := mem_filter.mp kept
      simp only [Bool.and_eq_true,Bool.not_eq_true'] at flat
      exact stateless (same ▸ flat_stateVar actor flat.1.1)

theorem declared_actor (actor : a ∈ p.actors) (flat : a.isComposed = false) :
    Declared p phase (stateVar (actorBase a.name)) ↔ ∃ u, (a,u) ∈ phaseTransitions p phase ∧ u.origin ≠ u.target := by
  have own := flat_stateVar actor flat
  obtain ⟨states,_,_⟩ := nodup_append.mp legible.apart
  obtain ⟨actors,_,apart⟩ := nodup_append.mp states
  have listed : a ∈ p.actors.filter fun a => !a.isComposed := mem_filter.mpr ⟨actor,by simp [flat]⟩
  constructor
  · intro declared
    generalize same : stateVar (actorBase a.name) = name at declared own
    cases declared with
    | @actor b t other moves =>
      obtain ⟨actor',flat',_⟩ := mem_phaseTransitions.mp other
      have listed' : b ∈ p.actors.filter fun a => !a.isComposed := mem_filter.mpr ⟨actor',by simp [flat']⟩
      obtain rfl := inj_on_of_nodup_map actors listed' listed same.symm
      exact ⟨t,other,moves⟩
    | machine actor' composed mem =>
      refine absurd same (apart _ (mem_map_of_mem listed) _ ?_)
      exact mem_flatMap.mpr ⟨_,mem_filter.mpr ⟨actor',composed⟩,mem_map_of_mem mem⟩
    | var known _ => exact absurd own (var_apart legible (mem_filter.mp known).1).1
    | message transition receives => exact absurd own (legible.messages _ (received_used transition receives))
  · rintro ⟨u,transition,moves⟩
    exact .actor transition moves

theorem assigned_transition_iff {owner} (own : .transition owner t ∈ steps p phase) :
    (assignedBy owner.base t).Nodup ↔
      ((received t ++ t.sends.map Send.msg).map sanitiseTLA).Nodup ∧ (t.updates.map fun u => sanitiseTLA u.var).Nodup := by
  obtain ⟨transition,state⟩ := transition_of_step own
  have used : ∀ msg ∈ received t ++ t.sends.map Send.msg, msg ∈ usedMsgs p phase := by
    intro msg mem
    exact mem_flatMap.mpr ⟨t,transition,mem⟩
  have modified : ∀ u ∈ t.updates, u.var ∈ modifiedVars p phase := fun u update => mem_modifiedVars.mpr ⟨t,transition,u,update,rfl⟩
  have split : assignedBy owner.base t = (received t ++ t.sends.map Send.msg).map recvVar ++
      stateVar owner.base :: t.updates.map fun u => sanitiseTLA u.var := by
    simp [assignedBy]
  have sanitised : ((received t ++ t.sends.map Send.msg).map recvVar).Nodup ↔
      ((received t ++ t.sends.map Send.msg).map sanitiseTLA).Nodup := by
    have made : recvVar = joined "received".toList ∘ sanitiseTLA := rfl
    rw [made,← map_map]
    exact nodup_map_iff fun first second same => by simpa [joined] using same
  rw [split,nodup_append,nodup_cons,sanitised]
  constructor
  · rintro ⟨messages,⟨_,updates⟩,_⟩
    exact ⟨messages,updates⟩
  · rintro ⟨messages,updates⟩
    refine ⟨messages,⟨fun mem => ?_,updates⟩,?_⟩
    · obtain ⟨u,update,same⟩ := mem_map.mp mem
      exact (legible.vars u.var (mem_append_right _ (modified u update))).1 (same ▸ state)
    · rintro v first _ later rfl
      obtain ⟨msg,mem,rfl⟩ := mem_map.mp first
      rcases mem_cons.mp later with same | update
      · exact legible.messages msg (used msg mem) (same ▸ state)
      · obtain ⟨u,update,same⟩ := mem_map.mp update
        exact (legible.vars u.var (mem_append_right _ (modified u update))).2 msg (used msg mem) same

theorem assigned_route_iff {r} (own : .route a r ∈ steps p phase) :
    (Step.route a r).assigned.Nodup ↔ (r.sends.map RouteSend.receiver).Nodup := by
  obtain ⟨actor,composed⟩ := route_of_step own
  obtain ⟨states,_,_⟩ := nodup_append.mp legible.apart
  have machines := (nodup_flatMap.mp (nodup_append.mp states).2.1).1 a (mem_filter.mpr ⟨actor,composed⟩)
  have made : (Step.route a r).assigned =
      (r.sends.map RouteSend.receiver).map fun receiver => stateVar (machineBase a.name receiver) := by
    simp [Step.assigned,comp_def]
  rw [made]
  refine ⟨Nodup.of_map _,Nodup.map_on fun x first y second same => ?_⟩
  obtain ⟨send,among,rfl⟩ := mem_map.mp first
  obtain ⟨send',among',rfl⟩ := mem_map.mp second
  obtain ⟨m,machine,name⟩ := legible.routes a r own send among
  obtain ⟨m',machine',name'⟩ := legible.routes a r own send' among'
  rw [← name,← name'] at same ⊢
  rw [inj_on_of_nodup_map machines machine machine' same]

theorem single_of_legible : ¬ Duplicate v (allVarNames p phase) :=
  nodup_iff_forall_not_duplicate.mp (nodup_allVarNames legible) v

theorem Tidy.of_regular (regular : Regular p phase) : Tidy p phase := by
  refine ⟨legible,(operators_iff legible).mp regular.operators,?_,?_,?_,?_,?_,?_⟩
  · exact fun owner t own => ((assigned_transition_iff legible own).mp (regular.apart _ own)).1
  · intro owner t own send sends
    have used := mem_usedMsgs.mpr ⟨t,(transition_of_step own).1,.inr ⟨send,sends,rfl⟩⟩
    refine (declared_message legible used).mp (regular.declared _ own _ ?_)
    simp only [Step.assigned,assignedBy,mem_append,mem_map]
    exact .inl (.inr ⟨send,sends,rfl⟩)
  · exact fun owner t own => ((assigned_transition_iff legible own).mp (regular.apart _ own)).2
  · intro owner t own u update
    have modified := mem_modifiedVars.mpr ⟨t,(transition_of_step own).1,u,update,rfl⟩
    refine (declared_var legible modified).mp (regular.declared _ own _ ?_)
    simp only [Step.assigned,assignedBy,mem_append,mem_cons,mem_map]
    exact .inr (.inr ⟨u,update,rfl⟩)
  · intro a t transition
    obtain ⟨actor,flat,_⟩ := mem_phaseTransitions.mp transition
    refine (declared_actor legible actor flat).mp
      (regular.declared (.transition (.actor a.name) t) (mem_append_left _ (mem_map_of_mem transition)) _ ?_)
    simp only [Step.assigned,assignedBy,mem_append,mem_cons]
    exact .inr (.inl rfl)
  · exact fun a r own => (assigned_route_iff legible own).mp (regular.apart _ own)

end

theorem Tidy.regular (tidy : Tidy p phase) : Regular p phase := by
  have legible := tidy.legible
  refine ⟨(operators_iff legible).mpr tidy.different,?_,?_,fun _ _ _ _ => single_of_legible legible⟩
  · intro step own
    cases step with
    | transition owner t =>
      exact (assigned_transition_iff legible own).mpr ⟨tidy.messages owner t own,tidy.updates owner t own⟩
    | route a r => exact (assigned_route_iff legible own).mpr (tidy.once a r own)
  · intro step own v mem
    cases step with
    | transition owner t =>
      have transition := (transition_of_step own).1
      simp only [Step.assigned,assignedBy,mem_append,mem_cons,mem_map] at mem
      rcases mem with (⟨msg,receives,rfl⟩ | ⟨send,sends,rfl⟩) | rfl | ⟨u,update,rfl⟩
      · obtain ⟨kind,rfl⟩ := mem_received.mp receives
        exact .message transition kind
      · exact (declared_message legible (mem_usedMsgs.mpr ⟨t,transition,.inr ⟨send,sends,rfl⟩⟩)).mpr
          (tidy.heard owner t own send sends)
      · rcases step_cases own with ⟨a,u,listed,same⟩ | ⟨a,m,u,actor,composed,machine,_,same⟩ | ⟨_,_,_,_,same⟩
        · cases same
          obtain ⟨u,other,moves⟩ := tidy.moves a t listed
          exact .actor other moves
        · cases same
          exact .machine actor composed machine
        · cases same
      · exact (declared_var legible (mem_modifiedVars.mpr ⟨t,transition,u,update,rfl⟩)).mpr (tidy.known owner t own u update)
    | route a r =>
      obtain ⟨send,among,rfl⟩ := mem_map.mp mem
      obtain ⟨m,machine,name⟩ := legible.routes a r own send among
      obtain ⟨actor,composed⟩ := route_of_step own
      rw [← name]
      exact .machine actor composed machine

end

def asciiFold (c d : Char) : Bool := c.toLower = d.toLower

theorem no_guards : ([] : List Name) = ([] : List GuardDef).map GuardDef.id := rfl

def anyPhase : Phase where
  name := "All"
  states := []
  vars := []
  adversary := false

/-- A relay that answers a `ping` by another one, and has two ways back, one of which says `bye` to nobody who
    listens. -/
def relayActor : Actor where
  name := "relay"
  initial := "Up"
  transitions := [
    ⟨"Up","Down",⟨.recv,"ping",[]⟩,[],[],[⟨"relay","ping",[]⟩],[],[]⟩,
    ⟨"Down","Up",⟨.internal,[],"reset"⟩,[],[],[⟨"relay","bye",[]⟩],[],[]⟩,
    ⟨"Down","Up",⟨.internal,[],"reset"⟩,[],[],[],[],[]⟩]
  stateIndex := []
  roots := []
  machines := []
  routes := []

def relayModel : Model where
  actors := [relayActor]
  messages := [⟨"ping","relay","relay"⟩,⟨"bye","relay","relay"⟩]
  events := []
  commands := []
  vars := []
  guards := []
  name := "Relay"
  guardDefs := []
  operators := []
  advActions := []
  advGuard := []
  phases := [anyPhase]
  properties := []
  channelBound := 0
  guards_eq := no_guards

/-- One that only listens. -/
def listener : Model :=
  { relayModel with actors := [{ relayActor with transitions := [
    ⟨"Up","Down",⟨.recv,"ping",[]⟩,[],[],[],[],[]⟩] }] }

end Pigeon.TlaExport
