import Pigeon.GoGen

/-!
When the file that the Go generator writes compiles. `Distinct` says that names stay apart
under the mangling, `Writable` what else is needed. A protocol whose file compiles is writable
(`writable_of_compiles`), and a writable protocol of flat actors that passes `Validate` compiles
(`compiles_of_writable`); its cases are the transitions (`link_handleMessage`, `link_step`).
-/
namespace Pigeon.GoMachines
open Protocols List
open GoNames
open GoFile
open GoGen

section
variable (go : Go) (cPrefix : Name) (p : Protocol)

def mangledNames : List Name :=
  cPrefix :: (((Protocol.parts go cPrefix p).flatMap fun part =>
      (collectStates part.initial part.transitions).map fun s => part.label ++ goCamel go s) ++
    (idConsts go cPrefix p).map Const.ident ++
    (exportGo go cPrefix p).machines.flatMap fun m => [m.name,"New".toList ++ m.name])

structure Distinct : Prop where
  names : (aliases ++ mangledNames go cPrefix p).Nodup
  members : ∀ m ∈ (exportGo go cPrefix p).machines, (m.members ++ m.fields.map Field.name).Nodup

structure Assignable (vars : List VarDef) (u : VarUpdate) : Prop where
  literal : ∀ l ∈ goSimpleLiteral u.expr,
    ∃ v ∈ vars, goCamel go v.name = goCamel go u.var ∧ l.type go = some (goType v.type)
  self : goSimpleLiteral u.expr = none → (goSelfUpdate u.var u.expr).isSome = true →
    ∃ v ∈ vars, goCamel go v.name = goCamel go u.var ∧ goType v.type = .int
  comment : goSimpleLiteral u.expr = none → goSelfUpdate u.var u.expr = none → '\n' ∉ u.var ∧ '\n' ∉ u.expr

instance (vars : List VarDef) (u : VarUpdate) : Decidable (Assignable go vars u) :=
  decidable_of_iff (_ ∧ _ ∧ _)
    ⟨fun parts => ⟨parts.1,parts.2.1,parts.2.2⟩,fun fits => ⟨fits.literal,fits.self,fits.comment⟩⟩

/-- States are their own mangled names, names make identifiers, literals have their types, emitted commands are
    declared. -/
structure Writable : Prop where
  states : ∀ part ∈ Protocol.parts go cPrefix p, ∀ s ∈ collectStates part.initial part.transitions, goCamel go s = s
  identifiers : ∀ name ∈ mangledNames go cPrefix p, go.identifier name = true
  vars : ∀ part ∈ Protocol.parts go cPrefix p, ∀ v ∈ ownVars p part.transitions,
    go.identifier (goCamel go v.name) = true ∧ '\n' ∉ v.desc ∧
      ∀ l ∈ goInitialValue v, l.type go = some (goType v.type)
  updates : ∀ part ∈ Protocol.parts go cPrefix p, ∀ t ∈ part.transitions, ∀ u ∈ t.updates,
    Assignable go (ownVars p part.transitions) u
  commands : ∀ part ∈ Protocol.parts go cPrefix p, part.handlesEvents = true → ∀ t ∈ part.transitions,
    ∀ cmd ∈ t.emits, ∃ c ∈ p.commands, goCamel go c = goCamel go cmd

end

variable {t : Transition} {a : Actor}

section
variable {go : Go} {cPrefix : Name} {p : Protocol} {part : Part}

theorem consts_ident (settled : ∀ part ∈ Protocol.parts go cPrefix p,
    ∀ s ∈ collectStates part.initial part.transitions, goCamel go s = s) :
    (exportGo go cPrefix p).names = mangledNames go cPrefix p := by
  have states : ((Protocol.parts go cPrefix p).flatMap stateConsts).map Const.ident =
      (Protocol.parts go cPrefix p).flatMap fun part =>
        (collectStates part.initial part.transitions).map fun s => part.label ++ goCamel go s := by
    rw [map_flatMap]
    refine flatMap_congr (fun part mem => ?_)
    rw [stateConsts,map_map]
    refine map_congr_left (fun s state => ?_)
    rw [settled part mem s state]
    rfl
  simp [File.names,mangledNames,exportGo,states]

theorem mem_stateConst (mem : part ∈ Protocol.parts go cPrefix p) {s}
    (state : s ∈ collectStates part.initial part.transitions) :
    (⟨.state,part.label ++ s,s⟩ : Const) ∈ (exportGo go cPrefix p).consts :=
  mem_append_left _ (mem_flatMap.mpr ⟨part,mem,mem_map.mpr ⟨s,state,rfl⟩⟩)

theorem mem_idConst {c} (mem : c ∈ idConsts go cPrefix p) : c ∈ (exportGo go cPrefix p).consts :=
  mem_append_right _ mem

theorem mem_msgConst {msg} (declared : msg ∈ p.msgTypes) :
    (⟨.msg,msgIdent go cPrefix msg,msg⟩ : Const) ∈ (exportGo go cPrefix p).consts := by
  refine mem_idConst ?_
  simp only [idConsts,mem_append]
  exact .inl (.inl (.inl (.inl (mem_map.mpr ⟨msg,declared,rfl⟩))))

theorem mem_guardConst {guard} (declared : guard ∈ p.guards) :
    (⟨.guard,guardIdent go cPrefix guard,guard⟩ : Const) ∈ (exportGo go cPrefix p).consts := by
  refine mem_idConst ?_
  simp only [idConsts,mem_append]
  exact .inl (.inl (.inl (.inr (mem_map.mpr ⟨guard,declared,rfl⟩))))

theorem mem_sortedKeys {names name} : name ∈ sortedKeys names ↔ name ∈ names := by
  rw [sortedKeys,mem_insertionSort,mem_dedup]

theorem mem_actionConst (actor : a ∈ p.actors) (transition : t ∈ a.flattenedTransitions) (acts : t.action ≠ []) :
    (⟨.action,actionIdent go cPrefix t.action,t.action⟩ : Const) ∈ (exportGo go cPrefix p).consts := by
  have named : t.action ∈ actionNames p := by
    refine mem_sortedKeys.mpr (mem_filter.mpr ⟨?_,by simpa using acts⟩)
    exact mem_flatMap.mpr ⟨a,actor,mem_map.mpr ⟨t,transition,rfl⟩⟩
  refine mem_idConst ?_
  simp only [idConsts,mem_append]
  exact .inl (.inl (.inr (mem_map.mpr ⟨t.action,named,rfl⟩)))

theorem mem_eventConst (actor : a ∈ p.actors) (transition : t ∈ a.flattenedTransitions) :
    (⟨.event,eventIdent go cPrefix (eventOf t),eventOf t⟩ : Const) ∈ (exportGo go cPrefix p).consts := by
  have named : eventOf t ∈ eventNames p := by
    refine mem_sortedKeys.mpr (mem_append_left _ (mem_append_left _ ?_))
    exact mem_flatMap.mpr ⟨a,actor,mem_map.mpr ⟨t,transition,rfl⟩⟩
  refine mem_idConst ?_
  simp only [idConsts,mem_append]
  exact .inl (.inr (mem_map.mpr ⟨eventOf t,named,rfl⟩))

theorem mem_cmdConst {cmd} (declared : cmd ∈ p.commands) :
    (⟨.cmd,cmdIdent go cPrefix cmd,cmd⟩ : Const) ∈ (exportGo go cPrefix p).consts := by
  refine mem_idConst ?_
  simp only [idConsts,mem_append]
  exact .inr (mem_map.mpr ⟨cmd,declared,rfl⟩)

end

section
variable {go : Go} {cPrefix : Name} {p : Protocol} {part : Part}

theorem written_case (compiled : (exportGo go cPrefix p).Compiles go) (mem : part ∈ Protocol.parts go cPrefix p)
    (transition : t ∈ part.transitions) :
    ∃ input ident, (writeCase go cPrefix part.label t ident []).Compiles go (exportGo go cPrefix p).consts
      ((ownVars p part.transitions).map (fieldOf go)) input := by
  have machine := compiled.machines _ (mem_map.mpr ⟨part,mem,rfl⟩)
  cases kind : t.trigger.kind with
  | recv =>
    exact ⟨_,_,machine.handleMessage _ (mem_map.mpr ⟨t,mem_filter.mpr ⟨transition,by simp [kind]⟩,rfl⟩)⟩
  | internal =>
    exact ⟨_,_,machine.step _ (mem_map.mpr ⟨t,mem_filter.mpr ⟨transition,by simp [kind]⟩,rfl⟩)⟩

variable {s : Name}

theorem state_declared (compiled : (exportGo go cPrefix p).Compiles go)
    (mem : part ∈ Protocol.parts go cPrefix p) (state : s ∈ collectStates part.initial part.transitions) :
    Declares (exportGo go cPrefix p).consts .state (part.label ++ goCamel go s) := by
  rcases mem_collectStates.mp state with rfl | ⟨t,transition,ends⟩
  · exact (compiled.machines _ (mem_map.mpr ⟨part,mem,rfl⟩)).initial
  · obtain ⟨_,_,case⟩ := written_case compiled mem transition
    rcases ends with rfl | rfl
    · exact case.state
    · exact case.target

theorem idConst_kind {c} (mem : c ∈ idConsts go cPrefix p) : c.kind ≠ .state := by
  simp only [idConsts,mem_append,mem_map] at mem
  rcases mem with (((⟨_,_,rfl⟩ | ⟨_,_,rfl⟩) | ⟨_,_,rfl⟩) | ⟨_,_,rfl⟩) | ⟨_,_,rfl⟩ <;> exact nofun

def labelled (go : Go) (cPrefix : Name) (p : Protocol) : List (Name × Name) :=
  (Protocol.parts go cPrefix p).flatMap fun part =>
    (collectStates part.initial part.transitions).map fun s => (part.label,s)

theorem mem_labelled {x} : x ∈ labelled go cPrefix p ↔
    ∃ part ∈ Protocol.parts go cPrefix p, ∃ s ∈ collectStates part.initial part.transitions, (part.label,s) = x := by
  simp [labelled]

variable {ident : Name}

theorem declares_state (declared : Declares (exportGo go cPrefix p).consts .state ident) :
    ∃ x ∈ labelled go cPrefix p, x.1 ++ x.2 = ident := by
  obtain ⟨c,mem,kind,rfl⟩ := declared
  rcases mem_append.mp mem with state | other
  · obtain ⟨part,partOf,made⟩ := mem_flatMap.mp state
    obtain ⟨s,named,rfl⟩ := mem_map.mp made
    exact ⟨(part.label,s),mem_labelled.mpr ⟨part,partOf,s,named,rfl⟩,rfl⟩
  · exact absurd kind (idConst_kind other)

theorem labelled_apart (distinct : Distinct go cPrefix p) :
    ((labelled go cPrefix p).map fun x => x.1 ++ goCamel go x.2).Nodup := by
  have names := (nodup_cons.mp (Nodup.of_append_right distinct.names)).2
  have states := Nodup.of_append_left (Nodup.of_append_left names)
  rw [labelled,map_flatMap]
  simpa [Function.comp_def] using states

theorem states_settled (distinct : Distinct go cPrefix p) (compiled : (exportGo go cPrefix p).Compiles go) :
    ∀ part ∈ Protocol.parts go cPrefix p, ∀ s ∈ collectStates part.initial part.transitions, goCamel go s = s := by
  have settled := settled_of_resolved (fun x : Name × Name => x.1 ++ x.2) (fun x => x.1 ++ goCamel go x.2) (weigh go)
    (fun x _ => (goCamel_descends go x.1 x.2).imp_left (fun same => by rw [same]))
    (fun x mem y other => inj_on_of_nodup_map (labelled_apart distinct) mem other)
    (fun x mem => by
      obtain ⟨part,partOf,s,state,rfl⟩ := mem_labelled.mp mem
      exact declares_state (state_declared compiled partOf state))
  intro part mem s state
  exact append_cancel_left (settled (part.label,s) (mem_labelled.mpr ⟨part,mem,s,state,rfl⟩))

theorem update_compiles_iff {vars u} :
    (writeUpdate go u).Compiles go (vars.map (fieldOf go)) ↔ Assignable go vars u := by
  cases literal : goSimpleLiteral u.expr with
  | some l =>
    simp only [writeUpdate,literal,Stmt.Compiles,mem_map,exists_exists_and_eq_and,fieldOf]
    constructor
    · intro found
      exact ⟨fun other same => Option.some.inj (literal.symm.trans same) ▸ found,
        fun none => absurd (literal.symm.trans none) nofun,fun none => absurd (literal.symm.trans none) nofun⟩
    · exact fun assignable => assignable.literal l literal
  | none =>
    cases own : goSelfUpdate u.var u.expr with
    | some operand =>
      simp only [writeUpdate,literal,own,Stmt.Compiles,mem_map,exists_exists_and_eq_and,fieldOf]
      constructor
      · intro found
        exact ⟨fun l some => absurd (literal.symm.trans some) nofun,fun _ _ => found,
          fun _ none => absurd (own.symm.trans none) nofun⟩
      · exact fun assignable => assignable.self literal (by rw [own]; rfl)
    | none =>
      simp only [writeUpdate,literal,own,Stmt.Compiles]
      have line : '\n' ∉ u.var ++ ": ".toList ++ u.expr ++ " (set by action)".toList ↔
          '\n' ∉ u.var ∧ '\n' ∉ u.expr := by
        have colon : '\n' ∉ ": ".toList := by decide
        have note : '\n' ∉ " (set by action)".toList := by decide
        simp only [mem_append,not_or,colon,note,not_false_eq_true,and_true]
      rw [line]
      constructor
      · intro fits
        exact ⟨fun l some => absurd (literal.symm.trans some) nofun,fun _ some => absurd some (by simp [own]),
          fun _ _ => fits⟩
      · exact fun assignable => assignable.comment literal own

theorem writable_of_compiles (distinct : Distinct go cPrefix p) (compiled : (exportGo go cPrefix p).Compiles go) :
    Writable go cPrefix p := by
  have settled := states_settled distinct compiled
  refine ⟨settled,?_,?_,?_,?_⟩
  · rw [← consts_ident settled]
    exact compiled.identifiers
  · intro part mem v own
    have machine := compiled.machines _ (mem_map.mpr ⟨part,mem,rfl⟩)
    have field := machine.fields (fieldOf go v) (mem_map.mpr ⟨v,own,rfl⟩)
    refine ⟨field.1,field.2,?_⟩
    intro l initial
    -- the field that the initial value is for is the variable's own
    obtain ⟨f,among,name,type⟩ := machine.inits (goCamel go v.name,l) (mem_filterMap.mpr ⟨v,own,by rw [initial]; rfl⟩)
    have apart := Nodup.of_append_right machine.members
    have same := inj_on_of_nodup_map apart among (mem_map.mpr ⟨v,own,rfl⟩) name
    rw [same] at type
    exact type
  · intro part mem t transition u update
    obtain ⟨_,_,case⟩ := written_case compiled mem transition
    exact update_compiles_iff.mp (case.updates _ (mem_map.mpr ⟨u,update,rfl⟩))
  · intro part mem handles t transition cmd emitted
    have machine := compiled.machines _ (mem_map.mpr ⟨part,mem,rfl⟩)
    have case := machine.handleEvent (part.transitions.map (writeEventCase go cPrefix part.label))
      (by simp [writeMachine,handles]) _ (mem_map.mpr ⟨t,transition,rfl⟩)
    obtain ⟨c,among,kind,ident⟩ := case.emits (cmdIdent go cPrefix cmd) (mem_map.mpr ⟨cmd,emitted,rfl⟩)
    rcases mem_append.mp among with state | other
    · obtain ⟨_,_,made⟩ := mem_flatMap.mp state
      obtain ⟨_,_,rfl⟩ := mem_map.mp made
      exact absurd kind nofun
    · simp only [idConsts,mem_append,mem_map] at other
      rcases other with (((⟨_,_,rfl⟩ | ⟨_,_,rfl⟩) | ⟨_,_,rfl⟩) | ⟨_,_,rfl⟩) | ⟨declared,own,rfl⟩
      · exact absurd kind nofun
      · exact absurd kind nofun
      · exact absurd kind nofun
      · exact absurd kind nofun
      · exact ⟨declared,own,append_cancel_left ident⟩

def flatPart (go : Go) (cPrefix : Name) (a : Actor) : Part :=
  ⟨cPrefix ++ goConstPrefix go a.name,cPrefix ++ goCamel go (goConstPrefix go a.name),a.initial,a.flattenedTransitions,
    true⟩

theorem parts_flat (flat : ∀ a ∈ p.actors, a.isComposed = false) :
    Protocol.parts go cPrefix p = p.actors.map (flatPart go cPrefix) := by
  rw [Protocol.parts,map_eq_flatMap]
  refine flatMap_congr (fun a actor => ?_)
  rw [Actor.parts,if_neg (by simp [flat a actor])]
  rfl

theorem goCamel_recv (msg : Name) : goCamel go ("recv_" ++ msg) = "Recv" ++ goCamel go msg := by
  have first : upper go 'r' = 'R' := upper_ascii go (by decide)
  show upper go 'r' :: 'e' :: 'c' :: 'v' :: goCamel go msg = _
  rw [first]
  rfl

theorem eventIdent_recv (msg : Name) :
    eventIdent go cPrefix ("recv_" ++ msg) = cPrefix ++ "EventRecv" ++ goCamel go msg := by
  rw [eventIdent,goCamel_recv]
  simp

theorem declares_of_mem {c} (mem : c ∈ (exportGo go cPrefix p).consts) :
    Declares (exportGo go cPrefix p).consts c.kind c.ident := ⟨c,mem,rfl,rfl⟩

theorem declares_event (go : Go) (cPrefix : Name) (actor : a ∈ p.actors) (transition : t ∈ a.flattenedTransitions) :
    Declares (exportGo go cPrefix p).consts .event (eventIdent go cPrefix (eventOf t)) :=
  declares_of_mem (mem_eventConst actor transition)

theorem origin_mem (transition : t ∈ part.transitions) :
    t.origin ∈ collectStates part.initial part.transitions := mem_collectStates.mpr (.inr ⟨t,transition,.inl rfl⟩)

theorem target_mem (transition : t ∈ part.transitions) :
    t.target ∈ collectStates part.initial part.transitions := mem_collectStates.mpr (.inr ⟨t,transition,.inr rfl⟩)

theorem declares_settled (writable : Writable go cPrefix p) (mem : part ∈ Protocol.parts go cPrefix p)
    (state : s ∈ collectStates part.initial part.transitions) :
    Declares (exportGo go cPrefix p).consts .state (part.label ++ goCamel go s) := by
  rw [writable.states part mem s state]
  exact declares_of_mem (mem_stateConst mem state)

/-- A flat actor of a protocol that passes `Validate` and is writable. -/
structure WritableActor (go : Go) (cPrefix : Name) (p : Protocol) (a : Actor) : Prop where
  valid : p.validate = none
  writable : Writable go cPrefix p
  actor : a ∈ p.actors
  flat : a.isComposed = false
  part : flatPart go cPrefix a ∈ Protocol.parts go cPrefix p

variable {input : ConstKind}

theorem case_compiles {emits} (own : WritableActor go cPrefix p a)
    (transition : t ∈ a.flattenedTransitions) (known : Declares (exportGo go cPrefix p).consts input ident)
    (commands : ∀ e ∈ emits, Declares (exportGo go cPrefix p).consts .cmd e) :
    (writeCase go cPrefix (flatPart go cPrefix a).label t ident emits).Compiles go (exportGo go cPrefix p).consts
      ((ownVars p a.flattenedTransitions).map (fieldOf go)) input := by
  refine ⟨declares_settled own.writable own.part (origin_mem transition),known,?_,?_,?_,
    declares_settled own.writable own.part (target_mem transition),commands⟩
  · intro g guarded
    by_cases free : t.guard = []
    · simp [writeCase,free] at guarded
    · simp only [writeCase,free,↓reduceIte,Option.mem_def,Option.some.injEq] at guarded
      rw [← guarded]
      exact declares_of_mem (mem_guardConst ((validate_flat own.valid own.actor own.flat transition).2 free))
  · intro b acting
    by_cases free : t.action = []
    · simp [writeCase,free] at acting
    · simp only [writeCase,free,↓reduceIte,Option.mem_def,Option.some.injEq] at acting
      rw [← acting]
      exact declares_of_mem (mem_actionConst own.actor transition free)
  · intro stmt written
    obtain ⟨u,update,rfl⟩ := mem_map.mp written
    exact update_compiles_iff.mpr (own.writable.updates _ own.part t transition u update)

theorem machine_compiles (own : WritableActor go cPrefix p a) (distinct : Distinct go cPrefix p) :
    (writeMachine go cPrefix p (flatPart go cPrefix a)).Compiles go (exportGo go cPrefix p).consts := by
  refine ⟨distinct.members _ (mem_map.mpr ⟨_,own.part,rfl⟩),?_,?_,?_,?_,?_,?_⟩
  · intro f among
    obtain ⟨v,updated,rfl⟩ := mem_map.mp among
    have var := own.writable.vars _ own.part v updated
    exact ⟨var.1,var.2.1⟩
  · exact declares_settled own.writable own.part (mem_collectStates.mpr (.inl rfl))
  · intro i among
    obtain ⟨v,updated,made⟩ := mem_filterMap.mp among
    obtain ⟨l,initial,rfl⟩ := Option.map_eq_some_iff.mp made
    exact ⟨fieldOf go v,mem_map.mpr ⟨v,updated,rfl⟩,rfl,(own.writable.vars _ own.part v updated).2.2 l initial⟩
  · intro c written
    obtain ⟨t,among,rfl⟩ := mem_map.mp written
    obtain ⟨transition,kind⟩ := mem_filter.mp among
    have declared := (validate_flat own.valid own.actor own.flat transition).1 (by simpa using kind)
    exact case_compiles own transition (declares_of_mem (mem_msgConst declared)) nofun
  · intro c written
    obtain ⟨t,among,rfl⟩ := mem_map.mp written
    obtain ⟨transition,kind⟩ := mem_filter.mp among
    have known := declares_event go cPrefix own.actor transition
    rw [eventOf,show t.trigger.kind = .internal by simpa using kind] at known
    exact case_compiles own transition known nofun
  · intro cases handled c written
    cases handled
    obtain ⟨t,transition,rfl⟩ := mem_map.mp written
    have known := declares_event go cPrefix own.actor transition
    refine case_compiles own transition ?_ ?_
    · cases kind : t.trigger.kind with
      | recv =>
        rw [eventOf,kind,eventIdent_recv] at known
        exact known
      | internal =>
        rw [eventOf,kind] at known
        exact known
    · intro e emitted
      obtain ⟨cmd,listed,rfl⟩ := mem_map.mp emitted
      obtain ⟨c,declared,same⟩ := own.writable.commands _ own.part rfl t transition cmd listed
      rw [cmdIdent,← same]
      exact declares_of_mem (mem_cmdConst declared)

theorem compiles_of_writable (flat : ∀ a ∈ p.actors, a.isComposed = false) (valid : p.validate = none)
    (distinct : Distinct go cPrefix p) (writable : Writable go cPrefix p) : (exportGo go cPrefix p).Compiles go := by
  refine ⟨?_,?_,?_⟩
  · rw [consts_ident writable.states]
    exact distinct.names
  · rw [consts_ident writable.states]
    exact writable.identifiers
  · intro m among
    obtain ⟨part,mem,rfl⟩ := mem_map.mp among
    have made := mem
    rw [parts_flat flat] at made
    obtain ⟨a,actor,rfl⟩ := mem_map.mp made
    exact machine_compiles ⟨valid,writable,actor,flat a actor,mem⟩ distinct

theorem idents_apart (compiled : (exportGo go cPrefix p).Compiles go) :
    ((exportGo go cPrefix p).consts.map Const.ident).Nodup :=
  Nodup.of_append_left (nodup_cons.mp (Nodup.of_append_right compiled.names)).2

def plainCase (go : Go) (input : Transition → Name) (t : Transition) : Case where
  state := t.origin
  input := input t
  guard := if t.guard = [] then none else some t.guard
  action := if t.action = [] then none else some t.action
  updates := t.updates.map (writeUpdate go)
  target := t.target
  emits := []

theorem value_state (compiled : (exportGo go cPrefix p).Compiles go) (writable : Writable go cPrefix p)
    (mem : part ∈ Protocol.parts go cPrefix p) (state : s ∈ collectStates part.initial part.transitions) :
    value (exportGo go cPrefix p).consts .state (part.label ++ goCamel go s) = s := by
  rw [writable.states part mem s state]
  exact value_of_mem (idents_apart compiled) (mem_stateConst mem state)

theorem link_writeCase (named : Transition → Name) (emits : List Name)
    (own : WritableActor go cPrefix p a) (compiled : (exportGo go cPrefix p).Compiles go)
    (transition : t ∈ a.flattenedTransitions) (known : value (exportGo go cPrefix p).consts input ident = named t) :
    (writeCase go cPrefix (flatPart go cPrefix a).label t ident emits).link (exportGo go cPrefix p).consts input =
      { plainCase go named t with emits := emits.map (value (exportGo go cPrefix p).consts .cmd) } := by
  have origin := value_state compiled own.writable own.part (origin_mem transition)
  have target := value_state compiled own.writable own.part (target_mem transition)
  have guard : (if t.guard = [] then none else some (guardIdent go cPrefix t.guard)).map
      (value (exportGo go cPrefix p).consts .guard) = if t.guard = [] then none else some t.guard := by
    split
    next => rfl
    next guarded =>
      have declared := (validate_flat own.valid own.actor own.flat transition).2 guarded
      exact congrArg some (value_of_mem (idents_apart compiled) (mem_guardConst declared))
  have action : (if t.action = [] then none else some (actionIdent go cPrefix t.action)).map
      (value (exportGo go cPrefix p).consts .action) = if t.action = [] then none else some t.action := by
    split
    next => rfl
    next acts => exact congrArg some (value_of_mem (idents_apart compiled) (mem_actionConst own.actor transition acts))
  simp [Case.link,writeCase,plainCase,origin,target,guard,action,known]

section
variable (own : WritableActor go cPrefix p a) (compiled : (exportGo go cPrefix p).Compiles go)
include own compiled

theorem link_handleMessage :
    ((writeMachine go cPrefix p (flatPart go cPrefix a)).link (exportGo go cPrefix p).consts).handleMessage =
      (a.flattenedTransitions.filter fun t => t.trigger.kind = .recv).map (plainCase go fun t => t.trigger.msg) := by
  simp only [MachineDecl.link,writeMachine,map_map]
  refine map_congr_left (fun t among => ?_)
  obtain ⟨transition,kind⟩ := mem_filter.mp among
  have declared := (validate_flat own.valid own.actor own.flat transition).1 (by simpa using kind)
  exact link_writeCase (·.trigger.msg) [] own compiled transition
    (value_of_mem (idents_apart compiled) (mem_msgConst declared))

theorem link_step : ((writeMachine go cPrefix p (flatPart go cPrefix a)).link (exportGo go cPrefix p).consts).step =
      (a.flattenedTransitions.filter fun t => t.trigger.kind = .internal).map
        (plainCase go fun t => t.trigger.desc) := by
  simp only [MachineDecl.link,writeMachine,map_map]
  refine map_congr_left (fun t among => ?_)
  obtain ⟨transition,kind⟩ := mem_filter.mp among
  have known := value_of_mem (idents_apart compiled) (mem_eventConst own.actor transition)
  simp only [eventOf,show t.trigger.kind = .internal by simpa using kind] at known
  exact link_writeCase (·.trigger.desc) [] own compiled transition known

theorem link_handleEvent :
    ((writeMachine go cPrefix p (flatPart go cPrefix a)).link (exportGo go cPrefix p).consts).handleEvent =
      some (a.flattenedTransitions.map fun t =>
        { plainCase go eventOf t with
          emits := (t.emits.map (cmdIdent go cPrefix)).map (value (exportGo go cPrefix p).consts .cmd) }) := by
  refine congrArg some ?_
  show ((a.flattenedTransitions.map (writeEventCase go cPrefix (flatPart go cPrefix a).label)).map
    (Case.link (exportGo go cPrefix p).consts .event)) = _
  rw [map_map]
  refine map_congr_left (fun t transition => ?_)
  have known := value_of_mem (idents_apart compiled) (mem_eventConst own.actor transition)
  rw [Function.comp_apply,writeEventCase]
  refine link_writeCase eventOf (t.emits.map (cmdIdent go cPrefix)) own compiled transition ?_
  cases kind : t.trigger.kind with
  | recv =>
    simp only [eventOf,kind,eventIdent_recv] at known ⊢
    exact known
  | internal =>
    simp only [eventOf,kind] at known ⊢
    exact known

end

end

end Pigeon.GoMachines
