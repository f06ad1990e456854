import Mathlib.Data.Set.Finite.Basic
import Pigeon.TlaWellFormed

/-!
What the `Next` of an exported module allows: transitions that are `Fires` and routes that are
`Routed` (`next_iff_honest`). The adversary actions are not exported, so the module covers them,
whatever their code does, just when none is declared, the adversary is not active in the phase
or its guard never holds (`covers_iff_idle`).
-/
namespace Pigeon.TlaExport
open Protocols TlaModules Function List

variable {V : Type}

section
variable (tla : Tla Name V) (p : Model) (phase : Option Phase) (sameFold : Char → Char → Bool) (s s' : Name → V)

def constantText (name : Name) : Option Name :=
  (header p phase).findSome? fun d => if d.name = name then d.body.quotedText else none

def constant (name : Name) : V :=
  match constantText p phase name with
  | some text => tla.str text
  | none => s name

def noMessage : V := tla.record [(typeKey,tla.str "none")]

def message (send : Send) : V :=
  tla.record ((typeKey,constant tla p phase s (msgConst send.msg)) :: send.fields.map fun f => (f.1,tla.eval s f.2))

structure Fires (base : Name) (t : Transition) : Prop where
  origin : s (stateVar base) = constant tla p phase s (stateConst base t.origin)
  arrived : ∀ msg ∈ received t, tla.field (s (recvVar msg)) typeKey = constant tla p phase s (msgConst msg)
  guard : t.guard ≠ [] → tla.Holds (tla.eval s (inlined t (guardExpr p t.guard)))
  taken : ∀ msg ∈ received t, s' (recvVar msg) = noMessage tla
  sent : ∀ send ∈ t.sends, s' (recvVar send.msg) = message tla p phase s send
  target : s' (stateVar base) = constant tla p phase s (stateConst base t.target)
  updated : ∀ u ∈ t.updates, s' (sanitiseTLA u.var) = tla.eval s (inlined t u.expr)
  kept : ∀ v ∈ allVarNames p phase, v ∉ assignedBy base t → s' v = s v

def delivered (a : Actor) (send : RouteSend) : V :=
  if acceptingState a send.receiver send.event ≠ [] then
    constant tla p phase s (stateConst (machineBase a.name send.receiver) (acceptingState a send.receiver send.event))
  else s (stateVar (machineBase a.name send.receiver))

structure Routed (a : Actor) (r : Route) : Prop where
  reported : reportingStates sameFold a r.source r.event ≠ [] →
    ∃ state ∈ reportingStates sameFold a r.source r.event,
      s (stateVar (machineBase a.name r.source)) = constant tla p phase s (stateConst (machineBase a.name r.source) state)
  guard : r.guard ≠ [] → tla.Holds (tla.eval s (guardExpr p r.guard))
  delivered : ∀ send ∈ r.sends, s' (stateVar (machineBase a.name send.receiver)) = delivered tla p phase s a send
  kept : ∀ v ∈ allVarNames p phase, v ∉ (Step.route a r).assigned → s' v = s v

def Step.Taken : Step → Prop
  | .transition owner t => Fires tla p phase s s' owner.base t
  | .route a r => Routed tla p phase sameFold s s' a r

structure Honest : Prop where
  rigid : ∀ c ∈ constVars p phase, s' c = s c
  taken : ∃ step ∈ steps p phase, step.Taken tla p phase sameFold s s'

end

section
variable {tla : Tla Name V} {p : Model} {phase : Option Phase} {sameFold : Char → Char → Bool} {s s' : Name → V}

variable {d : Definition Name}

theorem mem_behaviour : d ∈ behaviour p phase sameFold ↔
      d = ⟨"vars",.tuple (allVarNames p phase)⟩ ∨ d = ⟨"Init",.init (initConjuncts p phase)⟩ ∨
        (∃ step ∈ steps p phase, d = ⟨step.name,.action (step.action p phase sameFold)⟩ ∨ d ∈ step.commands) ∨
        d = ⟨"Next",.next ((steps p phase).map Step.name)⟩ ∨ d = ⟨"Spec",.spec⟩ ∨
        d ∈ propertyDefinitions p phase := by
  simp [behaviour,Step.definitions]

theorem command_body {step : Step} (mem : d ∈ step.commands) : ∃ names, d.body = .set names := by
  cases step with
  | transition owner t =>
    rw [Step.commands] at mem
    split at mem
    next => simp at mem
    next => exact ⟨_,congrArg Definition.body (mem_singleton.mp mem)⟩
  | route a r => simp [Step.commands] at mem

theorem definition_cases (mem : d ∈ (exportModule p phase sameFold).definitions) :
    d.body.Plain ∨ d = ⟨"Init",.init (initConjuncts p phase)⟩ ∨
      (∃ step ∈ steps p phase, d = ⟨step.name,.action (step.action p phase sameFold)⟩) ∨
      d = ⟨"Next",.next ((steps p phase).map Step.name)⟩ := by
  rcases mem_append.mp mem with first | later
  · exact .inl (plain_header first)
  · rcases mem_behaviour.mp later with rfl | init | ⟨step,own,action | command⟩ | next | rfl | last
    · exact .inl ⟨rfl,rfl,rfl⟩
    · exact .inr (.inl init)
    · exact .inr (.inr (.inl ⟨step,own,action⟩))
    · obtain ⟨names,set⟩ := command_body command
      exact .inl (set ▸ ⟨rfl,rfl,rfl⟩)
    · exact .inr (.inr (.inr next))
    · exact .inl ⟨rfl,rfl,rfl⟩
    · exact .inl (plain_property last)

variable {name : Name}

theorem mem_disjuncts :
    name ∈ (exportModule p phase sameFold).disjuncts ↔ ∃ step ∈ steps p phase, name = step.name := by
  rw [Module.disjuncts,mem_flatMap]
  constructor
  · rintro ⟨d,mem,named⟩
    rcases definition_cases mem with plain | rfl | ⟨step,_,rfl⟩ | rfl
    · rw [plain.noNext] at named
      cases named
    · cases named
    · cases named
    · obtain ⟨step,own,same⟩ := mem_map.mp named
      exact ⟨step,own,same.symm⟩
  · rintro ⟨step,own,rfl⟩
    refine ⟨⟨"Next",.next ((steps p phase).map Step.name)⟩,?_,mem_map_of_mem own⟩
    exact mem_append_right _ (mem_behaviour.mpr (.inr (.inr (.inr (.inl rfl)))))

theorem mem_initConjuncts {conjunct} :
    conjunct ∈ (exportModule p phase sameFold).initConjuncts ↔ conjunct ∈ initConjuncts p phase := by
  rw [Module.initConjuncts,mem_flatMap]
  constructor
  · rintro ⟨d,mem,listed⟩
    rcases definition_cases mem with plain | rfl | ⟨step,_,rfl⟩ | rfl
    · rw [plain.noInit] at listed
      cases listed
    · exact listed
    · cases listed
    · cases listed
  · intro listed
    refine ⟨⟨"Init",.init (initConjuncts p phase)⟩,?_,listed⟩
    exact mem_append_right _ (mem_behaviour.mpr (.inr (.inl rfl)))

theorem action_mem_definitions {action} : ⟨name,.action action⟩ ∈ (exportModule p phase sameFold).definitions ↔
      ∃ step ∈ steps p phase, name = step.name ∧ action = step.action p phase sameFold := by
  constructor
  · intro mem
    rcases definition_cases mem with plain | same | ⟨step,own,same⟩ | same
    · exact absurd plain.noAction nofun
    · cases same
    · cases same
      exact ⟨step,own,rfl,rfl⟩
    · cases same
  · rintro ⟨step,own,rfl,rfl⟩
    exact mem_append_right _ (mem_behaviour.mpr (.inr (.inr (.inl ⟨step,own,.inl rfl⟩))))

theorem behaviour_not_quoted (mem : d ∈ behaviour p phase sameFold) : d.body.quotedText = none := by
  rcases mem_behaviour.mp mem with rfl | rfl | ⟨step,_,rfl | command⟩ | rfl | rfl | last
  · rfl
  · rfl
  · rfl
  · obtain ⟨names,set⟩ := command_body command
    rw [set]
    rfl
  · rfl
  · rfl
  · obtain ⟨prop,_,rfl⟩ := mem_map.mp last
    rw [propertyBody]
    split
    next => rfl
    next => rfl
    next => rfl

theorem quotedText_eq (name : Name) : (exportModule p phase sameFold).quotedText name = constantText p phase name := by
  have later : ((behaviour p phase sameFold).findSome? fun d =>
      if d.name = name then d.body.quotedText else none) = none := by
    refine findSome?_eq_none_iff.mpr ?_
    intro d mem
    split
    next => exact behaviour_not_quoted mem
    next => rfl
  rw [Module.quotedText,exportModule,constantText,findSome?_append,later,Option.or_none]

theorem value_eq (name : Name) : (exportModule p phase sameFold).value tla s name = constant tla p phase s name := by
  rw [Module.value,constant,quotedText_eq]
  cases constantText p phase name with
  | none => rfl
  | some text => rfl

theorem constant_of_mem {text} (once : (exportModule p phase sameFold).defined.Nodup)
    (mem : ⟨name,.quoted text⟩ ∈ header p phase) : constant tla p phase s name = tla.str text := by
  have found := Module.quotedText_of_mem once (mem_append_left _ mem)
  rw [quotedText_eq] at found
  rw [constant,found]

theorem writeRecord_value (send : Send) :
    (writeRecord send).value tla (exportModule p phase sameFold) s = message tla p phase s send := by
  simp [writeRecord,Atom.value,value_eq,message,comp_def]

theorem forall_mem_if {α : Type} {c} [Decidable c] {x} {P : α → Prop} :
    (∀ y ∈ if c then [x] else [], P y) ↔ (c → P x) := by
  split
  next holds => simp [holds]
  next fails => simp [fails]

theorem transition_step_iff {base : Name} {t : Transition} :
    (transitionAction p phase base t).Step tla (exportModule p phase sameFold) s s' ↔
      Fires tla p phase s s' base t := by
  rw [transitionAction,framed_step_iff,transitionPrimed_names,transitionGuards,transitionPrimed]
  simp only [forall_mem_cons,forall_mem_append,forall_mem_map,cons_append,append_assoc,
    forall_mem_if,met_oneOf,met_tagged,met_expr,mem_singleton,exists_eq_left,value_eq,writeRecord_value,
    value_named,value_expr]
  constructor
  · rintro ⟨⟨origin,arrived,guard⟩,⟨taken,sent,target,updated⟩,kept⟩
    exact ⟨origin,arrived,guard,taken,sent,target,updated,kept⟩
  · rintro ⟨origin,arrived,guard,taken,sent,target,updated,kept⟩
    exact ⟨⟨origin,arrived,guard⟩,⟨taken,sent,target,updated⟩,kept⟩

variable {a : Actor}

theorem reportGuard_met {r} : (reportGuard sameFold a r).Met tla (exportModule p phase sameFold) s ↔
      (reportingStates sameFold a r.source r.event ≠ [] → ∃ state ∈ reportingStates sameFold a r.source r.event,
          s (stateVar (machineBase a.name r.source)) =
            constant tla p phase s (stateConst (machineBase a.name r.source) state)) := by
  rw [reportGuard]
  split
  next none => simp [none]
  next some => simp [some,value_eq]

theorem routeSend_value {send} :
    (routeSend a send).2.value tla (exportModule p phase sameFold) s = delivered tla p phase s a send := by
  rw [routeSend,delivered]
  split
  next => exact value_eq _
  next => rfl

theorem route_step_iff {r : Route} :
    (routeAction p phase sameFold a r).Step tla (exportModule p phase sameFold) s s' ↔
      Routed tla p phase sameFold s s' a r := by
  rw [routeAction,framed_step_iff,routeSend_names,routeGuards]
  simp only [forall_mem_cons,forall_mem_map,forall_mem_if,reportGuard_met,routeSend_value,met_expr]
  constructor
  · rintro ⟨⟨reported,guard⟩,next,kept⟩
    exact ⟨reported,guard,next,kept⟩
  · rintro ⟨reported,guard,next,kept⟩
    exact ⟨⟨reported,guard⟩,next,kept⟩

theorem Step.taken_iff (step : Step) : (step.action p phase sameFold).Step tla (exportModule p phase sameFold) s s' ↔
      step.Taken tla p phase sameFold s s' := by
  cases step with
  | transition owner t => exact transition_step_iff
  | route a r => exact route_step_iff

theorem next_iff_honest : (exportModule p phase sameFold).Next tla s s' ↔ Honest tla p phase sameFold s s' := by
  constructor
  · rintro ⟨rigid,name,_,action,defined,step⟩
    obtain ⟨own,mem,_,rfl⟩ := action_mem_definitions.mp defined
    exact ⟨rigid,own,mem,own.taken_iff.mp step⟩
  · rintro ⟨rigid,step,mem,taken⟩
    refine ⟨rigid,step.name,mem_disjuncts.mpr ⟨step,mem,rfl⟩,step.action p phase sameFold,?_,step.taken_iff.mpr taken⟩
    exact action_mem_definitions.mpr ⟨step,mem,rfl,rfl⟩

end

section
variable (tla : Tla Name V) (meaning : Name → (Name → V) → (Name → V) → Prop) (p : Model) (phase : Option Phase)
  (sameFold : Char → Char → Bool)

/-- One of its declared actions, while it is active and its guard holds. `meaning` is what PlusCal makes of the
    code. -/
structure AdversaryStep (s s' : Name → V) : Prop where
  active : ∀ ph, phase = some ph → ph.adversary = true
  guard : p.advGuard ≠ [] → tla.Holds (tla.eval s p.advGuard)
  taken : ∃ act ∈ p.advActions, meaning act.code s s'

/-- The steps of the adversary are among those of `Next`, so that what is invariant in the module is invariant when
    the adversary acts too. -/
structure Covers : Prop where
  allowed : ∀ s s', AdversaryStep tla meaning p phase s s' → (exportModule p phase sameFold).Next tla s s'
  invariants : ∀ I : (Name → V) → Prop, (∀ s, ((exportModule p phase sameFold).system tla).Reachable s → I s) →
    ∀ s, (((exportModule p phase sameFold).system tla).withSteps (AdversaryStep tla meaning p phase)).Reachable s → I s

/-- No action is declared, the phase has no adversary, or its guard never holds. -/
def Idle : Prop :=
  p.advActions = [] ∨ (∃ ph, phase = some ph ∧ ph.adversary = false) ∨
    p.advGuard ≠ [] ∧ ∀ s, ¬ tla.Holds (tla.eval s p.advGuard)

/-- The values that a step may give to what it assigns. -/
def Step.gives (s : Name → V) : Step → List V
  | .transition owner t => [constant tla p phase s (stateConst owner.base t.target)]
  | .route a r => r.sends.map (delivered tla p phase s a)

end

section
variable {tla : Tla Name V} {p : Model} {phase : Option Phase} {sameFold : Char → Char → Bool} {s : Name → V}

/-- Every step sets or keeps a variable, and so is not taken to a state in which all have a value that it gives none. -/
theorem not_taken {step v} (own : step ∈ steps p phase) (other : v ∉ step.gives tla p phase s)
    (new : ∀ x ∈ allVarNames p phase, v ≠ s x) : ¬ step.Taken tla p phase sameFold s fun _ => v := by
  intro taken
  cases step with
  | transition owner t => exact other (mem_singleton.mpr taken.target)
  | route a r =>
    cases sends : r.sends with
    | nil =>
      obtain ⟨actor,composed⟩ := route_of_step own
      obtain ⟨m,machine⟩ := exists_mem_of_ne_nil a.machines (by simpa [Actor.isComposed] using composed)
      have declared : stateVar (machineBase a.name m.name) ∈ allVarNames p phase :=
        mem_allVarNames.mpr (.machine actor composed machine)
      exact new _ declared (taken.kept _ declared (by simp [Step.assigned,sends]))
    | cons send rest =>
      have among : send ∈ r.sends := sends ▸ mem_cons_self
      exact other (mem_map.mpr ⟨send,among,(taken.delivered send among).symm⟩)

theorem exists_refused [Infinite V] (tla : Tla Name V) (p : Model) (phase : Option Phase)
    (sameFold : Char → Char → Bool) (s : Name → V) : ∃ s', ¬ (exportModule p phase sameFold).Next tla s s' := by
  obtain ⟨v,fresh⟩ := (finite_toSet ((steps p phase).flatMap (Step.gives tla p phase s) ++
    (allVarNames p phase).map s)).exists_notMem
  rw [Set.mem_ofPred_eq,mem_append,not_or] at fresh
  refine ⟨fun _ => v,fun next => ?_⟩
  obtain ⟨_,step,own,taken⟩ := next_iff_honest.mp next
  refine not_taken own (fun given => fresh.1 (mem_flatMap.mpr ⟨step,own,given⟩)) (fun x isVar same => ?_) taken
  exact fresh.2 (same ▸ mem_map_of_mem isVar)

end

instance : Infinite Value := .of_injective Value.text fun _ _ => Value.text.inj

def pairingPhase : Phase where
  name := "Pairing"
  states := []
  vars := ["token"]
  adversary := true

def issue : Transition :=
  ⟨"Idle","Issued",⟨.internal,[],"issue"⟩,[],[],[],[⟨"token","\"real\""⟩],[]⟩

def issuer : Actor where
  name := "issuer"
  initial := "Idle"
  transitions := [issue]
  stateIndex := []
  roots := []
  machines := []
  routes := []

def tokenModel : Model :=
  { relayModel with
    actors := [issuer]
    messages := []
    vars := [⟨"token",.string,"\"none\"",[]⟩]
    name := "Token"
    advActions := [⟨"forge",[],"token := \"forged\""⟩]
    phases := [pairingPhase] }

def forged : Value := .text "\"forged\""

def forge (_code : Name) (s s' : Name → Value) : Prop := s' = update s "token" forged

def tokenStart (name : Name) : Value :=
  if name = "issuer_state" then .text "issuer_Idle"
  else .text "\"none\""

theorem token_of_next {s s'} (next : (exportModule tokenModel (some pairingPhase) asciiFold).Next plainTla s s') :
    s' "token" = .text "\"real\"" := by
  obtain ⟨_,step,mem,taken⟩ := next_iff_honest.mp next
  have only : steps tokenModel (some pairingPhase) = [.transition (.actor "issuer") issue] := rfl
  rw [only,mem_singleton] at mem
  subst mem
  have fires : Fires plainTla tokenModel (some pairingPhase) s s' "issuer" issue := taken
  exact fires.updated _ mem_cons_self

theorem token_of_init {s} (init : (exportModule tokenModel (some pairingPhase) asciiFold).Init plainTla s) :
    s "token" = .text "\"none\"" :=
  init ("token",.atom (.expr "\"none\"")) (mem_initConjuncts.mpr (by decide))

theorem tokenStart_init : (exportModule tokenModel (some pairingPhase) asciiFold).Init plainTla tokenStart := by
  have all : initConjuncts tokenModel (some pairingPhase) =
      [("issuer_state".toList,.atom (.named "issuer_Idle".toList)),
        ("token".toList,.atom (.expr "\"none\"".toList))] := by decide
  intro conjunct listed
  rw [mem_initConjuncts,all] at listed
  rcases mem_cons.mp listed with rfl | listed
  · rw [value_named,value_eq]
    rfl
  · rw [mem_singleton.mp listed]
    rfl

theorem forge_step (s : Name → Value) :
    AdversaryStep plainTla forge tokenModel (some pairingPhase) s (update s "token" forged) := by
  refine ⟨?_,fun guarded => absurd rfl guarded,_,mem_cons_self,rfl⟩
  rintro ph ⟨⟩
  rfl

end Pigeon.TlaExport
