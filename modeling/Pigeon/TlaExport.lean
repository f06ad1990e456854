import Pigeon.GoGen
import Pigeon.TlaModules

/-!
The TLA+ export of a protocol (`ExportTLAPhase` in `protocol/tla.go`), as the module that it
writes. Every message type that is received is one variable `received_<msg>`, which a send
overwrites and the receiver clears; what no transition changes is a constant. Comments and
layout are left out, with the removal of the comma after the last variable.
-/
namespace Pigeon.TlaExport
open Protocols TlaModules
open GoGen (sortedKeys)

scoped instance lawful_name : LawfulBEq Name := inferInstance

structure GuardDef where
  (id expr : Name)

structure Operator where
  (name params expr : Name)

structure AdvAction where
  (name desc code : Name)

structure Phase where
  name : Name
  (states vars : List Name)
  adversary : Bool

inductive PropertyKind
  | invariant
  | liveness
  | leadsTo

structure Property where
  name : Name
  kind : PropertyKind
  (expr fromExpr toExpr : Name)

/-- A protocol with the texts and phases of its model; the adversary and the channel bound are not exported. -/
structure Model extends Protocol where
  name : Name
  guardDefs : List GuardDef
  operators : List Operator
  advActions : List AdvAction
  advGuard : Name
  phases : List Phase
  properties : List Property
  channelBound : Int
  guards_eq : guards = guardDefs.map GuardDef.id

def sanitiseTLA (s : Name) : Name := s.map fun c => if c = ' ' ∨ c = '-' ∨ c = '.' then '_' else c

def joined (first last : Name) : Name := first ++ '_' :: last

def recvMsg : Name := "recv_msg"
def typeKey : Name := "type"

def actorBase (actor : Name) : Name := sanitiseTLA actor

def machineBase (actor machine : Name) : Name := joined (sanitiseTLA actor) (sanitiseTLA machine)

def stateVar (base : Name) : Name := joined base "state"
def stateConst (base state : Name) : Name := joined base (sanitiseTLA state)
def msgConst (msg : Name) : Name := joined "MSG" (sanitiseTLA msg)
def evtConst (event : Name) : Name := joined "EVT" (sanitiseTLA event)
def cmdConst (cmd : Name) : Name := joined "CMD" (sanitiseTLA cmd)
def recvVar (msg : Name) : Name := joined "received" (sanitiseTLA msg)

def transitionName (base : Name) (t : Transition) : Name :=
  joined (joined (joined base (sanitiseTLA t.origin)) "to") (sanitiseTLA t.target) ++
    (if t.trigger.kind = .recv then "_on_" ++ sanitiseTLA t.trigger.msg
      else if t.trigger.desc ≠ [] then '_' :: sanitiseTLA t.trigger.desc else []) ++
    (if t.guard ≠ [] then '_' :: sanitiseTLA t.guard else [])

def makeActionName (actor : Name) (t : Transition) : Name := transitionName (actorBase actor) t

def makeComposedActionName (actor machine : Name) (t : Transition) : Name :=
  transitionName (machineBase actor machine) t

def makeRouteActionName (actor : Name) (r : Route) : Name :=
  joined (joined (joined (sanitiseTLA actor) "route") (sanitiseTLA r.source)) (sanitiseTLA r.event)

/-- The loop of `strings.ReplaceAll`, with the number of runes of a found `old` that are still to be passed over. -/
def replaceFrom (old new : Name) : Nat → Name → Name
  | _, [] => []
  | skip + 1, _ :: rest => replaceFrom old new skip rest
  | 0, c :: rest =>
    if old.isPrefixOf (c :: rest) then new ++ replaceFrom old new (old.length - 1) rest
    else c :: replaceFrom old new 0 rest

def replaceAll (text old new : Name) : Name := replaceFrom old new 0 text

/-- A text of a transition, with the received message in place of `recv_msg`. -/
def inlined (t : Transition) (text : Name) : Name :=
  if t.trigger.kind = .recv then replaceAll text recvMsg (recvVar t.trigger.msg) else text

section
variable (p : Model) (phase : Option Phase)

def phaseStates : List Name :=
  match phase with
  | none => []
  | some ph => ph.states

def inPhase (t : Transition) : Bool :=
  (phaseStates phase).isEmpty || (t.origin ∈ phaseStates phase && t.target ∈ phaseStates phase)

def phaseTransitions : List (Actor × Transition) :=
  p.actors.flatMap fun a => if a.isComposed then [] else (a.flattenedTransitions.filter (inPhase phase)).map (a,·)

/-- `composedActorTransition`. -/
def composedTransitions : List (Actor × SubMachine × Transition) :=
  p.actors.flatMap fun a =>
    if a.isComposed then a.machines.flatMap fun m => m.flattenedTransitions.map (a,m,·) else []

def transitions : List Transition :=
  (phaseTransitions p phase).map Prod.snd ++ (composedTransitions p).map fun ct => ct.2.2

def received (t : Transition) : List Name := if t.trigger.kind = .recv then [t.trigger.msg] else []

def usedMsgs : List Name := (transitions p phase).flatMap fun t => received t ++ t.sends.map Send.msg

def usedEvents : List Name :=
  (transitions p phase).flatMap fun t =>
    match t.trigger.kind with
    | .internal => if t.trigger.desc ≠ [] then [t.trigger.desc] else []
    | .recv => [joined "recv" t.trigger.msg]

def usedCmds : List Name := (transitions p phase).flatMap Transition.emits

def isNeighbour (a : Actor) (s : Name) : Bool :=
  a.flattenedTransitions.any fun t =>
    (t.origin = s && t.target ∈ phaseStates phase) || (t.target = s && t.origin ∈ phaseStates phase)

def stateConstants (a : Actor) : List (Definition Name) :=
  if a.isComposed then
    a.machines.flatMap fun m => (collectStates m.initial m.flattenedTransitions).map fun s =>
      ⟨stateConst (machineBase a.name m.name) s,.quoted (joined (joined a.name m.name) s)⟩
  else
    ((collectStates a.initial a.flattenedTransitions).filter fun s =>
      (phaseStates phase).isEmpty || s ∈ phaseStates phase || isNeighbour phase a s).map fun s =>
        ⟨stateConst (actorBase a.name) s,.quoted (joined a.name s)⟩

def usedMessages : List Message :=
  p.messages.filter fun m => (usedMsgs p phase).isEmpty || m.type ∈ usedMsgs p phase

def messageConstants : List (Definition Name) :=
  (usedMessages p phase).map fun m => ⟨msgConst m.type,.quoted m.type⟩

def eventConstants : List (Definition Name) := (sortedKeys (usedEvents p phase)).map fun e => ⟨evtConst e,.quoted e⟩

def commandConstants : List (Definition Name) := (sortedKeys (usedCmds p phase)).map fun c => ⟨cmdConst c,.quoted c⟩

def operatorDefinitions : List (Definition Name) :=
  p.operators.map fun op => ⟨sanitiseTLA op.name,.operator op.params op.expr⟩

def phaseVars : List VarDef :=
  p.vars.filter fun v => v.name ≠ recvMsg && match phase with
    | none => true
    | some ph => v.name ∈ ph.vars

def modifiedVars : List Name := (transitions p phase).flatMap fun t => t.updates.map VarUpdate.var

def hasTransitions (actor : Name) : Bool := (phaseTransitions p phase).any fun entry => entry.1.name = actor

def actorChangesState (actor : Name) : Bool :=
  (phaseTransitions p phase).any fun entry => entry.1.name = actor && entry.2.origin ≠ entry.2.target

def constVars : List Name :=
  ((phaseVars p phase).filter fun v => v.name ∉ modifiedVars p phase).map (fun v => sanitiseTLA v.name) ++
    (p.actors.filter fun a => !a.isComposed && hasTransitions p phase a.name &&
      !actorChangesState p phase a.name).map fun a => stateVar (actorBase a.name)

def recvVars : List Name := collect [] (((transitions p phase).flatMap received).map recvVar)

def actorVars : List Name :=
  (p.actors.filter fun a => !a.isComposed && hasTransitions p phase a.name && actorChangesState p phase a.name).map
    fun a => stateVar (actorBase a.name)

def machineVars : List Name :=
  (p.actors.filter Actor.isComposed).flatMap fun a => a.machines.map fun m => stateVar (machineBase a.name m.name)

def plainVars : List VarDef := (phaseVars p phase).filter fun v => sanitiseTLA v.name ∉ constVars p phase

def allVarNames : List Name :=
  actorVars p phase ++ machineVars p ++ (plainVars p phase).map (fun v => sanitiseTLA v.name) ++ recvVars p phase

def emptyRecord : Term Name := .record [(typeKey,.quoted "none")]

def writeRecord (s : Send) : Term Name :=
  .record ((typeKey,.named (msgConst s.msg)) :: s.fields.map fun f => (f.1,.expr f.2))

def firstOfEach : List Name → List Actor → List Actor
  | _, [] => []
  | seen, a :: rest => if a.name ∈ seen then firstOfEach seen rest else a :: firstOfEach (a.name :: seen) rest

def initialForPhase (a : Actor) : Name :=
  match phase with
  | none => a.initial
  | some ph =>
    if a.initial ∈ ph.states then a.initial
    else match a.flattenedTransitions.find? fun t => t.origin ∉ ph.states && t.target ∈ ph.states with
      | some t => t.target
      | none => a.initial

def initConjuncts : List (Name × Term Name) :=
  (firstOfEach [] ((phaseTransitions p phase).map Prod.fst)).map (fun a =>
    (stateVar (actorBase a.name),.atom (.named (stateConst (actorBase a.name) (initialForPhase phase a))))) ++
  ((p.actors.filter Actor.isComposed).flatMap fun a => a.machines.map fun m =>
    (stateVar (machineBase a.name m.name),.atom (.named (stateConst (machineBase a.name m.name) m.initial)))) ++
  (plainVars p phase).map (fun v => (sanitiseTLA v.name,.atom (.expr v.initial))) ++
  (recvVars p phase).map fun v => (v,emptyRecord)

def guardExpr (id : Name) : Name :=
  match p.guardDefs.find? fun g => g.id = id with
  | some g => g.expr
  | none => id

def transitionGuards (base : Name) (t : Transition) : List (Guard Name) :=
  .oneOf (stateVar base) [stateConst base t.origin] ::
    (received t).map (fun msg => .tagged (recvVar msg) typeKey (msgConst msg)) ++
    if t.guard ≠ [] then [.expr (inlined t (guardExpr p t.guard))] else []

def transitionPrimed (base : Name) (t : Transition) : List (Name × Term Name) :=
  (received t).map (fun msg => (recvVar msg,emptyRecord)) ++
    t.sends.map (fun s => (recvVar s.msg,writeRecord s)) ++
    (stateVar base,.atom (.named (stateConst base t.target))) ::
    t.updates.map fun u => (sanitiseTLA u.var,.atom (.expr (inlined t u.expr)))

def transitionAction (base : Name) (t : Transition) : Action Name :=
  framed (allVarNames p phase) (transitionGuards p base t) (transitionPrimed base t)

section
variable (sameFold : Char → Char → Bool)

def equalFold : Name → Name → Bool
  | [], [] => true
  | c :: first, d :: second => (c = d || sameFold c d) && equalFold first second
  | _, _ => false

def reportingStates (a : Actor) (machine event : Name) : List Name :=
  match a.machines.find? fun m => m.name = machine with
  | none => []
  | some m => collect [] (m.flattenedTransitions.flatMap fun t =>
      (if t.trigger.kind = .internal ∧ t.trigger.desc = event then [t.target] else []) ++
        if equalFold sameFold t.target event then [t.target] else [])

def acceptingState (a : Actor) (machine event : Name) : Name :=
  match a.machines.find? fun m => m.name = machine with
  | none => []
  | some m =>
    match m.flattenedTransitions.find? fun t => t.trigger.kind = .internal ∧ t.trigger.desc = event with
    | some t => t.target
    | none => []

def routeSend (a : Actor) (s : RouteSend) : Name × Term Name :=
  (stateVar (machineBase a.name s.receiver),
    if acceptingState a s.receiver s.event ≠ [] then
      .atom (.named (stateConst (machineBase a.name s.receiver) (acceptingState a s.receiver s.event)))
    else .atom (.current (stateVar (machineBase a.name s.receiver))))

def reportGuard (a : Actor) (r : Route) : Guard Name :=
  if reportingStates sameFold a r.source r.event = [] then .always
  else .oneOf (stateVar (machineBase a.name r.source))
    ((reportingStates sameFold a r.source r.event).map (stateConst (machineBase a.name r.source)))

def routeGuards (a : Actor) (r : Route) : List (Guard Name) :=
  reportGuard sameFold a r :: if r.guard ≠ [] then [.expr (guardExpr p r.guard)] else []

/-- `composedRouteAction`. -/
def routeAction (a : Actor) (r : Route) : Action Name :=
  framed (allVarNames p phase) (routeGuards p sameFold a r) (r.sends.map (routeSend a))

inductive Owner
  | actor (name : Name)
  | machine (actor name : Name)

def Owner.base : Owner → Name
  | .actor name => actorBase name
  | .machine host name => machineBase host name

def Owner.actionName : Owner → Transition → Name
  | .actor name => makeActionName name
  | .machine host name => makeComposedActionName host name

inductive Step
  | transition (owner : Owner) (t : Transition)
  | route (a : Actor) (r : Route)

def Step.name : Step → Name
  | .transition owner t => owner.actionName t
  | .route a r => makeRouteActionName a.name r

def Step.action : Step → Action Name
  | .transition owner t => transitionAction p phase owner.base t
  | .route a r => routeAction p phase sameFold a r

def Step.commands : Step → List (Definition Name)
  | .transition owner t =>
    if t.emits = [] then [] else [⟨"Cmds_" ++ owner.actionName t,.set (t.emits.map cmdConst)⟩]
  | .route _ _ => []

def Step.definitions (step : Step) : List (Definition Name) :=
  ⟨step.name,.action (step.action p phase sameFold)⟩ :: step.commands

def composedSteps (a : Actor) : List Step :=
  (a.machines.flatMap fun m => m.flattenedTransitions.map (.transition (.machine a.name m.name))) ++
    a.routes.map (.route a)

def steps : List Step :=
  (phaseTransitions p phase).map (fun entry => .transition (.actor entry.1.name) entry.2) ++
    (p.actors.filter Actor.isComposed).flatMap composedSteps

def propertyRelevant (prop : Property) : Bool :=
  match phase with
  | none => true
  | some ph =>
    ph.vars.isEmpty ||
      ((p.vars.all fun v => v.name ∈ ph.vars || v.name = recvMsg ||
          !decide (v.name <:+: prop.expr ++ prop.fromExpr ++ prop.toExpr)) &&
        (!(decide ("adversary_knowledge" <:+: prop.expr ++ prop.fromExpr ++ prop.toExpr) ||
            decide ("adversary_keys" <:+: prop.expr ++ prop.fromExpr ++ prop.toExpr)) ||
          "adversary_keys" ∈ ph.vars))

def propertyBody (prop : Property) : Body Name :=
  match prop.kind with
  | .invariant => .operator [] prop.expr
  | .liveness => .eventually prop.expr
  | .leadsTo => .leadsTo prop.fromExpr prop.toExpr

def propertyDefinitions : List (Definition Name) :=
  (p.properties.filter (propertyRelevant p phase)).map fun prop => ⟨sanitiseTLA prop.name,propertyBody prop⟩

def moduleName : Name :=
  match phase with
  | none => sanitiseTLA p.name
  | some ph =>
    if p.name = "Session" ∧ ph.name = "Transport" then "SessionMachine"
    else joined (sanitiseTLA p.name) (sanitiseTLA ph.name)

def header : List (Definition Name) :=
  p.actors.flatMap (stateConstants phase) ++ messageConstants p phase ++ eventConstants p phase ++
    commandConstants p phase ++ operatorDefinitions p

def behaviour : List (Definition Name) :=
  [⟨"vars",.tuple (allVarNames p phase)⟩,⟨"Init",.init (initConjuncts p phase)⟩] ++
    (steps p phase).flatMap (Step.definitions p phase sameFold) ++
    [⟨"Next",.next ((steps p phase).map Step.name)⟩,⟨"Spec",.spec⟩] ++
    propertyDefinitions p phase

def exportModule : Module Name where
  name := moduleName p phase
  constants := constVars p phase
  vars := allVarNames p phase
  definitions := header p phase ++ behaviour p phase sameFold

inductive ExportError
  | phaseNotFound (phase : Name)

/-- `Protocol.ExportTLAPhase`. -/
def exportTLAPhase (phaseName : Name) : Except ExportError (Module Name) :=
  if phaseName = [] then .ok (exportModule p none sameFold)
  else match p.phases.find? fun ph => ph.name = phaseName with
    | some ph => .ok (exportModule p (some ph) sameFold)
    | none => .error (.phaseNotFound phaseName)

/-- `Protocol.ExportTLA`. -/
def exportTLA : Except ExportError (Module Name) := exportTLAPhase p sameFold []

end
end

end Pigeon.TlaExport
