import Pigeon.GoMachines

/-!
The generators for C, Swift, Kotlin and TypeScript (`protocol/cgen.go`, `swift.go`,
`kotlin.go`, `typescript.go`). `Target` holds the differences of the five: identifiers, fields of
variables, how a machine is told of a message, the updates they write. `link_case` says that a
case is a transition, with nothing left of the language but names of fields and updates
(`plain`).
-/
namespace Pigeon.Targets
open Protocols List
open GoNames
open GoFile
open GoGen
open GoMachines

/-- What the generators take from Go's `unicode` package besides `Go`. -/
structure Text extends Go where
  toLower : Char → Char
  (isLetter isDigit isUpper isLower : Char → Bool)

section
variable (text : Text)

/-- Whether `cSnake` puts an underscore before an upper-case letter. -/
def breaksWord (prev : Option Char) (rest : Name) : Bool :=
  match prev with
  | none => false
  | some c => c.isLower || (c.isAlpha && rest.head?.any Char.isLower)

def snake : Option Char → Name → Name
  | _, [] => []
  | prev, c :: rest =>
    if isSeparator c then '_' :: snake (some c) rest
    else if c.isUpper then
      (if breaksWord prev rest then ['_'] else []) ++ c.toLower :: snake (some c) rest
    else c :: snake (some c) rest

def cSnake (s : Name) : Name := snake none s

def squeeze : Name → Name
  | [] => []
  | c :: rest => if c = '_' ∧ rest.head? = some '_' then squeeze rest else c :: squeeze rest

def trimUnderscores (s : Name) : Name := ((s.dropWhile (· = '_')).reverse.dropWhile (· = '_')).reverse

def cConstName (s : Name) : Name := trimUnderscores (squeeze ((cSnake s).map text.toUpper))

def cConstPrefix (actor : Name) : Name :=
  if actor = "ios" then "APP"
  else if actor = "cli" then "CLI"
  else actor.map text.toUpper

/-- The loop of `swiftCase`, with its result in reverse. -/
def swiftLoop : Name → Bool → Bool → Name → Name
  | result, _, _, [] => result.reverse
  | result, prevUpper, atBoundary, r :: rest =>
    if !text.isLetter r && !text.isDigit r then swiftLoop result false true rest
    else
      match result with
      | [] => swiftLoop [text.toLower r] (text.isUpper r) false rest
      | last :: before =>
        if atBoundary then swiftLoop (text.toUpper r :: last :: before) (text.isUpper r) false rest
        else if text.isUpper r && !prevUpper then swiftLoop (r :: last :: before) (text.isUpper r) false rest
        else if prevUpper && text.isLower r then
          swiftLoop (r :: (if before = [] then last else text.toUpper last) :: before) (text.isUpper r) false rest
        else swiftLoop (r :: last :: before) (text.isUpper r) false rest

def swiftCase (s : Name) : Name := swiftLoop text [] false false s

/-- The loop of `kotlinCamelCase`: whether the rune is the first, and whether it comes after a separator. -/
def kotlinCamel : Bool → Bool → Name → Name
  | _, _, [] => []
  | first, nextUpper, r :: rest =>
    if r = '_' ∨ r = '-' then kotlinCamel false true rest
    else if nextUpper then text.toUpper r :: kotlinCamel false false rest
    else if first then text.toLower r :: kotlinCamel false false rest
    else r :: kotlinCamel false false rest

def kotlinCamelCase (s : Name) : Name := kotlinCamel text true false s

def kotlinPascal : Bool → Name → Name
  | _, [] => []
  | nextUpper, r :: rest =>
    if isSeparator r then kotlinPascal true rest
    else if !text.isLetter r && !text.isDigit r then kotlinPascal nextUpper rest
    else (if nextUpper then text.toUpper r else r) :: kotlinPascal false rest

def kotlinPascalCase (s : Name) : Name := kotlinPascal text true s

/-- `strings.ToUpper(p[:1]) + p[1:]`, which cuts a rune outside ASCII into its bytes. -/
def upperFirst : Name → Name
  | [] => []
  | c :: rest =>
    if c.toNat < 0x80 then text.toUpper c :: rest else replicate c.utf8Size (Char.ofNat 0xFFFD) ++ rest

def tsVarFieldName (name : Name) : Name :=
  match name.splitOn '_' with
  | [] => name
  | first :: others => first.map text.toLower ++ others.flatMap (upperFirst text)

end

def cSimpleLiteral (expr : Name) : Option Literal := goSimpleLiteral expr
def swiftSimpleLiteral (expr : Name) : Option Literal := goSimpleLiteral expr
def kotlinSimpleLiteral (expr : Name) : Option Literal := goSimpleLiteral expr
def tsSimpleLiteral (expr : Name) : Option Literal := goSimpleLiteral expr

def cSelfUpdate (varName expr : Name) : Option (Bool × Int) := goSelfUpdate varName expr

def cType : VarType → Option GoType
  | .int => some .int
  | .bool => some .bool
  | .string => some .string
  | .setString | .named _ => none

/-- `cInitialValue`: without a literal the field stays as `memset` leaves it. -/
def cInitialValue (v : VarDef) : Option Literal := cSimpleLiteral v.initial

def swiftType : VarType → GoType
  | .int => .int
  | .bool => .bool
  | .string | .setString | .named _ => .string

def initialOr (literal : Option Literal) (type : GoType) : Option Literal :=
  match literal with
  | some l => some l
  | none =>
    match type with
    | .int => some (.int 0)
    | .bool => some (.bool false)
    | .string => some (.quoted ['"','"'])
    | .set => none

def swiftInitialValue (v : VarDef) : Option Literal := initialOr (swiftSimpleLiteral v.initial) (swiftType v.type)
def kotlinInitialValue (v : VarDef) : Option Literal := initialOr (kotlinSimpleLiteral v.initial) (swiftType v.type)

def tsInitialValue (v : VarDef) : Option Literal := initialOr (tsSimpleLiteral v.initial) (goType v.type)

def collectActions (p : Protocol) : List Name :=
  collect [] ((p.actors.flatMap fun a => a.flattenedTransitions.map Transition.action).filter (· ≠ []))

def internalEvents (ts : List Transition) : List Name :=
  (ts.filter fun t => t.trigger.kind = .internal).map fun t => t.trigger.desc

def recvEvents (ts : List Transition) : List Name :=
  (ts.filter fun t => t.trigger.kind = .recv).map fun t => "recv_" ++ t.trigger.msg

def collectAllEvents (p : Protocol) : List Name :=
  collect [] (p.events ++ (p.actors.flatMap fun a => internalEvents a.flattenedTransitions) ++
    (p.actors.flatMap fun a => recvEvents a.flattenedTransitions) ++
    p.actors.flatMap fun a => a.routes.map Route.event)

def collectKotlinEvents (p : Protocol) : List Name :=
  sortedKeys (p.events ++ p.actors.flatMap fun a => a.flattenedTransitions.map eventOf ++
    if a.isComposed then a.routes.flatMap fun r => r.event :: r.sends.map RouteSend.event else [])

def tsCollectEvents (p : Protocol) : List Name :=
  collect [] (p.events ++
    (p.actors.flatMap fun a => internalEvents a.flattenedTransitions ++
      a.machines.flatMap fun m => internalEvents m.flattenedTransitions) ++
    p.actors.flatMap fun a => recvEvents a.flattenedTransitions ++
      a.machines.flatMap fun m => recvEvents m.flattenedTransitions)

/-- Identifiers, types and initial values of fields, the sums that it writes, and the events that it declares. -/
structure Target where
  state : Name → Name → Name
  (msg guard action event cmd field : Name → Name)
  type : VarType → Option GoType
  initialValue : VarDef → Option Literal
  selfUpdate : Name → Name → Option (Bool × Int)
  events : Protocol → List Name
  covers : ∀ {p : Protocol} {a : Actor} {t : Transition}, a ∈ p.actors → t ∈ a.flattenedTransitions →
    eventOf t ∈ events p

section
variable {p : Protocol} {a : Actor} {t : Transition}

theorem eventOf_mem (transition : t ∈ a.flattenedTransitions) :
    eventOf t ∈ internalEvents a.flattenedTransitions ∨ eventOf t ∈ recvEvents a.flattenedTransitions := by
  cases kind : t.trigger.kind with
  | internal =>
    refine .inl (mem_map.mpr ⟨t,mem_filter.mpr ⟨transition,by simp [kind]⟩,?_⟩)
    simp [eventOf,kind]
  | recv =>
    refine .inr (mem_map.mpr ⟨t,mem_filter.mpr ⟨transition,by simp [kind]⟩,?_⟩)
    simp [eventOf,kind]

section
variable (actor : a ∈ p.actors) (transition : t ∈ a.flattenedTransitions)
include actor transition

theorem collectAllEvents_covers : eventOf t ∈ collectAllEvents p := by
  rw [collectAllEvents,mem_collect]
  simp only [mem_append,mem_flatMap]
  rcases eventOf_mem transition with own | own
  · exact .inr (.inl (.inl (.inr ⟨a,actor,own⟩)))
  · exact .inr (.inl (.inr ⟨a,actor,own⟩))

theorem collectKotlinEvents_covers : eventOf t ∈ collectKotlinEvents p := by
  refine mem_sortedKeys.mpr (mem_append_right _ (mem_flatMap.mpr ⟨a,actor,?_⟩))
  exact mem_append_left _ (mem_map.mpr ⟨t,transition,rfl⟩)

theorem tsCollectEvents_covers : eventOf t ∈ tsCollectEvents p := by
  rw [tsCollectEvents,mem_collect]
  simp only [mem_append,mem_flatMap]
  rcases eventOf_mem transition with own | own
  · exact .inr (.inl (.inr ⟨a,actor,.inl own⟩))
  · exact .inr (.inr ⟨a,actor,.inl own⟩)

end

end

/-- `ExportCHeader` and `ExportCImpl`, for a protocol with the upper-cased name `upper`. -/
def cTarget (text : Text) (upper : Name) : Target where
  state actor s := "PIGEON_" ++ cConstPrefix text actor ++ "_" ++ cConstName text s
  msg name := "PIGEON_" ++ upper ++ "_MSG_" ++ cConstName text name
  guard name := "PIGEON_" ++ upper ++ "_GUARD_" ++ cConstName text name
  action name := "PIGEON_" ++ upper ++ "_ACTION_" ++ cConstName text name
  event name := "PIGEON_" ++ upper ++ "_EVENT_" ++ cConstName text name
  cmd name := "PIGEON_" ++ upper ++ "_CMD_" ++ cConstName text name
  field := cSnake
  type := cType
  initialValue := cInitialValue
  selfUpdate := cSelfUpdate
  events := collectAllEvents
  covers := collectAllEvents_covers

/-- `ExportSwift`. Its updates are literals only, as those of Kotlin and TypeScript. -/
def swiftTarget (text : Text) : Target where
  state _ := swiftCase text
  msg := swiftCase text
  guard := swiftCase text
  action := swiftCase text
  event := swiftCase text
  cmd := swiftCase text
  field := swiftCase text
  type t := some (swiftType t)
  initialValue := swiftInitialValue
  selfUpdate _ _ := none
  events := collectAllEvents
  covers := collectAllEvents_covers

def kotlinTarget (text : Text) : Target where
  state _ s := s
  msg := kotlinPascalCase text
  guard := kotlinPascalCase text
  action := kotlinPascalCase text
  event := kotlinPascalCase text
  cmd := kotlinPascalCase text
  field := kotlinCamelCase text
  type t := some (swiftType t)
  initialValue := kotlinInitialValue
  selfUpdate _ _ := none
  events := collectKotlinEvents
  covers := collectKotlinEvents_covers

def tsTarget (text : Text) : Target where
  state _ s := s
  msg := kotlinPascalCase text
  guard := kotlinPascalCase text
  action := kotlinPascalCase text
  event := kotlinPascalCase text
  cmd := kotlinPascalCase text
  field := tsVarFieldName text
  type t := some (goType t)
  initialValue := tsInitialValue
  selfUpdate _ _ := none
  events := tsCollectEvents
  covers := tsCollectEvents_covers

inductive Entry
  | separate (handleMessage step : List Case)
  | unified (handleEvent : List Case)

structure Emitted where
  fields : List (Name × GoType)
  initial : Name
  inits : List (Name × Literal)
  entry : Entry

def updateStmt (field : Name → Name) (selfUpdate : Name → Name → Option (Bool × Int)) (u : VarUpdate) : Stmt :=
  match goSimpleLiteral u.expr with
  | some l => .assign (field u.var) (.literal l) u.var
  | none =>
    match selfUpdate u.var u.expr with
    | some (minus,n) => .assign (field u.var) (.self minus n) u.var
    | none => .comment (u.var ++ ": " ++ u.expr ++ " (set by action)")

namespace Target
variable (target : Target) (p : Protocol) (a : Actor)

def writeCase (t : Transition) (input : Name) (emits : List Name) : Case where
  state := target.state a.name t.origin
  input := input
  guard := if t.guard = [] then none else some (target.guard t.guard)
  action := if t.action = [] then none else some (target.action t.action)
  updates := t.updates.map (updateStmt target.field target.selfUpdate)
  target := target.state a.name t.target
  emits := emits

def fields : List (Name × GoType) :=
  (ownVars p a.flattenedTransitions).filterMap fun v => (target.type v.type).map fun type => (target.field v.name,type)

def inits : List (Name × Literal) :=
  (ownVars p a.flattenedTransitions).filterMap fun v =>
    if (target.type v.type).isSome then (target.initialValue v).map fun l => (target.field v.name,l) else none

def writeSeparate : Emitted where
  fields := target.fields p a
  initial := target.state a.name a.initial
  inits := target.inits p a
  entry := .separate
    ((a.flattenedTransitions.filter fun t => t.trigger.kind = .recv).map fun t =>
      target.writeCase a t (target.msg t.trigger.msg) [])
    ((a.flattenedTransitions.filter fun t => t.trigger.kind = .internal).map fun t =>
      target.writeCase a t (target.event t.trigger.desc) [])

def writeUnified : Emitted where
  fields := target.fields p a
  initial := target.state a.name a.initial
  inits := target.inits p a
  entry := .unified (a.flattenedTransitions.map fun t =>
    target.writeCase a t (target.event (eventOf t)) (t.emits.map target.cmd))

def consts : List Const :=
  (collectStates a.initial a.flattenedTransitions).map (fun s => ⟨.state,target.state a.name s,s⟩) ++
  (p.msgTypes.map (fun m => ⟨.msg,target.msg m,m⟩) ++
  (p.guards.map (fun g => ⟨.guard,target.guard g,g⟩) ++
  ((collectActions p).map (fun b => ⟨.action,target.action b,b⟩) ++
  ((target.events p).map (fun e => ⟨.event,target.event e,e⟩) ++
  p.commands.map (fun c => ⟨.cmd,target.cmd c,c⟩)))))

end Target

def Entry.link (consts : List Const) : Entry → Entry
  | .separate handleMessage step =>
    .separate (handleMessage.map (Case.link consts .msg)) (step.map (Case.link consts .event))
  | .unified handleEvent => .unified (handleEvent.map (Case.link consts .event))

def Emitted.link (consts : List Const) (m : Emitted) : Emitted :=
  { m with initial := value consts .state m.initial, entry := m.entry.link consts }

/-- `ExportCImpl`. -/
def cMachine (text : Text) (upper : Name) (p : Protocol) (a : Actor) : Emitted :=
  ((cTarget text upper).writeSeparate p a).link ((cTarget text upper).consts p a)

/-- `ExportSwift`. -/
def swiftMachine (text : Text) (p : Protocol) (a : Actor) : Emitted :=
  ((swiftTarget text).writeUnified p a).link ((swiftTarget text).consts p a)

/-- `ExportKotlin`. -/
def kotlinMachine (text : Text) (p : Protocol) (a : Actor) : Emitted :=
  ((kotlinTarget text).writeUnified p a).link ((kotlinTarget text).consts p a)

/-- `ExportTypeScript`. -/
def tsMachine (text : Text) (p : Protocol) (a : Actor) : Emitted :=
  ((tsTarget text).writeUnified p a).link ((tsTarget text).consts p a)

def goEmitted (go : Go) (cPrefix : Name) (p : Protocol) (a : Actor) (entry : MachineDecl → Entry) : Emitted :=
  let m := writeMachine go cPrefix p (flatPart go cPrefix a)
  (Emitted.mk (m.fields.map fun f => (f.name,f.type)) m.initial m.inits (entry m)).link (exportGo go cPrefix p).consts

def goMachine (go : Go) (cPrefix : Name) (p : Protocol) (a : Actor) : Emitted :=
  goEmitted go cPrefix p a fun m => .separate m.handleMessage m.step

def goEventMachine (go : Go) (cPrefix : Name) (p : Protocol) (a : Actor) : Emitted :=
  goEmitted go cPrefix p a fun m => .unified (m.handleEvent.getD [])

def updatedNames (a : Actor) : List Name := a.flattenedTransitions.flatMap fun t => t.updates.map VarUpdate.var

structure Target.Apart (target : Target) (p : Protocol) (a : Actor) : Prop where
  consts : ((target.consts p a).map fun c => (c.kind,c.ident)).Nodup
  fields : ∀ x ∈ updatedNames a, ∀ y ∈ updatedNames a, target.field x = target.field y → x = y

def plain (field : Name → Name) (selfUpdate : Name → Name → Option (Bool × Int)) (input : Transition → Name)
    (emits : Transition → List Name) (t : Transition) : Case where
  state := t.origin
  input := input t
  guard := if t.guard = [] then none else some t.guard
  action := if t.action = [] then none else some t.action
  updates := t.updates.map (updateStmt field selfUpdate)
  target := t.target
  emits := emits t

section
variable {target : Target} {p : Protocol} {a : Actor} {t : Transition}

section
variable (apart : target.Apart p a)
include apart

theorem value_state {s} (state : s ∈ collectStates a.initial a.flattenedTransitions) :
    value (target.consts p a) .state (target.state a.name s) = s :=
  value_of_apart (c := ⟨.state,target.state a.name s,s⟩) apart.consts (by simp [Target.consts,state])

theorem value_msg {msg} (declared : msg ∈ p.msgTypes) : value (target.consts p a) .msg (target.msg msg) = msg :=
  value_of_apart (c := ⟨.msg,target.msg msg,msg⟩) apart.consts (by simp [Target.consts,declared])

theorem value_guard {guard} (declared : guard ∈ p.guards) :
    value (target.consts p a) .guard (target.guard guard) = guard :=
  value_of_apart (c := ⟨.guard,target.guard guard,guard⟩) apart.consts (by simp [Target.consts,declared])

theorem value_action (actor : a ∈ p.actors) (transition : t ∈ a.flattenedTransitions) (acts : t.action ≠ []) :
    value (target.consts p a) .action (target.action t.action) = t.action := by
  have named : t.action ∈ collectActions p := by
    rw [collectActions,mem_collect,mem_filter,mem_flatMap]
    exact .inr ⟨⟨a,actor,mem_map.mpr ⟨t,transition,rfl⟩⟩,by simpa using acts⟩
  exact value_of_apart (c := ⟨.action,target.action t.action,t.action⟩) apart.consts (by simp [Target.consts,named])

theorem value_event (actor : a ∈ p.actors) (transition : t ∈ a.flattenedTransitions) :
    value (target.consts p a) .event (target.event (eventOf t)) = eventOf t :=
  value_of_apart (c := ⟨.event,target.event (eventOf t),eventOf t⟩) apart.consts
    (by simp [Target.consts,target.covers actor transition])

end

/-- An actor of a protocol that passes `Validate`, whose names a target keeps apart. -/
structure Target.Sound (target : Target) (p : Protocol) (a : Actor) : Prop where
  valid : p.validate = none
  actor : a ∈ p.actors
  flat : a.isComposed = false
  apart : target.Apart p a

theorem link_case (sound : target.Sound p a) (transition : t ∈ a.flattenedTransitions) {kind ident}
    (input : Transition → Name) (emits : List Name) (known : value (target.consts p a) kind ident = input t) :
    (target.writeCase a t ident emits).link (target.consts p a) kind =
      plain target.field target.selfUpdate input (fun _ => emits.map (value (target.consts p a) .cmd)) t := by
  have origin := value_state sound.apart (mem_collectStates.mpr (.inr ⟨t,transition,.inl rfl⟩))
  have goal := value_state sound.apart (mem_collectStates.mpr (.inr ⟨t,transition,.inr rfl⟩))
  have guard : (if t.guard = [] then none else some (target.guard t.guard)).map (value (target.consts p a) .guard) =
      if t.guard = [] then none else some t.guard := by
    split
    next => rfl
    next guarded =>
      have declared := (validate_flat sound.valid sound.actor sound.flat transition).2 guarded
      exact congrArg some (value_guard sound.apart declared)
  have action : (if t.action = [] then none else some (target.action t.action)).map
      (value (target.consts p a) .action) = if t.action = [] then none else some t.action := by
    split
    next => rfl
    next acts => exact congrArg some (value_action sound.apart sound.actor transition acts)
  simp [Case.link,Target.writeCase,plain,origin,goal,guard,action,known]

structure Emitted.Follows (m : Emitted) (a : Actor) (field : Name → Name)
    (selfUpdate : Name → Name → Option (Bool × Int)) : Prop where
  initial : m.initial = a.initial
  entry : (∃ emits, m.entry = .separate
      ((a.flattenedTransitions.filter fun t => t.trigger.kind = .recv).map
        (plain field selfUpdate (·.trigger.msg) emits))
      ((a.flattenedTransitions.filter fun t => t.trigger.kind = .internal).map
        (plain field selfUpdate (·.trigger.desc) emits))) ∨
    ∃ emits, m.entry = .unified (a.flattenedTransitions.map (plain field selfUpdate eventOf emits))

theorem separate_follows (sound : target.Sound p a) :
    ((target.writeSeparate p a).link (target.consts p a)).Follows a target.field target.selfUpdate := by
  refine ⟨value_state sound.apart (mem_collectStates.mpr (.inl rfl)),.inl ⟨fun _ => [],?_⟩⟩
  simp only [Emitted.link,Target.writeSeparate,Entry.link,map_map,Entry.separate.injEq]
  constructor
  · refine map_congr_left (fun t among => ?_)
    obtain ⟨transition,kind⟩ := mem_filter.mp among
    have declared := (validate_flat sound.valid sound.actor sound.flat transition).1 (by simpa using kind)
    exact link_case sound transition (·.trigger.msg) [] (value_msg sound.apart declared)
  · refine map_congr_left (fun t among => ?_)
    obtain ⟨transition,kind⟩ := mem_filter.mp among
    have known := value_event sound.apart sound.actor transition
    rw [eventOf,show t.trigger.kind = .internal by simpa using kind] at known
    exact link_case sound transition (·.trigger.desc) [] known

theorem unified_follows (sound : target.Sound p a) :
    ((target.writeUnified p a).link (target.consts p a)).Follows a target.field target.selfUpdate := by
  refine ⟨value_state sound.apart (mem_collectStates.mpr (.inl rfl)),
    .inr ⟨fun t => (t.emits.map target.cmd).map (value (target.consts p a) .cmd),?_⟩⟩
  simp only [Emitted.link,Target.writeUnified,Entry.link,map_map,Entry.unified.injEq]
  refine map_congr_left (fun t transition => ?_)
  have linked := link_case sound transition eventOf (t.emits.map target.cmd)
    (value_event sound.apart sound.actor transition)
  rw [Function.comp_apply,linked,map_map]
  rfl

end

section
variable {go : Go} {cPrefix : Name} {p : Protocol} {a : Actor}

theorem goMachine_follows (own : WritableActor go cPrefix p a) (compiled : (exportGo go cPrefix p).Compiles go) :
    (goMachine go cPrefix p a).Follows a (goCamel go) goSelfUpdate := by
  refine ⟨GoMachines.value_state compiled own.writable own.part (mem_collectStates.mpr (.inl rfl)),
    .inl ⟨fun _ => [],?_⟩⟩
  have messages := link_handleMessage own compiled
  have events := link_step own compiled
  simp only [MachineDecl.link] at messages events
  simp only [goMachine,goEmitted,Emitted.link,Entry.link,messages,events]
  rfl

theorem goEventMachine_follows (own : WritableActor go cPrefix p a) (compiled : (exportGo go cPrefix p).Compiles go) :
    (goEventMachine go cPrefix p a).Follows a (goCamel go) goSelfUpdate := by
  refine ⟨GoMachines.value_state compiled own.writable own.part (mem_collectStates.mpr (.inl rfl)),
    .inr ⟨fun t => (t.emits.map (cmdIdent go cPrefix)).map (value (exportGo go cPrefix p).consts .cmd),?_⟩⟩
  have events := link_handleEvent own compiled
  simp only [MachineDecl.link,Option.map_eq_some_iff] at events
  obtain ⟨cases,written,linked⟩ := events
  simp only [goEventMachine,goEmitted,Emitted.link,Entry.link,written,Option.getD_some,linked]
  rfl

end

end Pigeon.Targets
