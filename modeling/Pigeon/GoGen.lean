import Pigeon.GoFile

/-!
The Go generator (`ExportGo` in `protocol/gogen.go`). States are declared under their own
names and everything else under `goCamel` of its name, while every reference goes through
`goCamel` (`stateConsts`, `writeCase`). An update that is no literal and no sum is a comment.
-/
namespace Pigeon.GoGen
open Protocols
open GoNames
open GoFile

def isSpace (c : Char) : Bool :=
  c.toNat ∈ [9,10,11,12,13,32,0x85,0xA0,0x1680,0x2028,0x2029,0x202F,0x205F,0x3000] ||
    (0x2000 ≤ c.toNat && c.toNat ≤ 0x200A)

def trimSpace (s : Name) : Name := ((s.dropWhile isSpace).reverse.dropWhile isSpace).reverse

/-- `fmt.Sscanf` with `%d`, which takes the digits at the beginning of the text and leaves the rest. -/
def scanInt (s : Name) : Option Int :=
  let signed : Bool × Name :=
    match s with
    | '-' :: rest => (true,rest)
    | '+' :: rest => (false,rest)
    | rest => (false,rest)
  let digits := signed.2.takeWhile Char.isDigit
  let n : Int := digits.foldl (fun n c => 10 * n + (c.toNat - '0'.toNat)) 0
  let n := if signed.1 then -n else n
  if digits = [] ∨ n < -2 ^ 63 ∨ 2 ^ 63 ≤ n then none else some n

def goSimpleLiteral (expr : Name) : Option Literal :=
  let expr := trimSpace expr
  if expr = "TRUE" then some (.bool true)
  else if expr = "FALSE" then some (.bool false)
  else if expr.head? = some '"' ∧ expr.getLast? = some '"' then some (.quoted expr)
  else (scanInt expr).map .int

def selfOperand (varName op expr : Name) : Option Int :=
  if varName ++ op <+: expr then scanInt (trimSpace (expr.drop (varName ++ op).length)) else none

def goSelfUpdate (varName expr : Name) : Option (Bool × Int) :=
  let expr := trimSpace expr
  ((selfOperand varName " + " expr).map fun n => (false,n)).or
    ((selfOperand varName " - " expr).map fun n => (true,n))

def goType : VarType → GoType
  | .int => .int
  | .bool => .bool
  | .setString => .set
  | .string | .named _ => .string

def goInitialValue (v : VarDef) : Option Literal :=
  match goSimpleLiteral v.initial with
  | some l => some l
  | none =>
    match v.type with
    | .int => some (.int 0)
    | .bool => some (.bool false)
    | .setString => none
    | .string | .named _ => some (.quoted ['"','"'])

structure Part where
  (label typePrefix initial : Name)
  transitions : List Transition
  handlesEvents : Bool

section
variable (go : Go) (cPrefix : Name)

def Actor.parts (a : Actor) : List Part :=
  if a.isComposed then
    a.machines.map fun m =>
      ⟨cPrefix ++ goConstPrefix go a.name ++ goCamel go m.name,
        cPrefix ++ goCamel go (goConstPrefix go a.name) ++ goCamel go m.name,m.initial,m.flattenedTransitions,false⟩
  else
    [⟨cPrefix ++ goConstPrefix go a.name,cPrefix ++ goCamel go (goConstPrefix go a.name),a.initial,
      a.flattenedTransitions,true⟩]

def msgIdent (msg : Name) : Name := cPrefix ++ "Msg" ++ goCamel go msg
def guardIdent (guard : Name) : Name := cPrefix ++ "Guard" ++ goCamel go guard
def actionIdent (action : Name) : Name := cPrefix ++ "Action" ++ goCamel go action
def eventIdent (event : Name) : Name := cPrefix ++ "Event" ++ goCamel go event
def cmdIdent (cmd : Name) : Name := cPrefix ++ "Cmd" ++ goCamel go cmd

def writeUpdate (u : VarUpdate) : Stmt :=
  match goSimpleLiteral u.expr with
  | some l => .assign (goCamel go u.var) (.literal l) u.var
  | none =>
    match goSelfUpdate u.var u.expr with
    | some (minus,n) => .assign (goCamel go u.var) (.self minus n) u.var
    | none => .comment (u.var ++ ": " ++ u.expr ++ " (set by action)")

/-- `writeGoTransitionBody`. -/
def writeCase (label : Name) (t : Transition) (input : Name) (emits : List Name) : Case where
  state := label ++ goCamel go t.origin
  input := input
  guard := if t.guard = [] then none else some (guardIdent go cPrefix t.guard)
  action := if t.action = [] then none else some (actionIdent go cPrefix t.action)
  updates := t.updates.map (writeUpdate go)
  target := label ++ goCamel go t.target
  emits := emits

/-- The case of `HandleEvent`, with its `writeGoEventTransitionBody`. -/
def writeEventCase (label : Name) (t : Transition) : Case :=
  let input := match t.trigger.kind with
    | .recv => cPrefix ++ "EventRecv" ++ goCamel go t.trigger.msg
    | .internal => eventIdent go cPrefix t.trigger.desc
  writeCase go cPrefix label t input (t.emits.map (cmdIdent go cPrefix))

def ownVars (p : Protocol) (transitions : List Transition) : List VarDef :=
  p.vars.filter fun v => transitions.any fun t => t.updates.any fun u => u.var = v.name

def fieldOf (v : VarDef) : Field := ⟨goCamel go v.name,goType v.type,v.desc⟩

/-- `writeGoComposedActor`. -/
def writeMachine (p : Protocol) (part : Part) : MachineDecl where
  name := part.typePrefix ++ "Machine"
  fields := (ownVars p part.transitions).map (fieldOf go)
  initial := part.label ++ goCamel go part.initial
  inits := (ownVars p part.transitions).filterMap fun v => (goInitialValue v).map fun l => (goCamel go v.name,l)
  handleMessage := (part.transitions.filter fun t => t.trigger.kind = .recv).map fun t =>
    writeCase go cPrefix part.label t (msgIdent go cPrefix t.trigger.msg) []
  step := (part.transitions.filter fun t => t.trigger.kind = .internal).map fun t =>
    writeCase go cPrefix part.label t (eventIdent go cPrefix t.trigger.desc) []
  handleEvent :=
    if part.handlesEvents then some (part.transitions.map (writeEventCase go cPrefix part.label)) else none

def sortedKeys (names : List Name) : List Name := names.dedup.insertionSort (· ≤ ·)

def actionNames (p : Protocol) : List Name :=
  sortedKeys ((p.actors.flatMap fun a => a.flattenedTransitions.map Transition.action).filter (· ≠ []))

def eventOf (t : Transition) : Name :=
  match t.trigger.kind with
  | .recv => "recv_" ++ t.trigger.msg
  | .internal => t.trigger.desc

def eventNames (p : Protocol) : List Name :=
  sortedKeys ((p.actors.flatMap fun a => a.flattenedTransitions.map eventOf) ++ p.events ++
    p.actors.flatMap fun a => (a.machines.flatMap fun m => m.reports ++ m.accepts) ++
      a.routes.flatMap fun r => r.event :: r.sends.map RouteSend.event)

def stateConsts (part : Part) : List Const :=
  (collectStates part.initial part.transitions).map fun s => ⟨.state,part.label ++ s,s⟩

def idConsts (p : Protocol) : List Const :=
  p.msgTypes.map (fun m => ⟨.msg,msgIdent go cPrefix m,m⟩) ++
  p.guards.map (fun g => ⟨.guard,guardIdent go cPrefix g,g⟩) ++
  (actionNames p).map (fun a => ⟨.action,actionIdent go cPrefix a,a⟩) ++
  (eventNames p).map (fun e => ⟨.event,eventIdent go cPrefix e,e⟩) ++
  p.commands.map (fun c => ⟨.cmd,cmdIdent go cPrefix c,c⟩)

def Protocol.parts (p : Protocol) : List Part := p.actors.flatMap (Actor.parts go cPrefix)

/-- `Protocol.ExportGo`. -/
def exportGo (p : Protocol) : File where
  func := cPrefix
  consts := (Protocol.parts go cPrefix p).flatMap stateConsts ++ idConsts go cPrefix p
  machines := (Protocol.parts go cPrefix p).map (writeMachine go cPrefix p)

end

end Pigeon.GoGen
