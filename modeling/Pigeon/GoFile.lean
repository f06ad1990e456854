import Pigeon.GoNames
import Pigeon.Machines

/-!
A file of Go state machines as the generator writes them: typed string constants, and structs
with methods that are one `switch`. `File.Compiles` is what the compiler asks of it,
`MachineDecl.link` puts constants in the place of their names, and `dispatch` runs a `switch`.
-/
namespace Pigeon.GoFile
open Protocols (Name)
open GoNames (Go)
open Machines (Hooks Input)
open Sequence (find?_of_unique)

inductive ConstKind
  | state
  | msg
  | guard
  | action
  | event
  | cmd
deriving DecidableEq

structure Const where
  kind : ConstKind
  (ident value : Name)

inductive GoType
  | string
  | int
  | bool
  | set
deriving DecidableEq

inductive Literal
  | bool (b : Bool)
  | int (n : Int)
  | quoted (text : Name)
deriving DecidableEq

inductive Rhs
  | literal (l : Literal)
  | self (minus : Bool) (n : Int)
deriving DecidableEq

inductive Stmt
  | assign (field : Name) (rhs : Rhs) (var : Name)
  | comment (text : Name)

/-- A case of a `switch`. Its names are identifiers as it is written, and the values of the constants once it is
    linked. -/
structure Case where
  (state input : Name)
  (guard action : Option Name)
  updates : List Stmt
  target : Name
  emits : List Name

structure Field where
  name : Name
  type : GoType
  desc : Name

structure MachineDecl where
  name : Name
  fields : List Field
  initial : Name
  inits : List (Name × Literal)
  (handleMessage step : List Case)
  handleEvent : Option (List Case)

structure File where
  func : Name
  consts : List Const
  machines : List MachineDecl

def File.names (file : File) : List Name :=
  file.func :: (file.consts.map Const.ident ++
    file.machines.flatMap fun m => [m.name,"New".toList ++ m.name])

def aliases : List Name :=
  ["State","MsgType","GuardID","ActionID","EventID","CmdID","Protocol","Actor","Transition","Send","Message","VarDef",
    "VarUpdate","GuardDef","Operator","AdvAction","Property","Recv","Internal","Invariant","Liveness"].map String.toList

def MachineDecl.members (m : MachineDecl) : List Name :=
  (["State","Guards","Actions","OnChange","HandleMessage","Step"] ++
    if m.handleEvent.isSome then ["HandleEvent"] else []).map String.toList

def Literal.type (go : Go) : Literal → Option GoType
  | .bool _ => some .bool
  | .int _ => some .int
  | .quoted text => (go.unquote text).map fun _ => .string

section
variable (go : Go) (consts : List Const) (fields : List Field)

def Declares (kind : ConstKind) (ident : Name) : Prop := ∃ c ∈ consts, c.kind = kind ∧ c.ident = ident
deriving Decidable

def Stmt.Compiles : Stmt → Prop
  | .assign field (.literal l) _ => ∃ f ∈ fields, f.name = field ∧ l.type go = some f.type
  | .assign field (.self _ _) _ => ∃ f ∈ fields, f.name = field ∧ f.type = .int
  | .comment text => '\n' ∉ text

structure Case.Compiles (input : ConstKind) (c : Case) : Prop where
  state : Declares consts .state c.state
  input : Declares consts input c.input
  guard : ∀ g ∈ c.guard, Declares consts .guard g
  action : ∀ a ∈ c.action, Declares consts .action a
  updates : ∀ u ∈ c.updates, u.Compiles go fields
  target : Declares consts .state c.target
  emits : ∀ e ∈ c.emits, Declares consts .cmd e

structure MachineDecl.Compiles (m : MachineDecl) : Prop where
  members : (m.members ++ m.fields.map Field.name).Nodup
  fields : ∀ f ∈ m.fields, go.identifier f.name = true ∧ '\n' ∉ f.desc
  initial : Declares consts .state m.initial
  inits : ∀ i ∈ m.inits, ∃ f ∈ m.fields, f.name = i.1 ∧ i.2.type go = some f.type
  handleMessage : ∀ c ∈ m.handleMessage, c.Compiles go consts m.fields .msg
  step : ∀ c ∈ m.step, c.Compiles go consts m.fields .event
  handleEvent : ∀ cases ∈ m.handleEvent, ∀ c ∈ cases, c.Compiles go consts m.fields .event

end

structure File.Compiles (go : Go) (file : File) : Prop where
  names : (aliases ++ file.names).Nodup
  identifiers : ∀ name ∈ file.names, go.identifier name = true
  machines : ∀ m ∈ file.machines, m.Compiles go file.consts

def value (consts : List Const) (kind : ConstKind) (ident : Name) : Name :=
  match consts.find? fun c => c.kind = kind ∧ c.ident = ident with
  | some c => c.value
  | none => []

theorem value_of_apart {consts c} (apart : (consts.map fun c => (c.kind,c.ident)).Nodup)
    (mem : c ∈ consts) : value consts c.kind c.ident = c.value := by
  have found : consts.find? (fun other => other.kind = c.kind ∧ other.ident = c.ident) = some c := by
    refine find?_of_unique mem (by simp) ?_
    intro other among same
    have both := of_decide_eq_true same
    exact List.inj_on_of_nodup_map apart among mem (Prod.ext both.1 both.2)
  rw [value,found]

theorem value_of_mem {consts c} (apart : (consts.map Const.ident).Nodup) (mem : c ∈ consts) :
    value consts c.kind c.ident = c.value := by
  refine value_of_apart (List.Nodup.of_map Prod.snd ?_) mem
  rw [List.map_map]
  exact apart

def Case.link (consts : List Const) (input : ConstKind) (c : Case) : Case where
  state := value consts .state c.state
  input := value consts input c.input
  guard := c.guard.map (value consts .guard)
  action := c.action.map (value consts .action)
  updates := c.updates
  target := value consts .state c.target
  emits := c.emits.map (value consts .cmd)

def MachineDecl.link (consts : List Const) (m : MachineDecl) : MachineDecl :=
  { m with
    initial := value consts .state m.initial
    handleMessage := m.handleMessage.map (Case.link consts .msg)
    step := m.step.map (Case.link consts .event)
    handleEvent := m.handleEvent.map fun cases => cases.map (Case.link consts .event) }

inductive Val
  | str (text : Name)
  | int (n : Int)
  | bool (b : Bool)
  | set

def Literal.value (go : Go) : Literal → Val
  | .bool b => .bool b
  | .int n => .int n
  | .quoted text => .str ((go.unquote text).getD [])

def GoType.zero : GoType → Val
  | .string => .str []
  | .int => .int 0
  | .bool => .bool false
  | .set => .set

/-- The fields, what guards and actions work on, the actions run and the variables `OnChange` was told of. -/
structure Instance (σ : Type) where
  state : Name
  vars : Name → Val
  ctx : σ
  (ran changed : List Name)

def MachineDecl.new (go : Go) (m : MachineDecl) {σ : Type} (ctx : σ) : Instance σ where
  state := m.initial
  vars field :=
    match m.inits.lookup field with
    | some l => l.value go
    | none =>
      match m.fields.find? fun f => f.name = field with
      | some f => f.type.zero
      | none => .set
  ctx := ctx
  ran := []
  changed := []

def wrap (n : Int) : Int := Int.bmod n (2 ^ 64)

def Rhs.eval (go : Go) (old : Val) : Rhs → Val
  | .literal l => l.value go
  | .self minus n =>
    match old with
    | .int m => .int (wrap (if minus then m - n else m + n))
    | other => other

section
variable {σ ε : Type} (go : Go) (hooks : Hooks σ ε)

def Stmt.exec (q : Instance σ) : Stmt → Instance σ
  | .assign field rhs var =>
    { q with
      vars := Function.update q.vars field (rhs.eval go (q.vars field))
      changed := q.changed ++ [var] }
  | .comment _ => q

def Case.finish (c : Case) (q : Instance σ) : Instance σ := { c.updates.foldl (Stmt.exec go) q with state := c.target }

def Case.body (c : Case) (q : Instance σ) : Instance σ × Bool × Option ε :=
  match c.action.bind fun a => (hooks.actions a).map fun action => (a,action) with
  | none => (c.finish go q,true,none)
  | some (a,action) =>
    match action q.ctx with
    | (ctx,some error) => ({ q with ctx, ran := q.ran ++ [a] },false,some error)
    | (ctx,none) => (c.finish go { q with ctx, ran := q.ran ++ [a] },true,none)

/-- A `switch`: whether a case was taken, and the error of its action. -/
def dispatch (input : Name) : List Case → Instance σ → Instance σ × Bool × Option ε
  | [], q => (q,false,none)
  | c :: rest, q =>
    if q.state = c.state ∧ input = c.input then
      match c.guard with
      | none => c.body go hooks q
      | some g =>
        match hooks.guards g with
        | none => dispatch input rest q
        | some guard =>
          match guard q.ctx with
          | (true,ctx) => c.body go hooks { q with ctx }
          | (false,ctx) => dispatch input rest { q with ctx }
    else dispatch input rest q

def MachineDecl.handle (m : MachineDecl) (q : Instance σ) : Input → Instance σ × Bool × Option ε
  | .message msg => dispatch go hooks msg m.handleMessage q
  | .event desc => dispatch go hooks desc m.step q

end

end Pigeon.GoFile
