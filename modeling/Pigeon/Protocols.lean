import Mathlib.Data.List.Dedup

/-!
Protocol definitions (`protocol/protocol.go`): actors with their transitions, the hierarchy of
their states, declarations, and `Validate`. A name is the list of the runes of a Go string, and
the empty one stands for an absent guard or action. `validate_flat`, `validate_sends` and
`validate_actors` say what `Validate` has checked of a flat actor.
-/
namespace Pigeon.Protocols

abbrev Name := List Char

/-- A literal stands for its runes. -/
scoped instance : Coe String Name := ⟨String.toList⟩

inductive TriggerKind
  | recv
  | internal
deriving DecidableEq

structure Trigger where
  kind : TriggerKind
  (msg desc : Name)
deriving DecidableEq

structure Send where
  (receiver msg : Name)
  fields : List (Name × Name)
deriving DecidableEq

structure VarUpdate where
  (var expr : Name)
deriving DecidableEq

structure Transition where
  (origin target : Name)
  trigger : Trigger
  (guard action : Name)
  sends : List Send
  updates : List VarUpdate
  emits : List Name
deriving DecidableEq

structure Message where
  (type sender receiver : Name)

inductive VarType
  | string
  | int
  | bool
  | setString
  | named (struct : Name)
deriving DecidableEq

structure VarDef where
  name : Name
  type : VarType
  (initial desc : Name)
deriving DecidableEq

inductive StateNode
  | node (name : Name) (linked : Bool) (children : List StateNode) (transitions : List Transition)

structure SubMachine where
  (name initial : Name)
  transitions : List Transition
  stateIndex : List (Name × StateNode)
  roots : List StateNode
  (reports accepts : List Name)

structure RouteSend where
  (receiver event : Name)

structure Route where
  (event source guard : Name)
  sends : List RouteSend

structure Actor where
  (name initial : Name)
  transitions : List Transition
  stateIndex : List (Name × StateNode)
  roots : List StateNode
  machines : List SubMachine
  routes : List Route

structure Protocol where
  actors : List Actor
  messages : List Message
  (events commands : List Name)
  vars : List VarDef
  guards : List Name

/-- `Actor.IsComposed`. -/
def Actor.isComposed (a : Actor) : Bool := !a.machines.isEmpty

def StateNode.linked : StateNode → Bool
  | .node _ linked _ _ => linked

def StateNode.name : StateNode → Name
  | .node name _ _ _ => name

def StateNode.children : StateNode → List StateNode
  | .node _ _ children _ => children

mutual

/-- `StateNode.LeafStates`. -/
def leafStates : StateNode → List Name
  | .node name _ [] _ => [name]
  | .node _ _ (child :: rest) _ => leafStates child ++ leafStatesOf rest

def leafStatesOf : List StateNode → List Name
  | [] => []
  | node :: rest => leafStates node ++ leafStatesOf rest

end

mutual

def expand : StateNode → List Transition
  | .node _ _ [] _ => []
  | .node name linked (child :: rest) transitions =>
    transitions.flatMap (fun t => (leafStates (.node name linked (child :: rest) transitions)).map
      fun leaf => { t with origin := leaf, target := leaf }) ++ (expand child ++ expandAll rest)

def expandAll : List StateNode → List Transition
  | [] => []
  | node :: rest => expand node ++ expandAll rest

end

/-- `FlattenedTransitions`, of a flat actor and of a sub-machine. -/
def flattened (transitions : List Transition) (stateIndex : List (Name × StateNode)) (roots : List StateNode) :
    List Transition :=
  if stateIndex.isEmpty then transitions else transitions ++ expandAll roots

/-- `SubMachine.FlattenedTransitions`. -/
def SubMachine.flattenedTransitions (m : SubMachine) : List Transition := flattened m.transitions m.stateIndex m.roots

/-- `Actor.FlattenedTransitions`. -/
def Actor.flattenedTransitions (a : Actor) : List Transition :=
  if a.isComposed then a.machines.flatMap SubMachine.flattenedTransitions
  else flattened a.transitions a.stateIndex a.roots

/-- The loop of `collectStates` and `collectSubMachineStates`: every name once, in the order in which they first
    come. -/
def collect : List Name → List Name → List Name
  | seen, [] => seen
  | seen, name :: rest => collect (if name ∈ seen then seen else seen ++ [name]) rest

def collectStates (initial : Name) (transitions : List Transition) : List Name :=
  collect [] (initial :: transitions.flatMap fun t => [t.origin,t.target])

theorem mem_collect {seen names s} : s ∈ collect seen names ↔ s ∈ seen ∨ s ∈ names := by
  induction names generalizing seen with
  | nil => simp [collect]
  | cons name rest ih =>
    rw [collect,ih]
    split
    next known =>
      simp only [List.mem_cons]
      constructor
      · rintro (old | new)
        · exact .inl old
        · exact .inr (.inr new)
      · rintro (old | rfl | new)
        · exact .inl old
        · exact .inl known
        · exact .inr new
    next => simp [or_assoc]

theorem mem_collectStates {initial s transitions} : s ∈ collectStates initial transitions ↔
      s = initial ∨ ∃ t ∈ transitions, s = t.origin ∨ s = t.target := by
  simp [collectStates,mem_collect]

inductive ValidateError
  | duplicateActor (actor : Name)
  | unknownSender (msg sender : Name)
  | unknownReceiver (msg receiver : Name)
  | duplicateMachine (actor machine : Name)
  | wrongParent (actor : Name) (machine : Option Name) (state child : Name)
  | undeclaredMessage (actor : Name) (machine : Option Name) (origin target msg : Name)
  | undefinedGuard (actor : Name) (machine : Option Name) (origin target guard : Name)
  | unknownTarget (actor : Name) (machine : Option Name) (origin target receiver : Name)
  | undeclaredSend (actor origin target msg : Name)
  | wrongSender (actor origin target msg sender : Name)
  | unknownSource (actor : Name) (route : Nat) (machine : Name)
  | undefinedRouteGuard (actor : Name) (route : Nat) (guard : Name)
  | unknownMachine (actor : Name) (route : Nat) (machine : Name)

def firstRepeated : List Name → List Name → Option Name
  | _, [] => none
  | seen, name :: rest => if name ∈ seen then some name else firstRepeated (name :: seen) rest

def eachOk {α : Type} (check : α → Option ValidateError) : List α → Option ValidateError
  | [] => none
  | x :: rest => (check x).or (eachOk check rest)

def fails (condition : Bool) (error : ValidateError) : Option ValidateError := if condition then some error else none

section
variable (p : Protocol)

def Protocol.actorNames : List Name := p.actors.map Actor.name
def Protocol.msgTypes : List Name := p.messages.map Message.type

def Protocol.msgSender (msg : Name) : Name :=
  match p.messages.reverse.find? fun m => m.type = msg with
  | some m => m.sender
  | none => []

def validateMessage (m : Message) : Option ValidateError :=
  (fails (m.sender ∉ p.actorNames) (.unknownSender m.type m.sender)).or
    (fails (m.receiver ∉ p.actorNames) (.unknownReceiver m.type m.receiver))

def validateNode (actor : Name) (machine : Option Name) (entry : Name × StateNode) : Option ValidateError :=
  eachOk (fun child => fails (!child.linked) (.wrongParent actor machine entry.1 child.name)) entry.2.children

def validateTrigger (actor : Name) (machine : Option Name) (t : Transition) : Option ValidateError :=
  (fails (t.trigger.kind = .recv ∧ t.trigger.msg ∉ p.msgTypes)
    (.undeclaredMessage actor machine t.origin t.target t.trigger.msg)).or
  (fails (t.guard ≠ [] ∧ t.guard ∉ p.guards) (.undefinedGuard actor machine t.origin t.target t.guard))

def validateTarget (actor : Name) (machine : Option Name) (t : Transition) (s : Send) : Option ValidateError :=
  fails (s.receiver ∉ p.actorNames) (.unknownTarget actor machine t.origin t.target s.receiver)

def validateSend (actor : Name) (t : Transition) (s : Send) : Option ValidateError :=
  (validateTarget p actor none t s).or
    ((fails (s.msg ∉ p.msgTypes) (.undeclaredSend actor t.origin t.target s.msg)).or
      (fails (p.msgSender s.msg ≠ actor) (.wrongSender actor t.origin t.target s.msg (p.msgSender s.msg))))

def validateMachine (actor : Name) (m : SubMachine) : Option ValidateError :=
  (eachOk (validateNode actor (some m.name)) m.stateIndex).or
    (eachOk (fun t => (validateTrigger p actor (some m.name) t).or
      (eachOk (validateTarget p actor (some m.name) t) t.sends)) m.flattenedTransitions)

def validateMachines (actor : Name) : List Name → List SubMachine → Option ValidateError
  | _, [] => none
  | seen, m :: rest => (fails (m.name ∈ seen) (.duplicateMachine actor m.name)).or
      ((validateMachine p actor m).or (validateMachines actor (m.name :: seen) rest))

def validateRoute (a : Actor) (entry : Route × Nat) : Option ValidateError :=
  (fails (entry.1.source ∉ a.machines.map SubMachine.name) (.unknownSource a.name entry.2 entry.1.source)).or
    ((fails (entry.1.guard ≠ [] ∧ entry.1.guard ∉ p.guards) (.undefinedRouteGuard a.name entry.2 entry.1.guard)).or
      (eachOk (fun s => fails (s.receiver ∉ a.machines.map SubMachine.name) (.unknownMachine a.name entry.2 s.receiver))
        entry.1.sends))

def validateActor (a : Actor) : Option ValidateError :=
  if a.isComposed then
    (validateMachines p a.name [] a.machines).or (eachOk (validateRoute p a) a.routes.zipIdx)
  else
    (eachOk (validateNode a.name none) a.stateIndex).or
      (eachOk (fun t => (validateTrigger p a.name none t).or (eachOk (validateSend p a.name t) t.sends))
        a.flattenedTransitions)

/-- `Protocol.Validate`. -/
def Protocol.validate : Option ValidateError :=
  ((firstRepeated [] p.actorNames).map .duplicateActor).or
    ((eachOk (validateMessage p) p.messages).or (eachOk (validateActor p) p.actors))

end

@[simp] theorem fails_eq_none {condition error} : fails condition error = none ↔ condition = false := by
  cases condition <;> simp [fails]

theorem eachOk_eq_none {α : Type} {check : α → Option ValidateError} {items : List α} :
    eachOk check items = none ↔ ∀ x ∈ items, check x = none := by
  induction items with
  | nil => simp [eachOk]
  | cons x rest ih => simp [eachOk,Option.or_eq_none_iff,ih]

theorem firstRepeated_eq_none {seen names} :
    firstRepeated seen names = none ↔ names.Nodup ∧ ∀ name ∈ names, name ∉ seen := by
  induction names generalizing seen with
  | nil => simp [firstRepeated]
  | cons name rest ih =>
    rw [firstRepeated]
    split
    next known => simp [known]
    next fresh =>
      rw [ih]
      simp only [List.nodup_cons,List.mem_cons,not_or,forall_eq_or_imp]
      constructor
      · rintro ⟨apart,others⟩
        exact ⟨⟨fun repeated => (others name repeated).1 rfl,apart⟩,fresh,fun other mem => (others other mem).2⟩
      · rintro ⟨⟨alone,apart⟩,_,others⟩
        exact ⟨apart,fun other mem => ⟨fun same => alone (same ▸ mem),others other mem⟩⟩

section
variable {p : Protocol} (valid : p.validate = none)
include valid

theorem validate_actors : p.actorNames.Nodup := by
  simp only [Protocol.validate,Option.or_eq_none_iff,Option.map_eq_none_iff,firstRepeated_eq_none] at valid
  exact valid.1.1

section
variable {a : Actor} {t : Transition} (actor : a ∈ p.actors) (flat : a.isComposed = false)
  (transition : t ∈ a.flattenedTransitions)
include actor flat transition

theorem validate_transition :
    validateTrigger p a.name none t = none ∧ ∀ s ∈ t.sends, validateSend p a.name t s = none := by
  simp only [Protocol.validate,Option.or_eq_none_iff,eachOk_eq_none] at valid
  have checked := valid.2.2 a actor
  simp only [validateActor,flat,Bool.false_eq_true,↓reduceIte,Option.or_eq_none_iff,eachOk_eq_none] at checked
  exact checked.2 t transition

theorem validate_flat :
    (t.trigger.kind = .recv → t.trigger.msg ∈ p.msgTypes) ∧ (t.guard ≠ [] → t.guard ∈ p.guards) := by
  have own := (validate_transition valid actor flat transition).1
  simp only [validateTrigger,Option.or_eq_none_iff,fails_eq_none,decide_eq_false_iff_not,not_and,not_not] at own
  exact own

theorem validate_sends {s} (sends : s ∈ t.sends) : s.msg ∈ p.msgTypes := by
  have own := (validate_transition valid actor flat transition).2 s sends
  simp only [validateSend,Option.or_eq_none_iff,fails_eq_none,decide_eq_false_iff_not,not_not] at own
  exact own.2.1

end

end

end Pigeon.Protocols
