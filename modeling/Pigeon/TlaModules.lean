import Mathlib.Data.List.Duplicate
import Pigeon.Systems

/-!
TLA+ modules as data, with expressions as texts whose meaning is left to TLA+ (`Tla`); over it
a module is a system (`Module.system`). A framed action assigns every variable once just when
what it primes are different variables and no other is declared twice
(`framed_assigned_iff`).
-/
namespace Pigeon.TlaModules
open List
open Systems (System)

variable {N V : Type}

inductive Atom (N : Type)
  | quoted (text : N)
  | named (name : N)
  | current (var : N)
  | expr (text : N)
deriving DecidableEq

inductive Term (N : Type)
  | atom (value : Atom N)
  | record (fields : List (N × Atom N))
deriving DecidableEq

inductive Guard (N : Type)
  | always
  /-- `var = a \/ var = b …` -/
  | oneOf (var : N) (names : List N)
  /-- `var.key = name` -/
  | tagged (var key name : N)
  | expr (text : N)

structure Action (N : Type) where
  guards : List (Guard N)
  primed : List (N × Term N)
  unchanged : List N

inductive Body (N : Type)
  | quoted (text : N)
  | operator (params expr : N)
  | eventually (expr : N)
  | leadsTo (first last : N)
  | tuple (names : List N)
  | set (names : List N)
  | init (conjuncts : List (N × Term N))
  | action (action : Action N)
  | next (actions : List N)
  | spec

structure Definition (N : Type) where
  name : N
  body : Body N

structure Module (N : Type) where
  name : N
  (constants vars : List N)
  definitions : List (Definition N)

def Body.quotedText : Body N → Option N
  | .quoted text => some text
  | _ => none

def Body.initConjuncts : Body N → List (N × Term N)
  | .init conjuncts => conjuncts
  | _ => []

def Body.actionOf : Body N → Option (Action N)
  | .action conjuncts => some conjuncts
  | _ => none

def Body.disjuncts : Body N → List N
  | .next actions => actions
  | _ => []

def Module.defined (m : Module N) : List N := m.definitions.map Definition.name

def Module.actions (m : Module N) : List (Action N) := m.definitions.filterMap fun d => d.body.actionOf

def Module.initConjuncts (m : Module N) : List (N × Term N) := m.definitions.flatMap fun d => d.body.initConjuncts

def Module.disjuncts (m : Module N) : List N := m.definitions.flatMap fun d => d.body.disjuncts

/-- A definition that is not an action, `Init` or `Next`. -/
structure Body.Plain (body : Body N) : Prop where
  noAction : body.actionOf = none
  noInit : body.initConjuncts = []
  noNext : body.disjuncts = []

def Action.primedNames (action : Action N) : List N := action.primed.map Prod.fst

section
variable [DecidableEq N]

/-- The number of conjuncts and of places in `UNCHANGED` that give a variable its next value. -/
def Action.assignments (action : Action N) (v : N) : Nat := action.primedNames.count v + action.unchanged.count v

structure Module.WellFormed (m : Module N) : Prop where
  definedOnce : m.defined.Nodup
  assignedOnce : ∀ action ∈ m.actions, ∀ v ∈ m.vars, action.assignments v = 1
  primedDeclared : ∀ action ∈ m.actions, ∀ v ∈ action.primedNames, v ∈ m.vars

def framed (vars : List N) (guards : List (Guard N)) (primed : List (N × Term N)) : Action N :=
  ⟨guards,primed,vars.filter (· ∉ primed.map Prod.fst)⟩

theorem framed_assignments (vars : List N) (guards : List (Guard N)) (primed : List (N × Term N)) (v : N) :
    (framed vars guards primed).assignments v =
      if v ∈ primed.map Prod.fst then (primed.map Prod.fst).count v else vars.count v := by
  rw [Action.assignments,Action.primedNames,framed]
  split
  next own =>
    have none : (vars.filter (· ∉ primed.map Prod.fst)).count v = 0 :=
      count_eq_zero.mpr fun kept => of_decide_eq_true (mem_filter.mp kept).2 own
    rw [none,Nat.add_zero]
  next other =>
    have all : (vars.filter (· ∉ primed.map Prod.fst)).count v = vars.count v := count_filter (by simpa using other)
    rw [count_eq_zero.mpr other,all,Nat.zero_add]

theorem framed_assigned_iff (vars : List N) (guards : List (Guard N)) (primed : List (N × Term N)) :
    ((∀ v ∈ vars, (framed vars guards primed).assignments v = 1) ∧ ∀ v ∈ primed.map Prod.fst, v ∈ vars) ↔
      (primed.map Prod.fst).Nodup ∧ (∀ v ∈ primed.map Prod.fst, v ∈ vars) ∧
        ∀ v ∉ primed.map Prod.fst, ¬ Duplicate v vars := by
  simp only [framed_assignments,duplicate_iff_two_le_count]
  constructor
  · rintro ⟨once,declared⟩
    refine ⟨nodup_iff_count_le_one.mpr ?_,declared,?_⟩
    · intro v
      by_cases own : v ∈ primed.map Prod.fst
      · have one := once v (declared v own)
        rw [if_pos own] at one
        exact Nat.le_of_eq one
      · rw [count_eq_zero.mpr own]
        exact Nat.zero_le 1
    · intro v other
      by_cases listed : v ∈ vars
      · have one := once v listed
        rw [if_neg other] at one
        omega
      · rw [count_eq_zero.mpr listed]
        omega
  · rintro ⟨apart,declared,single⟩
    refine ⟨?_,declared⟩
    intro v listed
    split
    next own => exact count_eq_one_of_mem apart own
    next other =>
      have some := count_pos_iff.mpr listed
      have few := single v other
      omega

end

/-- What is taken from TLA+: the value of an expression under values of the names, when a value is `TRUE`, strings and
    records. -/
structure Tla (N V : Type) where
  eval : (N → V) → N → V
  Holds : V → Prop
  str : N → V
  record : List (N × V) → V
  field : V → N → V
  field_record : ∀ key value rest, field (record ((key,value) :: rest)) key = value

section
variable [DecidableEq N]

def Module.quotedText (m : Module N) (name : N) : Option N :=
  m.definitions.findSome? fun d => if d.name = name then d.body.quotedText else none

variable (tla : Tla N V) (m : Module N) (s : N → V)

def Module.value (name : N) : V :=
  match m.quotedText name with
  | some text => tla.str text
  | none => s name

def Atom.value : Atom N → V
  | .quoted text => tla.str text
  | .named name => m.value tla s name
  | .current var => s var
  | .expr text => tla.eval s text

def Term.value : Term N → V
  | .atom a => a.value tla m s
  | .record fields => tla.record (fields.map fun f => (f.1,f.2.value tla m s))

def Guard.Met : Guard N → Prop
  | .always => True
  | .oneOf var names => ∃ name ∈ names, s var = m.value tla s name
  | .tagged var key name => tla.field (s var) key = m.value tla s name
  | .expr text => tla.Holds (tla.eval s text)

@[simp] theorem met_always : (Guard.always : Guard N).Met tla m s ↔ True := Iff.rfl
@[simp] theorem met_oneOf (var : N) (names : List N) :
    (Guard.oneOf var names).Met tla m s ↔ ∃ name ∈ names, s var = m.value tla s name := Iff.rfl
@[simp] theorem met_tagged (var key name : N) :
    (Guard.tagged var key name).Met tla m s ↔ tla.field (s var) key = m.value tla s name := Iff.rfl
@[simp] theorem met_expr (text : N) : (Guard.expr text).Met tla m s ↔ tla.Holds (tla.eval s text) := Iff.rfl
@[simp] theorem value_named (name : N) : (Term.atom (.named name)).value tla m s = m.value tla s name := rfl
@[simp] theorem value_current (var : N) : (Term.atom (.current var)).value tla m s = s var := rfl
@[simp] theorem value_expr (text : N) : (Term.atom (.expr text)).value tla m s = tla.eval s text := rfl
@[simp] theorem value_record (fields : List (N × Atom N)) :
    (Term.record fields).value tla m s = tla.record (fields.map fun f => (f.1,f.2.value tla m s)) := rfl

structure Action.Step (action : Action N) (s s' : N → V) : Prop where
  guards : ∀ guard ∈ action.guards, guard.Met tla m s
  primed : ∀ conjunct ∈ action.primed, s' conjunct.1 = conjunct.2.value tla m s
  unchanged : ∀ v ∈ action.unchanged, s' v = s v

def Module.Init : Prop := ∀ conjunct ∈ m.initConjuncts, s conjunct.1 = conjunct.2.value tla m s

structure Module.Next (s s' : N → V) : Prop where
  rigid : ∀ c ∈ m.constants, s' c = s c
  taken : ∃ name ∈ m.disjuncts, ∃ action : Action N,
    ⟨name,.action action⟩ ∈ m.definitions ∧ action.Step tla m s s'

def Module.system : System (N → V) := ⟨m.Init tla,m.Next tla⟩

end

theorem framed_step_iff [DecidableEq N] {tla m} {vars : List N} {guards : List (Guard N)} {primed : List (N × Term N)}
    {s s' : N → V} : (framed vars guards primed).Step tla m s s' ↔
      (∀ guard ∈ guards, guard.Met tla m s) ∧ (∀ conjunct ∈ primed, s' conjunct.1 = conjunct.2.value tla m s) ∧
        ∀ v ∈ vars, v ∉ primed.map Prod.fst → s' v = s v := by
  constructor
  · intro step
    refine ⟨step.guards,step.primed,?_⟩
    intro v listed other
    exact step.unchanged v (mem_filter.mpr ⟨listed,decide_eq_true other⟩)
  · rintro ⟨met,next,kept⟩
    refine ⟨met,next,?_⟩
    intro v mem
    obtain ⟨listed,other⟩ := mem_filter.mp mem
    exact kept v listed (of_decide_eq_true other)

theorem Module.quotedText_of_mem [DecidableEq N] {m : Module N} (once : m.defined.Nodup) {name text : N}
    (mem : ⟨name,.quoted text⟩ ∈ m.definitions) : m.quotedText name = some text := by
  have each : ∀ definitions : List (Definition N), (definitions.map Definition.name).Nodup →
      ⟨name,.quoted text⟩ ∈ definitions →
      (definitions.findSome? fun d => if d.name = name then d.body.quotedText else none) = some text := by
    intro definitions
    induction definitions with
    | nil => simp
    | cons d rest ih =>
      intro apart mem
      rw [map_cons,nodup_cons] at apart
      rcases mem_cons.mp mem with rfl | later
      · rw [findSome?_cons,if_pos rfl]
        rfl
      · have other : d.name ≠ name := fun same => apart.1 (same ▸ mem_map_of_mem later)
        rw [findSome?_cons,if_neg other]
        exact ih apart.2 later
  exact each m.definitions once mem

inductive Value
  | text (literal : List Char)
  | record (fields : List (List Char × Value))

def lookup : List (List Char × Value) → List Char → Value
  | [], _ => .text []
  | (name,value) :: rest, key => if name = key then value else lookup rest key

def Value.field : Value → List Char → Value
  | .text _, _ => .text []
  | .record fields, key => lookup fields key

def plainEval (s : List Char → Value) (text : List Char) : Value :=
  if text.head? = some '"' then .text text
  else match text.span (· ≠ '.') with
    | (name,_ :: key) => (s name).field key
    | (name,[]) => s name

def plainTla : Tla (List Char) Value where
  eval := plainEval
  Holds value := value = .text "\"true\"".toList
  str := .text
  record := .record
  field := Value.field
  field_record _ _ _ := if_pos rfl

end Pigeon.TlaModules
