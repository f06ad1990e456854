import Pigeon.GoAlike
import Pigeon.Targets

/-!
The machines that the five generators emit for one actor, run side by side, over variables of
the types that every language has. An event takes the first transition whose guard holds
(`handle_eq`). Only Go and C write sums, and a string may start as a null pointer in C; runs
without these agree (`machines_alike`).
-/
namespace Pigeon.TargetsAlike
open Protocols List
open GoNames
open GoFile (Literal Rhs Stmt GoType Case File.Compiles)
open GoGen
open GoMachines
open Machines (Input)
open Targets
open Runs

inductive Language
  | go | c | swift | kotlin | typeScript

/-- No quote, no escape, no `$` that Kotlin would expand, and no control character. -/
def PlainText (text : Name) : Prop := ∀ c ∈ text, 32 ≤ c.toNat ∧ c ≠ '"' ∧ c ≠ '\\' ∧ c ≠ '$'

instance (text : Name) : Decidable (PlainText text) := decidableBAll _ text

/-- Go's `unicode` package, and what the compilers make of string literals. -/
structure Toolchain extends Text where
  quoted : Language → Name → Name
  quoted_plain : ∀ language text, PlainText text →
    quoted language ('"' :: (text ++ ['"'])) = text

inductive Value
  | null
  | text (t : Name)
  | int (n : Int)
  | bool (b : Bool)
deriving DecidableEq

def Small (n : Int) : Prop := -2 ^ 31 ≤ n ∧ n < 2 ^ 31
deriving Decidable

structure Runtime where
  int : Int → Int
  exact : ∀ n, Small n → int n = n
  quoted : Name → Name
  quoted_plain : ∀ text, PlainText text → quoted ('"' :: (text ++ ['"'])) = text
  unset : Value

def width (bits : Nat) (n : Int) : Int := Int.bmod n (2 ^ bits)

theorem width_exact {bits} (wide : 32 ≤ bits) (n : Int) (small : Small n) : width bits n = n := by
  have bound : (2 : Int) ^ 32 ≤ 2 ^ bits := by exact_mod_cast Nat.pow_le_pow_right (by decide) wide
  have half : ((2 ^ bits : Nat) : Int) / 2 ≥ 2 ^ 31 := by push_cast; omega
  obtain ⟨low,high⟩ := small
  refine Int.bmod_eq_of_le ?_ ?_
  · omega
  · push_cast at half ⊢
    omega

def nearest (k n : Int) : Int :=
  if 2 * (n % k) < k ∨ (2 * (n % k) = k ∧ n / k % 2 = 0) then n / k * k else (n / k + 1) * k

def double (n : Int) : Int := nearest (2 ^ (n.natAbs.log2 + 1 - 53)) n

theorem double_exact (n : Int) (small : Small n) : double n = n := by
  have magnitude : n.natAbs ≤ 2 ^ 31 := by
    obtain ⟨low,high⟩ := small
    omega
  have bits : n.natAbs.log2 ≤ 31 := by
    by_contra more
    have zero : n.natAbs ≠ 0 := by
      rintro none
      simp [none] at more
    have big := (Nat.le_log2 zero).mp (Nat.not_le.mp more)
    omega
  rw [double,Nat.sub_eq_zero_of_le (by omega),pow_zero,nearest]
  simp

namespace Toolchain
variable (tools : Toolchain)

def goRuntime : Runtime :=
  ⟨width 64,width_exact (by decide),tools.quoted .go,tools.quoted_plain .go,.text []⟩

def cRuntime : Runtime :=
  ⟨width 32,width_exact (by decide),tools.quoted .c,tools.quoted_plain .c,.null⟩

def swiftRuntime : Runtime :=
  ⟨width 64,width_exact (by decide),tools.quoted .swift,tools.quoted_plain .swift,.text []⟩

def kotlinRuntime : Runtime :=
  ⟨width 32,width_exact (by decide),tools.quoted .kotlin,tools.quoted_plain .kotlin,.text []⟩

def tsRuntime : Runtime :=
  ⟨double,double_exact,tools.quoted .typeScript,tools.quoted_plain .typeScript,.text []⟩

end Toolchain

def Runtime.literal (r : Runtime) : Literal → Value
  | .bool b => .bool b
  | .int n => .int (r.int n)
  | .quoted text => .text (r.quoted text)

def Runtime.eval (r : Runtime) (old : Value) : Rhs → Value
  | .literal l => r.literal l
  | .self minus n =>
    match old with
    | .int m => .int (r.int (if minus then m - n else m + n))
    | other => other

def Runtime.hold (r : Runtime) : Value → Value
  | .int n => .int (r.int n)
  | other => other

def Runtime.zero (r : Runtime) : GoType → Value
  | .int => .int 0
  | .bool => .bool false
  | .string => r.unset
  | .set => .null

def Value.Fits : Value → Prop
  | .int n => Small n
  | _ => True

/-- Guards and actions over the values of the variables; an action also works on a context of its own. -/
structure Callbacks (σ : Type) where
  guards : Name → Option (List Value → Bool)
  actions : Name → Option (σ → List Value → σ × List Value)
  fits : ∀ name action, actions name = some action → ∀ ctx values, ∀ v ∈ (action ctx values).2, v.Fits

structure Machine where
  code : Emitted
  runtime : Runtime
  field : Name → Name
  scalars : List Name

structure Live (σ : Type) where
  state : Name
  vars : Name → Value
  ctx : σ

def Runtime.exec (r : Runtime) (vars : Name → Value) : Stmt → Name → Value
  | .assign field rhs _ => Function.update vars field (r.eval (vars field) rhs)
  | .comment _ => vars

def eventName : Input → Name
  | .message msg => "recv_" ++ msg
  | .event desc => desc

section
variable {σ : Type} (m : Machine) (calls : Callbacks σ)

def Machine.new (ctx : σ) : Live σ where
  state := m.code.initial
  vars field :=
    match m.code.inits.lookup field with
    | some l => m.runtime.literal l
    | none =>
      match m.code.fields.lookup field with
      | some type => m.runtime.zero type
      | none => .null
  ctx := ctx

def Machine.values (q : Live σ) : List Value := m.scalars.map fun name => q.vars (m.field name)

def Machine.store (vars : Name → Value) (values : List Value) : Name → Value :=
  (m.scalars.zip values).foldl (fun vars entry => Function.update vars (m.field entry.1) (m.runtime.hold entry.2)) vars

def Callbacks.allow (guard : Option Name) (values : List Value) : Bool :=
  guard.all fun g => (calls.guards g).any fun guard => guard values

def Machine.run (action : Option Name) (updates : List Stmt) (target : Name) (q : Live σ) : Live σ :=
  let acted : Live σ :=
    match action.bind calls.actions with
    | none => q
    | some act =>
      { q with
        vars := m.store q.vars (act q.ctx (m.values q)).2
        ctx := (act q.ctx (m.values q)).1 }
  { acted with state := target, vars := updates.foldl m.runtime.exec acted.vars }

def Machine.dispatch (input : Name) (cases : List Case) (q : Live σ) : Live σ × Option (List Name) :=
  match cases.find? fun c => c.state = q.state ∧ c.input = input ∧ calls.allow c.guard (m.values q) with
  | some c => (m.run calls c.action c.updates c.target q,some c.emits)
  | none => (q,none)

def Machine.handle (q : Live σ) (i : Input) : Live σ × Option (List Name) :=
  match m.code.entry with
  | .separate handleMessage step =>
    match i with
    | .message msg => m.dispatch calls msg handleMessage q
    | .event desc => m.dispatch calls desc step q
  | .unified handleEvent => m.dispatch calls (eventName i) handleEvent q

end

def on (t : Transition) : Input → Bool
  | .message msg => t.trigger.kind = .recv ∧ t.trigger.msg = msg
  | .event desc => t.trigger.kind = .internal ∧ t.trigger.desc = desc

def guardOf (t : Transition) : Option Name := if t.guard = [] then none else some t.guard
def actionOf (t : Transition) : Option Name := if t.action = [] then none else some t.action

def taken {σ : Type} (calls : Callbacks σ) (ts : List Transition) (state : Name) (values : List Value) (i : Input) :
    Option Transition :=
  ts.find? fun t => t.origin = state ∧ on t i ∧ calls.allow (guardOf t) values

def Proper (p : Protocol) : Input → Prop
  | .message msg => msg ∈ p.msgTypes
  | .event desc => ∀ msg ∈ p.msgTypes, desc ≠ "recv_" ++ msg

instance (p : Protocol) : (i : Input) → Decidable (Proper p i)
  | .message msg => inferInstanceAs (Decidable (msg ∈ p.msgTypes))
  | .event desc => inferInstanceAs (Decidable (∀ msg ∈ p.msgTypes, desc ≠ "recv_" ++ msg))

def EventsApart (p : Protocol) (a : Actor) : Prop :=
  ∀ t ∈ a.flattenedTransitions, t.trigger.kind = .internal → Proper p (.event t.trigger.desc)

section
variable {σ : Type} {m : Machine} {calls : Callbacks σ} {p : Protocol} {a : Actor} {q : Live σ}
variable {selfUpdate : Name → Name → Option (Bool × Int)}

theorem dispatch_plain (ts : List Transition) (input : Transition → Name) (emits : Transition → List Name)
    (name : Name) (q : Live σ) : (m.dispatch calls name (ts.map (plain m.field selfUpdate input emits)) q).1 =
      match ts.find? fun t => t.origin = q.state ∧ input t = name ∧ calls.allow (guardOf t) (m.values q) with
      | some t => m.run calls (actionOf t) (t.updates.map (updateStmt m.field selfUpdate)) t.target q
      | none => q := by
  have found : (ts.map (plain m.field selfUpdate input emits)).find?
        (fun c => c.state = q.state ∧ c.input = name ∧ calls.allow c.guard (m.values q)) =
      (ts.find? fun t => t.origin = q.state ∧ input t = name ∧ calls.allow (guardOf t) (m.values q)).map
        (plain m.field selfUpdate input emits) := find?_map ..
  rw [Machine.dispatch,found]
  cases ts.find? fun t => t.origin = q.state ∧ input t = name ∧ calls.allow (guardOf t) (m.values q) <;> rfl

theorem eventOf_eq_iff (valid : p.validate = none) (actor : a ∈ p.actors) (flat : a.isComposed = false)
    (apart : EventsApart p a) {t} (transition : t ∈ a.flattenedTransitions) {i}
    (proper : Proper p i) : eventOf t = eventName i ↔ on t i := by
  cases kind : t.trigger.kind with
  | recv =>
    have declared := (validate_flat valid actor flat transition).1 kind
    cases i with
    | message msg => simp [eventOf,eventName,on,kind]
    | event desc => simpa [eventOf,eventName,on,kind] using (proper _ declared).symm
  | internal =>
    cases i with
    | message msg => simpa [eventOf,eventName,on,kind] using apart t transition kind msg proper
    | event desc => simp [eventOf,eventName,on,kind]

theorem handle_eq (follows : m.code.Follows a m.field selfUpdate) (valid : p.validate = none) (actor : a ∈ p.actors)
    (flat : a.isComposed = false) (apart : EventsApart p a) (q : Live σ) {i} (proper : Proper p i) :
    (m.handle calls q i).1 =
      match taken calls a.flattenedTransitions q.state (m.values q) i with
      | some t => m.run calls (actionOf t) (t.updates.map (updateStmt m.field selfUpdate)) t.target q
      | none => q := by
  rw [Machine.handle,taken]
  rcases follows.entry with ⟨emits,separate⟩ | ⟨emits,unified⟩
  · rw [separate]
    cases i with
    | message | event =>
      simp only [dispatch_plain,find?_filter]
      rw [find?_congr (fun t _ => ?_)]
      cases kind : t.trigger.kind <;> simp [on,kind]
  · rw [unified]
    simp only [dispatch_plain]
    rw [find?_congr (fun t transition => ?_)]
    simp [eventOf_eq_iff valid actor flat apart transition proper]

end

def unquoted (text : Name) : Name := (text.drop 1).dropLast

def Fits : Literal → Prop
  | .bool _ => True
  | .int n => Small n
  | .quoted text => text = '"' :: (unquoted text ++ ['"']) ∧ PlainText (unquoted text)

instance : (l : Literal) → Decidable (Fits l)
  | .bool _ => .isTrue trivial
  | .int n => inferInstanceAs (Decidable (Small n))
  | .quoted _ => inferInstanceAs (Decidable (_ ∧ _))

def meaning : Literal → Value
  | .bool b => .bool b
  | .int n => .int n
  | .quoted text => .text (unquoted text)

theorem literal_of_fits (r : Runtime) {l : Literal} (fits : Fits l) : r.literal l = meaning l := by
  cases l with
  | bool b => rfl
  | int n => exact congrArg Value.int (r.exact n fits)
  | quoted text =>
    obtain ⟨whole,plainText⟩ := fits
    have known := r.quoted_plain (unquoted text) plainText
    rw [← whole] at known
    exact congrArg Value.text known

theorem hold_of_fits (r : Runtime) {v} (fits : v.Fits) : r.hold v = v := by
  cases v with
  | int n => exact congrArg Value.int (r.exact n fits)
  | null | text | bool => rfl

def SharedUpdate (names : List Name) (u : VarUpdate) : Prop :=
  u.var ∈ names →
    (∀ l ∈ goSimpleLiteral u.expr, Fits l) ∧ (goSimpleLiteral u.expr = none → goSelfUpdate u.var u.expr = none)
deriving Decidable

def Shared {σ : Type} (m : Machine) (calls : Callbacks σ) (a : Actor) (q : Live σ) (i : Input) : Prop :=
  ∀ t ∈ taken calls a.flattenedTransitions q.state (m.values q) i, ∀ u ∈ t.updates, SharedUpdate m.scalars u
deriving Decidable

/-- Its cases are the actor's transitions, with no sums but those of Go, and its fields are apart. -/
structure Machine.Of (m : Machine) (a : Actor) (selfUpdate : Name → Name → Option (Bool × Int)) : Prop where
  follows : m.code.Follows a m.field selfUpdate
  updates : ∀ name expr, goSelfUpdate name expr = none → selfUpdate name expr = none
  seen : ∀ x ∈ m.scalars, x ∈ updatedNames a
  apart : ∀ x ∈ updatedNames a, ∀ y ∈ updatedNames a, m.field x = m.field y → x = y

def Agree (m m' : Machine) (vars vars' : Name → Value) : Prop :=
  ∀ x ∈ m.scalars, vars (m.field x) = vars' (m'.field x)

structure Same {σ : Type} (m m' : Machine) (q q' : Live σ) : Prop where
  state : q.state = q'.state
  ctx : q.ctx = q'.ctx
  vars : Agree m m' q.vars q'.vars

section
variable {σ : Type} {m m' : Machine} {calls : Callbacks σ} {p : Protocol} {a : Actor}
variable {selfUpdate selfUpdate' : Name → Name → Option (Bool × Int)} {vars vars' : Name → Value}

section
variable (own : m.Of a selfUpdate)
include own

theorem agree_update (own' : m'.Of a selfUpdate') (agree : Agree m m' vars vars') {w}
    (mem : w ∈ updatedNames a) {v v'} (same : v = v') :
    Agree m m' (Function.update vars (m.field w) v) (Function.update vars' (m'.field w) v') := by
  intro x seen
  by_cases here : x = w
  · subst here
    rw [Function.update_self,Function.update_self,same]
  · have other : m.field x ≠ m.field w := fun clash => here (own.apart x (own.seen x seen) w mem clash)
    have other' : m'.field x ≠ m'.field w := fun clash => here (own'.apart x (own.seen x seen) w mem clash)
    rw [Function.update_of_ne other,Function.update_of_ne other',agree x seen]

theorem agree_store (own' : m'.Of a selfUpdate') (see : m'.scalars = m.scalars) (agree : Agree m m' vars vars')
    {values} (fits : ∀ v ∈ values, v.Fits) : Agree m m' (m.store vars values) (m'.store vars' values) := by
  rw [Machine.store,Machine.store,see]
  have entries : ∀ entry ∈ m.scalars.zip values, entry.1 ∈ updatedNames a ∧ entry.2.Fits := fun entry among =>
    ⟨own.seen _ (of_mem_zip among).1,fits _ (of_mem_zip among).2⟩
  generalize m.scalars.zip values = zipped at entries
  induction zipped generalizing vars vars' with
  | nil => exact agree
  | cons entry rest ih =>
    have head := entries entry mem_cons_self
    refine ih ?_ (fun other among => entries other (mem_cons_of_mem _ among))
    exact agree_update own own' agree head.1 (by rw [hold_of_fits _ head.2,hold_of_fits _ head.2])

theorem exec_other {u : VarUpdate} (mem : u.var ∈ updatedNames a) {x : Name} (updated : x ∈ updatedNames a)
    (other : x ≠ u.var) : m.runtime.exec vars (updateStmt m.field selfUpdate u) (m.field x) = vars (m.field x) := by
  have field : m.field x ≠ m.field u.var := fun clash => other (own.apart x updated u.var mem clash)
  rw [updateStmt]
  split
  · exact Function.update_of_ne field ..
  · split
    · exact Function.update_of_ne field ..
    · rfl

theorem exec_seen {u : VarUpdate} (fits : ∀ l ∈ goSimpleLiteral u.expr, Fits l)
    (alone : goSimpleLiteral u.expr = none → goSelfUpdate u.var u.expr = none) :
    m.runtime.exec vars (updateStmt m.field selfUpdate u) (m.field u.var) =
      match goSimpleLiteral u.expr with
      | some l => meaning l
      | none => vars (m.field u.var) := by
  rw [updateStmt]
  cases literal : goSimpleLiteral u.expr with
  | some l => exact (Function.update_self ..).trans (literal_of_fits m.runtime (fits l literal))
  | none =>
    simp only [own.updates _ _ (alone literal)]
    rfl

theorem agree_updates (own' : m'.Of a selfUpdate') (agree : Agree m m' vars vars') {updates : List VarUpdate}
    (members : ∀ u ∈ updates, u.var ∈ updatedNames a) (shared : ∀ u ∈ updates, SharedUpdate m.scalars u) :
    Agree m m' ((updates.map (updateStmt m.field selfUpdate)).foldl m.runtime.exec vars)
      ((updates.map (updateStmt m'.field selfUpdate')).foldl m'.runtime.exec vars') := by
  induction updates generalizing vars vars' with
  | nil => exact agree
  | cons u rest ih =>
    have mem := members u mem_cons_self
    refine ih ?_ (fun v among => members v (mem_cons_of_mem _ among))
      (fun v among => shared v (mem_cons_of_mem _ among))
    intro x seen
    by_cases here : x = u.var
    · subst here
      obtain ⟨fits,alone⟩ := shared u mem_cons_self seen
      rw [exec_seen own fits alone,exec_seen own' fits alone,agree u.var seen]
    · have updated := own.seen x seen
      rw [exec_other own mem updated here,exec_other own' mem updated here,agree x seen]

end

theorem values_same (see : m'.scalars = m.scalars) {q q' : Live σ} (same : Same m m' q q') :
    m'.values q' = m.values q := by
  rw [Machine.values,Machine.values,see]
  exact map_congr_left (fun x seen => (same.vars x seen).symm)

section
variable (own : m.Of a selfUpdate) (own' : m'.Of a selfUpdate') (see : m'.scalars = m.scalars) {q q' : Live σ}
include own own' see

theorem same_run (same : Same m m' q q') {t : Transition} (transition : t ∈ a.flattenedTransitions)
    (shared : ∀ u ∈ t.updates, SharedUpdate m.scalars u) :
    Same m m' (m.run calls (actionOf t) (t.updates.map (updateStmt m.field selfUpdate)) t.target q)
      (m'.run calls (actionOf t) (t.updates.map (updateStmt m'.field selfUpdate')) t.target q') := by
  have members : ∀ u ∈ t.updates, u.var ∈ updatedNames a := fun u among =>
    mem_flatMap.mpr ⟨t,transition,mem_map.mpr ⟨u,among,rfl⟩⟩
  rw [Machine.run,Machine.run]
  cases acts : (actionOf t).bind calls.actions with
  | none => exact ⟨rfl,same.ctx,agree_updates own own' same.vars members shared⟩
  | some act =>
    obtain ⟨name,_,known⟩ := Option.bind_eq_some_iff.mp acts
    have fits := calls.fits name act known q.ctx (m.values q)
    simp only [values_same see same,← same.ctx]
    exact ⟨rfl,rfl,agree_updates own own' (agree_store own own' see same.vars fits) members shared⟩

section
variable (valid : p.validate = none) (actor : a ∈ p.actors) (flat : a.isComposed = false) (apart : EventsApart p a)
  (same : Same m m' q q')
include valid actor flat apart same

theorem same_handle {i} (proper : Proper p i)
    (shared : Shared m calls a q i) : Same m m' (m.handle calls q i).1 (m'.handle calls q' i).1 := by
  rw [handle_eq own.follows valid actor flat apart q proper,handle_eq own'.follows valid actor flat apart q' proper,
    values_same see same,← same.state]
  cases found : taken calls a.flattenedTransitions q.state (m.values q) i with
  | none => exact same
  | some t => exact same_run own own' see same (mem_of_find?_eq_some found) (shared t found)

theorem same_final {inputs : List Input} (proper : ∀ i ∈ inputs, Proper p i)
    (shared : Along (m.handle calls) (Shared m calls a) q inputs) :
    Same m m' (final (m.handle calls) q inputs) (final (m'.handle calls) q' inputs) := by
  induction inputs generalizing q q' with
  | nil => exact same
  | cons i rest ih =>
    have first := same_handle own own' see valid actor flat apart same (proper i mem_cons_self) shared.1
    exact ih first (fun other among => proper other (mem_cons_of_mem _ among)) shared.2

end

end

end

def scalarVars (p : Protocol) (a : Actor) : List VarDef :=
  (ownVars p a.flattenedTransitions).filter fun v => (cType v.type).isSome

def scalarNames (p : Protocol) (a : Actor) : List Name := (scalarVars p a).map VarDef.name

/-- Literals that fit every language. A string has one: in C the field would be a null pointer.
    -/
def Initials (p : Protocol) (a : Actor) : Prop :=
  ∀ v ∈ scalarVars p a, (∀ l ∈ goSimpleLiteral v.initial, Fits l) ∧ (v.type = .string → goSimpleLiteral v.initial ≠ none)
deriving Decidable

def startValue (v : VarDef) : Value :=
  match goSimpleLiteral v.initial with
  | some l => meaning l
  | none => if v.type = .int then .int 0 else .bool false

theorem lookup_entries {β : Type} (key : VarDef → Name) (entry : VarDef → Option β) {vs : List VarDef} {v : VarDef}
    (apart : ∀ w ∈ vs, key w = key v → w = v) (mem : v ∈ vs) :
    (vs.filterMap fun w => (entry w).map fun x => (key w,x)).lookup (key v) = entry v := by
  have all : (vs.filterMap fun w => (entry w).map fun x => (key w,x)).lookup (key v) =
      if v ∈ vs then entry v else none := by
    clear mem
    induction vs with
    | nil => rfl
    | cons w rest ih =>
      have others := ih (fun x among => apart x (mem_cons_of_mem _ among))
      by_cases here : key w = key v
      · have same := apart w mem_cons_self here
        subst same
        cases found : entry w with
        | none => simp [found,others]
        | some x => simp [found]
      · have different : v ≠ w := fun same => here (by rw [same])
        have unlike : (key v == key w) = false := beq_false_of_ne (Ne.symm here)
        cases found : entry w with
        | none => simp [found,others,different]
        | some x => simp [found,others,different,lookup_cons,unlike]
  rw [all,if_pos mem]

structure Machine.Starts (m : Machine) (v : VarDef) : Prop where
  literal : ∀ l, goSimpleLiteral v.initial = some l → m.code.inits.lookup (m.field v.name) = some l
  int : goSimpleLiteral v.initial = none → v.type = .int →
    m.code.inits.lookup (m.field v.name) = some (.int 0) ∨
      (m.code.inits.lookup (m.field v.name) = none ∧ m.code.fields.lookup (m.field v.name) = some .int)
  bool : goSimpleLiteral v.initial = none → v.type = .bool →
    m.code.inits.lookup (m.field v.name) = some (.bool false) ∨
      (m.code.inits.lookup (m.field v.name) = none ∧ m.code.fields.lookup (m.field v.name) = some .bool)

theorem new_vars {σ : Type} {m : Machine} {p : Protocol} {a : Actor} {v : VarDef} (initials : Initials p a)
    (scalar : v ∈ scalarVars p a) (starts : m.Starts v) (ctx : σ) : (m.new ctx).vars (m.field v.name) = startValue v := by
  obtain ⟨fits,text⟩ := initials v scalar
  have zero : m.runtime.int 0 = 0 := m.runtime.exact 0 (by decide)
  have typed := (mem_filter.mp scalar).2
  simp only [Machine.new,startValue]
  cases literal : goSimpleLiteral v.initial with
  | some l => simp [starts.literal l literal,literal_of_fits m.runtime (fits l literal)]
  | none =>
    cases type : v.type with
    | int =>
      rcases starts.int literal type with set | ⟨unset,field⟩
      · simp [set,Runtime.literal,zero]
      · simp [unset,field,Runtime.zero]
    | bool =>
      rcases starts.bool literal type with set | ⟨unset,field⟩
      · simp [set,Runtime.literal]
      · simp [unset,field,Runtime.zero]
    | string => exact absurd literal (text type)
    | setString | named => simp [type,cType] at typed

inductive Driver
  | goMessages | goEvents | c | swift | kotlin | typeScript

section
variable (tools : Toolchain) (cPrefix upper : Name) (p : Protocol) (a : Actor)

def machine : Driver → Machine
  | .goMessages => ⟨goMachine tools.toGo cPrefix p a,tools.goRuntime,goCamel tools.toGo,scalarNames p a⟩
  | .goEvents => ⟨goEventMachine tools.toGo cPrefix p a,tools.goRuntime,goCamel tools.toGo,scalarNames p a⟩
  | .c => ⟨cMachine tools.toText upper p a,tools.cRuntime,cSnake,scalarNames p a⟩
  | .swift => ⟨swiftMachine tools.toText p a,tools.swiftRuntime,swiftCase tools.toText,scalarNames p a⟩
  | .kotlin => ⟨kotlinMachine tools.toText p a,tools.kotlinRuntime,kotlinCamelCase tools.toText,scalarNames p a⟩
  | .typeScript => ⟨tsMachine tools.toText p a,tools.tsRuntime,tsVarFieldName tools.toText,scalarNames p a⟩

def ran {σ : Type} (calls : Callbacks σ) (ctx : σ) (inputs : List Input) (d : Driver) : Live σ :=
  final ((machine tools cPrefix upper p a d).handle calls) ((machine tools cPrefix upper p a d).new ctx) inputs

structure NamesApart : Prop where
  vars : ((ownVars p a.flattenedTransitions).map VarDef.name).Nodup
  events : EventsApart p a
  go : ∀ x ∈ updatedNames a, ∀ y ∈ updatedNames a, goCamel tools.toGo x = goCamel tools.toGo y → x = y
  c : (cTarget tools.toText upper).Apart p a
  swift : (swiftTarget tools.toText).Apart p a
  kotlin : (kotlinTarget tools.toText).Apart p a
  typeScript : (tsTarget tools.toText).Apart p a

end

structure Target.Zeroes (target : Target) : Prop where
  typed : ∀ v : VarDef, (cType v.type).isSome = true → (target.type v.type).isSome = true
  literal : ∀ v l, goSimpleLiteral v.initial = some l → target.initialValue v = some l
  int : ∀ v : VarDef, goSimpleLiteral v.initial = none → v.type = .int →
    target.initialValue v = some (.int 0) ∨ (target.initialValue v = none ∧ target.type v.type = some .int)
  bool : ∀ v : VarDef, goSimpleLiteral v.initial = none → v.type = .bool →
    target.initialValue v = some (.bool false) ∨ (target.initialValue v = none ∧ target.type v.type = some .bool)

theorem initialOr_zeroes (target : Target) (type : VarType → GoType) (typeIs : ∀ t, target.type t = some (type t))
    (int : type .int = .int) (bool : type .bool = .bool)
    (values : ∀ v, target.initialValue v = initialOr (goSimpleLiteral v.initial) (type v.type)) : Target.Zeroes target where
  typed v _ := by rw [typeIs]; rfl
  literal v l known := by rw [values,known]; rfl
  int v missing typed := .inl (by rw [values,missing,typed,int]; rfl)
  bool v missing typed := .inl (by rw [values,missing,typed,bool]; rfl)

theorem c_zeroes (text : Text) (upper : Name) : Target.Zeroes (cTarget text upper) where
  typed _ scalar := scalar
  literal _ _ known := known
  int v missing typed := .inr ⟨missing,by rw [typed]; rfl⟩
  bool v missing typed := .inr ⟨missing,by rw [typed]; rfl⟩

theorem swift_zeroes (text : Text) : Target.Zeroes (swiftTarget text) :=
  initialOr_zeroes _ swiftType (fun _ => rfl) rfl rfl (fun _ => rfl)

theorem kotlin_zeroes (text : Text) : Target.Zeroes (kotlinTarget text) :=
  initialOr_zeroes _ swiftType (fun _ => rfl) rfl rfl (fun _ => rfl)

theorem ts_zeroes (text : Text) : Target.Zeroes (tsTarget text) :=
  initialOr_zeroes _ goType (fun _ => rfl) rfl rfl (fun _ => rfl)

section
variable {tools : Toolchain} {cPrefix upper : Name} {p : Protocol} {a : Actor} {v : VarDef}

theorem own_updated (own : v ∈ ownVars p a.flattenedTransitions) : v.name ∈ updatedNames a := by
  obtain ⟨_,updated⟩ := mem_filter.mp own
  simp only [any_eq_true,decide_eq_true_eq] at updated
  obtain ⟨t,transition,u,among,same⟩ := updated
  exact mem_flatMap.mpr ⟨t,transition,mem_map.mpr ⟨u,among,same⟩⟩

theorem own_unique {field : Name → Name} (vars : ((ownVars p a.flattenedTransitions).map VarDef.name).Nodup)
    (fields : ∀ x ∈ updatedNames a, ∀ y ∈ updatedNames a, field x = field y → x = y)
    (own : v ∈ ownVars p a.flattenedTransitions) :
    ∀ w ∈ ownVars p a.flattenedTransitions, field w.name = field v.name → w = v := by
  intro w other same
  have name := fields w.name (own_updated other) v.name (own_updated own) same
  exact inj_on_of_nodup_map vars other own name

theorem target_starts {target runtime entry initial} (zeroes : Target.Zeroes target) (apart : target.Apart p a)
    (vars : ((ownVars p a.flattenedTransitions).map VarDef.name).Nodup) (scalar : v ∈ scalarVars p a) :
    Machine.Starts ⟨⟨target.fields p a,initial,target.inits p a,entry⟩,runtime,target.field,scalarNames p a⟩ v := by
  obtain ⟨own,simple⟩ := mem_filter.mp scalar
  have typed := zeroes.typed v simple
  have unique := own_unique vars apart.fields own
  have inits : (target.inits p a).lookup (target.field v.name) = target.initialValue v := by
    have entries : target.inits p a = (ownVars p a.flattenedTransitions).filterMap fun w =>
        (if (target.type w.type).isSome then target.initialValue w else none).map fun l => (target.field w.name,l) := by
      refine filterMap_congr (fun w _ => ?_)
      split <;> rfl
    rw [entries,lookup_entries (fun w => target.field w.name) _ unique own,if_pos typed]
  have fields : (target.fields p a).lookup (target.field v.name) = target.type v.type :=
    lookup_entries (fun w => target.field w.name) (fun w => target.type w.type) unique own
  refine ⟨?_,?_,?_⟩ <;> simp only [inits,fields]
  · exact zeroes.literal v
  · exact zeroes.int v
  · exact zeroes.bool v

theorem go_starts {runtime entry initial} {fields : List (Name × GoType)}
    (apart : NamesApart tools upper p a) (scalar : v ∈ scalarVars p a) :
    Machine.Starts ⟨⟨fields,initial,(ownVars p a.flattenedTransitions).filterMap fun v =>
      (goInitialValue v).map fun l => (goCamel tools.toGo v.name,l),entry⟩,runtime,goCamel tools.toGo,scalarNames p a⟩ v := by
  obtain ⟨own,_⟩ := mem_filter.mp scalar
  have inits := lookup_entries (fun w => goCamel tools.toGo w.name) goInitialValue
    (own_unique apart.vars apart.go own) own
  refine ⟨?_,?_,?_⟩
  · exact fun l known => inits.trans (by rw [goInitialValue,known])
  · exact fun missing typed => .inl (inits.trans (by rw [goInitialValue,missing,typed]))
  · exact fun missing typed => .inl (inits.trans (by rw [goInitialValue,missing,typed]))

theorem machine_starts (apart : NamesApart tools upper p a) (scalar : v ∈ scalarVars p a) (d : Driver) :
    (machine tools cPrefix upper p a d).Starts v := by
  cases d with
  | goMessages | goEvents => exact go_starts apart scalar
  | c => exact target_starts (c_zeroes tools.toText upper) apart.c apart.vars scalar
  | swift => exact target_starts (swift_zeroes tools.toText) apart.swift apart.vars scalar
  | kotlin => exact target_starts (kotlin_zeroes tools.toText) apart.kotlin apart.vars scalar
  | typeScript => exact target_starts (ts_zeroes tools.toText) apart.typeScript apart.vars scalar

theorem scalar_updated {x} (scalar : x ∈ scalarNames p a) : x ∈ updatedNames a := by
  obtain ⟨v,among,rfl⟩ := mem_map.mp scalar
  exact own_updated (mem_filter.mp among).1

theorem machine_of (own : WritableActor tools.toGo cPrefix p a)
    (compiled : (exportGo tools.toGo cPrefix p).Compiles tools.toGo) (apart : NamesApart tools upper p a) (d : Driver) :
    ∃ selfUpdate, (machine tools cPrefix upper p a d).Of a selfUpdate := by
  have seen : ∀ x ∈ scalarNames p a, x ∈ updatedNames a := fun _ => scalar_updated
  cases d with
  | goMessages => exact ⟨_,goMachine_follows own compiled,fun _ _ none => none,seen,apart.go⟩
  | goEvents => exact ⟨_,goEventMachine_follows own compiled,fun _ _ none => none,seen,apart.go⟩
  | c =>
    exact ⟨_,separate_follows { own with apart := apart.c },fun _ _ none => none,seen,apart.c.fields⟩
  | swift =>
    exact ⟨_,unified_follows { own with apart := apart.swift },fun _ _ _ => rfl,seen,apart.swift.fields⟩
  | kotlin =>
    exact ⟨_,unified_follows { own with apart := apart.kotlin },fun _ _ _ => rfl,seen,apart.kotlin.fields⟩
  | typeScript =>
    exact ⟨_,unified_follows { own with apart := apart.typeScript },fun _ _ _ => rfl,seen,apart.typeScript.fields⟩

theorem machine_scalars (tools : Toolchain) (cPrefix upper : Name) (p : Protocol) (a : Actor) (d : Driver) :
    (machine tools cPrefix upper p a d).scalars = scalarNames p a := by
  cases d <;> rfl

theorem same_new {σ : Type} (apart : NamesApart tools upper p a) (initials : Initials p a)
    (own : WritableActor tools.toGo cPrefix p a) (compiled : (exportGo tools.toGo cPrefix p).Compiles tools.toGo) (ctx : σ)
    (d d' : Driver) : Same (machine tools cPrefix upper p a d) (machine tools cPrefix upper p a d')
      ((machine tools cPrefix upper p a d).new ctx) ((machine tools cPrefix upper p a d').new ctx) := by
  obtain ⟨_,first⟩ := machine_of own compiled apart d
  obtain ⟨_,second⟩ := machine_of own compiled apart d'
  refine ⟨first.follows.initial.trans second.follows.initial.symm,rfl,?_⟩
  intro x scalar
  rw [machine_scalars] at scalar
  obtain ⟨v,among,rfl⟩ := mem_map.mp scalar
  rw [new_vars initials among (machine_starts apart among d),new_vars initials among (machine_starts apart among d')]

end

/-- For flat actors that pass `Validate`, with distinct names, which Go can write and whose initial values fit: in
    runs whose transitions have shared updates the five machines stay in the same state with the same values. -/
theorem machines_alike (tools : Toolchain) (cPrefix upper : Name) (p : Protocol)
    (flat : ∀ a ∈ p.actors, a.isComposed = false) (valid : p.validate = none)
    (distinct : Distinct tools.toGo cPrefix p) (writable : Writable tools.toGo cPrefix p) (a : Actor)
    (actor : a ∈ p.actors) (apart : NamesApart tools upper p a) (initials : Initials p a) (σ : Type)
    (calls : Callbacks σ) (ctx : σ) (inputs : List Input) (proper : ∀ i ∈ inputs, Proper p i)
    (shared : Along ((machine tools cPrefix upper p a .goMessages).handle calls)
      (Shared (machine tools cPrefix upper p a .goMessages) calls a)
      ((machine tools cPrefix upper p a .goMessages).new ctx) inputs) (d d' : Driver) :
    (ran tools cPrefix upper p a calls ctx inputs d).state = (ran tools cPrefix upper p a calls ctx inputs d').state ∧
      (machine tools cPrefix upper p a d).values (ran tools cPrefix upper p a calls ctx inputs d) =
        (machine tools cPrefix upper p a d').values (ran tools cPrefix upper p a calls ctx inputs d') := by
  have mem : flatPart tools.toGo cPrefix a ∈ Protocol.parts tools.toGo cPrefix p := by
    rw [parts_flat flat]
    exact mem_map.mpr ⟨a,actor,rfl⟩
  have own : WritableActor tools.toGo cPrefix p a := ⟨valid,writable,actor,flat a actor,mem⟩
  have compiled := compiles_of_writable flat valid distinct writable
  obtain ⟨_,base⟩ := machine_of own compiled apart .goMessages
  have alike : ∀ other : Driver, Same (machine tools cPrefix upper p a .goMessages) (machine tools cPrefix upper p a other)
      (ran tools cPrefix upper p a calls ctx inputs .goMessages) (ran tools cPrefix upper p a calls ctx inputs other) := by
    intro other
    obtain ⟨_,of⟩ := machine_of own compiled apart other
    exact same_final base of (machine_scalars tools cPrefix upper p a other) valid actor (flat a actor) apart.events
      (same_new apart initials own compiled ctx .goMessages other) proper shared
  have values := fun other => values_same (machine_scalars tools cPrefix upper p a other) (alike other)
  exact ⟨(alike d).state.symm.trans (alike d').state,(values d).trans (values d').symm⟩

theorem unquoted_quoted (text : Name) : unquoted ('"' :: (text ++ ['"'])) = text := by simp [unquoted]

def asciiTools : Toolchain where
  toGo := GoAlike.asciiGo
  toLower := Char.toLower
  isLetter := Char.isAlpha
  isDigit := Char.isDigit
  isUpper := Char.isUpper
  isLower := Char.isLower
  quoted _ := unquoted
  quoted_plain _ text _ := unquoted_quoted text

def backend : Actor where
  name := "backend"
  initial := "LANActive"
  transitions := [
    ⟨"LANActive","LANDegraded",⟨.internal,[],"ping_timeout"⟩,[],[],[],
      [⟨"ping_failures","1"⟩],[]⟩,
    ⟨"LANDegraded","LANActive",⟨.recv,"path_pong",[]⟩,[],"reset_failures",[],
      [⟨"ping_failures","0"⟩],[]⟩,
    ⟨"LANDegraded","LANDegraded",⟨.internal,[],"ping_timeout"⟩,"under_max_failures",[],[],
      [⟨"ping_failures","ping_failures + 1"⟩],[]⟩,
    ⟨"LANDegraded","RelayBackoff",⟨.internal,[],"ping_timeout"⟩,"at_max_failures",
      "fallback_to_relay",[],
      [⟨"active_path","\"relay\""⟩,⟨"ping_failures","0"⟩],[]⟩]
  stateIndex := []
  roots := []
  machines := []
  routes := []

def pathSwitch (path : Name) : Protocol where
  actors := [backend,⟨"client","Idle",[],[],[],[],[]⟩]
  messages := [⟨"path_pong","client","backend"⟩]
  events := []
  commands := []
  vars := [⟨"ping_failures",.int,"0",[]⟩,⟨"active_path",.string,path,[]⟩]
  guards := ["under_max_failures","at_max_failures"]

def threeFailures : Callbacks Unit where
  guards name :=
    if name = "under_max_failures" then some fun values => values.head?.any fun v =>
      match v with
      | .int n => n + 1 < 3
      | _ => false
    else if name = "at_max_failures" then some fun values => values.head?.any fun v =>
      match v with
      | .int n => n + 1 ≥ 3
      | _ => false
    else none
  actions _ := none
  fits := nofun

def relayPath : Name := "\"relay\""

theorem pathSwitch_distinct : Distinct GoAlike.asciiGo "PathSwitch" (pathSwitch relayPath) :=
  ⟨by decide,by decide +kernel⟩

theorem pathSwitch_writable : Writable GoAlike.asciiGo "PathSwitch" (pathSwitch relayPath) where
  states := by decide
  identifiers := by decide
  vars := by decide
  updates := by decide
  commands := by decide

theorem pathSwitch_compiles :
    (exportGo GoAlike.asciiGo "PathSwitch" (pathSwitch relayPath)).Compiles GoAlike.asciiGo :=
  compiles_of_writable (by decide) rfl pathSwitch_distinct pathSwitch_writable

theorem backend_apart : NamesApart asciiTools "PATHSWITCH" (pathSwitch relayPath) backend where
  vars := by decide
  events := by unfold EventsApart; decide
  go := by decide
  c := ⟨by decide,by decide +kernel⟩
  swift := ⟨by decide,by decide +kernel⟩
  kotlin := ⟨by decide,by decide +kernel⟩
  typeScript := ⟨by decide,by decide +kernel⟩

def watched (path : Name) (inputs : List Input) (d : Driver) : Live Unit :=
  ran asciiTools "PathSwitch" "PATHSWITCH" (pathSwitch path) backend threeFailures () inputs d

def watchedValues (path : Name) (inputs : List Input) (d : Driver) : List Value :=
  (machine asciiTools "PathSwitch" "PATHSWITCH" (pathSwitch path) backend d).values
    (watched path inputs d)

def timeout : Input := .event "ping_timeout"

def pong : Input := .message "path_pong"

/-- As long as a pong comes before the second timeout nothing is counted. -/
theorem pong_in_time : (watched relayPath [timeout,pong,timeout] .goMessages).state = "LANDegraded" ∧ ∀ d d' : Driver,
      (watched relayPath [timeout,pong,timeout] d).state = (watched relayPath [timeout,pong,timeout] d').state ∧
        watchedValues relayPath [timeout,pong,timeout] d = watchedValues relayPath [timeout,pong,timeout] d' :=
  ⟨by decide,machines_alike asciiTools "PathSwitch" "PATHSWITCH" (pathSwitch relayPath) (by decide)
    rfl pathSwitch_distinct pathSwitch_writable backend mem_cons_self backend_apart (by decide) Unit
    threeFailures () [timeout,pong,timeout] (by decide) (by decide +kernel)⟩

/-- After three timeouts Go and C have fallen back and the others never do; a string without a literal is a null
    pointer in C. -/
theorem counter_is_forgotten :
    (∀ a ∈ (pathSwitch relayPath).actors, a.isComposed = false) ∧ (pathSwitch relayPath).validate = none ∧
      Distinct asciiTools.toGo "PathSwitch" (pathSwitch relayPath) ∧
      (exportGo asciiTools.toGo "PathSwitch" (pathSwitch relayPath)).Compiles asciiTools.toGo ∧
      NamesApart asciiTools "PATHSWITCH" (pathSwitch relayPath) backend ∧
    (∀ d ∈ [Driver.goMessages,.goEvents,.c], (watched relayPath [timeout,timeout,timeout] d).state = "RelayBackoff") ∧
    (∀ d ∈ [Driver.swift,.kotlin,.typeScript], (watched relayPath [timeout,timeout,timeout] d).state = "LANDegraded" ∧
        watchedValues relayPath [timeout,timeout,timeout] d = [.int 1,.text "relay"]) ∧
    watchedValues "<<>>" [] .goMessages = [.int 0,.text []] ∧ watchedValues "<<>>" [] .c = [.int 0,.null] := by
  exact ⟨by decide,rfl,pathSwitch_distinct,pathSwitch_compiles,backend_apart,by decide,by decide +kernel,
    by decide,by decide +kernel⟩

end Pigeon.TargetsAlike
