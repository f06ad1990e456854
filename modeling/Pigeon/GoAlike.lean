import Pigeon.GoMachines

/-!
The machines that the Go generator emits against the interpreter: both try the same guards
and take the same transition (`dispatch_alike`). They exist and agree on every run exactly when
the protocol is writable (`generated_alike_iff`); one with a state called `shut` is not
(`lower_case_state_undeclared`).
-/
namespace Pigeon.GoAlike
open Protocols List
open Machines
open GoNames
open GoFile
open GoGen
open GoMachines
open Runs

def Registered {σ ε : Type} (hooks : Hooks σ ε) (ts : List Transition) : Prop :=
  ∀ t ∈ ts, (t.guard ≠ [] → (hooks.guards t.guard).isSome = true) ∧
    (t.action ≠ [] → (hooks.actions t.action).isSome = true)

def refused {ε : Type} (result : Bool × Option ε) : Bool := !result.1 || result.2.isSome

/-- On the same inputs the two are in the same state, have run the same actions, and refuse alike. -/
def Alike (go : Go) (a : Actor) (m : Machine) (g : MachineDecl) : Prop :=
  ∀ (σ ε : Type) (hooks : Hooks σ ε) (order : List Name) (ctx : σ) (inputs : List Input),
    Registered hooks a.flattenedTransitions → (∀ i ∈ inputs, i.name ≠ []) →
      (final (m.handle hooks order) ⟨m.initial,ctx,[]⟩ inputs).state =
        (final (g.handle go hooks) (g.new go ctx) inputs).state ∧
      (final (m.handle hooks order) ⟨m.initial,ctx,[]⟩ inputs).ran =
        (final (g.handle go hooks) (g.new go ctx) inputs).ran ∧
      (answers (m.handle hooks order) ⟨m.initial,ctx,[]⟩ inputs).map Option.isSome =
        (answers (g.handle go hooks) (g.new go ctx) inputs).map refused

structure Same {σ : Type} (r : Running σ) (q : Instance σ) : Prop where
  state : r.state = q.state
  ctx : r.ctx = q.ctx
  ran : r.ran = q.ran

section
variable {σ ε : Type} {go : Go} {hooks : Hooks σ ε}

theorem exec_frame (go : Go) (updates : List Stmt) (q : Instance σ) :
    (updates.foldl (Stmt.exec go) q).ctx = q.ctx ∧ (updates.foldl (Stmt.exec go) q).ran = q.ran := by
  induction updates generalizing q with
  | nil => exact ⟨rfl,rfl⟩
  | cons u rest ih =>
    rw [foldl_cons,(ih _).1,(ih _).2]
    cases u <;> exact ⟨rfl,rfl⟩

theorem same_finish (c : Case) {r : Running σ} {q : Instance σ} (same : Same r q) :
    Same { r with state := c.target } (c.finish go q) := by
  have frame := exec_frame go c.updates q
  exact ⟨rfl,same.ctx.trans frame.1.symm,same.ran.trans frame.2.symm⟩

theorem body_alike {input : Transition → Name} {t r q} (same : Same r q)
    (registered : t.action ≠ [] → (hooks.actions t.action).isSome) :
    Same (fire hooks t r).1 ((plainCase go input t).body go hooks q).1 ∧
      (fire hooks t r).2.isSome = refused ((plainCase go input t).body go hooks q).2 := by
  by_cases idle : t.action = []
  · have none : (plainCase go input t).action = none := if_pos idle
    rw [fire,if_pos idle,Case.body,none]
    exact ⟨same_finish (plainCase go input t) same,rfl⟩
  · obtain ⟨action,known⟩ := Option.isSome_iff_exists.mp (registered idle)
    have acts : (plainCase go input t).action = some t.action := if_neg idle
    rw [fire,if_neg idle,Case.body,acts]
    simp only [known,Option.bind_some,Option.map_some,same.ctx]
    cases done : action q.ctx with
    | mk ctx failed =>
      cases failed with
      | some error => exact ⟨⟨same.state,rfl,by rw [same.ran]⟩,rfl⟩
      | none =>
        have next : Same { r with ctx, ran := r.ran ++ [t.action] } { q with ctx, ran := q.ran ++ [t.action] } :=
          ⟨same.state,rfl,by rw [same.ran]⟩
        exact ⟨same_finish (plainCase go input t) next,rfl⟩

variable {ts : List Transition}

theorem dispatch_alike (go : Go) (input : Transition → Name) (name : Name) (registered : Registered hooks ts) {r q}
    (same : Same r q) : Same (tryTransitions hooks (ts.filter fun t => t.origin = r.state ∧ input t = name) r).1
        (dispatch go hooks name (ts.map (plainCase go input)) q).1 ∧
      (tryTransitions hooks (ts.filter fun t => t.origin = r.state ∧ input t = name) r).2.isSome =
        refused (dispatch go hooks name (ts.map (plainCase go input)) q).2 := by
  induction ts generalizing r q with
  | nil => exact ⟨same,rfl⟩
  | cons t rest ih =>
    have others : Registered hooks rest := fun other mem => registered other (mem_cons_of_mem _ mem)
    have own := registered t mem_cons_self
    rw [map_cons,dispatch]
    by_cases meets : t.origin = r.state ∧ input t = name
    · have met : q.state = (plainCase go input t).state ∧ name = (plainCase go input t).input :=
        ⟨same.state.symm.trans meets.1.symm,meets.2.symm⟩
      rw [filter_cons_of_pos (by simpa using meets),tryTransitions,if_pos met]
      by_cases free : t.guard = []
      · have none : (plainCase go input t).guard = none := if_pos free
        rw [if_pos free,none]
        exact body_alike same own.2
      · obtain ⟨guard,known⟩ := Option.isSome_iff_exists.mp (own.1 free)
        have guarded : (plainCase go input t).guard = some t.guard := if_neg free
        rw [if_neg free,guarded]
        simp only [known,same.ctx]
        cases tried : guard q.ctx with
        | mk holds ctx =>
          have next : Same { r with ctx } { q with ctx } := ⟨same.state,rfl,same.ran⟩
          cases holds with
          | true => exact body_alike next own.2
          | false => exact ih others next
    · rw [filter_cons_of_neg (by simpa using meets),if_neg]
      · exact ih others same
      · exact fun met => meets ⟨met.1.symm.trans same.state.symm,met.2.symm⟩

theorem lookup_alike (hooks : Hooks σ ε) (entry : List Transition) (r : Running σ) (missing : StepError ε) :
    (match entry with
      | [] => (r,some missing)
      | t :: rest => tryTransitions hooks (t :: rest) r).1 = (tryTransitions hooks entry r).1 ∧
    (match entry with
      | [] => (r,some missing)
      | t :: rest => tryTransitions hooks (t :: rest) r).2.isSome = (tryTransitions hooks entry r).2.isSome := by
  cases entry <;> exact ⟨rfl,rfl⟩

structure Faithful (go : Go) (a : Actor) (g : MachineDecl) : Prop where
  initial : g.initial = a.initial
  handleMessage : g.handleMessage =
    (a.flattenedTransitions.filter fun t => t.trigger.kind = .recv).map (plainCase go fun t => t.trigger.msg)
  step : g.step =
    (a.flattenedTransitions.filter fun t => t.trigger.kind = .internal).map (plainCase go fun t => t.trigger.desc)

theorem recvIndex_eq (a : Actor) (state msg : Name) :
    (machineOf a).recvIndex (state,msg) = (a.flattenedTransitions.filter fun t => t.trigger.kind = .recv).filter
      fun t => t.origin = state ∧ t.trigger.msg = msg := by
  show index recvKey (fun _ => []) a.flattenedTransitions (state,msg) = _
  rw [index_eq,nil_append,filter_filter]
  refine filter_congr (fun t _ => ?_)
  by_cases kind : t.trigger.kind = .recv <;> simp [recvKey,kind]

theorem internalIndex_eq (a : Actor) (state event : Name) : (machineOf a).internalIndex (state,event) =
      (a.flattenedTransitions.filter fun t => t.trigger.kind = .internal).filter fun t => t.origin = state ∧ t.trigger.desc = event := by
  show index internalKey (fun _ => []) a.flattenedTransitions (state,event) = _
  rw [index_eq,nil_append,filter_filter]
  refine filter_congr (fun t _ => ?_)
  by_cases kind : t.trigger.kind = .internal <;> simp [internalKey,kind]

theorem registered_filter (registered : Registered hooks ts) (kept : Transition → Bool) :
    Registered hooks (ts.filter kept) := fun t mem => registered t (mem_of_mem_filter mem)

variable {a : Actor} {g : MachineDecl}

theorem handle_alike (faithful : Faithful go a g) (registered : Registered hooks a.flattenedTransitions)
    (order : List Name) {i} (named : i.name ≠ []) {r q} (same : Same r q) :
    Same ((machineOf a).handle hooks order r i).1 (g.handle go hooks q i).1 ∧
      ((machineOf a).handle hooks order r i).2.isSome = refused (g.handle go hooks q i).2 := by
  cases i with
  | message msg =>
    have found := lookup_alike hooks ((machineOf a).recvIndex (r.state,msg)) r (.noTransition r.state msg)
    have alike := dispatch_alike go (·.trigger.msg) msg
      (registered_filter registered fun t => t.trigger.kind = .recv) same
    rw [← recvIndex_eq,← faithful.handleMessage] at alike
    exact ⟨found.1 ▸ alike.1,found.2.trans alike.2⟩
  | event desc =>
    have found := lookup_alike hooks ((machineOf a).internalIndex (r.state,desc)) r (.noInternal r.state desc)
    have alike := dispatch_alike go (·.trigger.desc) desc
      (registered_filter registered fun t => t.trigger.kind = .internal) same
    rw [← internalIndex_eq,← faithful.step] at alike
    have chosen : (machineOf a).handle hooks order r (.event desc) =
        match (machineOf a).internalIndex (r.state,desc) with
        | [] => (r,some (.noInternal r.state desc))
        | t :: rest => tryTransitions hooks (t :: rest) r := if_pos named
    rw [chosen]
    exact ⟨found.1 ▸ alike.1,found.2.trans alike.2⟩

theorem run_alike (faithful : Faithful go a g) (registered : Registered hooks a.flattenedTransitions)
    (order : List Name) {inputs} (named : ∀ i ∈ inputs, i.name ≠ []) {r q} (same : Same r q) :
    Same (final ((machineOf a).handle hooks order) r inputs) (final (g.handle go hooks) q inputs) ∧
      (answers ((machineOf a).handle hooks order) r inputs).map Option.isSome =
        (answers (g.handle go hooks) q inputs).map refused := by
  induction inputs generalizing r q with
  | nil => exact ⟨same,rfl⟩
  | cons i rest ih =>
    have first := handle_alike faithful registered order (named i mem_cons_self) same
    have next := ih (fun other mem => named other (mem_cons_of_mem _ mem)) first.1
    refine ⟨next.1,?_⟩
    simp [answers_cons,first.2,next.2]

theorem alike_of_faithful (flat : a.isComposed = false) (faithful : Faithful go a g) :
    Alike go a (machineOf a) g := by
  intro σ ε hooks order ctx inputs registered named
  have initial : (machineOf a).initial = g.initial := by
    have alone : a.machines = [] := by simpa [Actor.isComposed] using flat
    rw [faithful.initial,machineOf,alone]
  have same : Same ⟨(machineOf a).initial,ctx,[]⟩ (g.new go ctx) := ⟨initial,rfl,rfl⟩
  have run := run_alike faithful registered order named same
  exact ⟨run.1.state,run.1.ran,run.2⟩

end

/-- For flat actors that pass `Validate` with distinct names: the emitted file compiles and its machines agree with
    the interpreter exactly when the protocol is writable. -/
theorem generated_alike_iff (go : Go) (cPrefix : Name) (p : Protocol) (flat : ∀ a ∈ p.actors, a.isComposed = false)
    (valid : p.validate = none) (distinct : Distinct go cPrefix p) :
    ((exportGo go cPrefix p).Compiles go ∧ ∀ (i : Nat) a, p.actors[i]? = some a →
      ∃ m g, newMachine p a.name = some m ∧ (exportGo go cPrefix p).machines[i]? = some g ∧
        Alike go a m (g.link (exportGo go cPrefix p).consts)) ↔ Writable go cPrefix p := by
  constructor
  · exact fun both => writable_of_compiles distinct both.1
  · intro writable
    have compiled := compiles_of_writable flat valid distinct writable
    refine ⟨compiled,?_⟩
    intro i a found
    have actor := mem_of_getElem? found
    have mem : flatPart go cPrefix a ∈ Protocol.parts go cPrefix p := by
      rw [parts_flat flat]
      exact mem_map.mpr ⟨a,actor,rfl⟩
    refine ⟨machineOf a,writeMachine go cPrefix p (flatPart go cPrefix a),
      newMachine_actor (validate_actors valid) actor,?_,?_⟩
    · simp [exportGo,parts_flat flat,found]
    · have own : WritableActor go cPrefix p a := ⟨valid,writable,actor,flat a actor,mem⟩
      exact alike_of_faithful (flat a actor)
        ⟨value_state compiled writable mem (mem_collectStates.mpr (.inl rfl)),link_handleMessage own compiled,
          link_step own compiled⟩

theorem toUpper_latin (c : Char) (low : 192 ≤ c.toNat) (high : c.toNat < 255) :
    192 ≤ c.toUpper.toNat ∧ c.toUpper.toNat < 256 := by
  have all : ∀ n < 255, 192 ≤ n → 192 ≤ (Char.ofNat n).toUpper.toNat ∧ (Char.ofNat n).toUpper.toNat < 256 := by
    decide +kernel
  rw [← Char.ofNat_toNat c]
  exact all c.toNat high low

def asciiGo : Go where
  toUpper := Char.toUpper
  ascii := fun _ _ => rfl
  latin := toUpper_latin
  identifier name := name.all (fun c => c.isAlphanum || c = '_') && !(name.headD '0').isDigit
  unquote text :=
    if 2 ≤ text.length ∧ (text.drop 1).dropLast.all (fun c => c ≠ '"' && c ≠ '\\' && c ≠ '\n')
    then some (text.drop 1).dropLast else none

def door (shut : Name) : Protocol where
  actors := [{
    name := "door"
    initial := shut
    transitions := [⟨shut,"Ajar",⟨.internal,[],"push"⟩,"unlocked","swing",[],
      [⟨"pushes","pushes + 1"⟩],[]⟩]
    stateIndex := []
    roots := []
    machines := []
    routes := [] }]
  messages := []
  events := []
  commands := []
  vars := [⟨"pushes",.int,"0","how often"⟩]
  guards := ["unlocked"]

theorem door_distinct : Distinct asciiGo "Doors" (door "Shut") ∧ Distinct asciiGo "Doors" (door "shut") :=
  ⟨⟨by decide +kernel,by decide +kernel⟩,⟨by decide +kernel,by decide +kernel⟩⟩

theorem door_writable : Writable asciiGo "Doors" (door "Shut") where
  states := by decide +kernel
  identifiers := by decide +kernel
  vars := by decide +kernel
  updates := by decide +kernel
  commands := by decide +kernel

theorem door_alike : (exportGo asciiGo "Doors" (door "Shut")).Compiles asciiGo ∧
    ∀ (i : Nat) a, (door "Shut").actors[i]? = some a → ∃ m g, newMachine (door "Shut") a.name = some m ∧
        (exportGo asciiGo "Doors" (door "Shut")).machines[i]? = some g ∧
        Alike asciiGo a m (g.link (exportGo asciiGo "Doors" (door "Shut")).consts) :=
  (generated_alike_iff asciiGo "Doors" (door "Shut") (by decide) rfl door_distinct.1).mpr door_writable

/-- With `shut` for the state, the constructor refers to the constant `DoorsDoorShut`, but the one that is declared is
    `DoorsDoorshut`. -/
theorem lower_case_state_undeclared : (∀ a ∈ (door "shut").actors, a.isComposed = false) ∧
    (door "shut").validate = none ∧ Distinct asciiGo "Doors" (door "shut") ∧
    ¬ (exportGo asciiGo "Doors" (door "shut")).Compiles asciiGo := by
  refine ⟨by decide,rfl,door_distinct.2,?_⟩
  intro compiled
  have missing : ∀ m ∈ (exportGo asciiGo "Doors" (door "shut")).machines,
      ¬ Declares (exportGo asciiGo "Doors" (door "shut")).consts .state m.initial := by
    decide +kernel
  have machine : (exportGo asciiGo "Doors" (door "shut")).machines ≠ [] := by decide +kernel
  obtain ⟨m,mem⟩ := exists_mem_of_ne_nil _ machine
  exact missing m mem (compiled.machines m mem).initial

end Pigeon.GoAlike
