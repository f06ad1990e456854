import Pigeon.TargetsAlike

/-!
What the functions of a generated C machine return (`protocol/cgen.go`). A body returns the
negation of the action callback's error, so a negative error comes out as a transition. A call
keeps to the law just when the callback returns 0, or a positive error and has changed nothing
(`call_lawful_iff`).
-/
namespace Pigeon.CReturns
open Protocols
open GoNames
open GoFile (Rhs Stmt Case)
open Machines (Input)
open Targets
open TargetsAlike

def asActor (host : Name) (m : SubMachine) : Actor where
  name := host
  initial := m.initial
  transitions := m.transitions
  stateIndex := m.stateIndex
  roots := m.roots
  machines := []
  routes := []

def cSubTarget (text : Text) (upper machine : Name) : Target :=
  { cTarget text upper with
    state := fun actor s =>
      "PIGEON_" ++ cConstPrefix text actor ++ "_" ++ cConstName text machine ++ "_" ++
        cConstName text s }

/-- `writeCComposedActorImpl`, for one of its machines. -/
def cSubMachine (text : Text) (upper : Name) (p : Protocol) (a : Actor) (m : SubMachine) : Emitted :=
  ((cSubTarget text upper m.name).writeSeparate p (asActor a.name m)).link
    ((cSubTarget text upper m.name).consts p (asActor a.name m))

/-- `ExportCImpl`: a machine for each flat actor and for each sub-machine of the others. -/
def cMachines (text : Text) (upper : Name) (p : Protocol) : List Emitted :=
  p.actors.flatMap fun a =>
    if a.isComposed then a.machines.map (cSubMachine text upper p a) else [cMachine text upper p a]

/-- What an action leaves behind, and the `int` that it returns. -/
structure Effect (σ : Type) where
  ctx : σ
  vars : Name → Value
  err : BitVec 32

structure Callbacks (σ : Type) where
  guards : Name → Option (σ → (Name → Value) → Bool)
  actions : Name → Option (σ → (Name → Value) → Effect σ)

inductive Ended
  | unmatched
  | refused (err : BitVec 32)
  | completed
  | undefined
deriving DecidableEq

/-- The value that is returned, if C defines one: `return 0` after all cases, `return -err`, or `return 1` at the end
    of a case. -/
def Ended.returned : Ended → Option (BitVec 32)
  | .unmatched => some 0
  | .refused err => if err = BitVec.intMin 32 then none else some (-err)
  | .completed => some 1
  | .undefined => none

/-- Whether a sum leaves its type, which is `int` unless the constant is too large for it. -/
def overflows (old : Value) : Rhs → Bool
  | .literal _ => false
  | .self minus n =>
    match old with
    | .int m =>
      let sum := if minus then m - n else m + n
      width (if n.natAbs < 2 ^ 31 then 32 else 64) sum ≠ sum
    | _ => false

section
variable {σ : Type} (tools : Toolchain) (calls : Callbacks σ)

def assign (vars : Name → Value) : Stmt → Option (Name → Value)
  | .assign field rhs name =>
    if overflows (vars field) rhs then none else some (tools.cRuntime.exec vars (.assign field rhs name))
  | .comment _ => some vars

def complete (c : Case) (q : Live σ) : Ended × Live σ :=
  match c.updates.foldlM (assign tools) q.vars with
  | none => (.undefined,q)
  | some vars => (.completed,{ q with state := c.target, vars := vars })

/-- `writeCTransitionBody`. -/
def body (c : Case) (q : Live σ) : Ended × Live σ :=
  match c.action.bind calls.actions with
  | none => complete tools c q
  | some act =>
    let e := act q.ctx q.vars
    if e.err ≠ 0 then (.refused e.err,{ q with ctx := e.ctx, vars := e.vars })
    else complete tools c { q with ctx := e.ctx, vars := e.vars }

def matched (m : Emitted) (q : Live σ) (i : Input) : Option Case :=
  let allow (c : Case) : Bool := c.guard.all fun g => (calls.guards g).any fun guard => guard q.ctx q.vars
  let first (cases : List Case) (input : Name) :=
    cases.find? fun c => c.state = q.state ∧ c.input = input ∧ allow c
  match m.entry, i with
  | .separate handleMessage _, .message msg => first handleMessage msg
  | .separate _ step, .event desc => first step desc
  | .unified handleEvent, i => first handleEvent (eventName i)

/-- `handle_message` for a message, `step` for an event. -/
def call (m : Emitted) (q : Live σ) (i : Input) : Ended × Live σ :=
  match matched calls m q i with
  | none => (.unmatched,q)
  | some c => body tools calls c q

end

def Lawful {σ : Type} (q : Live σ) (ended : Ended × Live σ) : Prop :=
  ∃ r, ended.1.returned = some r ∧ (0 < r.toInt ↔ ended.1 = .completed) ∧
    (r.toInt ≤ 0 → ended.2.state = q.state ∧ ended.2.vars = q.vars)

section
variable {σ : Type} (tools : Toolchain) (calls : Callbacks σ)

def Conforms (q : Live σ) (c : Case) : Prop :=
  match c.action.bind calls.actions with
  | none => (c.updates.foldlM (assign tools) q.vars).isSome
  | some act =>
    let e := act q.ctx q.vars
    (e.err = 0 ∧ (c.updates.foldlM (assign tools) e.vars).isSome) ∨ (0 < e.err.toInt ∧ e.vars = q.vars)

variable {tools calls}

theorem unmatched_lawful (q : Live σ) : Lawful q (.unmatched,q) :=
  ⟨0,rfl,iff_of_false (by decide) (by simp),fun _ => ⟨rfl,rfl⟩⟩

theorem complete_lawful_iff (q before : Live σ) (c : Case) :
    Lawful q (complete tools c before) ↔ (c.updates.foldlM (assign tools) before.vars).isSome := by
  rw [complete]
  cases c.updates.foldlM (assign tools) before.vars with
  | none =>
    refine iff_of_false ?_ (by simp)
    rintro ⟨r,returned,_⟩
    cases returned
  | some vars =>
    refine iff_of_true ⟨1,rfl,by simp,?_⟩ rfl
    intro negative
    exact absurd negative (by decide)

theorem refused_lawful_iff (q after : Live σ) {err} (failed : err ≠ 0) (state : after.state = q.state) :
    Lawful q (.refused err,after) ↔ 0 < err.toInt ∧ after.vars = q.vars := by
  by_cases least : err = BitVec.intMin 32
  · refine iff_of_false ?_ ?_
    · rintro ⟨r,returned,_⟩
      simp [Ended.returned,least] at returned
    · rintro ⟨positive,_⟩
      exact absurd positive (by rw [least]; decide)
  have returned : Ended.returned (.refused err) = some (-err) := if_neg least
  have nonzero : err.toInt ≠ 0 := fun zero => failed (BitVec.toInt_inj.mp (zero.trans BitVec.toInt_zero.symm))
  constructor
  · rintro ⟨r,same,sign,kept⟩
    cases returned.symm.trans same
    have negative : ¬0 < (-err).toInt := fun positive => by cases sign.mp positive
    refine ⟨?_,(kept (Int.not_lt.mp negative)).2⟩
    rw [BitVec.toInt_neg_of_ne_intMin least] at negative
    omega
  · rintro ⟨positive,vars⟩
    refine ⟨-err,returned,iff_of_false ?_ (by simp),fun _ => ⟨state,vars⟩⟩
    rw [BitVec.toInt_neg_of_ne_intMin least]
    omega

theorem body_lawful_iff (q : Live σ) (c : Case) : Lawful q (body tools calls c q) ↔ Conforms tools calls q c := by
  rw [body,Conforms]
  cases c.action.bind calls.actions with
  | none => exact complete_lawful_iff q q c
  | some act =>
    by_cases failed : (act q.ctx q.vars).err = 0#32
    · simp [failed,complete_lawful_iff]
    · have refused := refused_lawful_iff q { q with ctx := (act q.ctx q.vars).ctx, vars := (act q.ctx q.vars).vars }
        failed rfl
      simpa [failed] using refused

end

/-- A call keeps to the law exactly when the case that it takes, if any, does. -/
theorem call_lawful_iff (tools : Toolchain) (upper : Name) (p : Protocol) :
    ∀ m ∈ cMachines tools.toText upper p, ∀ (σ : Type) (calls : Callbacks σ) (q : Live σ) (i : Input),
      Lawful q (call tools calls m q i) ↔ ∀ c ∈ matched calls m q i, Conforms tools calls q c := by
  intro m _ σ calls q i
  rw [call]
  cases matched calls m q i with
  | none => exact iff_of_true (unmatched_lawful q) (by simp)
  | some c => simpa using body_lawful_iff q c

def dial : Transition := ⟨"Idle","Connected",⟨.internal,[],"connect"⟩,[],"dial",[],[],[]⟩

def dialling : Protocol where
  actors := [⟨"client","Idle",[dial],[],[],[],[]⟩,
    ⟨"backend",[],[],[],[],[⟨"relay","Idle",[dial],[],[],[],[]⟩],[]⟩]
  messages := []
  events := ["connect"]
  commands := []
  vars := []
  guards := []

def always (err : BitVec 32) : Callbacks Unit where
  guards _ := none
  actions _ := some fun ctx vars => ⟨ctx,vars,err⟩

def idle : Live Unit := ⟨"Idle",fun _ => .null,()⟩

/-- An error of 5 comes out as -5. -/
theorem positive_error : (cMachines asciiTools.toText "DIALLING" dialling).length = 2 ∧
    ∀ m ∈ cMachines asciiTools.toText "DIALLING" dialling,
      Lawful idle (call asciiTools (always 5) m idle (.event "connect")) := by
  refine ⟨by decide,fun m machine => ?_⟩
  refine (call_lawful_iff asciiTools "DIALLING" dialling m machine Unit (always 5) idle _).mpr ?_
  have acts : ∀ c ∈ matched (always 5) m idle (.event "connect"), c.action.isSome := by
    revert m
    decide
  intro c taken
  obtain ⟨name,named⟩ := Option.isSome_iff_exists.mp (acts c taken)
  rw [Conforms,named]
  exact .inr ⟨by decide,rfl⟩

/-- An error of -1 comes out as 1, from a machine that is where it was. -/
theorem negative_error : dialling.validate = none ∧ (cMachines asciiTools.toText "DIALLING" dialling).length = 2 ∧
    ∀ m ∈ cMachines asciiTools.toText "DIALLING" dialling,
      (call asciiTools (always (-1)) m idle (.event "connect")).1.returned = some 1 ∧
        (call asciiTools (always (-1)) m idle (.event "connect")).1 ≠ .completed ∧
        (call asciiTools (always (-1)) m idle (.event "connect")).2.state = "Idle" := by
  decide

end Pigeon.CReturns
