import Pigeon.Protocols
import Pigeon.Sequence

/-!
The interpreter of a protocol (`protocol/machine.go`). `NewMachine` indexes the transitions by
state and message or event, in the order of the table (`index_eq`); an input takes the first
one whose guard holds. Guards and actions work on a context, which a guard may change too.
-/
namespace Pigeon.Machines
open Protocols Function
open Sequence (find?_of_unique)

/-- The `GuardFunc` and `ActionFunc` tables. -/
structure Hooks (σ ε : Type) where
  guards : Name → Option (σ → Bool × σ)
  actions : Name → Option (σ → σ × Option ε)

structure Running (σ : Type) where
  state : Name
  ctx : σ
  ran : List Name

inductive StepError (ε : Type)
  | noTransition (state msg : Name)
  | noInternal (state event : Name)
  | noInternalAny (state : Name)
  | unregisteredGuard (guard : Name)
  | unregisteredAction (action : Name)
  | actionFailed (action : Name) (error : ε)
  | guardsFailed (state : Name)

abbrev Index := Name × Name → List Transition

structure Machine where
  initial : Name
  (recvIndex internalIndex : Index)

def index (key : Transition → Option (Name × Name)) : Index → List Transition → Index
  | entries, [] => entries
  | entries, t :: rest =>
    match key t with
    | some k => index key (update entries k (entries k ++ [t])) rest
    | none => index key entries rest

/-- `stateMsg`. -/
def recvKey (t : Transition) : Option (Name × Name) :=
  if t.trigger.kind = .recv then some (t.origin,t.trigger.msg) else none

/-- `stateEvent`. -/
def internalKey (t : Transition) : Option (Name × Name) :=
  if t.trigger.kind = .internal then some (t.origin,t.trigger.desc) else none

def machineOf (a : Actor) : Machine where
  initial :=
    match a.machines with
    | m :: _ => m.initial
    | [] => a.initial
  recvIndex := index recvKey (fun _ => []) a.flattenedTransitions
  internalIndex := index internalKey (fun _ => []) a.flattenedTransitions

def newMachine (p : Protocol) (actorName : Name) : Option Machine :=
  (p.actors.find? fun a => a.name = actorName).map machineOf

theorem index_eq (key : Transition → Option (Name × Name)) (entries : Index) (ts : List Transition) (k : Name × Name) :
    index key entries ts k = entries k ++ ts.filter fun t => key t = some k := by
  induction ts generalizing entries with
  | nil => simp [index]
  | cons t rest ih =>
    rw [index]
    cases found : key t with
    | none =>
      show index key entries rest k = _
      rw [ih,List.filter_cons_of_neg (by simp [found])]
    | some own =>
      show index key (update entries own (entries own ++ [t])) rest k = _
      rw [ih]
      by_cases same : own = k
      · subst same
        rw [List.filter_cons_of_pos (by simp [found])]
        simp
      · rw [update_of_ne (Ne.symm same),List.filter_cons_of_neg (by simp [found,same])]

theorem newMachine_actor {p a} (names : p.actorNames.Nodup) (actor : a ∈ p.actors) :
    newMachine p a.name = some (machineOf a) := by
  have found : p.actors.find? (fun other => other.name = a.name) = some a := by
    refine find?_of_unique actor (by simp) ?_
    intro other mem same
    exact List.inj_on_of_nodup_map names mem actor (by simpa using same)
  simp [newMachine,found]

section
variable {σ ε : Type} (hooks : Hooks σ ε)

def fire (t : Transition) (r : Running σ) : Running σ × Option (StepError ε) :=
  if t.action = [] then ({ r with state := t.target },none)
  else
    match hooks.actions t.action with
    | none => (r,some (.unregisteredAction t.action))
    | some action =>
      match action r.ctx with
      | (ctx,some error) => ({ r with ctx, ran := r.ran ++ [t.action] },some (.actionFailed t.action error))
      | (ctx,none) => (⟨t.target,ctx,r.ran ++ [t.action]⟩,none)

/-- `Machine.tryTransitions`. -/
def tryTransitions : List Transition → Running σ → Running σ × Option (StepError ε)
  | [], r => (r,some (.guardsFailed r.state))
  | t :: rest, r =>
    if t.guard = [] then fire hooks t r
    else
      match hooks.guards t.guard with
      | none => (r,some (.unregisteredGuard t.guard))
      | some guard =>
        match guard r.ctx with
        | (false,ctx) => tryTransitions rest { r with ctx }
        | (true,ctx) => fire hooks t { r with ctx }

/-- `Machine.HandleMessage`. -/
def handleMessage (m : Machine) (r : Running σ) (msg : Name) : Running σ × Option (StepError ε) :=
  match m.recvIndex (r.state,msg) with
  | [] => (r,some (.noTransition r.state msg))
  | t :: rest => tryTransitions hooks (t :: rest) r

/-- For the empty event it tries the transitions of every event of the state, in the order of the range over the
    index. -/
def step (m : Machine) (order : List Name) (r : Running σ) (event : Name) : Running σ × Option (StepError ε) :=
  if event ≠ [] then
    match m.internalIndex (r.state,event) with
    | [] => (r,some (.noInternal r.state event))
    | t :: rest => tryTransitions hooks (t :: rest) r
  else
    match order.flatMap fun event => m.internalIndex (r.state,event) with
    | [] => (r,some (.noInternalAny r.state))
    | t :: rest => tryTransitions hooks (t :: rest) r

end

inductive Input
  | message (msg : Name)
  | event (desc : Name)

def Input.name : Input → Name
  | .message msg => msg
  | .event desc => desc

def Machine.handle {σ ε : Type} (hooks : Hooks σ ε) (order : List Name) (m : Machine) (r : Running σ) :
    Input → Running σ × Option (StepError ε)
  | .message msg => handleMessage hooks m r msg
  | .event desc => step hooks m order r desc

end Pigeon.Machines
