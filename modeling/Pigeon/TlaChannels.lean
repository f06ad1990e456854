import Pigeon.Queues
import Pigeon.TlaAdversary

/-!
Flat actors over channels against the exported module, in which a message type is one record.
A message sent while one of its type is on its way takes its place, and what the first one
leads to is lost (`overwritten_message_lost`). Otherwise the module, the `view` of the actors,
reaches every combination that they do (`combination_reached`).
-/
namespace Pigeon.TlaExport
open Protocols TlaModules Function List
open Systems (System reachable_simulated)
open Queues (queue)

variable {V : Type}

structure Packet (V : Type) where
  msg : Name
  content : V

/-- The states of the actors, the variables, and the messages on their way, the oldest first. -/
structure Fifo (V : Type) where
  states : Name → Name
  vars : Name → V
  pending : List ((Name × Name) × Packet V)

inductive Takes (actor : Name) (t : Transition) :
    List ((Name × Name) × Packet V) → Option V → List ((Name × Name) × Packet V) → Prop
  | nothing {pending : List ((Name × Name) × Packet V)} (internal : t.trigger.kind = .internal) :
    Takes actor t pending none pending
  | oldest {before after : List ((Name × Name) × Packet V)} {sender : Name} {content : V}
    (receives : t.trigger.kind = .recv) (first : queue before (sender,actor) = []) :
    Takes actor t (before ++ ((sender,actor),⟨t.trigger.msg,content⟩) :: after) (some content) (before ++ after)

section
variable (tla : Tla Name V) (p : Model)

def Fifo.env (f : Fifo V) (name : Name) : V :=
  match p.actors.find? fun a => stateVar (actorBase a.name) = name with
  | some a => tla.str (joined a.name (f.states a.name))
  | none => f.vars name

def Fifo.scope (f : Fifo V) : Option V → Name → V
  | none => f.env tla p
  | some content => update (f.env tla p) recvMsg content

def packet (scope : Name → V) (actor : Name) (send : Send) : (Name × Name) × Packet V :=
  ((actor,send.receiver),⟨send.msg,
    tla.record ((typeKey,tla.str send.msg) :: send.fields.map fun f => (f.1,tla.eval scope f.2))⟩)

structure Fifo.Fires (a : Actor) (t : Transition) (f : Fifo V) (content : Option V)
    (left : List ((Name × Name) × Packet V)) (f' : Fifo V) : Prop where
  origin : f.states a.name = t.origin
  takes : Takes a.name t f.pending content left
  guard : t.guard ≠ [] → tla.Holds (tla.eval (f.scope tla p content) (guardExpr p t.guard))
  target : f'.states = update f.states a.name t.target
  updated : ∀ u ∈ t.updates, f'.vars (sanitiseTLA u.var) = tla.eval (f.scope tla p content) u.expr
  kept : ∀ name, name ∉ t.updates.map (fun u => sanitiseTLA u.var) → f'.vars name = f.vars name
  pending : f'.pending = left ++ t.sends.map (packet tla (f.scope tla p content) a.name)
  room : p.channelBound = 0 ∨
    ∀ send ∈ t.sends, ((queue f'.pending (a.name,send.receiver)).length : Int) ≤ p.channelBound

structure Fifo.Init (f : Fifo V) : Prop where
  states : ∀ a ∈ p.actors, f.states a.name = a.initial
  vars : ∀ v ∈ p.vars, v.name ≠ recvMsg → f.vars (sanitiseTLA v.name) = tla.eval (f.env tla p) v.initial
  pending : f.pending = []

def Fifo.Next (f f' : Fifo V) : Prop :=
  ∃ a ∈ p.actors, ∃ t ∈ a.flattenedTransitions, ∃ content left, Fifo.Fires tla p a t f content left f'

def fifoSystem : System (Fifo V) := ⟨Fifo.Init tla p,Fifo.Next tla p⟩

def OnePending (f : Fifo V) : Prop := (f.pending.map fun e => e.2.msg).Nodup

def oneFifoSystem : System (Fifo V) := ⟨Fifo.Init tla p,fun f f' => Fifo.Next tla p f f' ∧ OnePending f'⟩

structure Combines (f : Fifo V) (s : Name → V) : Prop where
  states : ∀ a ∈ p.actors, s (stateVar (actorBase a.name)) = tla.str (joined a.name (f.states a.name))
  vars : ∀ v ∈ p.vars, v.name ≠ recvMsg → s (sanitiseTLA v.name) = f.vars (sanitiseTLA v.name)

def stateNamesOf : List Name := p.actors.map fun a => stateVar (actorBase a.name)

def varNamesOf : List Name := (phaseVars p none).map fun v => sanitiseTLA v.name

structure Apart : Prop where
  names : (stateNamesOf p ++ varNamesOf p).Nodup
  slots : ∀ msg ∈ usedMsgs p none, recvVar msg ∉ stateNamesOf p ++ varNamesOf p
  updates : ∀ t ∈ transitions p none, ∀ u ∈ t.updates, sanitiseTLA u.var ∈ varNamesOf p

def ownTexts (t : Transition) : List Name :=
  (if t.guard ≠ [] then [guardExpr p t.guard] else []) ++ t.updates.map VarUpdate.expr

def fieldTexts (t : Transition) : List Name := t.sends.flatMap fun s => s.fields.map Prod.snd

def allTexts : List Name :=
  (transitions p none).flatMap (fun t => ownTexts p t ++ fieldTexts t) ++ p.vars.map VarDef.initial

/-- The received message is `recv_msg`, in guards and updates only, and no other text depends on a record. -/
structure Readable : Prop where
  inlined : ∀ t ∈ transitions p none, t.trigger.kind = .recv → ∀ text ∈ ownTexts p t, ∀ s : Name → V,
    tla.eval s (inlined t text) = tla.eval (update s recvMsg (s (recvVar t.trigger.msg))) text
  fields : ∀ t ∈ transitions p none, t.trigger.kind = .recv → ∀ text ∈ fieldTexts t, ∀ s content,
    tla.eval (update s recvMsg content) text = tla.eval s text
  blind : ∀ text ∈ allTexts p, ∀ s s' : Name → V, (∀ name ∉ recvVars p none, s name = s' name) →
    tla.eval s text = tla.eval s' text

structure Plain : Prop where
  valid : p.validate = none
  flat : ∀ a ∈ p.actors, a.isComposed = false
  regular : Regular p none
  apart : Apart p
  readable : Readable tla p

end

variable {msg text name : Name}

section
variable {tla : Tla Name V} {p : Model}

theorem mem_transitions_flat (flat : ∀ a ∈ p.actors, a.isComposed = false) {t} :
    t ∈ transitions p none ↔ ∃ a ∈ p.actors, t ∈ a.flattenedTransitions := by
  have none : composedTransitions p = [] := by
    refine flatMap_eq_nil_iff.mpr ?_
    intro a actor
    rw [if_neg (by simp [flat a actor])]
  rw [transitions,none,map_nil,append_nil,mem_map]
  constructor
  · rintro ⟨⟨a,t⟩,own,rfl⟩
    obtain ⟨actor,_,mem,_⟩ := mem_phaseTransitions.mp own
    exact ⟨a,actor,mem⟩
  · rintro ⟨a,actor,mem⟩
    exact ⟨(a,t),mem_phaseTransitions.mpr ⟨actor,flat a actor,mem,rfl⟩,rfl⟩

theorem mem_firstOfEach {a seen actors} (mem : a ∈ firstOfEach seen actors) : a ∈ actors := by
  induction actors generalizing seen with
  | nil => simp [firstOfEach] at mem
  | cons b rest ih =>
    rw [firstOfEach] at mem
    split at mem
    next => exact mem_cons_of_mem b (ih mem)
    next =>
      rcases mem_cons.mp mem with rfl | later
      · exact mem_cons_self
      · exact mem_cons_of_mem b (ih later)

theorem env_other (other : name ∉ stateNamesOf p) (f : Fifo V) : f.env tla p name = f.vars name := by
  have none : (p.actors.find? fun a => stateVar (actorBase a.name) = name) = none := by
    refine find?_eq_none.mpr ?_
    intro a actor same
    exact other (mem_map.mpr ⟨a,actor,of_decide_eq_true same⟩)
  rw [Fifo.env,none]

namespace Plain
variable (plain : Plain tla p)
include plain

theorem used_declared (used : msg ∈ usedMsgs p none) : msg ∈ p.msgTypes := by
  obtain ⟨t,own,use⟩ := mem_usedMsgs.mp used
  obtain ⟨a,actor,mem⟩ := (mem_transitions_flat plain.flat).mp own
  rcases use with receives | ⟨send,sends,rfl⟩
  · obtain ⟨kind,rfl⟩ := mem_received.mp receives
    exact (validate_flat plain.valid actor (plain.flat a actor) mem).1 kind
  · exact validate_sends plain.valid actor (plain.flat a actor) mem sends

theorem constant_of_mem (mem : ⟨name,.quoted text⟩ ∈ header p none) (s : Name → V) :
    constant tla p none s name = tla.str text := by
  have once : (exportModule p none asciiFold).defined.Nodup := defined_eq ▸ plain.regular.operators
  exact TlaExport.constant_of_mem once mem

theorem used_message (used : msg ∈ usedMsgs p none) : ∃ m ∈ usedMessages p none, m.type = msg := by
  obtain ⟨m,declared,rfl⟩ := mem_map.mp (plain.used_declared used)
  exact ⟨m,mem_filter.mpr ⟨declared,by simp [used]⟩,rfl⟩

theorem constant_message (used : msg ∈ usedMsgs p none) (s : Name → V) :
    constant tla p none s (msgConst msg) = tla.str msg := by
  obtain ⟨m,kept,rfl⟩ := plain.used_message used
  refine plain.constant_of_mem ?_ s
  have message : ⟨msgConst m.type,.quoted m.type⟩ ∈ messageConstants p none := mem_map.mpr ⟨m,kept,rfl⟩
  simp [header,message]

theorem constant_state {a state} (actor : a ∈ p.actors)
    (known : state ∈ collectStates a.initial a.flattenedTransitions) (s : Name → V) :
    constant tla p none s (stateConst (actorBase a.name) state) = tla.str (joined a.name state) := by
  refine plain.constant_of_mem ?_ s
  have constants : ⟨stateConst (actorBase a.name) state,.quoted (joined a.name state)⟩ ∈ stateConstants none a := by
    rw [stateConstants,if_neg (by simp [plain.flat a actor])]
    exact mem_map.mpr ⟨state,mem_filter.mpr ⟨known,rfl⟩,rfl⟩
  have listed := mem_flatMap.mpr ⟨a,actor,constants⟩
  simp [header,listed]

theorem recvVar_injective {msg'} (used : msg ∈ usedMsgs p none) (used' : msg' ∈ usedMsgs p none)
    (same : recvVar msg = recvVar msg') : msg = msg' := by
  obtain ⟨m,kept,rfl⟩ := plain.used_message used
  obtain ⟨m',kept',rfl⟩ := plain.used_message used'
  have once : ((usedMessages p none).map fun m => msgConst m.type).Nodup := by
    have all := plain.regular.operators
    simp only [operatorNames,namesBefore,append_assoc] at all
    exact (nodup_append.mp (nodup_append.mp all).2.1).1
  have names : sanitiseTLA m.type = sanitiseTLA m'.type := by simpa [recvVar,joined] using same
  rw [inj_on_of_nodup_map once kept kept' (by rw [msgConst,msgConst,names])]

theorem slot_of_declared (used : msg ∈ usedMsgs p none) (declared : Declared p none (recvVar msg)) :
    recvVar msg ∈ recvVars p none := by
  have other := plain.apart.slots msg used
  rw [mem_append,not_or] at other
  generalize slot : recvVar msg = name at declared other ⊢
  cases declared with
  | actor own moves =>
    obtain ⟨actor,_⟩ := mem_phaseTransitions.mp own
    exact absurd (mem_map.mpr ⟨_,actor,rfl⟩) other.1
  | machine actor composed mem => exact absurd composed (by simp [plain.flat _ actor])
  | var known varies => exact absurd (mem_map.mpr ⟨_,known,rfl⟩) other.2
  | message own receives => exact mem_recvVars.mpr ⟨_,own,receives,rfl⟩

theorem not_slot (own : name ∈ stateNamesOf p ++ varNamesOf p) : name ∉ recvVars p none := by
  intro slot
  obtain ⟨t,mem,receives,rfl⟩ := mem_recvVars.mp slot
  exact plain.apart.slots t.trigger.msg (mem_usedMsgs.mpr ⟨t,mem,.inl (mem_received.mpr ⟨receives,rfl⟩)⟩) own

theorem env_state {a} (actor : a ∈ p.actors) (f : Fifo V) :
    f.env tla p (stateVar (actorBase a.name)) = tla.str (joined a.name (f.states a.name)) := by
  have apart := (nodup_append.mp plain.apart.names).1
  rw [Fifo.env,Sequence.find?_of_unique actor (decide_eq_true rfl)
    fun b other same => inj_on_of_nodup_map apart other actor (of_decide_eq_true same)]

end Plain

def waiting (tla : Tla Name V) (f : Fifo V) (slot : Name) : V :=
  match f.pending.find? fun e => recvVar e.2.msg = slot with
  | some e => e.2.content
  | none => noMessage tla

def view (tla : Tla Name V) (p : Model) (f : Fifo V) (name : Name) : V :=
  if name ∈ recvVars p none then waiting tla f name else f.env tla p name

structure Carried (tla : Tla Name V) (p : Model) (f : Fifo V) : Prop where
  used : ∀ e ∈ f.pending, e.2.msg ∈ usedMsgs p none
  typed : ∀ e ∈ f.pending, tla.field e.2.content typeKey = tla.str e.2.msg
  single : OnePending f

theorem waiting_eq_none {f slot} (gone : ∀ e ∈ f.pending, recvVar e.2.msg ≠ slot) :
    waiting tla f slot = noMessage tla := by
  have none : (f.pending.find? fun e => recvVar e.2.msg = slot) = none :=
    find?_eq_none.mpr fun e mem same => gone e mem (of_decide_eq_true same)
  rw [waiting,none]

theorem waiting_congr {f f' slot}
    (same : (f'.pending.filter fun e => recvVar e.2.msg = slot) = f.pending.filter fun e => recvVar e.2.msg = slot) :
    waiting tla f' slot = waiting tla f slot := by
  rw [waiting,waiting,← head?_filter,← head?_filter,same]

namespace Plain
variable (plain : Plain tla p)
include plain

theorem waiting_of_mem {f} (used : ∀ e ∈ f.pending, e.2.msg ∈ usedMsgs p none) (single : OnePending f)
    {e} (mem : e ∈ f.pending) : waiting tla f (recvVar e.2.msg) = e.2.content := by
  rw [waiting,Sequence.find?_of_unique mem (decide_eq_true rfl) fun e' other same =>
    inj_on_of_nodup_map single other mem
      (plain.recvVar_injective (used e' other) (used e mem) (of_decide_eq_true same))]

theorem view_state {a} (actor : a ∈ p.actors) (f : Fifo V) :
    view tla p f (stateVar (actorBase a.name)) = tla.str (joined a.name (f.states a.name)) := by
  have own : stateVar (actorBase a.name) ∈ stateNamesOf p := mem_map.mpr ⟨a,actor,rfl⟩
  rw [view,if_neg (plain.not_slot (mem_append_left _ own)),plain.env_state actor]

theorem view_var (own : name ∈ varNamesOf p) (f : Fifo V) : view tla p f name = f.vars name := by
  have other : name ∉ stateNamesOf p := by
    intro state
    exact (nodup_append.mp plain.apart.names).2.2 name state name own rfl
  rw [view,if_neg (plain.not_slot (mem_append_right _ own)),env_other other]

theorem view_blind (known : text ∈ allTexts p) (f : Fifo V) :
    tla.eval (view tla p f) text = tla.eval (f.env tla p) text :=
  plain.readable.blind text known _ _ fun _ other => if_neg other

theorem combines (f : Fifo V) : Combines tla p f (view tla p f) := by
  refine ⟨fun a actor => plain.view_state actor f,?_⟩
  intro v declared other
  refine plain.view_var ?_ f
  exact mem_map.mpr ⟨v,mem_filter.mpr ⟨declared,by simp [other]⟩,rfl⟩

theorem view_init {f} (init : f.Init tla p) (sameFold : Char → Char → Bool) :
    (exportModule p none sameFold).Init tla (view tla p f) := by
  intro conjunct listed
  rw [mem_initConjuncts] at listed
  simp only [initConjuncts,mem_append] at listed
  rcases listed with ((state | machine) | plainVar) | slot
  · obtain ⟨a,first,rfl⟩ := mem_map.mp state
    obtain ⟨⟨b,t⟩,own,rfl⟩ := mem_map.mp (mem_firstOfEach first)
    obtain ⟨actor,_⟩ := mem_phaseTransitions.mp own
    have known : b.initial ∈ collectStates b.initial b.flattenedTransitions := mem_collectStates.mpr (.inl rfl)
    rw [plain.view_state actor,init.states b actor,value_named,value_eq]
    exact (plain.constant_state actor known _).symm
  · obtain ⟨a,composed,_⟩ := mem_flatMap.mp machine
    obtain ⟨actor,composed⟩ := mem_filter.mp composed
    exact absurd composed (by simp [plain.flat a actor])
  · obtain ⟨v,kept,rfl⟩ := mem_map.mp plainVar
    have known := (mem_filter.mp kept).1
    obtain ⟨declared,other⟩ := mem_filter.mp known
    have text : v.initial ∈ allTexts p := mem_append_right _ (mem_map_of_mem declared)
    rw [plain.view_var (mem_map.mpr ⟨v,known,rfl⟩),init.vars v declared (by simpa using other),value_expr,
      plain.view_blind text]
  · obtain ⟨name,mem,rfl⟩ := mem_map.mp slot
    have gone : ∀ e ∈ f.pending, recvVar e.2.msg ≠ name := by simp [init.pending]
    rw [view,if_pos mem,waiting_eq_none gone]
    rfl

end Plain

section
variable {actor : Name} {t : Transition} {pending left : List ((Name × Name) × Packet V)} {content : Option V}
  (takes : Takes actor t pending content left)
include takes

theorem Takes.cases : (t.trigger.kind = .internal ∧ content = none ∧ left = pending) ∨
      ∃ before after sender v, t.trigger.kind = .recv ∧
        pending = before ++ ((sender,actor),⟨t.trigger.msg,v⟩) :: after ∧ content = some v ∧ left = before ++ after := by
  cases takes with
  | nothing internal => exact .inl ⟨internal,rfl,rfl⟩
  | oldest receives first => exact .inr ⟨_,_,_,_,receives,rfl,rfl,rfl⟩

theorem Takes.subset : left ⊆ pending := by
  rcases takes.cases with ⟨_,_,rfl⟩ | ⟨before,after,_,_,_,rfl,_,rfl⟩
  · exact Subset.refl _
  · exact (Sublist.append_left (sublist_cons_self _ after) before).subset

end

structure Exchange (tla : Tla Name V) (p : Model) (a : Actor) (t : Transition) (f : Fifo V) (content : Option V)
    (left : List ((Name × Name) × Packet V)) (f' : Fifo V) : Prop where
  actor : a ∈ p.actors
  mem : t ∈ a.flattenedTransitions
  carried : Carried tla p f
  fires : Fifo.Fires tla p a t f content left f'
  single : OnePending f'

namespace Exchange
variable {a : Actor} {t : Transition} {f f' : Fifo V} {content : Option V} {left : List ((Name × Name) × Packet V)}
variable (plain : Plain tla p) (x : Exchange tla p a t f content left f')
include plain x

theorem own : t ∈ transitions p none := (mem_transitions_flat plain.flat).mpr ⟨a,x.actor,x.mem⟩

theorem phased : (a,t) ∈ phaseTransitions p none := mem_phaseTransitions.mpr ⟨x.actor,plain.flat a x.actor,x.mem,rfl⟩

theorem step : .transition (.actor a.name) t ∈ steps p none :=
  mem_append_left _ (mem_map.mpr ⟨(a,t),x.phased plain,rfl⟩)

theorem used_send {send} (sends : send ∈ t.sends) : send.msg ∈ usedMsgs p none :=
  mem_usedMsgs.mpr ⟨t,x.own plain,.inr ⟨send,sends,rfl⟩⟩

theorem used_received (receives : msg ∈ received t) : msg ∈ usedMsgs p none :=
  mem_usedMsgs.mpr ⟨t,x.own plain,.inl receives⟩

theorem used : ∀ e ∈ f'.pending, e.2.msg ∈ usedMsgs p none := by
  intro e mem
  rw [x.fires.pending] at mem
  rcases mem_append.mp mem with old | new
  · exact x.carried.used e (x.fires.takes.subset old)
  · obtain ⟨send,sends,rfl⟩ := mem_map.mp new
    exact x.used_send plain sends

theorem carries : Carried tla p f' := by
  refine ⟨x.used plain,?_,x.single⟩
  intro e mem
  rw [x.fires.pending] at mem
  rcases mem_append.mp mem with old | new
  · exact x.carried.typed e (x.fires.takes.subset old)
  · obtain ⟨send,_,rfl⟩ := mem_map.mp new
    exact tla.field_record _ _ _

theorem slot_received (receives : msg ∈ received t) : recvVar msg ∈ recvVars p none := by
  obtain ⟨kind,rfl⟩ := mem_received.mp receives
  exact mem_recvVars.mpr ⟨t,x.own plain,kind,rfl⟩

theorem view_received {before after sender v}
    (receives : t.trigger.kind = .recv) (queued : f.pending = before ++ ((sender,a.name),⟨t.trigger.msg,v⟩) :: after) :
    view tla p f (recvVar t.trigger.msg) = v := by
  rw [view,if_pos (x.slot_received plain (mem_received.mpr ⟨receives,rfl⟩))]
  have mem : ((sender,a.name),⟨t.trigger.msg,v⟩) ∈ f.pending := by simp [queued]
  exact plain.waiting_of_mem x.carried.used x.carried.single mem

theorem view_text (listed : text ∈ ownTexts p t) :
    tla.eval (view tla p f) (inlined t text) = tla.eval (f.scope tla p content) text := by
  have known : text ∈ allTexts p := mem_append_left _ (mem_flatMap.mpr ⟨t,x.own plain,mem_append_left _ listed⟩)
  rcases x.fires.takes.cases with ⟨internal,rfl,_⟩ | ⟨_,_,_,_,receives,queued,rfl,_⟩
  · have same : inlined t text = text := if_neg (by simp [internal])
    rw [same]
    exact plain.view_blind known f
  · rw [plain.readable.inlined t (x.own plain) receives text listed,x.view_received plain receives queued]
    refine plain.readable.blind text known _ _ ?_
    intro name other
    by_cases this : name = recvMsg
    · rw [this,Fifo.scope,update_self,update_self]
    · rw [Fifo.scope,update_of_ne this,update_of_ne this,view,if_neg other]

theorem view_field (listed : text ∈ fieldTexts t) :
    tla.eval (view tla p f) text = tla.eval (f.scope tla p content) text := by
  have known : text ∈ allTexts p := mem_append_left _ (mem_flatMap.mpr ⟨t,x.own plain,mem_append_right _ listed⟩)
  rcases x.fires.takes.cases with ⟨_,rfl,_⟩ | ⟨_,_,_,_,receives,_,rfl,_⟩
  · exact plain.view_blind known f
  · rw [Fifo.scope,plain.readable.fields t (x.own plain) receives text listed]
    exact plain.view_blind known f

theorem view_guard (guarded : t.guard ≠ []) :
    tla.Holds (tla.eval (view tla p f) (inlined t (guardExpr p t.guard))) := by
  have listed : guardExpr p t.guard ∈ ownTexts p t := by simp [ownTexts,guarded]
  rw [x.view_text plain listed]
  exact x.fires.guard guarded

theorem view_arrived (receives : msg ∈ received t) :
    tla.field (view tla p f (recvVar msg)) typeKey = constant tla p none (view tla p f) (msgConst msg) := by
  rw [plain.constant_message (x.used_received plain receives)]
  obtain ⟨kind,rfl⟩ := mem_received.mp receives
  rcases x.fires.takes.cases with ⟨internal,_⟩ | ⟨_,_,sender,v,_,queued,_⟩
  · exact absurd kind (by simp [internal])
  · rw [x.view_received plain kind queued]
    exact x.carried.typed ((sender,a.name),⟨t.trigger.msg,v⟩) (by simp [queued])

theorem view_taken (receives : msg ∈ received t) : view tla p f' (recvVar msg) = noMessage tla := by
  rw [view,if_pos (x.slot_received plain receives)]
  refine waiting_eq_none ?_
  intro e mem
  rw [x.fires.pending] at mem
  rcases mem_append.mp mem with old | new
  · intro same
    have equal := plain.recvVar_injective (x.carried.used e (x.fires.takes.subset old))
      (x.used_received plain receives) same
    obtain ⟨kind,rfl⟩ := mem_received.mp receives
    rcases x.fires.takes.cases with ⟨internal,_⟩ | ⟨_,_,_,_,_,queued,_,rfl⟩
    · exact absurd kind (by simp [internal])
    · have once := x.carried.single
      rw [OnePending,queued,map_append,map_cons,nodup_middle,← map_append,nodup_cons] at once
      exact once.1 (mem_map.mpr ⟨e,old,equal⟩)
  · obtain ⟨send,sends,rfl⟩ := mem_map.mp new
    have apart := plain.regular.apart _ (x.step plain)
    rw [Step.assigned,assignedBy,append_assoc] at apart
    have cleared : recvVar msg ∈ (received t).map recvVar := mem_map_of_mem receives
    have written : recvVar send.msg ∈ t.sends.map fun s => recvVar s.msg := mem_map.mpr ⟨send,sends,rfl⟩
    exact fun same => (nodup_append.mp apart).2.2 _ cleared _ (mem_append_left _ written) same.symm

theorem view_sent {send} (sends : send ∈ t.sends) :
    view tla p f' (recvVar send.msg) = message tla p none (view tla p f) send := by
  have assigned : recvVar send.msg ∈ assignedBy (actorBase a.name) t :=
    mem_append_left _ (mem_append_right _ (mem_map.mpr ⟨send,sends,rfl⟩))
  have slot := plain.slot_of_declared (x.used_send plain sends) (plain.regular.declared _ (x.step plain) _ assigned)
  have mem : packet tla (f.scope tla p content) a.name send ∈ f'.pending := by
    rw [x.fires.pending]
    exact mem_append_right _ (mem_map_of_mem sends)
  have fields : (send.fields.map fun g => (g.1,tla.eval (f.scope tla p content) g.2)) =
      send.fields.map fun g => (g.1,tla.eval (view tla p f) g.2) := by
    refine map_congr_left ?_
    intro g listed
    rw [x.view_field plain (mem_flatMap.mpr ⟨send,sends,mem_map_of_mem listed⟩)]
  rw [view,if_pos slot,message,plain.constant_message (x.used_send plain sends),← fields]
  exact plain.waiting_of_mem (x.used plain) x.single mem

omit plain in
theorem view_kept_slot {v} (other : v ∉ assignedBy (actorBase a.name) t) : waiting tla f' v = waiting tla f v := by
  refine waiting_congr ?_
  rw [assignedBy] at other
  have sent : ((t.sends.map (packet tla (f.scope tla p content) a.name)).filter fun e => recvVar e.2.msg = v) = [] := by
    refine filter_eq_nil_iff.mpr ?_
    intro e new same
    obtain ⟨send,sends,rfl⟩ := mem_map.mp new
    refine other (mem_append_left _ (mem_append_right _ (mem_map.mpr ⟨send,sends,?_⟩)))
    exact of_decide_eq_true same
  rw [x.fires.pending,filter_append,sent,append_nil]
  rcases x.fires.takes.cases with ⟨_,_,same⟩ | ⟨_,_,_,_,receives,queued,_,rest⟩
  · rw [same]
  · have apart : recvVar t.trigger.msg ≠ v := by
      intro same
      refine other (mem_append_left _ (mem_append_left _ (mem_map.mpr ⟨t.trigger.msg,?_,same⟩)))
      exact mem_received.mpr ⟨receives,rfl⟩
    rw [queued,rest,filter_append,filter_append,filter_cons_of_neg (by simpa using apart)]

theorem view_kept {v} (other : v ∉ assignedBy (actorBase a.name) t) : view tla p f' v = view tla p f v := by
  by_cases slot : v ∈ recvVars p none
  · rw [view,view,if_pos slot,if_pos slot,x.view_kept_slot other]
  · rw [view,view,if_neg slot,if_neg slot]
    rw [assignedBy,mem_append,mem_cons,not_or,not_or] at other
    by_cases state : v ∈ stateNamesOf p
    · obtain ⟨b,actor,rfl⟩ := mem_map.mp state
      have differs : b.name ≠ a.name := fun same => other.2.1 (by rw [same])
      rw [plain.env_state actor,plain.env_state actor,x.fires.target,update_of_ne differs]
    · rw [env_other state,env_other state,x.fires.kept v other.2.2]

theorem view_updated {u} (listed : u ∈ t.updates) :
    view tla p f' (sanitiseTLA u.var) = tla.eval (view tla p f) (inlined t u.expr) := by
  have text : u.expr ∈ ownTexts p t := mem_append_right _ (mem_map_of_mem listed)
  rw [plain.view_var (plain.apart.updates t (x.own plain) u listed),x.view_text plain text]
  exact x.fires.updated u listed

theorem view_rigid {c} (constant : c ∈ constVars p none) : view tla p f' c = view tla p f c := by
  rcases mem_append.mp constant with var | state
  · obtain ⟨v,kept,rfl⟩ := mem_map.mp var
    have named : sanitiseTLA v.name ∈ varNamesOf p := mem_map.mpr ⟨v,(mem_filter.mp kept).1,rfl⟩
    rw [plain.view_var named,plain.view_var named]
    refine x.fires.kept _ ?_
    intro updated
    have assigned : sanitiseTLA v.name ∈ assignedBy (actorBase a.name) t :=
      mem_append_right _ (mem_cons_of_mem _ updated)
    have declared := plain.regular.declared _ (x.step plain) _ assigned
    have disjoint := (nodup_append.mp plain.apart.names).2.2
    have unslotted := plain.not_slot (mem_append_right _ named)
    generalize sanitiseTLA v.name = name at declared constant named unslotted
    cases declared with
    | actor own moves =>
      obtain ⟨actor,_⟩ := mem_phaseTransitions.mp own
      exact disjoint _ (mem_map.mpr ⟨_,actor,rfl⟩) _ named rfl
    | machine actor composed mem => exact absurd composed (by simp [plain.flat _ actor])
    | var known varies => exact varies constant
    | message own receives => exact unslotted (mem_recvVars.mpr ⟨_,own,receives,rfl⟩)
  · obtain ⟨b,kept,rfl⟩ := mem_map.mp state
    obtain ⟨actor,still⟩ := mem_filter.mp kept
    rw [plain.view_state actor,plain.view_state actor,x.fires.target]
    by_cases same : b.name = a.name
    · have stays : t.origin = t.target := by
        by_contra moves
        have changes : actorChangesState p none b.name = true :=
          any_eq_true.mpr ⟨(a,t),x.phased plain,by simp [same,moves]⟩
        simp [changes] at still
      rw [same,update_self,x.fires.origin,stays]
    · rw [update_of_ne same]

theorem honest (sameFold : Char → Char → Bool) : Honest tla p none sameFold (view tla p f) (view tla p f') := by
  have origin : t.origin ∈ collectStates a.initial a.flattenedTransitions :=
    mem_collectStates.mpr (.inr ⟨t,x.mem,.inl rfl⟩)
  have target : t.target ∈ collectStates a.initial a.flattenedTransitions :=
    mem_collectStates.mpr (.inr ⟨t,x.mem,.inr rfl⟩)
  have fires : Fires tla p none (view tla p f) (view tla p f') (actorBase a.name) t := by
    refine ⟨?_,fun msg => x.view_arrived plain,x.view_guard plain,fun msg => x.view_taken plain,
      fun send => x.view_sent plain,?_,fun u => x.view_updated plain,fun v _ => x.view_kept plain⟩
    · rw [plain.view_state x.actor,x.fires.origin,plain.constant_state x.actor origin]
    · rw [plain.view_state x.actor,x.fires.target,update_self,plain.constant_state x.actor target]
  exact ⟨fun c => x.view_rigid plain,_,x.step plain,fires⟩

end Exchange

/-- With no two messages of a type on their way at once, the actors reach only what the module reaches. -/
theorem combination_reached (tla : Tla Name V) (p : Model) (sameFold : Char → Char → Bool) (valid : p.validate = none)
    (flat : ∀ a ∈ p.actors, a.isComposed = false) (formed : (exportModule p none sameFold).WellFormed)
    (apart : Apart p) (readable : Readable tla p) (f : Fifo V) (reached : (oneFifoSystem tla p).Reachable f) :
    ∃ s, ((exportModule p none sameFold).system tla).Reachable s ∧ Combines tla p f s := by
  have plain : Plain tla p := ⟨valid,flat,.of_wellFormed formed,apart,readable⟩
  have simulated : ∃ s, ((exportModule p none sameFold).system tla).Reachable s ∧
      s = view tla p f ∧ Carried tla p f := by
    refine reachable_simulated (R := fun f s => s = view tla p f ∧ Carried tla p f) ?_ ?_ reached
    · intro f init
      refine ⟨view tla p f,plain.view_init init sameFold,rfl,?_,?_,?_⟩
      · simp [init.pending]
      · simp [init.pending]
      · simp [OnePending,init.pending]
    · rintro f f' s ⟨rfl,carried⟩ ⟨⟨a,actor,t,mem,content,left,fires⟩,single⟩
      have x : Exchange tla p a t f content left f' := ⟨actor,mem,carried,fires,single⟩
      exact ⟨view tla p f',next_iff_honest.mpr (x.honest plain sameFold),rfl,x.carries plain⟩
  obtain ⟨s,reached,rfl,_⟩ := simulated
  exact ⟨_,reached,plain.combines f⟩

end

def firstSend : Send := ⟨"b","m",[("v","\"1\"")]⟩
def secondSend : Send := ⟨"b","m",[("v","\"2\"")]⟩

def sendFirst : Transition :=
  ⟨"A0","A1",⟨.internal,[],"go"⟩,[],[],[firstSend],[],[]⟩

def sendSecond : Transition :=
  ⟨"A1","A2",⟨.internal,[],"more"⟩,[],[],[secondSend],[⟨"ready","\"true\""⟩],[]⟩

def receiveIt (guard : Name) : Transition :=
  ⟨"B0","B1",⟨.recv,"m",[]⟩,guard,[],[],[⟨"x","recv_msg.v"⟩],[]⟩

def flatActor (name initial : Name) (transitions : List Transition) : Actor :=
  ⟨name,initial,transitions,[],[],[],[]⟩

def courier (sending : List Transition) (guard : Name) : Model where
  actors := [flatActor "a" "A0" sending,flatActor "b" "B0" [receiveIt guard]]
  messages := [⟨"m","a","b"⟩]
  events := []
  commands := []
  vars := [⟨"ready",.string,"\"false\"",[]⟩,⟨"x",.string,"\"none\"",[]⟩]
  guards := ["isReady"]
  name := "Courier"
  guardDefs := [⟨"isReady","ready"⟩]
  operators := []
  advActions := []
  advGuard := []
  phases := []
  properties := []
  channelBound := 3
  guards_eq := rfl

def courierStart : Fifo Value where
  states name := if name = "a" then "A0" else "B0"
  vars name := if name = "ready" then .text "\"false\"" else .text "\"none\""
  pending := []

theorem courierStart_init (sending : List Transition) (guard : Name) :
    courierStart.Init plainTla (courier sending guard) := by
  refine ⟨?_,?_,rfl⟩
  · intro a actor
    rcases mem_cons.mp actor with rfl | actor
    · rfl
    · rw [mem_singleton.mp actor]
      rfl
  · intro v declared _
    rcases mem_cons.mp declared with rfl | declared
    · rfl
    · rw [mem_singleton.mp declared]
      rfl

def content (value : Name) : Value := .record [(typeKey,.text "m"),("v",.text value)]

def onItsWay (value : Name) : (Name × Name) × Packet Value := (("a","b"),⟨"m",content value⟩)

def afterFirst : Fifo Value :=
  { courierStart with
    states := update courierStart.states "a" "A1"
    pending := [onItsWay "\"1\""] }

theorem fires_first (sending : List Transition) (guard : Name) :
    Fifo.Fires plainTla (courier sending guard) (flatActor "a" "A0" sending) sendFirst courierStart none []
      afterFirst := by
  refine ⟨rfl,.nothing rfl,fun guarded => absurd rfl guarded,rfl,nofun,fun _ _ => rfl,rfl,.inr ?_⟩
  intro send sends
  rw [mem_singleton.mp sends]
  exact (by decide : (1 : Int) ≤ 3)

def afterReceipt (f : Fifo Value) (left : List ((Name × Name) × Packet Value)) : Fifo Value where
  states := update f.states "b" "B1"
  vars := update f.vars "x" (.text "\"1\"")
  pending := left

theorem fires_receipt (sending : List Transition) (guard : Name) {f : Fifo Value}
    {left : List ((Name × Name) × Packet Value)} (waits : f.states "b" = "B0")
    (queued : f.pending = onItsWay "\"1\"" :: left)
    (guarded : guard ≠ [] → plainTla.Holds (plainTla.eval
      (f.scope plainTla (courier sending guard) (some (content "\"1\"")))
      (guardExpr (courier sending guard) guard))) :
    Fifo.Fires plainTla (courier sending guard) (flatActor "b" "B0" [receiveIt guard]) (receiveIt guard) f
      (some (content "\"1\"")) left (afterReceipt f left) := by
  refine ⟨waits,?_,guarded,rfl,?_,?_,?_,.inr nofun⟩
  · rw [queued]
    change Takes _ _ ([] ++ onItsWay "\"1\"" :: left) _ ([] ++ left)
    exact .oldest rfl rfl
  · intro u listed
    rw [mem_singleton.mp listed]
    rfl
  · intro name other
    exact update_of_ne (fun same => other (mem_singleton.mpr same)) _ _
  · exact (append_nil left).symm

theorem courier_formed : (exportModule (courier [sendFirst] []) none asciiFold).WellFormed := by
  refine ⟨?_,?_,?_⟩
  · decide
  · decide
  · decide

theorem courier_apart : Apart (courier [sendFirst] []) := by
  refine ⟨?_,?_,?_⟩
  · decide
  · decide
  · decide

theorem courier_readable : Readable plainTla (courier [sendFirst] []) := by
  have all : transitions (courier [sendFirst] []) none = [sendFirst,receiveIt []] := rfl
  have texts : allTexts (courier [sendFirst] []) =
      ["\"1\"".toList,"recv_msg.v".toList,"\"false\"".toList,"\"none\"".toList] := rfl
  have receiver : ∀ t ∈ transitions (courier [sendFirst] []) none, t.trigger.kind = .recv → t = receiveIt [] := by
    intro t own receives
    rw [all,mem_cons,mem_singleton] at own
    rcases own with rfl | rfl
    · cases receives
    · rfl
  refine ⟨?_,?_,?_⟩
  · intro t own receives text listed s
    obtain rfl := receiver t own receives
    rw [mem_singleton.mp listed]
    rfl
  · intro t own receives text listed
    obtain rfl := receiver t own receives
    cases listed
  · intro text listed s s' same
    rw [texts] at listed
    simp only [mem_cons,not_mem_nil,or_false] at listed
    rcases listed with rfl | rfl | rfl | rfl
    · rfl
    · exact congrArg (fun v => Value.field v "v".toList) (same recvMsg (by decide))
    · rfl
    · rfl

theorem courier_delivers : ∃ s, ((exportModule (courier [sendFirst] []) none asciiFold).system plainTla).Reachable s ∧
      s "b_state" = .text "b_B1" ∧ s "x" = .text "\"1\"" := by
  have reached : (oneFifoSystem plainTla (courier [sendFirst] [])).Reachable (afterReceipt afterFirst []) := by
    have sent : (oneFifoSystem plainTla (courier [sendFirst] [])).Reachable afterFirst :=
      .step (.init (courierStart_init _ _)) ⟨⟨_,mem_cons_self,_,mem_cons_self,_,_,fires_first _ _⟩,nodup_singleton _⟩
    refine .step sent ⟨⟨_,mem_cons_of_mem _ mem_cons_self,_,mem_cons_self,_,_,fires_receipt _ _ rfl rfl ?_⟩,nodup_nil⟩
    exact fun guarded => absurd rfl guarded
  obtain ⟨s,here,combines⟩ := combination_reached plainTla (courier [sendFirst] []) asciiFold (by rfl) (by decide)
    courier_formed courier_apart courier_readable _ reached
  refine ⟨s,here,?_,?_⟩
  · exact combines.states _ (mem_cons_of_mem _ mem_cons_self)
  · exact combines.vars _ (mem_cons_of_mem _ mem_cons_self) (by decide)

def late : Model := courier [sendFirst,sendSecond] "isReady"

def afterSecond : Fifo Value where
  states := update afterFirst.states "a" "A2"
  vars := update afterFirst.vars "ready" (.text "\"true\"")
  pending := [onItsWay "\"1\"",onItsWay "\"2\""]

theorem fires_second : Fifo.Fires plainTla late (flatActor "a" "A0" [sendFirst,sendSecond]) sendSecond afterFirst none
      [onItsWay "\"1\""] afterSecond := by
  refine ⟨rfl,.nothing rfl,fun guarded => absurd rfl guarded,rfl,?_,?_,rfl,.inr ?_⟩
  · intro u listed
    rw [mem_singleton.mp listed]
    rfl
  · intro name other
    exact update_of_ne (fun same => other (mem_singleton.mpr same)) _ _
  · intro send sends
    rw [mem_singleton.mp sends]
    exact (by decide : (2 : Int) ≤ 3)

def lateEnd : Fifo Value := afterReceipt afterSecond [onItsWay "\"2\""]

theorem lateEnd_reached : (fifoSystem plainTla late).Reachable lateEnd := by
  have first : (fifoSystem plainTla late).Reachable afterFirst :=
    .step (.init (courierStart_init _ _)) ⟨_,mem_cons_self,_,mem_cons_self,_,_,fires_first _ _⟩
  have second : (fifoSystem plainTla late).Reachable afterSecond :=
    first.step ⟨_,mem_cons_self,_,mem_cons_of_mem _ mem_cons_self,_,_,fires_second⟩
  refine second.step ⟨_,mem_cons_of_mem _ mem_cons_self,_,mem_cons_self,_,_,fires_receipt _ _ rfl rfl ?_⟩
  exact fun _ => rfl

/-- Once `b` may receive, the record has the second message. -/
structure SecondOnly (s : Name → Value) : Prop where
  fresh : s "x" ≠ .text "\"1\""
  last : s "ready" = .text "\"true\"" → s "a_state" = .text "a_A2"
  second : s "ready" = .text "\"true\"" → (s "received_m").field typeKey = .text "m" →
    (s "received_m").field "v" = .text "\"2\""

theorem secondOnly_init {s} (init : (exportModule late none asciiFold).Init plainTla s) : SecondOnly s := by
  have unready : s "ready" = .text "\"false\"" :=
    init ("ready",.atom (.expr "\"false\"")) (mem_initConjuncts.mpr (by decide))
  have empty : s "x" = .text "\"none\"" := init ("x",.atom (.expr "\"none\"")) (mem_initConjuncts.mpr (by decide))
  have never : s "ready" ≠ .text "\"true\"" := by
    rw [unready,ne_eq,Value.text.injEq]
    decide
  refine ⟨?_,fun ready => absurd ready never,fun ready => absurd ready never⟩
  rw [empty,ne_eq,Value.text.injEq]
  decide

theorem secondOnly_next {s s'} (before : SecondOnly s)
    (next : (exportModule late none asciiFold).Next plainTla s s') : SecondOnly s' := by
  obtain ⟨_,step,mem,taken⟩ := next_iff_honest.mp next
  have all : steps late none = [.transition (.actor "a") sendFirst,.transition (.actor "a") sendSecond,
    .transition (.actor "b") (receiveIt "isReady")] := rfl
  rw [all] at mem
  simp only [mem_cons,not_mem_nil,or_false] at mem
  rcases mem with rfl | rfl | rfl
  · have fires : Fires plainTla late none s s' "a" sendFirst := taken
    have origin : s "a_state" = .text "a_A0" := fires.origin
    have same : s' "ready" = s "ready" := fires.kept _ (by decide) (by decide)
    have never : s' "ready" ≠ .text "\"true\"" := by
      intro ready
      have last := before.last (same ▸ ready)
      rw [origin,Value.text.injEq] at last
      exact absurd last (by decide)
    refine ⟨?_,fun ready => absurd ready never,fun ready => absurd ready never⟩
    rw [fires.kept "x" (by decide) (by decide)]
    exact before.fresh
  · have fires : Fires plainTla late none s s' "a" sendSecond := taken
    have target : s' "a_state" = .text "a_A2" := fires.target
    have sent : s' "received_m" = content "\"2\"" := fires.sent secondSend mem_cons_self
    refine ⟨?_,fun _ => target,?_⟩
    · rw [fires.kept "x" (by decide) (by decide)]
      exact before.fresh
    · intro _ _
      rw [sent]
      rfl
  · have fires : Fires plainTla late none s s' "b" (receiveIt "isReady") := taken
    have ready : s "ready" = .text "\"true\"" := fires.guard (by decide)
    have arrived : (s "received_m").field typeKey = .text "m" := fires.arrived "m" mem_cons_self
    have updated : s' "x" = (s "received_m").field "v" := fires.updated _ mem_cons_self
    have cleared : s' "received_m" = noMessage plainTla := fires.taken "m" mem_cons_self
    refine ⟨?_,?_,?_⟩
    · rw [updated,before.second ready arrived,ne_eq,Value.text.injEq]
      decide
    · intro _
      rw [fires.kept "a_state" (by decide) (by decide)]
      exact before.last ready
    · intro _ arrives
      rw [cleared] at arrives
      exact absurd (Value.text.injEq _ _ ▸ arrives) (by decide)

/-- `a` sends two messages before `b` may receive one. Over the channels `b` receives the first; in the module the
    second has taken its place. -/
theorem overwritten_message_lost :
    late.validate = none ∧ (∀ a ∈ late.actors, a.isComposed = false) ∧ late.advActions = [] ∧
      exportTLA late asciiFold = .ok (exportModule late none asciiFold) ∧
      (exportModule late none asciiFold).WellFormed ∧ (fifoSystem plainTla late).Reachable lateEnd ∧
      ¬ ∃ s, ((exportModule late none asciiFold).system plainTla).Reachable s ∧ Combines plainTla late lateEnd s := by
  refine ⟨by rfl,by decide,rfl,rfl,⟨by decide,by decide,by decide⟩,lateEnd_reached,?_⟩
  rintro ⟨s,reached,combines⟩
  have only : SecondOnly s := reached.invariant (I := SecondOnly) (fun _ init => secondOnly_init init)
    fun _ _ before next => secondOnly_next before next
  exact only.fresh (combines.vars _ (mem_cons_of_mem _ mem_cons_self) (by decide))

end Pigeon.TlaExport
