import Pigeon.Protocols

/-!
What `Validate` (`protocol/protocol.go`) has made sure of when it returns no error: received
messages and guards of every transition (`validate_trigger`), senders in flat actors only
(`validate_sender`), never receivers or updated variables. So the transitions keep to the
declarations just when they do in these places (`keeps_declarations_iff`).
-/
namespace Pigeon.Protocols
open List Option

def Protocol.declaration (p : Protocol) (msg : Name) : Option Message := p.messages.reverse.find? fun m => m.type = msg

/-- The message received is declared, those sent are with their sender and receiver, and so are the updated
    variables. -/
structure Keeps (p : Protocol) (a : Actor) (t : Transition) : Prop where
  receives : t.trigger.kind = .recv → t.trigger.msg ∈ p.msgTypes
  sends : ∀ s ∈ t.sends, ∃ m, p.declaration s.msg = some m ∧ m.sender = a.name ∧ m.receiver = s.receiver
  updates : ∀ u ∈ t.updates, u.var ∈ p.vars.map VarDef.name

/-- What `Validate` does not look at. -/
structure KeepsUnchecked (p : Protocol) (a : Actor) (t : Transition) : Prop where
  sender : a.isComposed = true → ∀ s ∈ t.sends, ∃ m, p.declaration s.msg = some m ∧ m.sender = a.name
  receiver : ∀ s ∈ t.sends, ∀ m, p.declaration s.msg = some m → m.receiver = s.receiver
  updates : ∀ u ∈ t.updates, u.var ∈ p.vars.map VarDef.name

section
variable {p : Protocol} {a : Actor} {t : Transition}

theorem declaration_of_mem {msg} (declared : msg ∈ p.msgTypes) : ∃ m, p.declaration msg = some m := by
  obtain ⟨m,mem,rfl⟩ := mem_map.mp declared
  rw [← isSome_iff_exists,Protocol.declaration,find?_isSome]
  exact ⟨m,mem_reverse.mpr mem,by simp⟩

theorem msgSender_of_declaration {msg m} (found : p.declaration msg = some m) : p.msgSender msg = m.sender := by
  rw [Protocol.declaration] at found
  rw [Protocol.msgSender,found]

theorem validateMachines_each {actor seen machines}
    (checked : validateMachines p actor seen machines = none) : ∀ m ∈ machines, validateMachine p actor m = none := by
  induction machines generalizing seen with
  | nil => simp
  | cons m rest ih =>
    simp only [validateMachines,or_eq_none_iff] at checked
    exact forall_mem_cons.mpr ⟨checked.2.1,ih checked.2.2⟩

section
variable (valid : p.validate = none) (actor : a ∈ p.actors)
include valid actor

theorem validate_composed (composed : a.isComposed) (transition : t ∈ a.flattenedTransitions) :
    ∃ machine, validateTrigger p a.name machine t = none := by
  rw [Actor.flattenedTransitions,if_pos composed,mem_flatMap] at transition
  obtain ⟨m,mem,own⟩ := transition
  simp only [Protocol.validate,or_eq_none_iff,eachOk_eq_none] at valid
  have checked := valid.2.2 a actor
  simp only [validateActor,composed,↓reduceIte,or_eq_none_iff] at checked
  have machine := validateMachines_each checked.1 m mem
  simp only [validateMachine,or_eq_none_iff,eachOk_eq_none] at machine
  exact ⟨some m.name,(machine.2 t own).1⟩

theorem validate_trigger (transition : t ∈ a.flattenedTransitions) (receives : t.trigger.kind = .recv) :
    t.trigger.msg ∈ p.msgTypes := by
  cases composed : a.isComposed with
  | false => exact (validate_flat valid actor composed transition).1 receives
  | true =>
    obtain ⟨machine,own⟩ := validate_composed valid actor composed transition
    simp only [validateTrigger,or_eq_none_iff,fails_eq_none,decide_eq_false_iff_not,not_and,not_not] at own
    exact own.1 receives

theorem validate_sender (flat : a.isComposed = false) (transition : t ∈ a.flattenedTransitions) {s}
    (sends : s ∈ t.sends) : ∃ m, p.declaration s.msg = some m ∧ m.sender = a.name := by
  have own := (validate_transition valid actor flat transition).2 s sends
  simp only [validateSend,or_eq_none_iff,fails_eq_none,decide_eq_false_iff_not,not_not] at own
  obtain ⟨m,found⟩ := declaration_of_mem own.2.1
  exact ⟨m,found,(msgSender_of_declaration found).symm.trans own.2.2⟩

theorem keeps_iff (transition : t ∈ a.flattenedTransitions) : Keeps p a t ↔ KeepsUnchecked p a t := by
  constructor
  · intro keeps
    refine ⟨?_,?_,keeps.updates⟩
    · intro _ s sends
      obtain ⟨m,found,sender,_⟩ := keeps.sends s sends
      exact ⟨m,found,sender⟩
    · intro s sends m found
      obtain ⟨m',found',_,receiver⟩ := keeps.sends s sends
      cases found.symm.trans found'
      exact receiver
  · intro rest
    refine ⟨validate_trigger valid actor transition,?_,rest.updates⟩
    intro s sends
    have known : ∃ m, p.declaration s.msg = some m ∧ m.sender = a.name := by
      cases composed : a.isComposed with
      | false => exact validate_sender valid actor composed transition sends
      | true => exact rest.sender composed s sends
    obtain ⟨m,found,sender⟩ := known
    exact ⟨m,found,sender,rest.receiver s sends m found⟩

end

end

/-- In a protocol that passes `Validate` every transition keeps to the declarations just when every one does in what
    is not checked. -/
theorem keeps_declarations_iff (p : Protocol) (valid : p.validate = none) :
    (∀ a ∈ p.actors, ∀ t ∈ a.flattenedTransitions, Keeps p a t) ↔
      ∀ a ∈ p.actors, ∀ t ∈ a.flattenedTransitions, KeepsUnchecked p a t :=
  forall₄_congr fun _ actor _ transition => keeps_iff valid actor transition

def pinger (msg receiver var : Name) : Actor where
  name := "client"
  initial := "Idle"
  transitions := [⟨"Idle","Idle",⟨.internal,[],"tick"⟩,[],[],[⟨receiver,msg,[]⟩],
    [⟨var,"1"⟩],[]⟩]
  stateIndex := []
  roots := []
  machines := []
  routes := []

def answerer (msg : Name) : Actor where
  name := "backend"
  initial := []
  transitions := []
  stateIndex := []
  roots := []
  machines := [⟨"relay","Idle",
    [⟨"Idle","Idle",⟨.recv,"ping",[]⟩,[],[],[⟨"client",msg,[]⟩],[],[]⟩],[],[],[],[]⟩]
  routes := []

def pinging (receiver var answer : Name) : Protocol where
  actors := [pinger "ping" receiver var,answerer answer]
  messages := [⟨"ping","client","backend"⟩,⟨"pong","backend","client"⟩]
  events := []
  commands := []
  vars := [⟨"pings",.int,"0",[]⟩]
  guards := []

theorem pinging_keeps : (pinging "backend" "pings" "pong").validate = none ∧
      ∀ a ∈ (pinging "backend" "pings" "pong").actors, ∀ t ∈ a.flattenedTransitions,
        Keeps (pinging "backend" "pings" "pong") a t := by
  refine ⟨by decide,(keeps_declarations_iff _ (by decide)).mpr ?_⟩
  intro a actor t transition
  rcases mem_cons.mp actor with rfl | other
  · obtain rfl := mem_singleton.mp transition
    refine ⟨by decide,?_,by decide⟩
    intro s sends m found
    obtain rfl := mem_singleton.mp sends
    cases found.symm.trans rfl
    rfl
  · obtain rfl := mem_singleton.mp other
    obtain rfl := mem_singleton.mp transition
    refine ⟨fun _ s sends => ?_,?_,by decide⟩
    · obtain rfl := mem_singleton.mp sends
      exact ⟨_,rfl,rfl⟩
    · intro s sends m found
      obtain rfl := mem_singleton.mp sends
      cases found.symm.trans rfl
      rfl

/-- A message sent to its sender, an update of an undeclared variable, an undeclared message of a sub-machine. -/
theorem undeclared_accepted : (pinging "client" "misses" "farewell").validate = none ∧
      (∃ a ∈ (pinging "client" "misses" "farewell").actors, ∃ t ∈ a.flattenedTransitions,
        ∃ s ∈ t.sends, ∃ m, (pinging "client" "misses" "farewell").declaration s.msg = some m ∧
          m.receiver ≠ s.receiver) ∧
      (∃ a ∈ (pinging "client" "misses" "farewell").actors, ∃ t ∈ a.flattenedTransitions,
        ∃ u ∈ t.updates, u.var ∉ (pinging "client" "misses" "farewell").vars.map VarDef.name) ∧
      ∃ a ∈ (pinging "client" "misses" "farewell").actors, ∃ t ∈ a.flattenedTransitions,
        ∃ s ∈ t.sends, s.msg ∉ (pinging "client" "misses" "farewell").msgTypes := by
  refine ⟨by decide,?_,?_,?_⟩
  · exact ⟨_,mem_cons_self,_,mem_cons_self,_,mem_cons_self,_,rfl,by decide⟩
  · exact ⟨_,mem_cons_self,_,mem_cons_self,_,mem_cons_self,by decide⟩
  · exact ⟨_,mem_cons_of_mem _ mem_cons_self,_,mem_cons_self,_,mem_cons_self,by decide⟩

end Pigeon.Protocols
