import Pigeon.PointerForests
import Pigeon.Protocols

/-!
`ParseYAML` (`protocol/yaml.go`), over what `yaml.Unmarshal` leaves of a document: mappings
that keep their order and duplicate keys. In every accepted hierarchy parents and children
agree and no state is listed twice (`Hierarchy.Linked`, `parseYaml_ok`), but a state may be its
own ancestor.
-/
namespace Pigeon.YamlProtocols
open Protocols List

scoped instance lawful_name : LawfulBEq Name := inferInstance

inductive Section (α : Type)
  | absent
  | mapping (entries : List (Name × α))
  | other (kind : Nat)

structure YamlTransition where
  (origin target on guard action : Name)
  sends : List Send
  updates : Section Name
  emits : List Name

structure YamlStateNode where
  children : List Name
  transitions : List YamlTransition

/-- Values that have to be decoded are `none` where they cannot be. -/
structure YamlSubMachine where
  initial : Name
  states : Section (Option YamlStateNode)
  transitions : List YamlTransition
  (reports accepts : List Name)

structure YamlActor where
  initial : Name
  states : Section (Option YamlStateNode)
  transitions : List YamlTransition
  machines : Section (Option YamlSubMachine)
  routes : List Route

structure YamlMessage where
  (sender receiver : Name)

structure YamlVar where
  (initial type desc : Name)

structure YamlProtocol where
  (events commands : Section Name)
  messages : Section (Option YamlMessage)
  actors : Section (Option YamlActor)
  vars : Section (Option YamlVar)
  guards : Section Name

/-- `expected mapping, got %d` and `key %s`. -/
inductive MapError
  | expectedMapping (kind : Nat)
  | key (key : Name)

inductive StatesError
  | map (error : MapError)
  | multipleParents (child first second : Name)
  | transition (state : Name) (index : Nat) (updates : MapError)

inductive ParseError
  | events (error : MapError)
  | commands (error : MapError)
  | messages (error : MapError)
  | actors (error : MapError)
  | vars (error : MapError)
  | guards (error : MapError)
  | machines (actor : Name) (error : MapError)
  | machineTransition (actor machine : Name) (index : Nat) (updates : MapError)
  | machineStates (actor machine : Name) (error : StatesError)
  | transition (actor : Name) (index : Nat) (updates : MapError)
  | states (actor : Name) (error : StatesError)

def decoded {α : Type} (entry : Name × Option α) : Except MapError (Name × α) :=
  match entry.2 with
  | some value => .ok (entry.1,value)
  | none => .error (.key entry.1)

def parseOrderedMap {α : Type} : Section (Option α) → Except MapError (List (Name × α))
  | .absent => .ok []
  | .mapping entries => entries.mapM decoded
  | .other kind => .error (.expectedMapping kind)

def parseOrderedMapString : Section Name → Except MapError (List (Name × Name))
  | .absent => .ok []
  | .mapping entries => .ok entries
  | .other kind => .error (.expectedMapping kind)

def recvText : Name := "recv "

def convertTrigger (on : Name) : Trigger :=
  if recvText <+: on then ⟨.recv,on.drop recvText.length,[]⟩ else ⟨.internal,[],on⟩

def convertTransition (yt : YamlTransition) : Except MapError Transition :=
  (parseOrderedMapString yt.updates).map fun updates =>
    ⟨yt.origin,yt.target,convertTrigger yt.on,yt.guard,yt.action,yt.sends,updates.map fun kv => ⟨kv.1,kv.2⟩,yt.emits⟩

def convertTransitions {ε : Type} (error : Nat → MapError → ε) : Nat → List YamlTransition → Except ε (List Transition)
  | _, [] => .ok []
  | i, yt :: rest =>
    match convertTransition yt with
    | .error e => .error (error i e)
    | .ok t => (convertTransitions error (i + 1) rest).map (t :: ·)

def converted (yts : List YamlTransition) : List Transition := yts.filterMap fun yt => (convertTransition yt).toOption

theorem convertTransitions_ok {ε : Type} {error : Nat → MapError → ε} {i : Nat} {yts : List YamlTransition}
    {ts : List Transition} (ok : convertTransitions error i yts = .ok ts) : ts = converted yts := by
  induction yts generalizing i ts with
  | nil => exact (Except.ok.inj ok).symm
  | cons yt yts ih =>
    rw [convertTransitions] at ok
    cases first : convertTransition yt with
    | error e => simp [first] at ok
    | ok t =>
      simp only [first] at ok
      cases rest : convertTransitions error (i + 1) yts with
      | error e => simp [rest,Except.map] at ok
      | ok others =>
        rw [rest] at ok
        cases ok
        rw [converted,filterMap_cons,first]
        exact congrArg (t :: ·) (ih rest)

def parseVarType (s : Name) : VarType :=
  if s = "int" then .int
  else if s = "bool" then .bool
  else if s = "set<string>" then .setString
  else .string

/-- A `StateNode`. Pointers are the names of nodes: there is one node for each. -/
structure Node where
  parent : Option Name
  children : List Name
  transitions : List Transition

/-- `StateIndex` and `Roots`: the nodes that have been made, in their order, and what each holds. -/
structure Hierarchy where
  names : List Name
  node : Name → Node
  roots : List Name

namespace Hierarchy

def empty : Hierarchy := ⟨[],fun _ => ⟨none,[],[]⟩,[]⟩

def children (h : Hierarchy) (name : Name) : List Name := (h.node name).children
def parent (h : Hierarchy) (name : Name) : Option Name := (h.node name).parent
def transitions (h : Hierarchy) (name : Name) : List Transition := (h.node name).transitions

def set (h : Hierarchy) (name : Name) (node : Node) : Hierarchy := { h with node := Function.update h.node name node }

def getOrCreate (h : Hierarchy) (name : Name) : Hierarchy :=
  if name ∈ h.names then h else { h.set name ⟨none,[],[]⟩ with names := h.names ++ [name] }

def link (h : Hierarchy) (parent child : Name) : Hierarchy :=
  let h := h.set child { h.node child with parent := some parent }
  h.set parent { h.node parent with children := h.children parent ++ [child] }

/-- A child that `parseStateHierarchy` comes to. -/
def addChild (parent : Name) (h : Hierarchy) (child : Name) : Except StatesError Hierarchy :=
  let h := h.getOrCreate child
  match h.parent child with
  | some first => .error (.multipleParents child first parent)
  | none => .ok (h.link parent child)

def addTransitions (h : Hierarchy) (state : Name) (ts : List Transition) : Hierarchy :=
  h.set state { h.node state with transitions := h.transitions state ++ ts }

def addState (h : Hierarchy) (entry : Name × YamlStateNode) : Except StatesError Hierarchy := do
  let linked ← entry.2.children.foldlM (addChild entry.1) (h.getOrCreate entry.1)
  let ts ← convertTransitions (.transition entry.1) 0 entry.2.transitions
  return linked.addTransitions entry.1 ts

def withRoots (h : Hierarchy) (entries : List (Name × YamlStateNode)) : Hierarchy :=
  { h with roots := (entries.map Prod.fst).filter fun name => h.parent name = none ∧ h.children name ≠ [] }

end Hierarchy

/-- `parseSubMachineStateHierarchy`. -/
def parseStateHierarchy (states : List (Name × Option YamlStateNode)) : Except StatesError Hierarchy := do
  let entries ← (parseOrderedMap (.mapping states)).mapError .map
  let h ← entries.foldlM Hierarchy.addState .empty
  return h.withRoots entries

def parseStates : Section (Option YamlStateNode) → Except StatesError Hierarchy
  | .mapping states => parseStateHierarchy states
  | .absent | .other _ => .ok .empty

structure ParsedMachine where
  (name initial : Name)
  transitions : List Transition
  hierarchy : Hierarchy
  (reports accepts : List Name)

structure ParsedActor where
  (name initial : Name)
  transitions : List Transition
  hierarchy : Hierarchy
  machines : List ParsedMachine
  routes : List Route

structure Parsed where
  actors : List ParsedActor
  messages : List Message
  (events commands : List Name)
  vars : List VarDef
  guards : List Name

def parseMachine (actor : Name) (entry : Name × YamlSubMachine) : Except ParseError ParsedMachine := do
  let ts ← convertTransitions (.machineTransition actor entry.1) 0 entry.2.transitions
  let h ← (parseStates entry.2.states).mapError (.machineStates actor entry.1)
  return ⟨entry.1,entry.2.initial,ts,h,entry.2.reports,entry.2.accepts⟩

/-- An actor with a `machines` mapping is composed: its own transitions and states are not looked at, as the routes of
    other actors are not. -/
def parseActor (entry : Name × YamlActor) : Except ParseError ParsedActor :=
  match entry.2.machines with
  | .mapping machines => do
    let machines ← (parseOrderedMap (.mapping machines)).mapError (.machines entry.1)
    let machines ← machines.mapM (parseMachine entry.1)
    return ⟨entry.1,entry.2.initial,[],.empty,machines,entry.2.routes⟩
  | .absent | .other _ => do
    let ts ← convertTransitions (.transition entry.1) 0 entry.2.transitions
    let h ← (parseStates entry.2.states).mapError (.states entry.1)
    return ⟨entry.1,entry.2.initial,ts,h,[],[]⟩

/-- `ParseYAML`. -/
def parseYaml (yp : YamlProtocol) : Except ParseError Parsed := do
  let events ← (parseOrderedMapString yp.events).mapError .events
  let commands ← (parseOrderedMapString yp.commands).mapError .commands
  let messages ← (parseOrderedMap yp.messages).mapError .messages
  let actors ← (parseOrderedMap yp.actors).mapError .actors
  let actors ← actors.mapM parseActor
  let vars ← (parseOrderedMap yp.vars).mapError .vars
  let guards ← (parseOrderedMapString yp.guards).mapError .guards
  return ⟨actors,messages.map fun kv => ⟨kv.1,kv.2.sender,kv.2.receiver⟩,events.map Prod.fst,commands.map Prod.fst,
    vars.map fun kv => ⟨kv.1,parseVarType kv.2.type,kv.2.initial,kv.2.desc⟩,guards.map Prod.fst⟩

def Parsed.hierarchies (p : Parsed) : List Hierarchy :=
  p.actors.flatMap fun a => a.hierarchy :: a.machines.map ParsedMachine.hierarchy

theorem bind_ok {ε α β : Type} {x : Except ε α} {f : α → Except ε β} {b : β} (ok : x >>= f = .ok b) :
    ∃ a, x = .ok a ∧ f a = .ok b := by
  cases x with
  | error e => cases ok
  | ok a => exact ⟨a,rfl,ok⟩

theorem mapError_ok {ε ε' α : Type} {x : Except ε α} {f : ε → ε'} {a : α} (ok : x.mapError f = .ok a) : x = .ok a := by
  cases x with
  | error e => cases ok
  | ok b => exact congrArg Except.ok (Except.ok.inj ok)

theorem mem_mapM_ok {ε α β : Type} {f : α → Except ε β} {xs : List α} {ys : List β} (ok : xs.mapM f = .ok ys) {y : β}
    (among : y ∈ ys) : ∃ x ∈ xs, f x = .ok y := by
  induction xs generalizing ys with
  | nil =>
    cases ok
    cases among
  | cons x xs ih =>
    rw [mapM_cons] at ok
    obtain ⟨first,here,ok⟩ := bind_ok ok
    obtain ⟨rest,later,ok⟩ := bind_ok ok
    cases ok
    rcases mem_cons.mp among with rfl | after
    · exact ⟨x,mem_cons_self,here⟩
    · obtain ⟨other,mem,found⟩ := ih later after
      exact ⟨other,mem_cons_of_mem x mem,found⟩

namespace Hierarchy

structure Linked (h : Hierarchy) : Prop where
  agree : ∀ p c, c ∈ h.children p ↔ h.parent c = some p
  nodup : ∀ p, (h.children p).Nodup
  closed : ∀ p c, c ∈ h.children p → p ∈ h.names ∧ c ∈ h.names
  written : ∀ s, h.transitions s ≠ [] → s ∈ h.names

variable {h h' : Hierarchy}

theorem empty_linked : empty.Linked where
  agree p c := by simp [empty,children,parent]
  nodup p := nodup_nil
  closed p c child := by cases child
  written s some := absurd rfl some

theorem Linked.fresh (linked : h.Linked) {name} (fresh : name ∉ h.names) : h.node name = ⟨none,[],[]⟩ := by
  have orphan : h.parent name = none := by
    cases up : h.parent name with
    | none => rfl
    | some p => exact absurd (linked.closed p name ((linked.agree p name).mpr up)).2 fresh
  have childless : h.children name = [] := by
    refine eq_nil_iff_forall_not_mem.mpr (fun c child => fresh ?_)
    exact (linked.closed name c child).1
  have bare : h.transitions name = [] := by
    by_contra some
    exact fresh (linked.written name some)
  simp only [parent,children,transitions] at orphan childless bare
  cases node : h.node name with
  | mk p cs ts =>
    rw [node] at orphan childless bare
    simp_all

theorem getOrCreate_node (linked : h.Linked) (name : Name) : (h.getOrCreate name).node = h.node := by
  rw [getOrCreate]
  split
  next => rfl
  next fresh =>
    funext other
    by_cases here : other = name
    · rw [here,linked.fresh fresh]
      exact Function.update_self ..
    · exact Function.update_of_ne here ..

theorem mem_getOrCreate {name other} : other ∈ (h.getOrCreate name).names ↔ other ∈ h.names ∨ other = name := by
  rw [getOrCreate]
  split
  next known =>
    constructor
    · exact .inl
    · rintro (old | rfl)
      · exact old
      · exact known
  next => simp

theorem getOrCreate_linked (linked : h.Linked) (name : Name) : (h.getOrCreate name).Linked := by
  have same := getOrCreate_node linked name
  have grows : ∀ s ∈ h.names, s ∈ (h.getOrCreate name).names := fun s known => mem_getOrCreate.mpr (.inl known)
  constructor
  · intro p c
    rw [children,parent,same]
    exact linked.agree p c
  · intro p
    rw [children,same]
    exact linked.nodup p
  · intro p c child
    rw [children,same] at child
    exact (linked.closed p c child).imp (grows p) (grows c)
  · intro s some
    rw [transitions,same] at some
    exact grows s (linked.written s some)

theorem link_parent (p c s : Name) : (h.link p c).parent s = if s = c then some p else h.parent s := by
  by_cases here : s = p <;> by_cases there : s = c <;> by_cases same : p = c <;>
    simp_all [link,set,parent,children,Function.update]

theorem link_children (p c s : Name) :
    (h.link p c).children s = if s = p then h.children p ++ [c] else h.children s := by
  by_cases here : s = p <;> by_cases there : s = c <;> by_cases same : p = c <;>
    simp_all [link,set,children,Function.update]

theorem link_transitions (p c s : Name) : (h.link p c).transitions s = h.transitions s := by
  by_cases here : s = p <;> by_cases there : s = c <;> by_cases same : p = c <;>
    simp_all [link,set,children,transitions,Function.update]

section
variable {p : Name} (linked : h.Linked) (known : p ∈ h.names)
include linked known

theorem link_linked {c} (made : c ∈ h.names) (orphan : h.parent c = none) : (h.link p c).Linked := by
  constructor
  · intro q d
    rw [link_children,link_parent]
    by_cases here : d = c
    · subst here
      have nowhere : ∀ q, d ∉ h.children q := by
        intro q child
        rw [linked.agree,orphan] at child
        cases child
      by_cases under : q = p
      · simp [under]
      · simp [under,nowhere,Ne.symm under]
    · rw [if_neg here,← linked.agree]
      by_cases under : q = p
      · simp [under,here]
      · rw [if_neg under]
  · intro q
    rw [link_children]
    split
    · refine nodup_append.mpr ⟨linked.nodup p,nodup_singleton c,?_⟩
      rintro d child e last rfl
      rw [mem_singleton.mp last,linked.agree,orphan] at child
      cases child
    · exact linked.nodup q
  · intro q d child
    rw [link_children] at child
    split at child
    next under =>
      subst under
      rcases mem_append.mp child with old | new
      · exact linked.closed q d old
      · rw [mem_singleton.mp new]
        exact ⟨known,made⟩
    next => exact linked.closed q d child
  · intro s some
    rw [link_transitions] at some
    exact linked.written s some

theorem addChild_ok {c} (ok : h.addChild p c = .ok h') : h'.Linked ∧ p ∈ h'.names ∧ h'.transitions = h.transitions ∧
      ∀ s, h'.children s = if s = p then h.children p ++ [c] else h.children s := by
  rw [addChild] at ok
  have made := getOrCreate_linked linked c
  have same := getOrCreate_node linked c
  cases up : (h.getOrCreate c).parent c with
  | some first => simp [up] at ok
  | none =>
    simp only [up] at ok
    cases ok
    have mem : p ∈ (h.getOrCreate c).names := mem_getOrCreate.mpr (.inl known)
    refine ⟨link_linked made mem (mem_getOrCreate.mpr (.inr rfl)) up,mem,?_,?_⟩
    · funext s
      rw [link_transitions,transitions,same,transitions]
    · intro s
      rw [link_children,children,children,same]
      rfl

theorem addChildren_ok {cs} (ok : cs.foldlM (addChild p) h = .ok h') :
    h'.Linked ∧ p ∈ h'.names ∧ h'.transitions = h.transitions ∧
      ∀ s, h'.children s = if s = p then h.children p ++ cs else h.children s := by
  induction cs generalizing h with
  | nil =>
    cases ok
    refine ⟨linked,known,rfl,fun s => ?_⟩
    split
    next here => rw [here,append_nil]
    next => rfl
  | cons c cs ih =>
    rw [foldlM_cons] at ok
    obtain ⟨next,first,rest⟩ := bind_ok ok
    obtain ⟨linked,known,same,lists⟩ := addChild_ok linked known first
    obtain ⟨linked,known,same',lists'⟩ := ih linked known rest
    refine ⟨linked,known,same'.trans same,fun s => ?_⟩
    rw [lists',lists,if_pos rfl,lists]
    split
    next => rw [append_assoc,singleton_append]
    next => rfl

end

theorem addTransitions_linked (linked : h.Linked) {state} (known : state ∈ h.names) (ts : List Transition) :
    (h.addTransitions state ts).Linked := by
  have others : (h.addTransitions state ts).children = h.children ∧ (h.addTransitions state ts).parent = h.parent := by
    constructor <;> funext s <;> by_cases here : s = state <;> simp [addTransitions,set,children,parent,here]
  constructor
  · rw [others.1,others.2]
    exact linked.agree
  · rw [others.1]
    exact linked.nodup
  · rw [others.1]
    exact linked.closed
  · intro s some
    by_cases here : s = state
    · rw [here]
      exact known
    · simp only [addTransitions,set,transitions,Function.update_of_ne here] at some
      exact linked.written s some

theorem addState_ok {entry} (linked : h.Linked) (ok : h.addState entry = .ok h') :
    h'.Linked ∧ (∀ s, h'.children s = h.children s ++ if entry.1 = s then entry.2.children else []) ∧
      ∀ s, h'.transitions s = h.transitions s ++ if entry.1 = s then converted entry.2.transitions else [] := by
  obtain ⟨next,added,ok⟩ := bind_ok ok
  obtain ⟨ts,conversion,ok⟩ := bind_ok ok
  cases ok
  obtain rfl := convertTransitions_ok conversion
  have made := getOrCreate_linked linked entry.1
  have same := getOrCreate_node linked entry.1
  obtain ⟨linked,known,kept,lists⟩ := addChildren_ok made (mem_getOrCreate.mpr (.inr rfl)) added
  refine ⟨addTransitions_linked linked known _,fun s => ?_,fun s => ?_⟩
  · have unchanged : (next.addTransitions entry.1 (converted entry.2.transitions)).children s = next.children s := by
      by_cases here : s = entry.1 <;> simp [addTransitions,set,children,here]
    rw [unchanged,lists,children,children,same]
    by_cases here : s = entry.1
    · simp [here,children]
    · simp [here,Ne.symm here,children]
  · have before : next.transitions s = h.transitions s := by rw [kept,transitions,same,transitions]
    rw [← before]
    by_cases here : s = entry.1
    · simp [addTransitions,set,transitions,here]
    · simp [addTransitions,set,transitions,here,Ne.symm here]

end Hierarchy

def listed (entries : List (Name × YamlStateNode)) (s : Name) : List Name :=
  entries.flatMap fun e => if e.1 = s then e.2.children else []

def writtenUnder (entries : List (Name × YamlStateNode)) (s : Name) : List Transition :=
  entries.flatMap fun e => if e.1 = s then converted e.2.transitions else []

structure Hierarchy.Of (h : Hierarchy) (entries : List (Name × YamlStateNode)) : Prop where
  linked : h.Linked
  children : ∀ s, h.children s = listed entries s
  transitions : ∀ s, h.transitions s = writtenUnder entries s
  roots : h.roots = (entries.map Prod.fst).filter fun name => h.parent name = none ∧ h.children name ≠ []

theorem Hierarchy.empty_of : Hierarchy.empty.Of [] := ⟨empty_linked,fun _ => rfl,fun _ => rfl,rfl⟩

theorem addStates_ok {entries h h'} (linked : h.Linked)
    (ok : entries.foldlM Hierarchy.addState h = .ok h') : h'.Linked ∧
      (∀ s, h'.children s = h.children s ++ listed entries s) ∧
      ∀ s, h'.transitions s = h.transitions s ++ writtenUnder entries s := by
  induction entries generalizing h with
  | nil =>
    cases ok
    exact ⟨linked,fun s => (append_nil _).symm,fun s => (append_nil _).symm⟩
  | cons entry entries ih =>
    rw [foldlM_cons] at ok
    obtain ⟨next,first,rest⟩ := bind_ok ok
    obtain ⟨linked,lists,writes⟩ := Hierarchy.addState_ok linked first
    obtain ⟨linked,lists',writes'⟩ := ih linked rest
    refine ⟨linked,fun s => ?_,fun s => ?_⟩
    · rw [lists',lists,append_assoc]
      rfl
    · rw [writes',writes,append_assoc]
      rfl

theorem parseStateHierarchy_ok {states : List (Name × Option YamlStateNode)} {h}
    (ok : parseStateHierarchy states = .ok h) : ∃ entries, parseOrderedMap (.mapping states) = .ok entries ∧
      h.Of entries := by
  obtain ⟨entries,decoded,ok⟩ := bind_ok ok
  obtain ⟨built,added,ok⟩ := bind_ok ok
  cases ok
  obtain ⟨linked,lists,writes⟩ := addStates_ok Hierarchy.empty_linked added
  exact ⟨entries,mapError_ok decoded,{ linked with },lists,writes,rfl⟩

theorem parseStates_ok {states h} (ok : parseStates states = .ok h) : ∃ entries, h.Of entries := by
  cases states with
  | absent | other =>
    cases ok
    exact ⟨[],Hierarchy.empty_of⟩
  | mapping states =>
    obtain ⟨entries,_,holds⟩ := parseStateHierarchy_ok ok
    exact ⟨entries,holds⟩

theorem parseMachine_ok {actor : Name} {entry : Name × YamlSubMachine} {m : ParsedMachine}
    (ok : parseMachine actor entry = .ok m) : ∃ entries, m.hierarchy.Of entries := by
  obtain ⟨ts,_,ok⟩ := bind_ok ok
  obtain ⟨h,states,ok⟩ := bind_ok ok
  cases ok
  exact parseStates_ok (mapError_ok states)

theorem parseActor_ok {entry : Name × YamlActor} {a : ParsedActor} (ok : parseActor entry = .ok a) :
    (∃ entries, a.hierarchy.Of entries) ∧ ∀ m ∈ a.machines, ∃ entries, m.hierarchy.Of entries := by
  rw [parseActor] at ok
  split at ok
  next =>
    obtain ⟨decoded,_,ok⟩ := bind_ok ok
    obtain ⟨machines,parsed,ok⟩ := bind_ok ok
    cases ok
    refine ⟨⟨[],Hierarchy.empty_of⟩,fun m among => ?_⟩
    obtain ⟨entry,_,own⟩ := mem_mapM_ok parsed among
    exact parseMachine_ok own
  all_goals
    obtain ⟨ts,_,ok⟩ := bind_ok ok
    obtain ⟨h,states,ok⟩ := bind_ok ok
    cases ok
    exact ⟨parseStates_ok (mapError_ok states),fun m among => by cases among⟩

theorem parseYaml_ok {yp p} (ok : parseYaml yp = .ok p) : ∀ h ∈ p.hierarchies, ∃ entries, h.Of entries := by
  obtain ⟨events,_,ok⟩ := bind_ok ok
  obtain ⟨commands,_,ok⟩ := bind_ok ok
  obtain ⟨messages,_,ok⟩ := bind_ok ok
  obtain ⟨decoded,_,ok⟩ := bind_ok ok
  obtain ⟨actors,parsed,ok⟩ := bind_ok ok
  obtain ⟨vars,_,ok⟩ := bind_ok ok
  obtain ⟨guards,_,ok⟩ := bind_ok ok
  cases ok
  intro h among
  obtain ⟨a,actor,own⟩ := mem_flatMap.mp among
  obtain ⟨entry,_,parsedActor⟩ := mem_mapM_ok parsed actor
  obtain ⟨flat,machines⟩ := parseActor_ok parsedActor
  rcases mem_cons.mp own with rfl | sub
  · exact flat
  · obtain ⟨m,machine,rfl⟩ := mem_map.mp sub
    exact machines m machine

end Pigeon.YamlProtocols
