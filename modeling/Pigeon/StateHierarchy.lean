import Pigeon.YamlProtocols

/-!
`LeafStates` and `FlattenedTransitions` (`protocol/protocol.go`) over the pointers that
`ParseYAML` leaves. The second goes down from the roots only and returns for every accepted
document; the first does not on a cycle (`flattening_returns`). `expansion_complete_iff` says
which states are not expanded.
-/
namespace Pigeon.YamlProtocols
open Protocols List
open PointerForests

structure Copy where
  state : Name
  transition : Transition
  leaf : Name
deriving DecidableEq

def Copy.loop (c : Copy) : Transition := { c.transition with origin := c.leaf, target := c.leaf }

namespace Hierarchy
variable (h : Hierarchy)

/-- `LeafStates`, of the nodes that are `IsLeaf`. -/
def leafStates : Nat → Name → Option (List Name) :=
  walk h.children fun n => some (if h.children n = [] then [n] else [])

def ownCopies (fuel : Nat) (n : Name) : Option (List Copy) :=
  if h.children n = [] then some []
  else (h.leafStates fuel n).map fun leaves => (h.transitions n).flatMap fun t => leaves.map fun leaf => ⟨n,t,leaf⟩

def copies (fuel : Nat) : Option (List Copy) := gather (walk h.children (h.ownCopies fuel) fuel) h.roots

/-- `FlattenedTransitions` of a flat actor and of a sub-machine. -/
def flattened (explicit : List Transition) (fuel : Nat) : Option (List Transition) :=
  if h.names = [] then some explicit else (h.copies fuel).map fun cs => explicit ++ cs.map Copy.loop

end Hierarchy

/-- `SubMachine.FlattenedTransitions`. -/
def ParsedMachine.flattened (m : ParsedMachine) (fuel : Nat) : Option (List Transition) :=
  m.hierarchy.flattened m.transitions fuel

/-- `Actor.FlattenedTransitions`. -/
def ParsedActor.flattened (a : ParsedActor) (fuel : Nat) : Option (List Transition) :=
  if a.machines = [] then a.hierarchy.flattened a.transitions fuel
  else gather (fun m => ParsedMachine.flattened m fuel) a.machines

def Returns {β : Type} (run : Nat → Option β) : Prop := ∃ fuel, (run fuel).isSome

section
variable {h : Hierarchy} {entries : List (Name × YamlStateNode)}

theorem Hierarchy.Linked.forest (linked : h.Linked) : Forest h.children where
  single left right := Option.some.inj (((linked.agree _ _).mp left).symm.trans ((linked.agree _ _).mp right))
  nodup := linked.nodup

theorem Hierarchy.Linked.down (linked : h.Linked) : ∀ s ∈ h.names, ∀ c ∈ h.children s, c ∈ h.names :=
  fun s _ c child => (linked.closed s c child).2

theorem Hierarchy.Of.root (holds : h.Of entries) {r : Name} (root : r ∈ h.roots) :
    r ∈ h.names ∧ ∀ s, r ∉ h.children s := by
  rw [holds.roots,mem_filter] at root
  obtain ⟨orphan,parental⟩ : h.parent r = none ∧ h.children r ≠ [] := by simpa using root.2
  obtain ⟨c,child⟩ := exists_mem_of_ne_nil _ parental
  refine ⟨(holds.linked.closed r c child).1,fun s listed => ?_⟩
  rw [holds.linked.agree,orphan] at listed
  cases listed

theorem Hierarchy.Of.acyclic (holds : h.Of entries) {r s : Name} (root : r ∈ h.roots)
    (above : Reaches h.children r s) : Acyclic h.children s :=
  fun m below => acyclic_of_root holds.linked.forest (holds.root root).2 m (above.trans below)

theorem reached_mem (linked : h.Linked) {r s : Name} (mem : r ∈ h.names) (above : Reaches h.children r s) :
    s ∈ h.names := by
  induction above with
  | refl => exact mem
  | tail _ child _ => exact (linked.closed _ _ child).2

theorem leafStates_isSome (linked : h.Linked) {s : Name} (mem : s ∈ h.names) (acyclic : Acyclic h.children s)
    {fuel : Nat} (enough : h.names.length < fuel) : (h.leafStates fuel s).isSome :=
  walk_isSome_of_acyclic linked.down (fun _ _ => rfl) acyclic mem enough

theorem copies_isSome (holds : h.Of entries) {fuel} (enough : h.names.length < fuel) : (h.copies fuel).isSome := by
  refine gather_isSome.mpr (fun r root => ?_)
  have mem := (holds.root root).1
  refine walk_isSome_of_acyclic holds.linked.down (fun s above => ?_) (holds.acyclic root .refl) mem enough
  have leaves := leafStates_isSome holds.linked (reached_mem holds.linked mem above) (holds.acyclic root above) enough
  rw [Hierarchy.ownCopies]
  split
  · rfl
  · rw [Option.isSome_map]
    exact leaves

theorem flattened_isSome (holds : h.Of entries) (explicit : List Transition) {fuel}
    (enough : h.names.length < fuel) : (h.flattened explicit fuel).isSome := by
  rw [Hierarchy.flattened]
  split
  · rfl
  · rw [Option.isSome_map]
    exact copies_isSome holds enough

theorem leafStates_return_iff (linked : h.Linked) :
    (∀ s ∈ h.names, Returns fun fuel => h.leafStates fuel s) ↔ ∀ s ∈ h.names, ¬OnCycle h.children s := by
  constructor
  · intro returns s mem
    obtain ⟨fuel,some⟩ := returns s mem
    exact acyclic_of_walk some s .refl
  · intro straight s mem
    refine ⟨h.names.length + 1,leafStates_isSome linked mem (fun m below => ?_) (Nat.lt_succ_self _)⟩
    exact straight m (reached_mem linked mem below)

end

theorem exists_bound {α : Type} (f : α → Nat) (xs : List α) : ∃ bound, ∀ x ∈ xs, f x < bound := by
  induction xs with
  | nil => exact ⟨0,by simp⟩
  | cons x xs ih =>
    obtain ⟨bound,below⟩ := ih
    refine ⟨max bound (f x + 1),fun y among => ?_⟩
    rcases mem_cons.mp among with rfl | later
    · omega
    · have := below y later
      omega

theorem actor_returns {a : ParsedActor} (flat : ∃ entries, a.hierarchy.Of entries)
    (machines : ∀ m ∈ a.machines, ∃ entries, m.hierarchy.Of entries) :
    Returns a.flattened ∧ ∀ m ∈ a.machines, Returns m.flattened := by
  obtain ⟨bound,enough⟩ := exists_bound (fun m : ParsedMachine => m.hierarchy.names.length) a.machines
  have each : ∀ m ∈ a.machines, (m.flattened bound).isSome := by
    intro m among
    obtain ⟨entries,holds⟩ := machines m among
    exact flattened_isSome holds _ (enough m among)
  refine ⟨?_,fun m among => ⟨bound,each m among⟩⟩
  by_cases own : a.machines = []
  · obtain ⟨entries,holds⟩ := flat
    refine ⟨a.hierarchy.names.length + 1,?_⟩
    rw [ParsedActor.flattened,if_pos own]
    exact flattened_isSome holds _ (Nat.lt_succ_self _)
  · refine ⟨bound,?_⟩
    rw [ParsedActor.flattened,if_neg own]
    exact gather_isSome.mpr each

/-- `FlattenedTransitions` returns for every accepted document, `LeafStates` on every state below a root, and on all
    just when none is on a cycle. -/
theorem flattening_returns (yp : YamlProtocol) (p : Parsed) (accepted : parseYaml yp = .ok p) :
    (∀ a ∈ p.actors, Returns a.flattened ∧ ∀ m ∈ a.machines, Returns m.flattened) ∧
    (∀ h ∈ p.hierarchies, ∀ r ∈ h.roots, ∀ s, Reaches h.children r s → Returns fun fuel => h.leafStates fuel s) ∧
    ((∀ h ∈ p.hierarchies, ∀ s ∈ h.names, Returns fun fuel => h.leafStates fuel s) ↔
      ∀ h ∈ p.hierarchies, ∀ s ∈ h.names, ¬OnCycle h.children s) := by
  have built := parseYaml_ok accepted
  refine ⟨fun a actor => actor_returns ?_ ?_,?_,?_⟩
  · exact built _ (mem_flatMap.mpr ⟨a,actor,mem_cons_self⟩)
  · intro m among
    exact built _ (mem_flatMap.mpr ⟨a,actor,mem_cons_of_mem _ (mem_map_of_mem among)⟩)
  · intro h among r root s above
    obtain ⟨entries,holds⟩ := built h among
    have mem := reached_mem holds.linked (holds.root root).1 above
    exact ⟨_,leafStates_isSome holds.linked mem (holds.acyclic root above) (Nat.lt_succ_self _)⟩
  · refine forall₂_congr (fun h among => ?_)
    obtain ⟨entries,holds⟩ := built h among
    exact leafStates_return_iff holds.linked

def backendWith (states : List (Name × Option YamlStateNode)) : YamlProtocol :=
  ⟨.absent,.absent,.absent,
    .mapping [("backend",some ⟨"RelayConnected",.mapping states,[],.absent,[]⟩)],.absent,.absent⟩

def built (states : List (Name × Option YamlStateNode)) : Hierarchy :=
  match parseStateHierarchy states with
  | .ok h => h
  | .error _ => .empty

def parsed (states : List (Name × Option YamlStateNode)) : Parsed :=
  ⟨[⟨"backend","RelayConnected",[],built states,[],[]⟩],[],[],[],[],[]⟩

def backgroundTick : YamlTransition := ⟨[],[],"tick",[],[],[],.absent,[]⟩

def altPath : List (Name × Option YamlStateNode) :=
  [("AltPath",some ⟨["AltActive","AltDegraded"],[backgroundTick]⟩)]

theorem altPath_returns : parseYaml (backendWith altPath) = .ok (parsed altPath) ∧
    ∀ a ∈ (parsed altPath).actors, Returns a.flattened :=
  ⟨rfl,fun a actor => ((flattening_returns (backendWith altPath) (parsed altPath) rfl).1 a actor).1⟩

def cyclic : List (Name × Option YamlStateNode) :=
  [("AltActive",some ⟨["AltDegraded"],[]⟩),("AltDegraded",some ⟨["AltActive"],[]⟩)]

/-- Two states that are each other's child are accepted, and `LeafStates` does not return from them. -/
theorem cycle_never_returns : parseYaml (backendWith cyclic) = .ok (parsed cyclic) ∧
    built cyclic ∈ (parsed cyclic).hierarchies ∧ "AltActive".toList ∈ (built cyclic).names ∧
    ∀ fuel, (built cyclic).leafStates fuel "AltActive".toList = none := by
  refine ⟨rfl,mem_cons_self,by decide,fun fuel => ?_⟩
  have down : "AltDegraded".toList ∈ (built cyclic).children "AltActive".toList := by decide
  have up : "AltActive".toList ∈ (built cyclic).children "AltDegraded".toList := by decide
  by_contra returns
  exact not_onCycle_of_walk (Option.isSome_iff_ne_none.mpr returns) (.tail (.single down) up)

def Hierarchy.tree (h : Hierarchy) : Nat → Bool → Name → StateNode
  | 0, linked, n => .node n linked [] []
  | depth + 1, linked, n =>
    .node n linked ((h.children n).map fun c => h.tree depth (h.parent c = some n) c) (h.transitions n)

/-- The index for `Validate`, which looks at the children of each state. -/
def Hierarchy.index (h : Hierarchy) : List (Name × StateNode) := h.names.map fun n => (n,h.tree 2 true n)

def Hierarchy.rootTrees (h : Hierarchy) : List StateNode := h.roots.map (h.tree (h.names.length + 1) true)

def ParsedMachine.subMachine (m : ParsedMachine) : SubMachine :=
  ⟨m.name,m.initial,m.transitions,m.hierarchy.index,m.hierarchy.rootTrees,m.reports,m.accepts⟩

def ParsedActor.actor (a : ParsedActor) : Actor :=
  ⟨a.name,a.initial,a.transitions,a.hierarchy.index,a.hierarchy.rootTrees,a.machines.map ParsedMachine.subMachine,
    a.routes⟩

def Parsed.protocol (p : Parsed) : Protocol :=
  ⟨p.actors.map ParsedActor.actor,p.messages,p.events,p.commands,p.vars,p.guards⟩

section
variable {h : Hierarchy} {entries : List (Name × YamlStateNode)}

theorem leafStatesOf_eq (nodes : List StateNode) : leafStatesOf nodes = nodes.flatMap Protocols.leafStates := by
  induction nodes with
  | nil => rfl
  | cons node nodes ih => rw [leafStatesOf,ih,flatMap_cons]

theorem expandAll_eq (nodes : List StateNode) : expandAll nodes = nodes.flatMap expand := by
  induction nodes with
  | nil => rfl
  | cons node nodes ih => rw [expandAll,ih,flatMap_cons]

theorem leafStates_node (n : Name) (linked : Bool) (nodes : List StateNode) (ts : List Transition) :
    Protocols.leafStates (.node n linked nodes ts) = if nodes = [] then [n] else nodes.flatMap Protocols.leafStates := by
  cases nodes with
  | nil => rfl
  | cons node nodes => rw [Protocols.leafStates,leafStatesOf_eq,if_neg (by simp),flatMap_cons]

theorem expand_node (n : Name) (linked : Bool) (nodes : List StateNode) (ts : List Transition) :
    expand (.node n linked nodes ts) =
      if nodes = [] then [] else ts.flatMap (fun t => (Protocols.leafStates (.node n linked nodes ts)).map
        fun leaf => { t with origin := leaf, target := leaf }) ++ nodes.flatMap expand := by
  cases nodes with
  | nil => rfl
  | cons node nodes => rw [expand,expandAll_eq,if_neg (by simp),flatMap_cons]

theorem leafStates_tree {depth n xs} (walked : h.leafStates depth n = some xs)
    (linked : Bool) : Protocols.leafStates (h.tree depth linked n) = xs := by
  induction depth generalizing n xs linked with
  | zero => cases walked
  | succ depth ih =>
    obtain ⟨here,rest,own,gathered,rfl⟩ := walk_eq_some.mp walked
    cases own
    rw [Hierarchy.tree,leafStates_node]
    by_cases childless : h.children n = []
    · rw [childless] at gathered
      cases gathered
      simp [childless]
    · rw [if_neg (by simpa using childless),if_neg childless,flatMap_map]
      simpa using flatMap_of_gather gathered id (fun c _ zs found => by simpa using ih found _)

theorem expand_tree {fuel depth} (le : depth ≤ fuel) {n cs}
    (walked : walk h.children (h.ownCopies fuel) depth n = some cs) (linked : Bool) :
    expand (h.tree depth linked n) = cs.map Copy.loop := by
  induction depth generalizing n cs linked with
  | zero => cases walked
  | succ depth ih =>
    have returns : (h.leafStates (depth + 1) n).isSome := walk_isSome_of_walk (fun _ => rfl) (by rw [walked]; rfl)
    obtain ⟨here,rest,own,gathered,rfl⟩ := walk_eq_some.mp walked
    by_cases childless : h.children n = []
    · rw [childless] at gathered
      cases gathered
      rw [Hierarchy.ownCopies,if_pos childless] at own
      cases own
      rw [Hierarchy.tree,expand_node,childless]
      rfl
    · obtain ⟨leaves,found⟩ := Option.isSome_iff_exists.mp returns
      rw [Hierarchy.ownCopies,if_neg childless,Hierarchy.leafStates,walk_mono le found] at own
      cases own
      have below := leafStates_tree found linked
      rw [Hierarchy.tree] at below ⊢
      rw [expand_node,if_neg (by simpa using childless),below,flatMap_map,map_append]
      congr 1
      · rw [map_flatMap]
        simp only [map_map]
        rfl
      · exact flatMap_of_gather gathered Copy.loop (fun c _ zs found => ih (Nat.le_of_succ_le le) found _)

theorem flattened_trees (holds : h.Of entries) (explicit : List Transition) :
    h.flattened explicit (h.names.length + 1) = some (Protocols.flattened explicit h.index h.rootTrees) := by
  obtain ⟨cs,gathered⟩ := Option.isSome_iff_exists.mp (copies_isSome holds (Nat.lt_succ_self _))
  have expanded : expandAll h.rootTrees = cs.map Copy.loop := by
    rw [expandAll_eq,Hierarchy.rootTrees,flatMap_map]
    exact flatMap_of_gather gathered Copy.loop (fun r _ zs walked => expand_tree (Nat.le_refl _) walked true)
  rw [Hierarchy.flattened,Protocols.flattened,gathered,expanded]
  by_cases none : h.names = []
  · simp [none,Hierarchy.index]
  · simp [none,Hierarchy.index]

end

/-- `FlattenedTransitions` of the flat actors and of the machines of an accepted document: what the walk over pointers
    returns is what the trees of the protocol give. -/
theorem document_flattened (yp : YamlProtocol) (p : Parsed) (accepted : parseYaml yp = .ok p) :
    ∀ a ∈ p.actors, (a.machines = [] → a.flattened (a.hierarchy.names.length + 1) = some a.actor.flattenedTransitions) ∧
      ∀ m ∈ a.machines, m.flattened (m.hierarchy.names.length + 1) = some m.subMachine.flattenedTransitions := by
  have built := parseYaml_ok accepted
  intro a actor
  constructor
  · intro flat
    obtain ⟨entries,holds⟩ := built _ (mem_flatMap.mpr ⟨a,actor,mem_cons_self⟩)
    rw [ParsedActor.flattened,if_pos flat,flattened_trees holds]
    simp [Actor.flattenedTransitions,Actor.isComposed,ParsedActor.actor,flat]
  · intro m among
    have listed : m.hierarchy ∈ a.hierarchy :: a.machines.map ParsedMachine.hierarchy :=
      mem_cons_of_mem _ (mem_map_of_mem among)
    obtain ⟨entries,holds⟩ := built _ (mem_flatMap.mpr ⟨a,actor,listed⟩)
    exact flattened_trees holds m.transitions

theorem altPath_flattened : parseYaml (backendWith altPath) = .ok (parsed altPath) ∧
    ∀ a ∈ (parsed altPath).actors, a.machines = [] →
      a.flattened (a.hierarchy.names.length + 1) = some a.actor.flattenedTransitions :=
  ⟨rfl,fun a actor => (document_flattened (backendWith altPath) (parsed altPath) rfl a actor).1⟩

def LeafBelow (h : Hierarchy) (s leaf : Name) : Prop := Reaches h.children s leaf ∧ h.children leaf = []

def Complete (h : Hierarchy) : Prop :=
  ∃ fuel cs, h.copies fuel = some cs ∧ ∀ s t leaf,
    (LeafBelow h s leaf → cs.count ⟨s,t,leaf⟩ = (h.transitions s).count t) ∧
    (¬LeafBelow h s leaf → cs.count ⟨s,t,leaf⟩ = 0)

def Covered (h : Hierarchy) : Prop :=
  ∀ s, h.transitions s ≠ [] → (∃ leaf, LeafBelow h s leaf) →
    h.children s ≠ [] ∧ ∃ r, h.roots.count r = 1 ∧ Reaches h.children r s

section
variable {h : Hierarchy} {entries : List (Name × YamlStateNode)} {fuel : Nat} {s leaf : Name} {t : Transition}

theorem count_leaves (linked : h.Linked) {leaves} (walked : h.leafStates fuel s = some leaves) :
    (LeafBelow h s leaf → leaves.count leaf = 1) ∧ (¬LeafBelow h s leaf → leaves.count leaf = 0) := by
  have tagged : ∀ n xs, some (if h.children n = [] then [n] else []) = some xs → ∀ b ∈ xs, id b = n := by
    intro n xs given b among
    cases given
    split at among
    · exact mem_singleton.mp among
    · cases among
  have own (below : Reaches h.children s leaf) :
      leaves.count leaf = (if h.children leaf = [] then [leaf] else []).count leaf := by
    obtain ⟨ys,given,same⟩ := count_walk linked.forest tagged walked below
    cases given
    exact same
  constructor
  · rintro ⟨below,childless⟩
    rw [own below,if_pos childless,count_singleton_self]
  · intro outside
    by_cases below : Reaches h.children s leaf
    · rw [own below,if_neg (fun childless => outside ⟨below,childless⟩),count_nil]
    · exact count_eq_zero_of_not_mem (fun among => below (reaches_of_mem_walk tagged walked among))

theorem count_product (ts : List Transition) (leaves : List Name) :
    (ts.flatMap fun t => leaves.map fun leaf => (⟨s,t,leaf⟩ : Copy)).count ⟨s,t,leaf⟩ =
      ts.count t * leaves.count leaf := by
  induction ts with
  | nil => simp
  | cons first ts ih =>
    rw [flatMap_cons,count_append,ih]
    by_cases here : first = t
    · subst here
      have injective : Function.Injective fun leaf => (⟨s,first,leaf⟩ : Copy) := fun _ _ same => (Copy.mk.inj same).2.2
      rw [count_map_of_injective leaves _ injective,count_cons_self,Nat.add_mul,Nat.one_mul,Nat.add_comm]
    · have nowhere : (⟨s,t,leaf⟩ : Copy) ∉ leaves.map fun leaf => ⟨s,first,leaf⟩ := by
        intro among
        obtain ⟨_,_,same⟩ := mem_map.mp among
        exact here (Copy.mk.inj same).2.1
      rw [count_eq_zero_of_not_mem nowhere,count_cons_of_ne here,Nat.zero_add]

theorem copies_tagged (n : Name) (xs : List Copy) (given : h.ownCopies fuel n = some xs) : ∀ c ∈ xs, c.state = n := by
  intro c among
  rw [Hierarchy.ownCopies] at given
  split at given
  · cases given
    cases among
  · obtain ⟨leaves,_,rfl⟩ := Option.map_eq_some_iff.mp given
    obtain ⟨t,_,among⟩ := mem_flatMap.mp among
    obtain ⟨leaf,_,rfl⟩ := mem_map.mp among
    rfl

section
variable (holds : h.Of entries) {cs : List Copy} (gathered : h.copies fuel = some cs)
include holds gathered

theorem count_copies {r} (root : r ∈ h.roots) (above : Reaches h.children r s) (parental : h.children s ≠ [])
    (t : Transition) (leaf : Name) : ∃ leaves, h.leafStates fuel s = some leaves ∧
      cs.count ⟨s,t,leaf⟩ = h.roots.count r * ((h.transitions s).count t * leaves.count leaf) := by
  obtain ⟨ys,walked⟩ := Option.isSome_iff_exists.mp (gather_isSome.mp (by rw [← Hierarchy.copies,gathered]; rfl) r root)
  obtain ⟨zs,given,same⟩ := count_walk holds.linked.forest copies_tagged walked (b := ⟨s,t,leaf⟩) above
  rw [Hierarchy.ownCopies,if_neg parental] at given
  obtain ⟨leaves,found,rfl⟩ := Option.map_eq_some_iff.mp given
  refine ⟨leaves,found,?_⟩
  rw [← count_product,← same]
  refine count_gather gathered walked (fun r' root' other zs' walked' among => other ?_)
  exact root_unique holds.linked.forest (holds.root root').2 (holds.root root).2
    (reaches_of_mem_walk copies_tagged walked' among) above

theorem of_mem_copies (among : (⟨s,t,leaf⟩ : Copy) ∈ cs) :
    h.children s ≠ [] ∧ ∃ r ∈ h.roots, Reaches h.children r s := by
  obtain ⟨r,root,ys,walked,mem⟩ := mem_gather gathered among
  have above := reaches_of_mem_walk copies_tagged walked mem
  refine ⟨fun childless => ?_,r,root,above⟩
  obtain ⟨zs,given,same⟩ := count_walk holds.linked.forest copies_tagged walked above
  obtain rfl : [] = zs := by simpa [Hierarchy.ownCopies,childless] using given
  exact absurd same (Nat.ne_of_gt (count_pos_iff.mpr mem))

theorem count_below {r} (root : r ∈ h.roots) (above : Reaches h.children r s) (parental : h.children s ≠ [])
    (below : LeafBelow h s leaf) : cs.count ⟨s,t,leaf⟩ = h.roots.count r * (h.transitions s).count t := by
  obtain ⟨leaves,found,count⟩ := count_copies holds gathered root above parental t leaf
  rw [count,(count_leaves holds.linked found).1 below,Nat.mul_one]

end

theorem complete_iff_covered (holds : h.Of entries) : Complete h ↔ Covered h := by
  constructor
  · rintro ⟨fuel,cs,gathered,counts⟩ s written ⟨leaf,below⟩
    obtain ⟨t,among⟩ := exists_mem_of_ne_nil _ written
    have all := (counts s t leaf).1 below
    have positive : 0 < (h.transitions s).count t := count_pos_iff.mpr among
    have copied : (⟨s,t,leaf⟩ : Copy) ∈ cs := count_pos_iff.mp (all ▸ positive)
    obtain ⟨parental,r,root,above⟩ := of_mem_copies holds gathered copied
    rw [count_below holds gathered root above parental below] at all
    exact ⟨parental,r,Nat.eq_of_mul_eq_mul_right positive (by rw [all,Nat.one_mul]),above⟩
  · intro covered
    obtain ⟨cs,gathered⟩ := Option.isSome_iff_exists.mp (copies_isSome holds (Nat.lt_succ_self _))
    refine ⟨_,cs,gathered,fun s t leaf => ⟨fun below => ?_,fun outside => ?_⟩⟩
    · by_cases written : h.transitions s = []
      · have none : (⟨s,t,leaf⟩ : Copy) ∉ cs := by
          intro copied
          obtain ⟨parental,r,root,above⟩ := of_mem_copies holds gathered copied
          have count := count_below (t := t) holds gathered root above parental below
          rw [written,count_nil,Nat.mul_zero] at count
          exact absurd count (Nat.ne_of_gt (count_pos_iff.mpr copied))
        rw [count_eq_zero_of_not_mem none,written,count_nil]
      · obtain ⟨parental,r,once,above⟩ := covered s written ⟨leaf,below⟩
        have root : r ∈ h.roots := count_pos_iff.mp (by omega)
        rw [count_below holds gathered root above parental below,once,Nat.one_mul]
    · by_contra copied
      have mem := count_pos_iff.mp (Nat.pos_of_ne_zero copied)
      obtain ⟨parental,r,root,above⟩ := of_mem_copies holds gathered mem
      obtain ⟨leaves,found,count⟩ := count_copies holds gathered root above parental t leaf
      rw [count,(count_leaves holds.linked found).2 outside,Nat.mul_zero,Nat.mul_zero] at copied
      exact copied rfl

end

/-- Every leaf gets each transition of the states above it, in just the hierarchies whose states lie below one root. -/
theorem expansion_complete_iff (yp : YamlProtocol) (p : Parsed) (accepted : parseYaml yp = .ok p) :
    ∀ h ∈ p.hierarchies, Complete h ↔ Covered h := by
  intro h among
  obtain ⟨entries,holds⟩ := parseYaml_ok accepted h among
  exact complete_iff_covered holds

theorem altPath_complete : parseYaml (backendWith altPath) = .ok (parsed altPath) ∧ Complete (built altPath) := by
  refine ⟨rfl,(expansion_complete_iff (backendWith altPath) (parsed altPath) rfl _ mem_cons_self).mpr ?_⟩
  intro s written _
  have under : s = "AltPath" := by
    by_contra other
    have accepted : parseStateHierarchy altPath = .ok (built altPath) := rfl
    obtain ⟨entries,decoded,holds⟩ := parseStateHierarchy_ok accepted
    cases decoded
    have only : (built altPath).transitions s =
        (if "AltPath" = s then converted [backgroundTick] else []) ++ [] := holds.transitions s
    rw [if_neg (Ne.symm other)] at only
    exact written only
  subst under
  exact ⟨by decide,"AltPath",by decide,.refl⟩

def childless : List (Name × Option YamlStateNode) := [("Idle",some ⟨[],[backgroundTick]⟩)]

theorem childless_not_expanded : parseYaml (backendWith childless) = .ok (parsed childless) ∧
    (parsed childless).protocol.validate = none ∧ built childless ∈ (parsed childless).hierarchies ∧
    (built childless).transitions "Idle" ≠ [] ∧ (built childless).children "Idle" = [] ∧
    ¬Complete (built childless) := by
  refine ⟨rfl,by decide,mem_cons_self,by decide,by decide,?_⟩
  rintro ⟨fuel,cs,gathered,counts⟩
  cases gathered
  have once := (counts "Idle" ⟨[],[],⟨.internal,[],"tick"⟩,[],[],[],[],[]⟩ "Idle").1 ⟨.refl,by decide⟩
  exact absurd once (by decide)

end Pigeon.YamlProtocols
