import Mathlib.Data.List.Count
import Mathlib.Data.List.Nodup
import Mathlib.Logic.Relation

/-!
Walks along the child pointers of a graph that may have cycles. `walk` gives up after a bound
on its depth; some bound is enough if no cycle can be reached (`walk_isSome_of_acyclic`) and
only then (`acyclic_of_walk`). Where no node has two parents, a root reaches no cycle
(`acyclic_of_root`), and each node is visited once (`count_walk`).
-/
namespace Pigeon.PointerForests
open Relation List Option

section
variable {α β : Type} {visit : α → Option (List β)} {xs : List α} {ys : List β}

def gather (visit : α → Option (List β)) : List α → Option (List β)
  | [] => some []
  | x :: xs => (visit x).bind fun here => (gather visit xs).map (here ++ ·)

theorem both_eq_some {a b : Option (List β)} : (a.bind fun here => b.map (here ++ ·)) = some ys ↔
    ∃ here rest, a = some here ∧ b = some rest ∧ ys = here ++ rest := by
  simp only [bind_eq_some_iff,map_eq_some_iff]
  constructor
  · rintro ⟨here,visited,rest,gathered,rfl⟩
    exact ⟨here,rest,visited,gathered,rfl⟩
  · rintro ⟨here,rest,visited,gathered,rfl⟩
    exact ⟨here,visited,rest,gathered,rfl⟩

theorem gather_cons_eq_some {x} : gather visit (x :: xs) = some ys ↔
    ∃ here rest, visit x = some here ∧ gather visit xs = some rest ∧ ys = here ++ rest := both_eq_some

theorem gather_isSome : (gather visit xs).isSome ↔ ∀ x ∈ xs, (visit x).isSome := by
  induction xs with
  | nil => simp [gather]
  | cons x xs ih =>
    rw [forall_mem_cons,← ih]
    cases visited : visit x with
    | none | some => simp [gather,visited]

theorem gather_congr {visit'} (same : ∀ x ∈ xs, visit x = visit' x) : gather visit xs = gather visit' xs := by
  induction xs with
  | nil => rfl
  | cons x xs ih =>
    rw [gather,gather,same x mem_cons_self,ih (fun other among => same other (mem_cons_of_mem x among))]

theorem flatMap_of_gather {γ : Type} (gathered : gather visit xs = some ys) {f} (g : β → γ)
    (same : ∀ x ∈ xs, ∀ zs, visit x = some zs → f x = zs.map g) : xs.flatMap f = ys.map g := by
  induction xs generalizing ys with
  | nil =>
    cases gathered
    rfl
  | cons x xs ih =>
    obtain ⟨here,rest,visited,others,rfl⟩ := gather_cons_eq_some.mp gathered
    rw [flatMap_cons,same x mem_cons_self here visited,map_append,
      ih others (fun other among => same other (mem_cons_of_mem x among))]

theorem mem_gather (gathered : gather visit xs = some ys) {b} (among : b ∈ ys) :
    ∃ x ∈ xs, ∃ zs, visit x = some zs ∧ b ∈ zs := by
  induction xs generalizing ys with
  | nil =>
    cases gathered
    cases among
  | cons x xs ih =>
    obtain ⟨here,rest,visited,others,rfl⟩ := gather_cons_eq_some.mp gathered
    rcases mem_append.mp among with first | later
    · exact ⟨x,mem_cons_self,here,visited,first⟩
    · obtain ⟨other,mem,found⟩ := ih others later
      exact ⟨other,mem_cons_of_mem x mem,found⟩

theorem count_gather [BEq α] [LawfulBEq α] [BEq β] [LawfulBEq β] (gathered : gather visit xs = some ys) {x zs}
    (visited : visit x = some zs) {b} (others : ∀ x' ∈ xs, x' ≠ x → ∀ zs', visit x' = some zs' → b ∉ zs') :
    ys.count b = xs.count x * zs.count b := by
  induction xs generalizing ys with
  | nil =>
    cases gathered
    simp
  | cons first xs ih =>
    obtain ⟨here,rest,found,after,rfl⟩ := gather_cons_eq_some.mp gathered
    have later := ih after (fun x' among => others x' (mem_cons_of_mem first among))
    rw [count_append,later]
    by_cases same : first = x
    · subst same
      cases visited.symm.trans found
      rw [count_cons_self,Nat.add_mul,Nat.one_mul,Nat.add_comm]
    · rw [count_cons_of_ne same,count_eq_zero_of_not_mem (others first mem_cons_self same here found),Nat.zero_add]

end

section
variable {α β : Type} (children : α → List α)

def Child (a b : α) : Prop := b ∈ children a

def Reaches : α → α → Prop := ReflTransGen (Child children)

def OnCycle (a : α) : Prop := TransGen (Child children) a a

def Acyclic (a : α) : Prop := ∀ b, Reaches children a b → ¬OnCycle children b

def walk (own : α → Option (List β)) : Nat → α → Option (List β)
  | 0, _ => none
  | fuel + 1, n => (own n).bind fun here => (gather (walk own fuel) (children n)).map (here ++ ·)

variable {children} {own : α → Option (List β)}

theorem Acyclic.child {a b : α} (acyclic : Acyclic children a) (child : b ∈ children a) : Acyclic children b :=
  fun c below => acyclic c (.head child below)

variable {fuel : Nat}

theorem walk_eq_some {n : α} {xs : List β} : walk children own (fuel + 1) n = some xs ↔
    ∃ here rest, own n = some here ∧ gather (walk children own fuel) (children n) = some rest ∧ xs = here ++ rest :=
  both_eq_some

theorem walk_child {n c} (returns : (walk children own (fuel + 1) n).isSome) (child : c ∈ children n) :
    (walk children own fuel c).isSome := by
  obtain ⟨xs,walked⟩ := isSome_iff_exists.mp returns
  obtain ⟨here,rest,_,gathered,_⟩ := walk_eq_some.mp walked
  exact gather_isSome.mp (by rw [gathered]; rfl) c child

theorem walk_isSome_of_walk {γ : Type} {own' : α → Option (List γ)} (total : ∀ m, (own' m).isSome) {n : α}
    (returns : (walk children own fuel n).isSome) : (walk children own' fuel n).isSome := by
  induction fuel generalizing n with
  | zero => cases returns
  | succ fuel ih =>
    obtain ⟨here,found⟩ := isSome_iff_exists.mp (total n)
    obtain ⟨rest,gathered⟩ := isSome_iff_exists.mp (gather_isSome.mpr fun c child => ih (walk_child returns child))
    exact isSome_iff_exists.mpr ⟨here ++ rest,walk_eq_some.mpr ⟨here,rest,found,gathered,rfl⟩⟩

theorem walk_mono {more} (le : fuel ≤ more) {n xs}
    (walked : walk children own fuel n = some xs) : walk children own more n = some xs := by
  induction fuel generalizing more n xs with
  | zero => cases walked
  | succ fuel ih =>
    obtain ⟨more,rfl⟩ : ∃ k, more = k + 1 := ⟨more - 1,by omega⟩
    obtain ⟨here,rest,found,gathered,rfl⟩ := walk_eq_some.mp walked
    refine walk_eq_some.mpr ⟨here,rest,found,?_,rfl⟩
    rw [← gathered]
    refine (gather_congr fun c child => ?_).symm
    obtain ⟨ys,below⟩ := isSome_iff_exists.mp (walk_child (by rw [walked]; rfl) child)
    rw [below,ih (Nat.le_of_succ_le_succ le) below]

section
variable {n : α} (returns : (walk children own fuel n).isSome)
include returns

theorem walk_below {m}
    (below : TransGen (Child children) n m) : ∃ less < fuel, (walk children own less m).isSome := by
  induction below with
  | single child =>
    cases fuel with
    | zero => cases returns
    | succ fuel => exact ⟨fuel,Nat.lt_succ_self fuel,walk_child returns child⟩
  | tail _ child ih =>
    obtain ⟨less,lt,returns⟩ := ih
    cases less with
    | zero => cases returns
    | succ less => exact ⟨less,by omega,walk_child returns child⟩

theorem not_onCycle_of_walk : ¬OnCycle children n := by
  intro cycle
  induction fuel using Nat.strongRecOn with
  | ind fuel ih =>
    obtain ⟨less,lt,returns⟩ := walk_below returns cycle
    exact ih less lt returns

theorem acyclic_of_walk : Acyclic children n := by
  intro m below
  rcases ReflTransGen.cases_head_iff.mp below with rfl | ⟨c,child,rest⟩
  · exact not_onCycle_of_walk returns
  · obtain ⟨less,_,returns⟩ := walk_below returns (TransGen.head' child rest)
    exact not_onCycle_of_walk returns

end

theorem walk_isSome_of_path {nodes : List α} {n : α} (path : List α)
    (closed : ∀ a ∈ nodes, ∀ c ∈ children a, c ∈ nodes) (total : ∀ m, Reaches children n m → (own m).isSome)
    (acyclic : Acyclic children n) (mem : n ∈ nodes) (above : ∀ a ∈ path, a ∈ nodes ∧ TransGen (Child children) a n) (apart : path.Nodup)
    (enough : nodes.length < fuel + path.length) : (walk children own fuel n).isSome := by
  induction fuel generalizing n path with
  | zero =>
    have bounded := (subperm_of_subset apart fun a among => (above a among).1).length_le
    omega
  | succ fuel ih =>
    obtain ⟨here,found⟩ := isSome_iff_exists.mp (total n .refl)
    have fresh : n ∉ path := fun among => acyclic n .refl (above n among).2
    have gathered : (gather (walk children own fuel) (children n)).isSome := by
      refine gather_isSome.mpr (fun c child => ?_)
      refine ih (n :: path) (fun m below => total m (.head child below)) (acyclic.child child)
        (closed n mem c child) ?_ (nodup_cons.mpr ⟨fresh,apart⟩) (by rw [length_cons]; omega)
      rintro a among
      rcases mem_cons.mp among with rfl | later
      · exact ⟨mem,.single child⟩
      · exact ⟨(above a later).1,(above a later).2.tail child⟩
    obtain ⟨rest,gathered⟩ := isSome_iff_exists.mp gathered
    exact isSome_iff_exists.mpr ⟨here ++ rest,walk_eq_some.mpr ⟨here,rest,found,gathered,rfl⟩⟩

theorem walk_isSome_of_acyclic {nodes : List α} {n} (closed : ∀ a ∈ nodes, ∀ c ∈ children a, c ∈ nodes)
    (total : ∀ m, Reaches children n m → (own m).isSome) (acyclic : Acyclic children n) (mem : n ∈ nodes)
    (enough : nodes.length < fuel) : (walk children own fuel n).isSome :=
  walk_isSome_of_path [] closed total acyclic mem (by simp) nodup_nil (by simpa using enough)

end

structure Forest {α : Type} (children : α → List α) : Prop where
  single : ∀ {a b c}, c ∈ children a → c ∈ children b → a = b
  nodup : ∀ a, (children a).Nodup

section
variable {α β : Type} {children : α → List α} (forest : Forest children)

include forest

theorem onCycle_above {r n} (above : Reaches children r n) (cycle : OnCycle children n) : OnCycle children r := by
  induction above with
  | refl => exact cycle
  | @tail m n _ child ih =>
    obtain ⟨last,below,parent⟩ := TransGen.tail'_iff.mp cycle
    obtain rfl := forest.single child parent
    exact ih (TransGen.head' child below)

theorem acyclic_of_root {r} (root : ∀ a, r ∉ children a) : Acyclic children r := by
  intro n below cycle
  obtain ⟨last,_,parent⟩ := TransGen.tail'_iff.mp (onCycle_above forest below cycle)
  exact root last parent

theorem reaches_or {a b n} (left : Reaches children a n) (right : Reaches children b n) :
    Reaches children a b ∨ Reaches children b a := by
  induction left with
  | refl => exact .inr right
  | @tail m n above child ih =>
    rcases ReflTransGen.cases_tail_iff _ _ _ |>.mp right with rfl | ⟨last,rest,parent⟩
    · exact .inl (.tail above child)
    · obtain rfl := forest.single child parent
      exact ih rest

theorem root_unique {r r' n} (root : ∀ a, r ∉ children a) (root' : ∀ a, r' ∉ children a)
    (above : Reaches children r n) (above' : Reaches children r' n) : r = r' := by
  rcases reaches_or forest above above' with down | down
  · rcases ReflTransGen.cases_tail_iff _ _ _ |>.mp down with same | ⟨last,_,parent⟩
    · exact same.symm
    · exact absurd parent (root' last)
  · rcases ReflTransGen.cases_tail_iff _ _ _ |>.mp down with same | ⟨last,_,parent⟩
    · exact same
    · exact absurd parent (root last)

theorem siblings_apart {n c c' m} (acyclic : ¬OnCycle children n) (child : c ∈ children n)
    (child' : c' ∈ children n) (below : Reaches children c m) (below' : Reaches children c' m) : c = c' := by
  have apart : ∀ {c c'}, c ∈ children n → c' ∈ children n → Reaches children c c' → c = c' := by
    intro c c' child child' down
    rcases ReflTransGen.cases_tail_iff _ _ _ |>.mp down with same | ⟨last,rest,parent⟩
    · exact same.symm
    · obtain rfl := forest.single child' parent
      exact absurd (TransGen.head' child rest) acyclic
  rcases reaches_or forest below below' with down | down
  · exact apart child child' down
  · exact (apart child' child down).symm

variable {own : α → Option (List β)} {tag : β → α} (tagged : ∀ n xs, own n = some xs → ∀ b ∈ xs, tag b = n)

omit forest in
include tagged in
theorem reaches_of_mem_walk {fuel n xs} (walked : walk children own fuel n = some xs) {b}
    (among : b ∈ xs) : Reaches children n (tag b) := by
  induction fuel generalizing n xs with
  | zero => cases walked
  | succ fuel ih =>
    obtain ⟨here,rest,found,gathered,rfl⟩ := walk_eq_some.mp walked
    rcases mem_append.mp among with first | later
    · rw [tagged n here found b first]
      exact .refl
    · obtain ⟨c,child,ys,below,mem⟩ := mem_gather gathered later
      exact .head child (ih below mem)

include tagged in
theorem count_walk [BEq α] [LawfulBEq α] [BEq β] [LawfulBEq β] {fuel n xs}
    (walked : walk children own fuel n = some xs) {b} (below : Reaches children n (tag b)) :
    ∃ ys, own (tag b) = some ys ∧ xs.count b = ys.count b := by
  have acyclic : Acyclic children n := acyclic_of_walk (by rw [walked]; rfl)
  induction fuel generalizing n xs with
  | zero => cases walked
  | succ fuel ih =>
    obtain ⟨here,rest,found,gathered,rfl⟩ := walk_eq_some.mp walked
    rcases ReflTransGen.cases_head_iff.mp below with rfl | ⟨c,child,deeper⟩
    · refine ⟨here,found,?_⟩
      have nowhere : b ∉ rest := by
        intro later
        obtain ⟨c,child,ys,walked,mem⟩ := mem_gather gathered later
        exact acyclic _ .refl (TransGen.head' child (reaches_of_mem_walk tagged walked mem))
      rw [count_append,count_eq_zero_of_not_mem nowhere,Nat.add_zero]
    · obtain ⟨zs,walkedChild⟩ := isSome_iff_exists.mp (walk_child (by rw [walked]; rfl) child)
      obtain ⟨ys,given,same⟩ := ih walkedChild deeper (acyclic.child child)
      refine ⟨ys,given,?_⟩
      have elsewhere : b ∉ here := by
        intro first
        have top := tagged n here found b first
        rw [top] at deeper
        exact acyclic n .refl (TransGen.head' child deeper)
      have others : ∀ c' ∈ children n, c' ≠ c → ∀ zs', walk children own fuel c' = some zs' → b ∉ zs' := by
        intro c' child' other zs' walked' mem
        exact other (siblings_apart forest (acyclic n .refl) child' child (reaches_of_mem_walk tagged walked' mem)
          deeper)
      rw [count_append,count_eq_zero_of_not_mem elsewhere,count_gather gathered walkedChild others,
        count_eq_one_of_mem (forest.nodup n) child,Nat.zero_add,Nat.one_mul,same]

end

end Pigeon.PointerForests
