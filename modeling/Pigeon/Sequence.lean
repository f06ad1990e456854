import Mathlib.Data.List.Nodup
import Mathlib.Data.List.Range
import Pigeon.Runs

/-!
Receivers of numbered items, in `exact` order or any `forward` one. What is taken is numbered
without gaps in the first case (`exact_consecutive`) and increasingly in the second
(`forward_increasing`). `CountsFrom` is counting up for numbers that may wrap.
-/
namespace Pigeon.Sequence
open Runs List
universe u v

variable {P : Type u}

inductive Order
  | exact
  | forward

def inOrder : Order → Nat → Nat → Bool
  | .exact, next, i => decide (i = next)
  | .forward, next, i => decide (next ≤ i)

def receive (order : Order) (next : Nat) : Option (Nat × P) → Nat × Option (Nat × P)
  | none => (next,none)
  | some (i,p) => if inOrder order next i then (i + 1,some (i,p)) else (next,none)

def taken (order : Order) (next : Nat) (inputs : List (Option (Nat × P))) : List (Nat × P) :=
  (answers (receive order) next inputs).filterMap id

variable {order : Order} {next : Nat}

theorem receive_taken {input : Option (Nat × P)} {item : Nat × P} (took : (receive order next input).2 = some item) :
    input = some item ∧ inOrder order next item.1 ∧ (receive order next input).1 = item.1 + 1 := by
  cases input with
  | none => cases took
  | some given =>
    by_cases admitted : inOrder order next given.1
    · simp only [receive,admitted,if_true,Option.some.injEq] at took ⊢
      exact ⟨took,took ▸ admitted,by rw [← took]⟩
    · simp [receive,admitted] at took

theorem receive_refused {input : Option (Nat × P)}
    (refused : (receive order next input).2 = none) : (receive order next input).1 = next := by
  cases input with
  | none => rfl
  | some given =>
    by_cases admitted : inOrder order next given.1
    · simp [receive,admitted] at refused
    · simp [receive,admitted]

theorem taken_mem {inputs : List (Option (Nat × P))} {item : Nat × P}
    (mem : item ∈ taken order next inputs) : some item ∈ inputs := by
  induction inputs generalizing next with
  | nil => simp [taken] at mem
  | cons input rest ih =>
    simp only [taken,answers_cons] at mem
    cases answer : (receive order next input).2 with
    | none =>
      rw [answer,filterMap_cons_none (by rfl)] at mem
      exact mem_cons_of_mem _ (ih mem)
    | some first =>
      rw [answer,filterMap_cons_some (by rfl)] at mem
      rcases mem_cons.mp mem with same | later
      · rw [same,(receive_taken answer).1]; exact mem_cons_self
      · exact mem_cons_of_mem _ (ih later)

theorem exact_consecutive (next : Nat) (inputs : List (Option (Nat × P))) :
    (taken .exact next inputs).map Prod.fst = List.range' next (taken .exact next inputs).length := by
  induction inputs generalizing next with
  | nil => rfl
  | cons input rest ih =>
    simp only [taken,answers_cons]
    cases answer : (receive .exact next input).2 with
    | none =>
      rw [filterMap_cons_none (by rfl),receive_refused answer]
      exact ih next
    | some first =>
      obtain ⟨-,admitted,after⟩ := receive_taken answer
      have number : first.1 = next := by simpa [inOrder] using admitted
      rw [filterMap_cons_some (by rfl),after,number,map_cons,length_cons,range'_succ]
      rw [number]
      exact congrArg _ (ih (next + 1))

theorem forward_increasing (next : Nat) (inputs : List (Option (Nat × P))) :
    ((taken .forward next inputs).map Prod.fst).Pairwise (· < ·) ∧
      ∀ i ∈ (taken .forward next inputs).map Prod.fst, next ≤ i := by
  induction inputs generalizing next with
  | nil => simp [taken]
  | cons input rest ih =>
    simp only [taken,answers_cons]
    cases answer : (receive .forward next input).2 with
    | none =>
      rw [filterMap_cons_none (by rfl),receive_refused answer]
      exact ih next
    | some first =>
      obtain ⟨-,admitted,after⟩ := receive_taken answer
      have number : next ≤ first.1 := by simpa [inOrder] using admitted
      rw [filterMap_cons_some (by rfl),after]
      obtain ⟨increasing,bounded⟩ := ih (first.1 + 1)
      refine ⟨pairwise_cons.mpr ⟨fun i mem => bounded i mem,increasing⟩,?_⟩
      intro i mem
      rcases mem_cons.mp mem with same | later
      · rw [same]; exact number
      · have := bounded i later; omega

theorem taken_nodup (order : Order) (next : Nat) (inputs : List (Option (Nat × P))) :
    ((taken order next inputs).map Prod.fst).Nodup := by
  cases order with
  | exact =>
    rw [exact_consecutive]
    exact nodup_range'
  | forward => exact (forward_increasing next inputs).1.imp (fun before => ne_of_lt before)

theorem find?_of_unique {wanted : P → Bool} {entries : List P} {x : P} (mem : x ∈ entries) (own : wanted x)
    (only : ∀ y ∈ entries, wanted y → y = x) : entries.find? wanted = some x := by
  cases found : entries.find? wanted with
  | none => exact absurd own (find?_eq_none.mp found x mem)
  | some y => rw [only y (mem_of_find?_eq_some found) (find?_some found)]

variable {i : Nat}

theorem lt_of_getElem? {entries : List P} {p} (found : entries[i]? = some p) : i < entries.length :=
  (List.getElem?_eq_some_iff.mp found).1

theorem getElem?_set_found {entries : List P} {p q} (found : entries[i]? = some p) : (entries.set i q)[i]? = some q :=
  getElem?_set_self (lt_of_getElem? found)

theorem drop_of_getElem? {history : List P} {n : Nat} {p} (at_n : history[n]? = some p) :
    history.drop n = p :: history.drop (n + 1) := by
  obtain ⟨inside,value⟩ := List.getElem?_eq_some_iff.mp at_n
  rw [drop_eq_getElem_cons inside,value]

theorem map_set_same {Q : Type v} {entries : List P} {n : Nat} {p q : P} (view : P → Q) (at_n : entries[n]? = some p)
    (same : view q = view p) : (entries.set n q).map view = entries.map view := by
  obtain ⟨inside,value⟩ := List.getElem?_eq_some_iff.mp at_n
  have inside' : n < (entries.map view).length := by rw [length_map]; exact inside
  have entry : (entries.map view)[n] = view q := by rw [getElem_map,value,same]
  rw [map_set,← entry]
  exact set_getElem_self inside'

theorem getElem?_set_cases {entries : List P} {j : Nat} {p x : P} (found : (entries.set i p)[j]? = some x) :
    (j = i ∧ x = p) ∨ (j ≠ i ∧ entries[j]? = some x) := by
  by_cases same : j = i
  · subst same
    have mem := lt_of_getElem? found
    rw [length_set] at mem
    rw [getElem?_set_self mem] at found
    exact .inl ⟨rfl,(Option.some.inj found).symm⟩
  · rw [getElem?_set_ne (Ne.symm same)] at found
    exact .inr ⟨same,found⟩

theorem forall_set {Q : Nat → P → Prop} {entries : List P} {p : P} (new : Q i p)
    (old : ∀ j x, j ≠ i → entries[j]? = some x → Q j x) (j : Nat) (x : P) (found : (entries.set i p)[j]? = some x) :
    Q j x := by
  rcases getElem?_set_cases found with ⟨rfl,rfl⟩ | ⟨other,before⟩
  · exact new
  · exact old j x other before

theorem mem_snoc {log : List P} {last x} : x ∈ log ++ [last] ↔ x ∈ log ∨ x = last := by
  rw [mem_append,mem_singleton]

theorem pairwise_snoc {R : P → P → Prop} {log : List P} {last : P} :
    (log ++ [last]).Pairwise R ↔ log.Pairwise R ∧ ∀ x ∈ log, R x last := by
  simp [pairwise_append]

theorem forall_mem_snoc {Q : P → Prop} {log : List P} {last} :
    (∀ x ∈ log ++ [last], Q x) ↔ (∀ x ∈ log, Q x) ∧ Q last := by
  rw [forall_mem_append,forall_mem_singleton]

theorem getElem?_append_some {log more : List P} {entry} (found : log[i]? = some entry) :
    (log ++ more)[i]? = some entry := by
  rw [getElem?_append_left (lt_of_getElem? found),found]

theorem getElem?_snoc_cases {log : List P} {last entry} (found : (log ++ [last])[i]? = some entry) :
    log[i]? = some entry ∨ (i = log.length ∧ entry = last) := by
  rcases Nat.lt_trichotomy i log.length with before | rfl | after
  · rw [getElem?_append_left before] at found
    exact .inl found
  · rw [getElem?_concat_length] at found
    exact .inr ⟨rfl,(Option.some.inj found).symm⟩
  · rw [getElem?_eq_none (by rw [length_append]; exact after)] at found
    cases found

theorem payloads_of_consecutive {history : List P} {items : List (Nat × P)}
    (numbers : items.map Prod.fst = List.range' next items.length)
    (genuine : ∀ item ∈ items, history[item.1]? = some item.2) : items.map Prod.snd <+: history.drop next := by
  induction items generalizing next with
  | nil => simp
  | cons item rest ih =>
    rw [map_cons,length_cons,range'_succ,List.cons.injEq] at numbers
    have payload := genuine item mem_cons_self
    rw [numbers.1] at payload
    rw [drop_of_getElem? payload,map_cons,cons_prefix_cons]
    exact ⟨rfl,ih numbers.2 (fun it mem => genuine it (mem_cons_of_mem _ mem))⟩

theorem payloads_of_increasing {history : List P} {items : List (Nat × P)}
    (numbers : (items.map Prod.fst).Pairwise (· < ·)) (bounded : ∀ i ∈ items.map Prod.fst, next ≤ i)
    (genuine : ∀ item ∈ items, history[item.1]? = some item.2) :
    (items.map Prod.snd).Sublist (history.drop next) := by
  induction items generalizing next with
  | nil => simp
  | cons item rest ih =>
    rw [map_cons,pairwise_cons] at numbers
    have payload := genuine item mem_cons_self
    have low : next ≤ item.1 := bounded item.1 (by simp)
    have later : (rest.map Prod.snd).Sublist (history.drop (item.1 + 1)) :=
      ih numbers.2 (fun i mem => numbers.1 i mem) (fun it mem => genuine it (mem_cons_of_mem _ mem))
    -- The payload stands at its number; what comes before it is skipped.
    have here : (item.2 :: rest.map Prod.snd).Sublist (history.drop item.1) := by
      rw [drop_of_getElem? payload]
      exact later.cons_cons item.2
    exact here.trans (drop_sublist_drop_left history low)

def CountsFrom {N : Type v} (succ : N → N) : N → List N → Prop
  | _, [] => True
  | n, m :: rest => m = n ∧ CountsFrom succ (succ n) rest

variable {positions : List Nat}

theorem positions_inside {log out : List P}
    (picked : List.Forall₂ (fun p i => log[i]? = some p) out positions) : ∀ i ∈ positions, i < log.length := by
  induction picked with
  | nil => simp
  | cons found _ ih => exact forall_mem_cons.mpr ⟨lt_of_getElem? found,ih⟩

theorem isPrefix_iff_positions {log out : List P} (once : log.Nodup)
    (picked : List.Forall₂ (fun p i => log[i]? = some p) out positions) :
    out <+: log ↔ positions = List.range positions.length := by
  constructor
  · intro front
    refine ext_getElem (by simp) ?_
    intro i here _
    have same := picked.length_eq
    have entry := (List.forall₂_iff_get.mp picked).2 i (by omega) here
    have inside : i < log.length := by have := front.length_le; omega
    obtain ⟨placed,value⟩ := List.getElem?_eq_some_iff.mp entry
    simp only [get_eq_getElem] at placed value
    have first : log[i] = out[i] := (front.getElem (by omega)).symm
    rw [getElem_range]
    exact (List.Nodup.getElem_inj_iff once).mp (value.trans first.symm)
  · intro consecutive
    refine prefix_iff_getElem?.mpr ?_
    intro i here
    have there : i < positions.length := by rw [← picked.length_eq]; exact here
    have entry := (List.forall₂_iff_get.mp picked).2 i here there
    have place : positions[i] = i := by
      rw [getElem_of_eq consecutive there,getElem_range]
    simp only [get_eq_getElem,place] at entry
    exact entry

end Pigeon.Sequence
