import Mathlib.Order.Basic

/-!
Queues by key: a map from keys to queues, kept as one list of entries, the oldest
first. Adding an entry is appending it, taking one out is erasing it. When the
values are numbers that grow with time the list is sorted, and the head of a
queue is smaller than what stays in it (`head_lt_of_sorted`).
-/
namespace Pigeon.Queues
open List
variable {K V : Type}

theorem nodup_of_sorted [Preorder V] {entries : List (K × V)} (sorted : entries.Pairwise (fun a b => a.2 < b.2)) :
    entries.Nodup := by
  refine sorted.imp ?_
  intro a b less same
  rw [same] at less
  exact lt_irrefl b.2 less

theorem count_values_erase [BEq (K × V)] [LawfulBEq (K × V)] [DecidableEq V] {entries : List (K × V)} {e}
    (mem : e ∈ entries) (v : V) :
    (if e.2 = v then 1 else 0) + ((entries.erase e).map Prod.snd).count v = (entries.map Prod.snd).count v := by
  rw [((perm_cons_erase mem).map Prod.snd).count_eq v,map_cons,count_cons]
  simp only [beq_iff_eq]
  exact Nat.add_comm _ _

variable [DecidableEq K]

def queue (entries : List (K × V)) (key : K) : List V := (entries.filter (·.1 = key)).map Prod.snd

@[simp] theorem mem_queue {entries : List (K × V)} {key v} : v ∈ queue entries key ↔ (key,v) ∈ entries := by
  simp [queue]

theorem queue_append (entries : List (K × V)) (key other : K) (v : V) :
    queue (entries ++ [(key,v)]) other = queue entries other ++ if key = other then [v] else [] := by
  by_cases same : key = other
  · simp [queue,same]
  · simp [queue,same]

theorem queue_sublist {entries more : List (K × V)} (sub : entries.Sublist more) (key : K) :
    (queue entries key).Sublist (queue more key) :=
  (sub.filter _).map _

theorem queue_nil_of_sublist {entries more : List (K × V)} (sub : entries.Sublist more) {key}
    (empty : queue more key = []) : queue entries key = [] :=
  sublist_nil.mp (empty ▸ queue_sublist sub key)

theorem mem_of_head {entries : List (K × V)} {key v} {rest : List V} (head : queue entries key = v :: rest) :
    (key,v) ∈ entries :=
  mem_queue.mp (head ▸ mem_cons_self)

theorem head_lt_of_sorted [Preorder V] [BEq (K × V)] [LawfulBEq (K × V)] {entries : List (K × V)}
    (sorted : entries.Pairwise (fun a b => a.2 < b.2)) {key v} {rest : List V}
    (head : queue entries key = v :: rest) {u} (left : (key,u) ∈ entries.erase (key,v)) : v < u := by
  have queueSorted : (queue entries key).Pairwise (· < ·) := pairwise_map.mpr (sorted.filter _)
  rw [head] at queueSorted
  have mem : u ∈ v :: rest := head ▸ mem_queue.mpr (mem_of_mem_erase left)
  rcases mem_cons.mp mem with rfl | later
  · exact absurd left (nodup_of_sorted sorted).not_mem_erase
  · exact rel_of_pairwise_cons queueSorted later

end Pigeon.Queues
