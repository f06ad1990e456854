import Mathlib.Tactic.Common

/-!
Exact reads from a stream that arrives in chunks: the next `n` items of the chunks put
together, or failure. A reader with this law does not show how the stream was cut
(`framed_exact`).
-/
namespace Pigeon.Chunks
open List

variable {S α ε : Type}

def takeExact (n : Nat) (stream : List α) : List α × Option (List α) :=
  if stream.length < n then ([],none) else (stream.drop n,some (stream.take n))

structure Reader (S α ε : Type) where
  unread : S → List α
  read : Nat → S → S × Except ε (List α)
  unread_read : ∀ n s, unread (read n s).1 = (takeExact n (unread s)).1
  result_read : ∀ n s, (read n s).2.toOption = (takeExact n (unread s)).2

theorem takeExact_append {n front} (short : front.length ≤ n) (rest : List α) : takeExact n (front ++ rest) =
      ((takeExact (n - front.length) rest).1,(takeExact (n - front.length) rest).2.map (front ++ ·)) := by
  unfold takeExact
  rw [length_append]
  by_cases less : rest.length < n - front.length
  · rw [if_pos (by omega),if_pos less]
    rfl
  · rw [if_neg (by omega),if_neg less,drop_append,take_append,drop_of_length_le short,take_of_length_le short]
    rfl

theorem takeExact_within {n front} (long : n ≤ front.length) (rest : List α) :
    takeExact n (front ++ rest) = (front.drop n ++ rest,some (front.take n)) := by
  rw [takeExact,if_neg (by rw [length_append]; omega),drop_append_of_le_length long,take_append_of_le_length long]

theorem toOption_map {β : Type} (f : α → β) (result : Except ε α) : (result.map f).toOption = result.toOption.map f := by
  cases result <;> rfl

/-- A header of `width` items, and a body of the length that it says. -/
def Reader.framed (r : Reader S α ε) (width : Nat) (lengthOf : List α → Except ε Nat) (s : S) :
    S × Except ε (List α) :=
  match r.read width s with
  | (s,.error e) => (s,.error e)
  | (s,.ok header) =>
    match lengthOf header with
    | .error e => (s,.error e)
    | .ok n => r.read n s

def takeFramed (width : Nat) (lengthOf : List α → Option Nat) (stream : List α) : List α × Option (List α) :=
  match takeExact width stream with
  | (stream,none) => (stream,none)
  | (stream,some header) =>
    match lengthOf header with
    | none => (stream,none)
    | some n => takeExact n stream

theorem framed_exact (r : Reader S α ε) (width : Nat) (lengthOf : List α → Except ε Nat) (s : S) :
    r.unread (r.framed width lengthOf s).1 = (takeFramed width (fun h => (lengthOf h).toOption) (r.unread s)).1 ∧
      (r.framed width lengthOf s).2.toOption = (takeFramed width (fun h => (lengthOf h).toOption) (r.unread s)).2 := by
  have left := r.unread_read width s
  have got := r.result_read width s
  unfold Reader.framed takeFramed
  cases whole : takeExact width (r.unread s) with
  | mk stream header =>
    rw [whole] at left got
    cases part : r.read width s with
    | mk s' result =>
      rw [part] at left got
      simp only at left got
      cases result with
      | error e =>
        cases header with
        | none => exact ⟨left,rfl⟩
        | some header => cases got
      | ok items =>
        obtain rfl : some items = header := got
        simp only
        cases lengthOf items with
        | error e => exact ⟨left,rfl⟩
        | ok n => exact ⟨left ▸ r.unread_read n s',left ▸ r.result_read n s'⟩

end Pigeon.Chunks
