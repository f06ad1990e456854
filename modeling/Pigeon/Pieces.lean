import Mathlib.Tactic.Common

/-!
Cutting a list into pieces of one size, as a loop does that takes the elements from
`i * size` up to the next multiple, or up to the end. The pieces that reach the end
make up the list (`flatten_pieces`).
-/
namespace Pigeon.Pieces
open List
universe u
variable {P : Type u}

def slice (xs : List P) (start stop : Nat) : List P := (xs.take stop).drop start

def piece (xs : List P) (size i : Nat) : List P :=
  slice xs (i * size) (if xs.length < i * size + size then xs.length else i * size + size)

theorem piece_eq (xs : List P) (size i : Nat) : piece xs size i = (xs.drop (i * size)).take size := by
  unfold piece slice
  split
  next short =>
    rw [take_length,take_of_length_le]
    rw [length_drop]
    omega
  next => rw [drop_take,Nat.add_sub_cancel_left]

theorem length_piece_le (xs : List P) (size i : Nat) : (piece xs size i).length ≤ size := by
  rw [piece_eq]
  exact length_take_le _ _

theorem length_piece_full {xs : List P} {size i : Nat} (inside : i * size + size ≤ xs.length) :
    (piece xs size i).length = size := by
  rw [piece_eq,length_take,length_drop]
  omega

theorem flatten_pieces_take (xs : List P) (size n : Nat) :
    ((range n).map (piece xs size)).flatten = xs.take (n * size) := by
  induction n with
  | zero => simp
  | succ n ih => rw [range_succ,map_append,flatten_append,ih,Nat.succ_mul,take_add]; simp [piece_eq]

theorem flatten_pieces {xs : List P} {size n : Nat} (enough : xs.length ≤ n * size) :
    ((range n).map (piece xs size)).flatten = xs := by
  rw [flatten_pieces_take,take_of_length_le enough]

theorem length_le_pieces (length : Nat) {size} (positive : 0 < size) :
    length ≤ (length + size - 1) / size * size := by
  have split := Nat.div_add_mod (length + size - 1) size
  have small := Nat.mod_lt (length + size - 1) positive
  rw [Nat.mul_comm] at split
  omega

end Pigeon.Pieces
