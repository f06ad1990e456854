import Mathlib.Data.List.Nodup
import Mathlib.Data.List.Count
import Pigeon.Octets

/-!
Authenticated encryption as the verified code relies on it: 32-octet keys, an
AEAD with a 16-octet tag (`Aead`), and logs of the (key, nonce) pairs that
encryptions use. A log in which each key is used with the nonces of `0, 1, 2, …`
in turn (`InTurn`) repeats no pair as long as no key is used more often than
there are nonces (`nodup_of_inTurn`).
-/
namespace Pigeon.Sealing
open Octets List

@[ext]
structure Key where
  bytes : Bytes
  length : bytes.length = 32
deriving DecidableEq

/-- The documented behaviour of AES-256-GCM: sealing and opening are inverse, and a sealing is 16 octets longer.
    Arguments: key, nonce, associated data, text. -/
structure Aead where
  encrypt : Key → Bytes → Bytes → Bytes → Bytes
  decrypt : Key → Bytes → Bytes → Bytes → Option Bytes
  decrypt_encrypt : ∀ k n a p, decrypt k n a (encrypt k n a p) = some p
  encrypt_decrypt : ∀ k n a c p, decrypt k n a c = some p → encrypt k n a p = c
  encrypt_length : ∀ k n a p, (encrypt k n a p).length = p.length + 16

attribute [simp] Aead.decrypt_encrypt Aead.encrypt_length

theorem Aead.length_of_decrypt (aead : Aead) {k n a c p} (opened : aead.decrypt k n a c = some p) :
    c.length = p.length + 16 := by
  rw [← aead.encrypt_decrypt k n a c p opened,aead.encrypt_length]

def checksum (k : Key) (n a p : Bytes) : UInt8 :=
  (k.bytes ++ n ++ a ++ p).foldl (fun sum b => sum * 31 + b) 7

def checked : Aead where
  encrypt k n a p := p ++ replicate 16 (checksum k n a p)
  decrypt k n a c :=
    let p := c.take (c.length - 16)
    if c = p ++ replicate 16 (checksum k n a p) then some p else none
  decrypt_encrypt k n a p := by simp
  encrypt_decrypt k n a c p opened := by
    simp only at opened
    split at opened
    · rename_i same
      cases opened
      exact same.symm
    · cases opened
  encrypt_length k n a p := by simp

def mixed (key message : Bytes) : Key :=
  ⟨le 32 ((key ++ message).foldl (fun sum b => (sum * 257 + b.toNat + 1) % (2 ^ 256 - 189)) 0),le_length 32 _⟩

def keyA : Key := ⟨replicate 32 1,by decide⟩
def keyB : Key := ⟨replicate 32 2,by decide⟩

section
variable {K N : Type} [DecidableEq K]

def uses (log : List (K × N)) (k : K) : Nat := (log.filter (·.1 = k)).length

/-- Every key of the log is used with the nonces of `0, 1, 2, …` in turn. -/
def InTurn (nonce : Nat → N) (log : List (K × N)) : Prop :=
  ∀ k, log.filter (·.1 = k) = (range (uses log k)).map (fun i => (k,nonce i))

theorem inTurn_nil (nonce : Nat → N) : InTurn nonce ([] : List (K × N)) := by
  intro k; simp [uses]

theorem uses_append (log more : List (K × N)) (k : K) : uses (log ++ more) k = uses log k + uses more k := by
  simp [uses]

theorem uses_single (k k' : K) (n : N) : uses [(k,n)] k' = if k = k' then 1 else 0 := by
  by_cases same : k = k' <;> simp [uses,same]

theorem uses_snoc_self (log : List (K × N)) (k : K) (n : N) : uses (log ++ [(k,n)]) k = uses log k + 1 := by
  simp [uses_append,uses_single]

theorem uses_snoc_other (log : List (K × N)) {k k'} (differ : k ≠ k') (n : N) :
    uses (log ++ [(k,n)]) k' = uses log k' := by
  simp [uses_append,uses_single,differ]

theorem uses_eq_zero {log : List (K × N)} {k} (unused : ∀ e ∈ log, e.1 ≠ k) : uses log k = 0 := by
  simpa [uses] using unused

theorem exists_of_uses {log : List (K × N)} {k} (used : uses log k ≠ 0) : ∃ e ∈ log, e.1 = k := by
  by_contra none
  exact used (uses_eq_zero (fun e mem same => none ⟨e,mem,same⟩))

theorem uses_le_length (log : List (K × N)) (k : K) : uses log k ≤ log.length := length_filter_le _ _

theorem inTurn_snoc {nonce : Nat → N} {log : List (K × N)} (inTurn : InTurn nonce log) (k : K) :
    InTurn nonce (log ++ [(k,nonce (uses log k))]) := by
  intro k'
  rw [filter_append,inTurn k',uses_append,uses_single]
  by_cases same : k = k'
  · subst same
    simp [range_succ]
  · simp [same]

theorem inTurn_mem {nonce : Nat → N} {log : List (K × N)} (inTurn : InTurn nonce log) {k} {i : Nat}
    (used : i < uses log k) : (k,nonce i) ∈ log := by
  have mem : (k,nonce i) ∈ log.filter (·.1 = k) := by
    rw [inTurn k]
    exact mem_map.mpr ⟨i,mem_range.mpr used,rfl⟩
  exact (mem_filter.mp mem).1

theorem nodup_of_inTurn [DecidableEq N] {nonce : Nat → N} {bound : Nat}
    (distinct : ∀ i j, i < bound → j < bound → nonce i = nonce j → i = j) {log : List (K × N)}
    (inTurn : InTurn nonce log) (few : ∀ k, uses log k ≤ bound) : log.Nodup := by
  rw [nodup_iff_count_le_one]
  rintro ⟨k,n⟩
  have counted : (log.filter (·.1 = k)).count (k,n) = log.count (k,n) := count_filter (by simp)
  rw [← counted,inTurn k]
  apply nodup_iff_count_le_one.mp
  apply Nodup.map_on _ nodup_range
  intro i inside j inside' same
  have small := mem_range.mp inside
  have small' := mem_range.mp inside'
  have cap := few k
  exact distinct i j (by omega) (by omega) (Prod.mk.inj same).2

end

end Pigeon.Sealing
