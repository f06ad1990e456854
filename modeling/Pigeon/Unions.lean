import Pigeon.KeySchedule

/-!
Prefix-dispatched wire formats (`protocol/wireformats.go`): what the code that `goEmitUnion`
writes computes. A variant is a literal prefix with fields, or with strings set off by colons;
a string can have a colon only where it is the last (`splitN_joined`, `head_splitN`).
-/
namespace Pigeon.Unions
open Octets KeySchedule

structure WireUnion where
  name : String
  lead : Bytes
  (fields colonSuffix : List String)
deriving DecidableEq

def colon : UInt8 := 58

def joined (values : List Bytes) : Bytes := values.flatMap (colon :: ·)

def WireUnion.encode (u : WireUnion) (values : List Bytes) : Bytes :=
  if u.colonSuffix = [] then u.lead ++ values.flatten
  else u.lead ++ (if values.any (fun p => decide (p ≠ [])) then joined values else [])

def splitN (sep : UInt8) : Nat → Bytes → List Bytes
  | 0, _ => []
  | 1, s => [s]
  | n + 2, s =>
    match s.dropWhile (· ≠ sep) with
    | [] => [s]
    | _ :: rest => s.takeWhile (· ≠ sep) :: splitN sep (n + 1) rest

def WireUnion.decode (format : String) (u : WireUnion) (rest : Bytes) : Except String (List (String × Bytes)) :=
  if u.colonSuffix = [] then .ok (u.fields.map (fun field => (field,rest)))
  else
    match rest with
    | [] => .ok []
    | c :: rest =>
      if c ≠ colon then .error (format ++ ": malformed " ++ u.name ++ ": missing ':' after prefix")
      else .ok (u.colonSuffix.zip (splitN colon u.colonSuffix.length rest))

def exchange (first : WireUnion × Nat) : List (WireUnion × Nat) → (WireUnion × Nat) × List (WireUnion × Nat)
  | [] => (first,[])
  | u :: rest =>
    if first.1.lead.length < u.1.lead.length then
      let swapped := exchange u rest
      (swapped.1,first :: swapped.2)
    else
      let kept := exchange first rest
      (kept.1,u :: kept.2)

def orderedFrom : Nat → List (WireUnion × Nat) → List (WireUnion × Nat)
  | 0, us => us
  | _ + 1, [] => []
  | n + 1, u :: rest => (exchange u rest).1 :: orderedFrom n (exchange u rest).2

def ordered (union : List WireUnion) : List (WireUnion × Nat) := orderedFrom union.length union.zipIdx

/-- The code of `goEmitUnion`. -/
def decodeUnion (format : String) (union : List WireUnion) (s : Bytes) : Except String (Nat × List (String × Bytes)) :=
  match (ordered union).find? (·.1.lead.isPrefixOf s) with
  | none => .error (format ++ ": unrecognised prefix")
  | some (u,tag) => (u.decode format (s.drop u.lead.length)).map (fun values => (tag,values))

theorem splitN_joined (values : List Bytes) (last : Bytes) (clean : ∀ v ∈ values, colon ∉ v) :
    splitN colon (values.length + 1) (joined (values ++ [last])).tail = values ++ [last] := by
  induction values with
  | nil => simp [splitN,joined]
  | cons v values ih =>
    have here : colon ∉ v := clean v List.mem_cons_self
    have split : (joined (v :: values ++ [last])).tail = v ++ colon :: (joined (values ++ [last])).tail := by
      cases values <;> simp [joined]
    rw [split,List.length_cons,splitN,dropWhile_append_of_notMem here,takeWhile_append_of_notMem here]
    exact congrArg (v :: ·) (ih (fun w mem => clean w (List.mem_cons_of_mem _ mem)))

theorem head_splitN {sep n s first} (found : (splitN sep (n + 2) s).head? = some first) : sep ∉ first := by
  rw [splitN] at found
  split at found
  next all =>
    cases found
    intro mem
    have stays := List.dropWhile_eq_nil_iff.mp all sep mem
    simp at stays
  next =>
    cases found
    intro mem
    have passed := List.mem_takeWhile_imp mem
    simp at passed

end Pigeon.Unions
