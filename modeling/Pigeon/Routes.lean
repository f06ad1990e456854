import Pigeon.Framing

/-!
The reply to a route enumeration (`discovery.go`). The decoder makes a slice for as many
entries as the peer announces before it reads one. An encoded list is read back, and storage is
within a given multiple of the input just when the announced entries are, and no more than the
runtime provides (`routes_bounded_iff`).
-/
namespace Pigeon.Routes
open Octets Framing List

structure RouteEntry where
  (route metadata : Bytes)

def entrySize : Nat := 40

/-- `binary.AppendUvarint` of a length, and the octets. -/
def lenPrefixed (val : Bytes) : Bytes := putUvarint 9 val.length ++ val

def encodeRoutes (entries : List RouteEntry) : Bytes :=
  putUvarint 9 entries.length ++ (entries.map (fun e => lenPrefixed e.route ++ lenPrefixed e.metadata)).flatten

def readLenPrefixed (b : Bytes) : Except String (Bytes × Bytes) :=
  match getUvarint 0 0 b with
  | none => .error "bad length"
  | some (l,b) => if b.length < l then .error "truncated" else .ok (b.take l,b.drop l)

/-- The loop of `decodeRoutes` from the entry `i` on, with the octets of the names and of the metadata that it
    copies. -/
def readEntries : Nat → Nat → Bytes → Except String (List RouteEntry) × Nat
  | 0, _, _ => (.ok [],0)
  | left + 1, i, b =>
    match readLenPrefixed b with
    | .error err => (.error ("enumerate: route " ++ toString i ++ ": " ++ err),0)
    | .ok (route,rest) =>
      match readLenPrefixed rest with
      | .error err => (.error ("enumerate: metadata " ++ toString i ++ ": " ++ err),0)
      | .ok (metadata,rest) =>
        let later := readEntries left (i + 1) rest
        (later.1.map (⟨route,metadata⟩ :: ·),route.length + metadata.length + later.2)

inductive Outcome
  | returned (result : Except String (List RouteEntry))
  | panicked

/-- How a call ends, with the octets of the slice that it makes and of what it copies. -/
structure Call where
  outcome : Outcome
  (slice copied : Nat)

/-- `decodeRoutes`, where `room` is the largest capacity that `make` provides. -/
def decodeRoutes (room : Nat) (b : Bytes) : Call :=
  match getUvarint 0 0 b with
  | none => ⟨.returned (.error "enumerate: bad count"),0,0⟩
  | some (count,b) =>
    if room < count then ⟨.panicked,0,0⟩
    else
      let read := readEntries count 0 b
      ⟨.returned read.1,entrySize * count,read.2⟩

theorem readLenPrefixed_lenPrefixed {val} (small : val.length < 2 ^ 63) (rest : Bytes) :
    readLenPrefixed (lenPrefixed val ++ rest) = .ok (val,rest) := by
  have word : val.length * 128 ^ 0 < 2 ^ 64 := by omega
  have read := getUvarint_putUvarint (show 0 + 9 = 9 from rfl) word 0 (val ++ rest)
  simp only [Nat.zero_add,pow_zero,Nat.mul_one] at read
  rw [readLenPrefixed,lenPrefixed,append_assoc,read]
  simp

/-- Every name and every metadata is a value of the program, whose length is an `int`. -/
def InMemory (entries : List RouteEntry) : Prop :=
  ∀ e ∈ entries, e.route.length < 2 ^ 63 ∧ e.metadata.length < 2 ^ 63

theorem readEntries_encoded {entries} (small : InMemory entries) (i : Nat) : (readEntries entries.length i
      (entries.map (fun e => lenPrefixed e.route ++ lenPrefixed e.metadata)).flatten).1 = .ok entries := by
  induction entries generalizing i with
  | nil => rfl
  | cons e entries ih =>
    obtain ⟨name,data⟩ := small e mem_cons_self
    have later := ih (fun e mem => small e (mem_cons_of_mem _ mem)) (i + 1)
    rw [map_cons,flatten_cons,append_assoc,length_cons,readEntries,readLenPrefixed_lenPrefixed name]
    simp only [readLenPrefixed_lenPrefixed data,later]
    rfl

theorem decodeRoutes_encodeRoutes {room entries} (provided : entries.length ≤ room) (count : entries.length < 2 ^ 63)
    (small : InMemory entries) : (decodeRoutes room (encodeRoutes entries)).outcome = .returned (.ok entries) := by
  have word : entries.length * 128 ^ 0 < 2 ^ 64 := by omega
  have read := getUvarint_putUvarint (show 0 + 9 = 9 from rfl) word 0
    (entries.map (fun e => lenPrefixed e.route ++ lenPrefixed e.metadata)).flatten
  simp only [Nat.zero_add,pow_zero,Nat.mul_one] at read
  simp [decodeRoutes,encodeRoutes,read,if_neg (Nat.not_lt.mpr provided),readEntries_encoded small]

theorem length_of_readLenPrefixed {b val rest} (read : readLenPrefixed b = .ok (val,rest)) :
    val.length + rest.length < b.length := by
  unfold readLenPrefixed at read
  cases counted : getUvarint 0 0 b with
  | none => rw [counted] at read; cases read
  | some part =>
    obtain ⟨l,body⟩ := part
    have shorter := length_of_getUvarint counted
    rw [counted] at read
    simp only at read
    split at read
    · cases read
    · cases read
      rw [length_take,length_drop]
      omega

theorem copied_le (left i : Nat) (b : Bytes) : (readEntries left i b).2 ≤ b.length := by
  induction left generalizing i b with
  | zero => exact Nat.zero_le _
  | succ left ih =>
    rw [readEntries]
    cases first : readLenPrefixed b with
    | error err => exact Nat.zero_le _
    | ok part =>
      obtain ⟨route,rest⟩ := part
      have name := length_of_readLenPrefixed first
      cases second : readLenPrefixed rest with
      | error err => simp [second]
      | ok part =>
        obtain ⟨metadata,more⟩ := part
        have data := length_of_readLenPrefixed second
        have later := ih (i + 1) more
        simp only [second]
        omega

/-- The number that an input begins with. -/
def announced (b : Bytes) : Nat := ((getUvarint 0 0 b).map Prod.fst).getD 0

theorem decodeRoutes_cases (room : Nat) (b : Bytes) : room < announced b ∧ (decodeRoutes room b).outcome = .panicked ∨
      announced b ≤ room ∧ (∃ result, (decodeRoutes room b).outcome = .returned result) ∧
        (decodeRoutes room b).slice = entrySize * announced b ∧ (decodeRoutes room b).copied ≤ b.length := by
  unfold decodeRoutes announced
  cases counted : getUvarint 0 0 b with
  | none => exact .inr ⟨Nat.zero_le _,⟨_,rfl⟩,rfl,Nat.zero_le _⟩
  | some part =>
    obtain ⟨count,body⟩ := part
    have shorter := length_of_getUvarint counted
    have copies := copied_le count 0 body
    by_cases many : room < count
    · exact .inl ⟨many,by simp only [if_pos many]⟩
    · simp only [if_neg many]
      exact .inr ⟨Nat.not_lt.mp many,⟨_,rfl⟩,rfl,by omega⟩

/-- A call returns, with a slice within the multiple of the input and no more copied than that has octets. -/
structure Bounded (multiple room : Nat) (b : Bytes) : Prop where
  returns : ∃ result, (decodeRoutes room b).outcome = .returned result
  slice : (decodeRoutes room b).slice ≤ multiple * b.length
  copied : (decodeRoutes room b).copied ≤ b.length

theorem bounded_iff (multiple room : Nat) (b : Bytes) :
    Bounded multiple room b ↔ announced b ≤ room ∧ entrySize * announced b ≤ multiple * b.length := by
  rcases decodeRoutes_cases room b with ⟨many,panics⟩ | ⟨provided,returns,slice,copied⟩
  · refine iff_of_false (fun bounded => ?_) (fun modest => absurd modest.1 (Nat.not_le.mpr many))
    obtain ⟨result,returned⟩ := bounded.returns
    rw [panics] at returned
    cases returned
  · rw [← slice]
    exact ⟨fun bounded => ⟨provided,bounded.slice⟩,fun modest => ⟨returns,modest.2,copied⟩⟩

/-- Every list is read back; and whatever the multiple, storage for an input is within it just when the announced
    entries are. -/
theorem routes_bounded_iff (multiple room : Nat) (b : Bytes) :
    (∀ entries, entries.length ≤ room → entries.length < 2 ^ 63 → InMemory entries →
      (decodeRoutes room (encodeRoutes entries)).outcome = .returned (.ok entries)) ∧
    (Bounded multiple room b ↔ announced b ≤ room ∧ entrySize * announced b ≤ multiple * b.length) :=
  ⟨fun _ provided count small => decodeRoutes_encodeRoutes provided count small,bounded_iff multiple room b⟩

theorem one_route_back : (decodeRoutes 100 (encodeRoutes [⟨[97],[1,2]⟩])).outcome = .returned (.ok [⟨[97],[1,2]⟩]) ∧
      Bounded 20 100 [1,1,97,2,1,2] := by
  refine ⟨(routes_bounded_iff 20 100 []).1 [⟨[97],[1,2]⟩] (by decide) (by decide) ?_,?_⟩
  · intro e mem
    cases mem_singleton.mp mem
    decide
  · exact (routes_bounded_iff 20 100 _).2.mpr (by decide)

def roomOf48Bits : Nat := 2 ^ 48 / entrySize

/-- Six octets that announce 2 ^ 40 entries make a slice of 40 TiB before the call fails, which is more than 2 ^ 40
    times the input, and ten that announce 2 ^ 63 make it panic. -/
theorem hostile_counts : (decodeRoutes roomOf48Bits [0x80,0x80,0x80,0x80,0x80,0x20]).outcome =
        .returned (.error "enumerate: route 0: bad length") ∧
      (decodeRoutes roomOf48Bits [0x80,0x80,0x80,0x80,0x80,0x20]).slice = 40 * 2 ^ 40 ∧
      ¬ Bounded (2 ^ 40) roomOf48Bits [0x80,0x80,0x80,0x80,0x80,0x20] ∧
      (decodeRoutes roomOf48Bits [0x80,0x80,0x80,0x80,0x80,0x80,0x80,0x80,0x80,1]).outcome = .panicked ∧
      ∀ multiple, ¬ Bounded multiple roomOf48Bits [0x80,0x80,0x80,0x80,0x80,0x80,0x80,0x80,0x80,1] := by
  refine ⟨rfl,rfl,fun bounded => ?_,rfl,fun multiple bounded => ?_⟩
  · exact absurd ((bounded_iff _ _ _).mp bounded).2 (by decide)
  · exact absurd ((bounded_iff _ _ _).mp bounded).1 (by decide)

end Pigeon.Routes
