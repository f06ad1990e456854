import Mathlib
import Pigeon.Protocols

/-!
The identifiers that the Go generator makes of names (`protocol/gogen.go`). `goCamel` is not
idempotent outside ASCII, but a name it changes gets lighter (`goCamel_descends`). Names that
are declared as they are resolve only if the mangling leaves them alone
(`settled_of_resolved`).
-/
namespace Pigeon.GoNames
open Protocols (Name)

/-- `unicode.ToUpper`, which names are identifiers, and the values of string literals. -/
structure Go where
  toUpper : Char → Char
  ascii : ∀ c : Char, c.toNat < 128 → toUpper c = c.toUpper
  latin : ∀ c : Char, 192 ≤ c.toNat → c.toNat < 255 → 192 ≤ (toUpper c).toNat ∧ (toUpper c).toNat < 256
  identifier : Name → Bool
  unquote : Name → Option Name

def leadByte (c : Char) : Char :=
  if c.toNat < 0x80 then c
  else if c.toNat < 0x800 then Char.ofNat (0xC0 + c.toNat / 64)
  else if c.toNat < 0x10000 then Char.ofNat (0xE0 + c.toNat / 4096)
  else Char.ofNat (0xF0 + c.toNat / 262144)

def isSeparator (c : Char) : Bool := c = '_' || c = '-' || c = ' '

section
variable (go : Go)

/-- `rune(strings.ToUpper(string(r))[0])`. -/
def upper (c : Char) : Char := leadByte (go.toUpper c)

def camel : Bool → Name → Name
  | _, [] => []
  | up, c :: rest =>
    if isSeparator c then camel true rest else (if up then upper go c else c) :: camel false rest

def goCamel (s : Name) : Name := camel go true s

/-- Upper-cases the first byte; a name that starts outside ASCII is cut in the middle of a rune.
    -/
def goConstPrefix (actor : Name) : Name :=
  if actor = "ios".toList then "App".toList
  else if actor = "cli".toList then "CLI".toList
  else
    match actor with
    | [] => []
    | c :: rest =>
      if c.toNat < 0x80 then go.toUpper c :: rest else List.replicate c.utf8Size (Char.ofNat 0xFFFD) ++ rest

end

theorem toNat_ofNat_small {n} (small : n < 256) : (Char.ofNat n).toNat = n := by
  rw [Char.toNat_ofNat,if_pos (.inl (by omega))]

variable {c : Char}

theorem leadByte_of_ascii (ascii : c.toNat < 128) : leadByte c = c := if_pos ascii

theorem leadByte_range (wide : 128 ≤ c.toNat) : 192 ≤ (leadByte c).toNat ∧ (leadByte c).toNat < 255 := by
  have bound : c.toNat < 0x110000 := by
    rcases c.valid with low | high
    · exact Nat.lt_trans low (by decide)
    · exact high.2
  rw [leadByte,if_neg (by omega)]
  split_ifs
  · rw [toNat_ofNat_small (by omega)]
    omega
  · rw [toNat_ofNat_small (by omega)]
    omega
  · rw [toNat_ofNat_small (by omega)]
    omega

theorem leadByte_latin (low : 192 ≤ c.toNat) (high : c.toNat < 256) : leadByte c = Char.ofNat 0xC3 := by
  rw [leadByte,if_neg (by omega),if_pos (by omega)]
  have quotient : c.toNat / 64 = 3 := by omega
  rw [quotient]

theorem toNat_toUpper_ascii (ascii : c.toNat < 128) : c.toUpper.toNat < 128 := by
  have all : ∀ n < 128, (Char.ofNat n).toUpper.toNat < 128 := by decide
  rw [← Char.ofNat_toNat c]
  exact all c.toNat ascii

section
variable (go : Go)

theorem upper_ascii (ascii : c.toNat < 128) : upper go c = c.toUpper := by
  rw [upper,go.ascii c ascii]
  exact leadByte_of_ascii (toNat_toUpper_ascii ascii)

theorem upper_latin (low : 192 ≤ c.toNat) (high : c.toNat < 255) : upper go c = Char.ofNat 0xC3 := by
  obtain ⟨least,most⟩ := go.latin c low high
  exact leadByte_latin least most

theorem upper_settles (c : Char) : upper go (upper go (upper go c)) = upper go (upper go c) := by
  by_cases ascii : (go.toUpper c).toNat < 128
  · have first : upper go c = go.toUpper c := leadByte_of_ascii ascii
    rw [first,upper_ascii go ascii,upper_ascii go (toNat_toUpper_ascii ascii),Char.toUpper_toUpper_eq_toUpper]
  · have lead := leadByte_range (Nat.not_lt.mp ascii)
    have second : upper go (upper go c) = Char.ofNat 0xC3 := upper_latin go lead.1 lead.2
    rw [second]
    exact upper_latin go (by decide) (by decide)

/-- A rune weighs more the longer it takes `upper` to leave it alone. -/
def weight (c : Char) : Nat := if upper go c = c then 1 else if upper go (upper go c) = upper go c then 2 else 3

def weigh (s : Name) : Nat := (s.map (weight go)).sum

theorem weight_pos (c : Char) : 0 < weight go c := by
  rw [weight]
  split_ifs <;> omega

theorem upper_descends (c : Char) : upper go c = c ∨ weight go (upper go c) < weight go c := by
  by_cases same : upper go c = c
  · exact .inl same
  · right
    by_cases next : upper go (upper go c) = upper go c
    · simp [weight,same,next]
    · simp [weight,same,next,upper_settles]

theorem camel_descends (up : Bool) (s : Name) : camel go up s = s ∨ weigh go (camel go up s) < weigh go s := by
  induction s generalizing up with
  | nil => exact .inl rfl
  | cons c rest ih =>
    rw [camel]
    split
    next separator =>
      right
      have lighter : weigh go (camel go true rest) ≤ weigh go rest := by
        rcases ih true with same | less
        · exact Nat.le_of_eq (by rw [same])
        · exact Nat.le_of_lt less
      have positive := weight_pos go c
      simp only [weigh,List.map_cons,List.sum_cons] at lighter ⊢
      omega
    next =>
      have first : (if up then upper go c else c) = c ∨ weight go (if up then upper go c else c) < weight go c := by
        cases up
        · exact .inl rfl
        · exact upper_descends go c
      simp only [weigh,List.map_cons,List.sum_cons]
      rcases first with same | less <;> rcases ih false with rests | lessRest
      · exact .inl (by rw [same,rests])
      · right
        rw [same]
        simp only [weigh] at lessRest
        omega
      · right
        rw [rests]
        omega
      · right
        simp only [weigh] at lessRest
        omega

theorem goCamel_descends (label s : Name) :
    goCamel go s = s ∨ weigh go (label ++ goCamel go s) < weigh go (label ++ s) := by
  refine (camel_descends go true s).imp_right (fun less => ?_)
  simp only [weigh,goCamel,List.map_append,List.sum_append] at less ⊢
  omega

end

theorem settled_of_resolved {ι α : Type} (declared mangled : ι → α) (weigh : α → Nat) {items : List ι}
    (descends : ∀ x ∈ items, mangled x = declared x ∨ weigh (mangled x) < weigh (declared x))
    (apart : ∀ x ∈ items, ∀ y ∈ items, mangled x = mangled y → x = y)
    (resolved : ∀ x ∈ items, ∃ y ∈ items, declared y = mangled x) : ∀ x ∈ items, mangled x = declared x := by
  have by_weight : ∀ n, ∀ x ∈ items, weigh (declared x) = n → mangled x = declared x := by
    intro n
    induction n using Nat.strongRecOn with
    | ind n ih =>
      intro x item weighs
      rcases descends x item with same | less
      · exact same
      · -- what the reference finds is lighter, so it is left alone, and is the name itself
        obtain ⟨y,other,found⟩ := resolved x item
        have settled := ih (weigh (declared y)) (by rw [found]; omega) y other rfl
        have same : x = y := apart x item y other (by rw [settled,found])
        rw [← same] at found
        exact found.symm
  exact fun x item => by_weight _ x item rfl

end Pigeon.GoNames
