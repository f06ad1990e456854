import Pigeon.TargetsAlike

/-!
What the Go and C generators make of the TLA+ expression of an update (`goSimpleLiteral`,
`goSelfUpdate`, `cSimpleLiteral`, `cSelfUpdate`), against what it denotes. They look at the
beginning of a text; those get their value that are read to their end, or are one string, and
fit the variable's type (`assigned_exactly_iff`).
-/
namespace Pigeon.Literals
open Protocols List Option
open GoFile (Literal Rhs)
open GoGen
open Targets
open TargetsAlike (Value width)

def digit (c : Char) : Nat := c.toNat - '0'.toNat

def numeral (text : Name) : Option Nat :=
  if text ≠ [] ∧ text.all Char.isDigit then some (Nat.ofDigits 10 (text.reverse.map digit)) else none

def integer : Name → Option Int
  | '-' :: text => (numeral text).map fun n : Nat => -(n : Int)
  | text => (numeral text).map fun n : Nat => (n : Int)

def escaped : Char → Option Char
  | '"' => some '"'
  | '\\' => some '\\'
  | 't' => some '\t'
  | 'n' => some '\n'
  | 'r' => some '\r'
  | 'f' => some (Char.ofNat 12)
  | _ => none

def stringRest : Name → Option Name
  | [] => none
  | '"' :: rest => if rest = [] then some [] else none
  | '\\' :: [] => none
  | '\\' :: c :: rest => (escaped c).bind fun c => (stringRest rest).map (c :: ·)
  | c :: rest => if 32 ≤ c.toNat then (stringRest rest).map (c :: ·) else none

def tlaString : Name → Option Name
  | '"' :: rest => stringRest rest
  | _ => none

inductive Literally : Name → Value → Prop
  | true : Literally "TRUE" (.bool true)
  | false : Literally "FALSE" (.bool false)
  | integer {text : Name} {n : Int} (number : integer text = some n) : Literally text (.int n)
  | string {text content : Name} (string : tlaString text = some content) : Literally text (.text content)

theorem Literally.of_int {text n} (means : Literally text (.int n)) : Literals.integer text = some n := by
  cases means with
  | integer number => exact number

theorem Literally.of_text {text content} (means : Literally text (.text content)) :
    tlaString text = some content := by
  cases means with
  | string string => exact string

def operator : Bool → Name
  | false => " + "
  | true => " - "

def sumOf (minus : Bool) (old n : Int) : Int := if minus then old - n else old + n

/-- The sums and differences of a variable, with a value of `old`, and an integer. -/
def Sum (var : Name) (old : Int) (text : Name) (value : Value) : Prop :=
  ∃ minus blanks number n, (∀ c ∈ blanks, isSpace c) ∧ integer number = some n ∧
    text = var ++ operator minus ++ (blanks ++ number) ∧ value = .int (sumOf minus old n)

inductive Output
  | go
  | c

inductive Kind
  | simpleLiteral
  | selfUpdate

def emit : Output → Kind → Name → Name → Option Rhs
  | .go, .simpleLiteral, _, expr => (goSimpleLiteral expr).map .literal
  | .go, .selfUpdate, var, expr => (goSelfUpdate var expr).map fun u => .self u.1 u.2
  | .c, .simpleLiteral, _, expr => (cSimpleLiteral expr).map .literal
  | .c, .selfUpdate, var, expr => (cSelfUpdate var expr).map fun u => .self u.1 u.2

/-- What compilers make of a string literal; Go and C have the escapes of TLA+. -/
structure Compilers where
  decode : Output → Name → Option Name
  decode_string : ∀ output text content, tlaString text = some content → decode output text = some content

instance : Inhabited Compilers := ⟨fun _ => tlaString,fun _ _ _ string => string⟩

def Output.bits : Output → Nat
  | .go => 64
  | .c => 32

def Output.Holds (output : Output) (n : Int) : Prop := -2 ^ (output.bits - 1) ≤ n ∧ n < 2 ^ (output.bits - 1)

/-- The value of an integer variable of `old` after an assignment of an integer, and that of others after one of their
    type. -/
def assigned (compilers : Compilers) (output : Output) (old : Int) : Rhs → Option Value
  | .literal (.bool b) => some (.bool b)
  | .literal (.int n) => some (.int (width output.bits n))
  | .literal (.quoted text) => (compilers.decode output text).map .text
  | .self minus n => some (.int (width output.bits (sumOf minus old n)))

def Denotes (kind : Kind) (var : Name) (old : Int) (expr : Name) (value : Value) : Prop :=
  match kind with
  | .simpleLiteral => Literally (trimSpace expr) value
  | .selfUpdate => Sum var old (trimSpace expr) value

def Exact (compilers : Compilers) (output : Output) (kind : Kind) (var : Name) (old : Int) (expr : Name) : Prop :=
  ∀ rhs ∈ emit output kind var expr, ∃ value, Denotes kind var old expr value ∧
    assigned compilers output old rhs = some value

def operand (var expr : Name) : Name := trimSpace ((trimSpace expr).drop (var.length + 3))

def Whole (output : Output) (var : Name) (old : Int) (expr : Name) : Rhs → Prop
  | .literal (.bool _) => True
  | .literal (.int n) => (integer (trimSpace expr)).isSome ∧ output.Holds n
  | .literal (.quoted text) => (tlaString text).isSome
  | .self minus n => (integer (operand var expr)).isSome ∧ output.Holds (sumOf minus old n)

theorem width_eq_iff (output : Output) (n : Int) : width output.bits n = n ↔ output.Holds n := by
  constructor
  · intro same
    have low := Int.le_bmod (x := n) (m := 2 ^ output.bits) (by positivity)
    have high := Int.bmod_lt (x := n) (m := 2 ^ output.bits) (by positivity)
    rw [width] at same
    rw [same] at low high
    cases output <;> simp only [Output.Holds,Output.bits] at * <;> omega
  · rintro ⟨low,high⟩
    refine Int.bmod_eq_of_le ?_ ?_ <;> cases output <;> simp only [Output.bits] at * <;> omega

theorem foldl_digits {text : Name} (digits : text.all Char.isDigit) :
    text.foldl (fun (n : Int) c => 10 * n + (c.toNat - '0'.toNat)) 0 =
      (Nat.ofDigits 10 (text.reverse.map digit) : Nat) := by
  induction text using reverseRecOn with
  | nil => rfl
  | append_singleton text c ih =>
    simp only [all_append,all_cons,all_nil,Bool.and_true,Bool.and_eq_true] at digits
    have low : '0'.toNat ≤ c.toNat := by
      have range := digits.2
      simp only [Char.isDigit,Bool.and_eq_true,decide_eq_true_eq] at range
      exact range.1
    rw [foldl_append,ih digits.1]
    simp only [foldl_cons,foldl_nil,reverse_append,reverse_cons,reverse_nil,nil_append,
      map_cons,singleton_append,Nat.ofDigits_cons,digit,Nat.cast_add,Nat.cast_mul,Nat.cast_sub low]
    push_cast
    omega

section
variable {text : Name} {n : Nat} (number : numeral text = some n)
include number

theorem numeral_eq_some : (text.all Char.isDigit ∧ text ≠ []) ∧ Nat.ofDigits 10 (text.reverse.map digit) = n := by
  rw [numeral] at number
  split at number
  next digits => exact ⟨⟨digits.2,digits.1⟩,Option.some.inj number⟩
  next => cases number

theorem scan_numeral : text.takeWhile Char.isDigit = text ∧
      text.foldl (fun (n : Int) c => 10 * n + (c.toNat - '0'.toNat)) 0 = n := by
  obtain ⟨⟨digits,_⟩,value⟩ := numeral_eq_some number
  refine ⟨takeWhile_eq_self_iff.mpr (by simpa using digits),?_⟩
  rw [foldl_digits digits,value]

theorem scanInt_numeral :
    scanInt text = if text = [] ∨ (n : Int) < -2 ^ 63 ∨ 2 ^ 63 ≤ (n : Int) then none else some (n : Int) := by
  obtain ⟨all,value⟩ := scan_numeral number
  obtain ⟨⟨digits,_⟩,_⟩ := numeral_eq_some number
  rw [scanInt]
  · simp only [all,value,Bool.false_eq_true,if_false]
  · rintro rest rfl
    simp at digits
  · rintro rest rfl
    simp at digits

end

theorem scanInt_of_integer {text n k} (number : integer text = some n) (scanned : scanInt text = some k) : k = n := by
  unfold integer at number
  split at number
  next rest =>
    obtain ⟨m,digits,rfl⟩ := map_eq_some_iff.mp number
    obtain ⟨all,value⟩ := scan_numeral digits
    simp only [scanInt,all,value,if_true] at scanned
    split at scanned
    · cases scanned
    · exact (Option.some.inj scanned).symm
  next =>
    obtain ⟨m,digits,rfl⟩ := map_eq_some_iff.mp number
    rw [scanInt_numeral digits] at scanned
    split at scanned
    · cases scanned
    · exact (Option.some.inj scanned).symm

theorem isSpace_of_isDigit {c} (digit : c.isDigit) : isSpace c = false := by
  simp only [Char.isDigit,Bool.and_eq_true,decide_eq_true_eq,ge_iff_le,UInt32.le_iff_toNat_le] at digit
  change 48 ≤ c.toNat ∧ c.toNat ≤ 57 at digit
  simp [isSpace]
  omega

theorem integer_solid {text n} (number : integer text = some n) : text ≠ [] ∧ ∀ c ∈ text, isSpace c = false := by
  have solid : ∀ {digits : Name} {m : Nat}, numeral digits = some m → ∀ c ∈ digits, isSpace c = false := by
    intro digits m number c among
    have all := (numeral_eq_some number).1.1
    exact isSpace_of_isDigit (all_eq_true.mp all c among)
  unfold integer at number
  split at number
  next rest =>
    obtain ⟨m,digits,_⟩ := map_eq_some_iff.mp number
    refine ⟨by simp,?_⟩
    intro c among
    rcases mem_cons.mp among with rfl | after
    · decide
    · exact solid digits c after
  next =>
    obtain ⟨m,digits,_⟩ := map_eq_some_iff.mp number
    exact ⟨(numeral_eq_some digits).1.2,solid digits⟩

theorem dropWhile_solid {text : Name} (solid : ∀ c ∈ text, isSpace c = false) : text.dropWhile isSpace = text := by
  cases text with
  | nil => rfl
  | cons c rest => rw [dropWhile_cons_of_neg (by simp [solid c mem_cons_self])]

theorem trimSpace_blanks {blanks text : Name} (blank : ∀ c ∈ blanks, isSpace c)
    (solid : ∀ c ∈ text, isSpace c = false) : trimSpace (blanks ++ text) = text := by
  rw [trimSpace,dropWhile_append_of_pos blank,dropWhile_solid solid,
    dropWhile_solid (fun c among => solid c (mem_reverse.mp among)),reverse_reverse]

theorem trimSpace_of_last {text} (last : ∀ c ∈ text.getLast?, isSpace c = false) :
    trimSpace text = text.dropWhile isSpace := by
  rw [trimSpace]
  obtain ⟨before,split⟩ := dropWhile_suffix isSpace (l := text)
  cases dropped : (text.dropWhile isSpace).reverse with
  | nil => simpa using dropped.symm
  | cons c rest =>
    have ends : text.getLast? = some c := by
      rw [← split,getLast?_append,getLast?_eq_head?_reverse,dropped]
      rfl
    rw [dropWhile_cons_of_neg (by simp [last c ends]),← dropped,reverse_reverse]

theorem trimSpace_last (text : Name) : ∀ c ∈ (trimSpace text).getLast?, isSpace c = false := by
  intro c ends
  rw [trimSpace,getLast?_reverse] at ends
  have outside := head?_dropWhile_not isSpace (text.dropWhile isSpace).reverse
  rw [mem_def.mp ends] at outside
  exact outside

theorem goSimpleLiteral_eq (expr : Name) : goSimpleLiteral expr =
    if trimSpace expr = "TRUE" then some (.bool true)
    else if trimSpace expr = "FALSE" then some (.bool false)
    else if (trimSpace expr).head? = some '"' ∧ (trimSpace expr).getLast? = some '"' then
      some (.quoted (trimSpace expr))
    else (scanInt (trimSpace expr)).map .int := rfl

theorem goSimpleLiteral_cases {expr l} (accepted : goSimpleLiteral expr = some l) :
    (∃ b, l = .bool b ∧ Literally (trimSpace expr) (.bool b)) ∨ l = .quoted (trimSpace expr) ∨
      ∃ n, l = .int n ∧ scanInt (trimSpace expr) = some n := by
  rw [goSimpleLiteral_eq] at accepted
  split at accepted
  next isTrue =>
    cases accepted
    exact .inl ⟨true,rfl,isTrue ▸ .true⟩
  split at accepted
  next isFalse =>
    cases accepted
    exact .inl ⟨false,rfl,isFalse ▸ .false⟩
  split at accepted
  next => exact .inr (.inl (Option.some.inj accepted).symm)
  next =>
    obtain ⟨n,scanned,rfl⟩ := map_eq_some_iff.mp accepted
    exact .inr (.inr ⟨n,rfl,scanned⟩)

section
variable {compilers : Compilers} {output : Output} {var : Name} {old : Int} {expr : Name}

theorem literal_exact_iff {l} (accepted : goSimpleLiteral expr = some l) :
    (∃ value, Literally (trimSpace expr) value ∧ assigned compilers output old (.literal l) = some value) ↔
      Whole output var old expr (.literal l) := by
  rcases goSimpleLiteral_cases accepted with ⟨b,rfl,means⟩ | rfl | ⟨n,rfl,scanned⟩
  · exact iff_of_true ⟨_,means,rfl⟩ trivial
  · constructor
    · rintro ⟨value,means,same⟩
      obtain ⟨content,_,rfl⟩ := map_eq_some_iff.mp same
      exact isSome_iff_exists.mpr ⟨content,means.of_text⟩
    · intro whole
      obtain ⟨content,string⟩ := isSome_iff_exists.mp whole
      exact ⟨.text content,.string string,by rw [assigned,compilers.decode_string output _ _ string]; rfl⟩
  · constructor
    · rintro ⟨value,means,same⟩
      cases same
      refine ⟨isSome_iff_exists.mpr ⟨_,means.of_int⟩,(width_eq_iff output n).mp ?_⟩
      exact (scanInt_of_integer means.of_int scanned).symm
    · rintro ⟨whole,holds⟩
      obtain ⟨k,number⟩ := isSome_iff_exists.mp whole
      obtain rfl := scanInt_of_integer number scanned
      exact ⟨_,.integer number,by rw [assigned,(width_eq_iff output n).mpr holds]⟩

theorem goSelfUpdate_cases {minus n} (accepted : goSelfUpdate var expr = some (minus,n)) :
    var ++ operator minus <+: trimSpace expr ∧ scanInt (operand var expr) = some n := by
  have operand_of : ∀ minus : Bool, selfOperand var (operator minus) (trimSpace expr) = some n →
      var ++ operator minus <+: trimSpace expr ∧ scanInt (operand var expr) = some n := by
    intro minus found
    have long : (var ++ operator minus).length = var.length + 3 := by cases minus <;> simp [operator]
    rw [selfOperand,long] at found
    split at found
    next begins => exact ⟨begins,found⟩
    next => cases found
  rcases or_eq_some_iff.mp accepted with plus | ⟨_,minus⟩
  · obtain ⟨k,found,same⟩ := map_eq_some_iff.mp plus
    cases same
    exact operand_of false found
  · obtain ⟨k,found,same⟩ := map_eq_some_iff.mp minus
    cases same
    exact operand_of true found

theorem operator_inj {minus minus' text rest} (begins : var ++ operator minus <+: text)
    (same : text = var ++ operator minus' ++ rest) : minus = minus' := by
  rw [same,append_assoc,prefix_append_right_inj] at begins
  cases minus <;> cases minus' <;> first | rfl | exact absurd begins (by simp [operator])

theorem self_exact_iff {minus n} (accepted : goSelfUpdate var expr = some (minus,n)) :
    (∃ value, Sum var old (trimSpace expr) value ∧ assigned compilers output old (.self minus n) = some value) ↔
      Whole output var old expr (.self minus n) := by
  obtain ⟨begins,scanned⟩ := goSelfUpdate_cases accepted
  have long : (var ++ operator minus).length = var.length + 3 := by cases minus <;> simp [operator]
  constructor
  · rintro ⟨value,⟨minus',blanks,number,k,blank,isNumber,same,rfl⟩,given⟩
    obtain rfl := operator_inj begins same
    have operandIs : operand var expr = number := by
      rw [operand,same,← long,drop_left]
      exact trimSpace_blanks blank (integer_solid isNumber).2
    rw [operandIs] at scanned
    obtain rfl := scanInt_of_integer isNumber scanned
    refine ⟨by rw [operandIs,isNumber]; rfl,(width_eq_iff output _).mp ?_⟩
    exact Value.int.inj (Option.some.inj given)
  · rintro ⟨whole,holds⟩
    obtain ⟨k,isNumber⟩ := isSome_iff_exists.mp whole
    obtain rfl := scanInt_of_integer isNumber scanned
    obtain ⟨rest,same⟩ := begins
    have operandIs : operand var expr = trimSpace rest := by rw [operand,← same,← long,drop_left]
    have last : ∀ c ∈ rest.getLast?, isSpace c = false := by
      intro c ends
      refine trimSpace_last expr c ?_
      rw [← same,getLast?_append,mem_def.mp ends]
      rfl
    rw [operandIs,trimSpace_of_last last] at isNumber
    refine ⟨.int (sumOf minus old n),⟨minus,rest.takeWhile isSpace,rest.dropWhile isSpace,n,?_,isNumber,?_,rfl⟩,?_⟩
    · intro c among
      exact mem_takeWhile_imp among
    · rw [takeWhile_append_dropWhile,same]
    · rw [assigned,(width_eq_iff output _).mpr holds]

end

/-- An expression that one of the functions accepts is one that it is for, and gets its value, exactly when it is
    written as a whole and fits. -/
theorem assigned_exactly_iff (compilers : Compilers) (output : Output) (kind : Kind) (var : Name) (old : Int)
    (expr : Name) : Exact compilers output kind var old expr ↔
      ∀ rhs ∈ emit output kind var expr, Whole output var old expr rhs := by
  refine forall₂_congr (fun rhs accepted => ?_)
  cases kind with
  | simpleLiteral =>
    have literal : (goSimpleLiteral expr).map .literal = some rhs := by cases output <;> exact accepted
    obtain ⟨l,written,rfl⟩ := map_eq_some_iff.mp literal
    exact literal_exact_iff written
  | selfUpdate =>
    have sum : (goSelfUpdate var expr).map (fun u => Rhs.self u.1 u.2) = some rhs := by cases output <;> exact accepted
    obtain ⟨⟨minus,n⟩,written,rfl⟩ := map_eq_some_iff.mp sum
    exact self_exact_iff written

def product : Name := "2 * 3"
def step : Name := "level + 1 * step"
def joined : Name := "\"alt\" \\o suffix \\o \"\""

/-- A product is taken for its first factor, a sum for its first terms, and the concatenation of strings for a
    string. -/
theorem product_is_cut : (∀ output, emit output .simpleLiteral [] product = some (.literal (.int 2)) ∧
      emit output .selfUpdate "level" step = some (.self false 1) ∧
      emit output .simpleLiteral [] joined = some (.literal (.quoted joined))) ∧
    ∀ compilers output old, ¬Exact compilers output .simpleLiteral [] old product ∧
      ¬Exact compilers output .selfUpdate "level" old step ∧
      ¬Exact compilers output .simpleLiteral [] old joined := by
  have emitted : ∀ output, emit output .simpleLiteral [] product = some (.literal (.int 2)) ∧
      emit output .selfUpdate "level" step = some (.self false 1) ∧
      emit output .simpleLiteral [] joined = some (.literal (.quoted joined)) := by
    intro output
    cases output <;> decide
  refine ⟨emitted,fun compilers output old => ⟨fun exact => ?_,fun exact => ?_,fun exact => ?_⟩⟩
  · have accepted : goSimpleLiteral product = some (.int 2) := by decide
    have whole : Whole output [] old product (.literal (.int 2)) :=
      (literal_exact_iff accepted).mp (exact _ (emitted output).1)
    exact absurd whole.1 (by decide)
  · have accepted : goSelfUpdate "level" step = some (false,1) := by decide
    have whole : Whole output "level" old step (.self false 1) :=
      (self_exact_iff accepted).mp (exact _ (emitted output).2.1)
    exact absurd whole.1 (by decide)
  · have accepted : goSimpleLiteral joined = some (.quoted joined) := by decide
    have whole : Whole output [] old joined (.literal (.quoted joined)) :=
      (literal_exact_iff accepted).mp (exact _ (emitted output).2.2)
    exact absurd (show (tlaString joined).isSome from whole) (by decide)

end Pigeon.Literals
