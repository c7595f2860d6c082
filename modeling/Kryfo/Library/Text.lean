import Mathlib.Data.List.Basic
import Mathlib.Tactic.Ring

/-!
# Numbers, words and lines in text

Hexadecimal and decimal numbers, words between white space and lines: reading what was written
gives it back.
-/

namespace Kryfo.Library

open List

instance lawfulBEq_text : LawfulBEq (List Char) := inferInstance

/-! ## Hexadecimal -/

/-- `width` lower-case digits, the most significant first. -/
def hexOf : Nat → Nat → List Char
  | 0, _ => []
  | width + 1, n => hexOf width (n / 16) ++ [Nat.digitChar (n % 16)]

def hexVal (c : Char) : Option Nat :=
  if '0' ≤ c ∧ c ≤ '9' then some (c.toNat - 48)
  else if 'a' ≤ c ∧ c ≤ 'f' then some (c.toNat - 87)
  else if 'A' ≤ c ∧ c ≤ 'F' then some (c.toNat - 55)
  else none

def unhexStep (acc : Option Nat) (c : Char) : Option Nat :=
  match acc, hexVal c with
  | some n, some d => some (n * 16 + d)
  | _, _ => none

variable (text : List Char)

def unhex : Option Nat := text.foldl unhexStep (some 0)

@[simp] theorem length_hexOf (width n : Nat) : (hexOf width n).length = width := by
  induction width generalizing n with
  | zero => rfl
  | succ width ih => simp [hexOf, ih]

theorem hexVal_digitChar {d : Nat} (small : d < 16) : hexVal (Nat.digitChar d) = some d := by
  have digits : ∀ d < 16, hexVal (Nat.digitChar d) = some d := by decide
  exact digits d small

theorem toNat_of_hexVal {c : Char} (digit : (hexVal c).isSome = true) :
    48 ≤ c.toNat ∧ c.toNat ≤ 102 := by
  have order : ∀ {low high : Char}, low ≤ c → c ≤ high →
      low.toNat ≤ c.toNat ∧ c.toNat ≤ high.toNat := fun above below => ⟨above, below⟩
  unfold hexVal at digit
  split_ifs at digit with number lower upper
  · have := order number.1 number.2
    simp only [Char.reduceToNat] at this
    omega
  · have := order lower.1 lower.2
    simp only [Char.reduceToNat] at this
    omega
  · have := order upper.1 upper.2
    simp only [Char.reduceToNat] at this
    omega
  · cases digit

@[simp] theorem unhex_hexOf (width n : Nat) : unhex (hexOf width n) = some (n % 16 ^ width) := by
  induction width generalizing n with
  | zero => simp [hexOf, unhex, Nat.mod_one]
  | succ width ih =>
    have digit := hexVal_digitChar (d := n % 16) (Nat.mod_lt n (by decide))
    rw [unhex, hexOf, foldl_append, ← unhex, ih]
    simp only [foldl_cons, foldl_nil, unhexStep, digit, Option.some.injEq]
    rw [pow_succ, mul_comm (16 ^ width), Nat.mod_mul]
    ring

private theorem foldl_unhexStep_none : text.foldl unhexStep none = none := by
  induction text with
  | nil => rfl
  | cons c text ih => simpa [unhexStep] using ih

theorem unhex_isSome_iff : (unhex text).isSome = true ↔ ∀ c ∈ text, (hexVal c).isSome = true := by
  have go : ∀ n, (text.foldl unhexStep (some n)).isSome = true ↔
      ∀ c ∈ text, (hexVal c).isSome = true := by
    induction text with
    | nil => simp
    | cons c text ih =>
      cases digit : hexVal c with
      | none => simp [unhexStep, digit, foldl_unhexStep_none]
      | some d => simp [unhexStep, digit, ih]
  exact go 0

theorem hexVal_of_mem_hexOf {width n : Nat} {c : Char} (member : c ∈ hexOf width n) :
    (hexVal c).isSome = true :=
  (unhex_isSome_iff (hexOf width n)).mp (by simp) c member

theorem hexOf_inj {width n m : Nat} (small : n < 16 ^ width) (small' : m < 16 ^ width)
    (same : hexOf width n = hexOf width m) : n = m := by
  have read := congrArg unhex same
  simp only [unhex_hexOf, Option.some.injEq] at read
  rwa [Nat.mod_eq_of_lt small, Nat.mod_eq_of_lt small'] at read

theorem take_hexOf (lead rest n : Nat) :
    (hexOf (lead + rest) n).take lead = hexOf lead (n / 16 ^ rest) := by
  induction rest generalizing n with
  | zero => simp [take_of_length_le]
  | succ rest ih =>
    rw [← add_assoc, hexOf, take_append_of_le_length (by simp), ih,
      Nat.div_div_eq_div_mul, pow_succ, mul_comm]

/-! ## Decimal -/

def formatInt (n : Int) : List Char :=
  if n < 0 then '-' :: Nat.toDigits 10 n.natAbs else Nat.toDigits 10 n.natAbs

def parseNat : Option Nat :=
  if text ≠ [] ∧ text.all Char.isDigit then some (Nat.ofDigitChars 10 text 0) else none

def parseInt : List Char → Option Int
  | '-' :: text => (parseNat text).map fun n : Nat => -(n : Int)
  | '+' :: text => (parseNat text).map fun n : Nat => (n : Int)
  | text => (parseNat text).map fun n : Nat => (n : Int)

theorem parseNat_toDigits (n : Nat) : parseNat (Nat.toDigits 10 n) = some n := by
  have digits : (Nat.toDigits 10 n).all Char.isDigit = true :=
    all_eq_true.mpr fun _ member => Nat.isDigit_of_mem_toDigits (by decide) (by decide) member
  rw [parseNat, if_pos ⟨Nat.toDigits_ne_nil, digits⟩, Nat.ofDigitChars_ten_toDigits]

theorem parseInt_toDigits (n : Nat) : parseInt (Nat.toDigits 10 n) = some (n : Int) := by
  have read := parseNat_toDigits n
  have digits : ∀ c ∈ Nat.toDigits 10 n, c.isDigit = true :=
    fun _ member => Nat.isDigit_of_mem_toDigits (by decide) (by decide) member
  unfold parseInt
  split
  · rename_i text equal
    exact absurd (digits '-' (equal ▸ mem_cons_self)) (by decide)
  · rename_i text equal
    exact absurd (digits '+' (equal ▸ mem_cons_self)) (by decide)
  · simp [read]

@[simp] theorem parseInt_formatInt (n : Int) : parseInt (formatInt n) = some n := by
  unfold formatInt
  split_ifs with negative
  · have read : parseInt ('-' :: Nat.toDigits 10 n.natAbs) = some (-(n.natAbs : Int)) := by
      rw [parseInt, parseNat_toDigits, Option.map_some]
    rw [read, Option.some.injEq]
    omega
  · rw [parseInt_toDigits]
    simp only [Option.some.injEq]
    omega

/-! ## Words and lines -/

/-- White space: the six ASCII ones and those of Unicode. -/
def isSpace (c : Char) : Bool :=
  let n := c.toNat
  n = 32 || (9 ≤ n && n ≤ 13) || n = 0x85 || n = 0xA0 || n = 0x1680 ||
    (0x2000 ≤ n && n ≤ 0x200A) || n = 0x2028 || n = 0x2029 || n = 0x202F || n = 0x205F ||
    n = 0x3000

def trimSpace (text : List Char) : List Char :=
  ((text.dropWhile isSpace).reverse.dropWhile isSpace).reverse

/-- A piece of text that is not empty and has no white space. -/
def IsWord : Prop := text ≠ [] ∧ ∀ c ∈ text, isSpace c = false

instance (text : List Char) : Decidable (IsWord text) :=
  decidable_of_iff (text ≠ [] ∧ text.all (!isSpace ·) = true) (by simp [IsWord])

theorem dropWhile_of_head {text : List Char} (solid : ∀ c ∈ text.head?, isSpace c = false) :
    text.dropWhile isSpace = text := by
  cases text with
  | nil => rfl
  | cons c text => exact dropWhile_cons_of_neg (by simp [solid c rfl])

abbrev Word := {text : List Char // IsWord text}

/-- The words of a text: what lies between white space, without the empty pieces. -/
def fields : List Word :=
  (text.splitOnP isSpace).filterMap fun piece =>
    if isWord : IsWord piece then some ⟨piece, isWord⟩ else none

theorem fields_word (word : Word) : fields word.val = [word] := by
  have whole : word.val.splitOnP isSpace = [word.val] := splitOnP_eq_singleton word.2.2
  simp [fields, whole, word.2]

theorem fields_word_append (word : Word) (text : List Char) :
    fields (word.val ++ ' ' :: text) = word :: fields text := by
  have cut : (word.val ++ ' ' :: text).splitOnP isSpace = word.val :: text.splitOnP isSpace :=
    splitOnP_append_cons_of_forall_mem word.2.2 ' ' (by decide) text
  simp [fields, cut, word.2]

def unwords : List Word → List Char
  | [] => []
  | [word] => word.val
  | word :: words => word.val ++ ' ' :: unwords words

@[simp] theorem fields_unwords (words : List Word) : fields (unwords words) = words := by
  fun_induction unwords words with
  | case1 => rfl
  | case2 word => exact fields_word word
  | case3 word words some_ ih => rw [fields_word_append, ih]

theorem isSpace_of_hexVal {c : Char} (digit : (hexVal c).isSome = true) : isSpace c = false := by
  have := toNat_of_hexVal digit
  simp only [isSpace, Bool.or_eq_false_iff, Bool.and_eq_false_iff, decide_eq_false_iff_not]
  omega

theorem isWord_hexOf {width n : Nat} (positive : 0 < width) : IsWord (hexOf width n) := by
  refine ⟨fun empty => ?_, fun c member => isSpace_of_hexVal (hexVal_of_mem_hexOf member)⟩
  have := length_hexOf width n
  rw [empty] at this
  simp at this
  omega

theorem isWord_formatInt (n : Int) : IsWord (formatInt n) := by
  have digit : ∀ c ∈ Nat.toDigits 10 n.natAbs, isSpace c = false := by
    intro c member
    have digit := Nat.isDigit_of_mem_toDigits (b := 10) (by decide) (by decide) member
    have range : '0' ≤ c ∧ c ≤ '9' := by
      rw [Char.isDigit, Bool.and_eq_true, decide_eq_true_eq, decide_eq_true_eq] at digit
      exact digit
    apply isSpace_of_hexVal
    rw [hexVal, if_pos range]
    rfl
  unfold formatInt
  split_ifs
  · exact ⟨by simp, by simpa [show isSpace '-' = false by decide] using digit⟩
  · exact ⟨Nat.toDigits_ne_nil, digit⟩

def lines : List (List Char) :=
  (text.splitOn '\n').filter fun line => !line.isEmpty

def unlines (ls : List (List Char)) : List Char := ['\n'].intercalate ls ++ ['\n']

@[simp] theorem lines_nil : lines [] = [] := rfl

theorem lines_append (text rest : List Char) :
    lines (text ++ '\n' :: rest) = lines text ++ lines rest := by
  simp [lines, splitOn_append_cons_self]

theorem not_mem_of_mem_splitOn {text piece : List Char} {c : Char}
    (member : piece ∈ text.splitOn c) : c ∉ piece := by
  induction text generalizing piece with
  | nil =>
    obtain rfl : piece = [] := by simpa using member
    exact not_mem_nil
  | cons d text ih =>
    rw [splitOn_cons_eq_if_modifyHead] at member
    split_ifs at member with here
    · rcases mem_cons.mp member with rfl | later
      · exact not_mem_nil
      · exact ih later
    · cases cut : text.splitOn c with
      | nil => simp [cut] at member
      | cons first rest =>
        rw [cut] at member ih
        rcases mem_cons.mp member with rfl | later
        · rw [mem_cons, not_or]
          exact ⟨fun same => here (by simp [same]), ih mem_cons_self⟩
        · exact ih (mem_cons_of_mem _ later)

theorem plain_of_mem_lines {text line : List Char} (member : line ∈ lines text) :
    line ≠ [] ∧ '\n' ∉ line := by
  obtain ⟨piece, some_⟩ := mem_filter.mp member
  exact ⟨by simpa using some_, not_mem_of_mem_splitOn piece⟩

theorem lines_unlines {ls : List (List Char)} (plain : ∀ l ∈ ls, l ≠ [] ∧ '\n' ∉ l) :
    lines (unlines ls) = ls := by
  rw [unlines, lines_append, lines_nil, append_nil]
  cases ls with
  | nil => rfl
  | cons l ls =>
    rw [lines, splitOn_intercalate '\n' (fun l member => (plain l member).2) (by simp)]
    exact filter_eq_self.mpr fun l member => by simpa using (plain l member).1

end Kryfo.Library
