import Kryfo.Library.Json
import Kryfo.Library.Text

/-!
# JSON as text

Values are written without white space, with the short escapes, and read by recursive descent on
a supply of steps.  What was written reads back, where no object has a key twice.
-/

namespace Kryfo.Library.Json

open List

def quote : Char := Char.ofNat 34

def backslash : Char := Char.ofNat 92

/-! ## Writing -/

def escapeChar (c : Char) : List Char :=
  if c = quote then [backslash, quote]
  else if c = backslash then [backslash, backslash]
  else if c.toNat < 32 then
    match c.toNat with
    | 8 => [backslash, 'b']
    | 9 => [backslash, 't']
    | 10 => [backslash, 'n']
    | 12 => [backslash, 'f']
    | 13 => [backslash, 'r']
    | n => backslash :: 'u' :: hexOf 4 n
  else [c]

def writeString (text : List Char) : List Char := quote :: (text.flatMap escapeChar ++ [quote])

mutual

def write : Json → List Char
  | null => ['n', 'u', 'l', 'l']
  | bool true => ['t', 'r', 'u', 'e']
  | bool false => ['f', 'a', 'l', 's', 'e']
  | num n => formatInt n
  | str text => writeString text
  | arr items => '[' :: (writeItems items ++ [']'])
  | obj fields => '{' :: (writeFields fields ++ ['}'])

def writeItems : List Json → List Char
  | [] => []
  | [j] => write j
  | j :: j' :: items => write j ++ ',' :: writeItems (j' :: items)

def writeFields : List (List Char × Json) → List Char
  | [] => []
  | [(key, j)] => writeString key ++ ':' :: write j
  | (key, j) :: field :: fields =>
    writeString key ++ ':' :: (write j ++ ',' :: writeFields (field :: fields))

end

/-! ## Reading -/

def isBlank (c : Char) : Bool := c = ' ' || c = '\t' || c = '\n' || c = '\r'

variable (text : List Char)

def skip : List Char := text.dropWhile isBlank

def unescape (c : Char) : Option Char :=
  if c = quote ∨ c = backslash ∨ c = '/' then some c
  else if c = 'b' then some (Char.ofNat 8)
  else if c = 't' then some (Char.ofNat 9)
  else if c = 'n' then some (Char.ofNat 10)
  else if c = 'f' then some (Char.ofNat 12)
  else if c = 'r' then some (Char.ofNat 13)
  else none

/-- The character at the head of a string's text, with its escape. -/
def readChar : List Char → Option (Char × List Char)
  | [] => none
  | c :: rest =>
    if c = backslash then
      match rest with
      | [] => none
      | e :: rest =>
        if e = 'u' then
          (unhex (rest.take 4)).bind fun n =>
            if (rest.take 4).length = 4 then some (Char.ofNat n, rest.drop 4) else none
        else (unescape e).map fun c => (c, rest)
    else if c.toNat < 32 then none
    else some (c, rest)

def readString : Nat → List Char → Option (List Char × List Char)
  | 0, _ => none
  | steps + 1, text =>
    if text.head? = some quote then some ([], text.drop 1)
    else
      (readChar text).bind fun first =>
        (readString steps first.2).map fun r => (first.1 :: r.1, r.2)

def isNumberChar (c : Char) : Bool := c.isDigit || c ∈ ['-', '+', '.', 'e', 'E']

def readNumber : Option (Json × List Char) :=
  let word := text.takeWhile isNumberChar
  match parseInt word with
  | some n => if formatInt n = word then some (num n, text.drop word.length) else none
  | none => none

def readWord (word : List Char) (j : Json) (text : List Char) : Option (Json × List Char) :=
  if text.take word.length = word then some (j, text.drop word.length) else none

/-- A field more: the last value of a key stands where its first did. -/
def setField (key : List Char) (j : Json) : List (List Char × Json) → List (List Char × Json)
  | [] => [(key, j)]
  | (key', j') :: fields =>
    if key' = key then (key, j) :: fields else (key', j') :: setField key j fields

mutual

def readValue : Nat → List Char → Option (Json × List Char)
  | 0, _ => none
  | steps + 1, text =>
    match skip text with
    | [] => none
    | c :: rest =>
      if c = quote then (readString rest.length rest).map fun r => (str r.1, r.2)
      else if c = '[' then
        match skip rest with
        | ']' :: rest => some (arr [], rest)
        | _ => (readItems steps rest).map fun r => (arr r.1, r.2)
      else if c = '{' then
        match skip rest with
        | '}' :: rest => some (obj [], rest)
        | _ =>
          (readFields steps rest).map fun r =>
            (obj (r.1.foldl (fun fields field => setField field.1 field.2 fields) []), r.2)
      else if c = 'n' then readWord ['n', 'u', 'l', 'l'] null (c :: rest)
      else if c = 't' then readWord ['t', 'r', 'u', 'e'] (bool true) (c :: rest)
      else if c = 'f' then readWord ['f', 'a', 'l', 's', 'e'] (bool false) (c :: rest)
      else readNumber (c :: rest)

def readItems : Nat → List Char → Option (List Json × List Char)
  | 0, _ => none
  | steps + 1, text =>
    match readValue steps text with
    | none => none
    | some (j, rest) =>
      match skip rest with
      | ',' :: rest => (readItems steps rest).map fun r => (j :: r.1, r.2)
      | ']' :: rest => some ([j], rest)
      | _ => none

def readFields : Nat → List Char → Option (List (List Char × Json) × List Char)
  | 0, _ => none
  | steps + 1, text =>
    match skip text with
    | [] => none
    | c :: rest =>
      if c = quote then
        match readString rest.length rest with
        | none => none
        | some (key, rest) =>
          match skip rest with
          | ':' :: rest =>
            match readValue steps rest with
            | none => none
            | some (j, rest) =>
              match skip rest with
              | ',' :: rest =>
                (readFields steps rest).map fun r => ((key, j) :: r.1, r.2)
              | '}' :: rest => some ([(key, j)], rest)
              | _ => none
          | _ => none
      else none

end

def read : Option Json :=
  match readValue text.length text with
  | some (j, rest) => if skip rest = [] then some j else none
  | none => none

/-! ## What was written reads back -/

variable {c : Char}

theorem escapeChar_of_control (low : c.toNat < 32) :
    (∃ e, e ≠ 'u' ∧ unescape e = some c ∧ escapeChar c = [backslash, e]) ∨
      escapeChar c = backslash :: 'u' :: hexOf 4 c.toNat := by
  have notQuote : c ≠ quote := fun same => absurd (same ▸ low) (by decide)
  have notBackslash : c ≠ backslash := fun same => absurd (same ▸ low) (by decide)
  have whole : Char.ofNat c.toNat = c := Char.ofNat_toNat c
  rw [escapeChar, if_neg notQuote, if_neg notBackslash, if_pos low]
  split
  next is => exact .inl ⟨'b', by decide, by rw [← whole, is]; decide, rfl⟩
  next is => exact .inl ⟨'t', by decide, by rw [← whole, is]; decide, rfl⟩
  next is => exact .inl ⟨'n', by decide, by rw [← whole, is]; decide, rfl⟩
  next is => exact .inl ⟨'f', by decide, by rw [← whole, is]; decide, rfl⟩
  next is => exact .inl ⟨'r', by decide, by rw [← whole, is]; decide, rfl⟩
  next => exact .inr rfl

theorem readChar_short {e : Char} (notHex : e ≠ 'u') (short : unescape e = some c)
    (rest : List Char) : readChar (backslash :: e :: rest) = some (c, rest) := by
  simp [readChar, notHex, short]

theorem readChar_hex (low : c.toNat < 32) (rest : List Char) :
    readChar (backslash :: 'u' :: (hexOf 4 c.toNat ++ rest)) = some (c, rest) := by
  have digits : (hexOf 4 c.toNat ++ rest).take 4 = hexOf 4 c.toNat :=
    take_left' (length_hexOf 4 _)
  have small : c.toNat % 65536 = c.toNat := Nat.mod_eq_of_lt (by omega)
  simp [readChar, small]

theorem readChar_escapeChar (c : Char) (rest : List Char) :
    readChar (escapeChar c ++ rest) = some (c, rest) := by
  by_cases low : c.toNat < 32
  · obtain ⟨e, notHex, short, written⟩ | written := escapeChar_of_control low
    · rw [written]
      exact readChar_short notHex short rest
    · rw [written]
      exact readChar_hex low rest
  · unfold escapeChar
    split_ifs with isQuote isBackslash
    · subst isQuote
      exact readChar_short (by decide) (by decide) rest
    · subst isBackslash
      exact readChar_short (by decide) (by decide) rest
    · simp [readChar, isBackslash, low]

theorem head_escapeChar (c : Char) (rest : List Char) :
    (escapeChar c ++ rest).head? ≠ some quote := by
  have apart : some backslash ≠ some quote := by decide
  by_cases low : c.toNat < 32
  · obtain ⟨e, -, -, written⟩ | written := escapeChar_of_control low
    · rw [written]
      exact apart
    · rw [written]
      exact apart
  · unfold escapeChar
    split_ifs with isQuote isBackslash
    · exact apart
    · exact apart
    · simpa using isQuote

theorem readString_write (text rest : List Char) {steps : Nat} (enough : text.length < steps) :
    readString steps (text.flatMap escapeChar ++ quote :: rest) = some (text, rest) := by
  induction text generalizing steps with
  | nil =>
    obtain ⟨steps, rfl⟩ := Nat.exists_eq_add_one_of_ne_zero (Nat.ne_zero_of_lt enough)
    simp [readString]
  | cons c text ih =>
    obtain ⟨steps, rfl⟩ := Nat.exists_eq_add_one_of_ne_zero (Nat.ne_zero_of_lt enough)
    rw [flatMap_cons, append_assoc, readString, if_neg (head_escapeChar c _),
      readChar_escapeChar, Option.bind_some, ih (Nat.lt_of_succ_lt_succ enough)]
    rfl

/-- A text at which a number ends and no white space begins. -/
def Stops : List Char → Prop
  | [] => True
  | c :: _ => isNumberChar c = false ∧ isBlank c = false

theorem isNumberChar_formatInt {n : Int} (inside : c ∈ formatInt n) : isNumberChar c = true := by
  have digits : ∀ m : Nat, ∀ c ∈ Nat.toDigits 10 m, isNumberChar c = true := by
    intro m c member
    simp [isNumberChar, Nat.isDigit_of_mem_toDigits (by decide) (by decide) member]
  unfold formatInt at inside
  split_ifs at inside
  · obtain rfl | member := mem_cons.mp inside
    · decide
    · exact digits _ c member
  · exact digits _ c inside

theorem readNumber_write (n : Int) {rest : List Char} (stops : Stops rest) :
    readNumber (formatInt n ++ rest) = some (num n, rest) := by
  have word : (formatInt n ++ rest).takeWhile isNumberChar = formatInt n := by
    rw [takeWhile_append_of_pos fun c inside => isNumberChar_formatInt inside]
    cases rest with
    | nil => simp
    | cons c rest => simp [stops.1]
  simp [readNumber, word]

theorem exists_cons_formatInt (n : Int) :
    ∃ c rest, formatInt n = c :: rest ∧ (c = '-' ∨ c.isDigit = true) := by
  unfold formatInt
  split_ifs
  · exact ⟨'-', _, rfl, .inl rfl⟩
  · cases digits : Nat.toDigits 10 n.natAbs with
    | nil => exact absurd digits Nat.toDigits_ne_nil
    | cons c rest =>
      refine ⟨c, rest, rfl, .inr ?_⟩
      exact Nat.isDigit_of_mem_toDigits (b := 10) (n := n.natAbs) (by decide) (by decide)
        (digits ▸ mem_cons_self)

mutual

def Proper : Json → Prop
  | arr items => ProperItems items
  | obj fields => (fields.map Prod.fst).Nodup ∧ ProperFields fields
  | _ => True

def ProperItems : List Json → Prop
  | [] => True
  | j :: items => Proper j ∧ ProperItems items

def ProperFields : List (List Char × Json) → Prop
  | [] => True
  | (_, j) :: fields => Proper j ∧ ProperFields fields

end

theorem properItems_iff {items : List Json} : ProperItems items ↔ ∀ j ∈ items, j.Proper := by
  induction items with
  | nil => simp [ProperItems]
  | cons j items ih => simp [ProperItems, ih]

variable {fields : List (List Char × Json)}

theorem properFields_iff : ProperFields fields ↔ ∀ field ∈ fields, field.2.Proper := by
  induction fields with
  | nil => simp [ProperFields]
  | cons field fields ih => simp [ProperFields, ih]

theorem proper_obj :
    (obj fields).Proper ↔ (fields.map Prod.fst).Nodup ∧ ∀ field ∈ fields, field.2.Proper := by
  rw [Proper, properFields_iff]

theorem proper_arr {items : List Json} : (arr items).Proper ↔ ∀ j ∈ items, j.Proper := by
  rw [Proper, properItems_iff]

@[simp] theorem proper_str : (str text).Proper := trivial

@[simp] theorem proper_num (n : Int) : (num n).Proper := trivial

@[simp] theorem proper_null : null.Proper := trivial

theorem setField_of_notMem {key : List Char} (j : Json) (new : key ∉ fields.map Prod.fst) :
    setField key j fields = fields ++ [(key, j)] := by
  induction fields with
  | nil => rfl
  | cons field fields ih =>
    simp only [map_cons, mem_cons, not_or] at new
    rw [setField, if_neg (Ne.symm new.1), ih new.2]
    rfl

theorem foldl_setField (before : List (List Char × Json))
    (nodup : ((before ++ fields).map Prod.fst).Nodup) :
    fields.foldl (fun fields field => setField field.1 field.2 fields) before = before ++ fields := by
  induction fields generalizing before with
  | nil => simp
  | cons field fields ih =>
    have new : field.1 ∉ before.map Prod.fst := by
      rw [map_append, nodup_append] at nodup
      exact fun inside => nodup.2.2 _ inside _ mem_cons_self rfl
    rw [foldl_cons, setField_of_notMem _ new, ih]
    · simp
    · simpa using nodup

theorem skip_cons (notBlank : isBlank c = false) (rest : List Char) :
    skip (c :: rest) = c :: rest := by
  simp [skip, notBlank]

theorem ne_of_begins {d : Char} (begins : c = '-' ∨ c.isDigit = true)
    (other : (decide (d = '-') || d.isDigit) = false) : c ≠ d := by
  rintro rfl
  simp only [Bool.or_eq_false_iff, decide_eq_false_iff_not] at other
  obtain dash | digit := begins
  · exact other.1 dash
  · rw [other.2] at digit
    exact nomatch digit

theorem exists_cons_write (j : Json) :
    ∃ c rest, write j = c :: rest ∧ isBlank c = false ∧ c ≠ ']' := by
  cases j with
  | null | str text | arr items | obj fields => exact ⟨_, _, rfl, by decide, by decide⟩
  | bool b => cases b <;> exact ⟨_, _, rfl, by decide, by decide⟩
  | num n =>
    obtain ⟨c, rest, written, begins⟩ := exists_cons_formatInt n
    refine ⟨c, rest, by rw [write, written], ?_, ne_of_begins begins (by decide)⟩
    have space : c ≠ ' ' := ne_of_begins begins (by decide)
    have tab : c ≠ '\t' := ne_of_begins begins (by decide)
    have line : c ≠ '\n' := ne_of_begins begins (by decide)
    have back : c ≠ '\r' := ne_of_begins begins (by decide)
    simp [isBlank, space, tab, line, back]

theorem exists_cons_writeItems (j : Json) (items : List Json) :
    ∃ c rest, writeItems (j :: items) = c :: rest ∧ isBlank c = false ∧ c ≠ ']' := by
  obtain ⟨c, rest, written, notBlank, notEnd⟩ := exists_cons_write j
  cases items with
  | nil => exact ⟨c, rest, by rw [writeItems, written], notBlank, notEnd⟩
  | cons j' items => exact ⟨c, _, by rw [writeItems, written]; rfl, notBlank, notEnd⟩

theorem exists_cons_writeFields (field : List Char × Json) (fields : List (List Char × Json)) :
    ∃ rest, writeFields (field :: fields) = quote :: rest := by
  cases fields with
  | nil | cons field fields => exact ⟨_, rfl⟩

theorem length_writeString : text.length + 2 ≤ (writeString text).length := by
  have each : ∀ c, 1 ≤ (escapeChar c).length := by
    intro c
    refine Nat.one_le_iff_ne_zero.mpr fun empty => ?_
    have read := readChar_escapeChar c []
    rw [length_eq_zero_iff.mp empty] at read
    exact nomatch read
  have body : text.length ≤ (text.flatMap escapeChar).length := by
    induction text with
    | nil => exact le_rfl
    | cons c text ih =>
      have := each c
      simp only [flatMap_cons, length_cons, length_append]
      omega
  simp only [writeString, length_cons, length_append]
  omega

/-- The text of a string, after white space, and its content after the quote. -/
theorem readString_open (text rest : List Char) :
    ∃ tail, skip (writeString text ++ rest) = quote :: tail ∧
      readString tail.length tail = some (text, rest) := by
  refine ⟨text.flatMap escapeChar ++ quote :: rest, ?_, readString_write text rest ?_⟩
  · rw [writeString, cons_append, append_assoc]
    rfl
  · have := length_writeString text
    simp only [writeString, length_cons, length_append, length_nil] at this ⊢
    omega

theorem readValue_str {steps : Nat} (rest : List Char) :
    readValue (steps + 1) (writeString text ++ rest) = some (str text, rest) := by
  obtain ⟨tail, opened, content⟩ := readString_open text rest
  rw [readValue, opened]
  simp only [if_true, content, Option.map_some]

theorem readValue_num (n : Int) {steps : Nat} {rest : List Char} (stops : Stops rest) :
    readValue (steps + 1) (formatInt n ++ rest) = some (num n, rest) := by
  obtain ⟨c, tail, written, begins⟩ := exists_cons_formatInt n
  obtain ⟨c', tail', written', notBlank, -⟩ := exists_cons_write (num n)
  have same : c' :: tail' = c :: tail := written'.symm.trans written
  rw [List.cons.injEq] at same
  rw [same.1] at notBlank
  have whole := readNumber_write n stops
  rw [written, cons_append] at whole ⊢
  rw [readValue, skip_cons notBlank]
  simp only [ne_of_begins begins (show (decide (quote = '-') || quote.isDigit) = false by decide),
    ne_of_begins begins (show (decide ('[' = '-') || '['.isDigit) = false by decide),
    ne_of_begins begins (show (decide ('{' = '-') || '{'.isDigit) = false by decide),
    ne_of_begins begins (show (decide ('n' = '-') || 'n'.isDigit) = false by decide),
    ne_of_begins begins (show (decide ('t' = '-') || 't'.isDigit) = false by decide),
    ne_of_begins begins (show (decide ('f' = '-') || 'f'.isDigit) = false by decide), if_false]
  exact whole

theorem length_write_pos (j : Json) : 0 < (write j).length := by
  obtain ⟨c, rest, written, -⟩ := exists_cons_write j
  simp [written]

theorem stops_of_mem (rest : List Char) (inside : c ∈ [',', ']', '}']) :
    Stops (c :: rest) := by
  have each : [',', ']', '}'].all (fun c => !isNumberChar c && !isBlank c) = true := by decide
  simpa [Stops] using all_eq_true.mp each c inside

mutual

/-- A value reads back in as many steps as it has characters. -/
theorem readValue_write : ∀ j : Json, j.Proper → ∀ {steps : Nat} {rest : List Char},
    (write j).length ≤ steps → Stops rest → readValue steps (write j ++ rest) = some (j, rest)
  | j, proper, 0, rest, enough, stops =>
    absurd (length_write_pos j) (Nat.not_lt.mpr enough)
  | null, proper, steps + 1, rest, enough, stops => rfl
  | bool true, proper, steps + 1, rest, enough, stops
  | bool false, proper, steps + 1, rest, enough, stops => rfl
  | num n, proper, steps + 1, rest, enough, stops => readValue_num n stops
  | str text, proper, steps + 1, rest, enough, stops => readValue_str text rest
  | arr [], proper, steps + 1, rest, enough, stops => rfl
  | arr (j :: items), proper, steps + 1, rest, enough, stops => by
      obtain ⟨c, tail, written, notBlank, notEnd⟩ := exists_cons_writeItems j items
      have short : (writeItems (j :: items)).length + 1 ≤ steps := by
        simp only [write, length_cons, length_append, length_nil] at enough
        omega
      have inner := readItems_write (j :: items) (cons_ne_nil _ _) proper short (r := rest)
      have text : write (arr (j :: items)) ++ rest = '[' :: (c :: tail ++ ']' :: rest) := by
        simp [write, written]
      rw [written] at inner
      rw [text, readValue, skip_cons (by decide)]
      simp only [if_true, show ('[' = quote) = False from eq_false (by decide), if_false]
      rw [cons_append] at inner ⊢
      rw [skip_cons notBlank]
      split
      next same => exact absurd (List.cons.inj same).1 notEnd
      next => rw [inner, Option.map_some]
  | obj [], proper, steps + 1, rest, enough, stops => rfl
  | obj (field :: fields), proper, steps + 1, rest, enough, stops => by
      have short : (writeFields (field :: fields)).length + 1 ≤ steps := by
        simp only [write, length_cons, length_append, length_nil] at enough
        omega
      have inner := readFields_write (field :: fields) (cons_ne_nil _ _) proper.2 short (r := rest)
      have text : write (obj (field :: fields)) ++ rest =
          '{' :: (writeFields (field :: fields) ++ '}' :: rest) := by
        simp [write]
      obtain ⟨tail, written⟩ := exists_cons_writeFields field fields
      rw [text, readValue, skip_cons (by decide)]
      simp only [if_true, show ('{' = quote) = False from eq_false (by decide),
        show ('{' = '[') = False from eq_false (by decide), if_false]
      have notEnd : quote ≠ '}' := by decide
      rw [written, cons_append] at inner ⊢
      rw [skip_cons (by decide)]
      split
      next same => exact absurd (List.cons.inj same).1 notEnd
      next => rw [inner, Option.map_some, foldl_setField [] proper.1, nil_append]

theorem readItems_write : ∀ items : List Json, items ≠ [] → ProperItems items →
    ∀ {steps : Nat} {r : List Char}, (writeItems items).length + 1 ≤ steps →
      readItems steps (writeItems items ++ ']' :: r) = some (items, r)
  | [], nonempty, _, _, _, _ => absurd rfl nonempty
  | j :: items, _, proper, 0, rest, enough => absurd enough (Nat.not_succ_le_zero _)
  | [j], _, proper, steps + 1, rest, enough => by
      have short : (write j).length ≤ steps := Nat.le_of_succ_le_succ enough
      rw [writeItems, readItems, readValue_write j proper.1 short (stops_of_mem rest (by decide))]
      rfl
  | j :: j' :: items, _, proper, steps + 1, rest, enough => by
      rw [writeItems, length_append, length_cons] at enough
      have text : writeItems (j :: j' :: items) ++ ']' :: rest =
          write j ++ ',' :: (writeItems (j' :: items) ++ ']' :: rest) := by
        simp [writeItems]
      rw [text, readItems, readValue_write j proper.1 (by omega) (stops_of_mem _ (by decide))]
      have later := readItems_write (j' :: items) (cons_ne_nil _ _) proper.2
        (show (writeItems (j' :: items)).length + 1 ≤ steps by omega) (r := rest)
      simp only [skip_cons (show isBlank ',' = false by decide), later, Option.map_some]

theorem readFields_write : ∀ fields : List (List Char × Json), fields ≠ [] → ProperFields fields →
    ∀ {steps : Nat} {r : List Char}, (writeFields fields).length + 1 ≤ steps →
      readFields steps (writeFields fields ++ '}' :: r) = some (fields, r)
  | [], nonempty, _, _, _, _ => absurd rfl nonempty
  | field :: fields, _, proper, 0, rest, enough => absurd enough (Nat.not_succ_le_zero _)
  | [(key, j)], _, proper, steps + 1, rest, enough => by
      rw [writeFields, length_append, length_cons] at enough
      have text : writeFields [(key, j)] ++ '}' :: rest =
          writeString key ++ ':' :: (write j ++ '}' :: rest) := by
        simp [writeFields]
      obtain ⟨tail, opened, content⟩ := readString_open key (':' :: (write j ++ '}' :: rest))
      have inner := readValue_write j proper.1 (show (write j).length ≤ steps by omega)
        (stops_of_mem rest (show '}' ∈ _ by decide))
      rw [text, readFields, opened]
      simp only [if_true, content, skip_cons (show isBlank ':' = false by decide), inner,
        skip_cons (show isBlank '}' = false by decide)]
  | (key, j) :: field :: fields, _, proper, steps + 1, rest, enough => by
      rw [writeFields, length_append, length_cons, length_append, length_cons] at enough
      have text : writeFields ((key, j) :: field :: fields) ++ '}' :: rest =
          writeString key ++ ':' :: (write j ++ ',' ::
            (writeFields (field :: fields) ++ '}' :: rest)) := by
        simp [writeFields]
      obtain ⟨tail, opened, content⟩ := readString_open key
        (':' :: (write j ++ ',' :: (writeFields (field :: fields) ++ '}' :: rest)))
      have inner := readValue_write j proper.1 (show (write j).length ≤ steps by omega)
        (stops_of_mem (writeFields (field :: fields) ++ '}' :: rest) (show ',' ∈ _ by decide))
      have later := readFields_write (field :: fields) (cons_ne_nil _ _) proper.2
        (show (writeFields (field :: fields)).length + 1 ≤ steps by omega) (r := rest)
      rw [text, readFields, opened]
      simp only [if_true, content, skip_cons (show isBlank ':' = false by decide), inner,
        skip_cons (show isBlank ',' = false by decide), later, Option.map_some]

end

theorem read_write {j : Json} (proper : j.Proper) : read (write j) = some j := by
  have whole : readValue (write j).length (write j ++ []) = some (j, []) :=
    readValue_write j proper le_rfl trivial
  rw [append_nil] at whole
  rw [read, whole]
  rfl

end Kryfo.Library.Json
