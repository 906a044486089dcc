import Mathlib.Data.List.Basic
import Mathlib.Tactic.SplitIfs

/-!
# JSON texts

Values as they are written to JSON and read from it, over UTF-16 code units.  The writer
leaves no blanks and escapes what a string may not hold: quotes, backslashes, controls, and
surrogates without a partner.  The reader is the grammar of JSON with blanks between the
tokens; it takes fuel, of which the length of a text is enough for what the writer wrote.

A number stands as its text.  The members of an object stand in the order of the text.

Main facts:
* `parse_text`: a value is read from its text;
* `Closed.text`: a text is made of plain units and of pairs of surrogates;
* `text_printable`: a text holds no control, so it is one line.
-/

namespace BengaliTts
namespace Lib
namespace JsonText

/-- Text, as its UTF-16 code units. -/
abbrev Units := List UInt16

section Symbols

def quote : UInt16 := 34

def backslash : UInt16 := 92

def comma : UInt16 := 44

def colonSign : UInt16 := 58

def leftBracket : UInt16 := 91

def rightBracket : UInt16 := 93

def leftBrace : UInt16 := 123

def rightBrace : UInt16 := 125

/-- A tab, a line feed, a carriage return or a blank. -/
def isSpace (u : UInt16) : Bool :=
  u = 9 || u = 10 || u = 13 || u = 32

def isDigit (u : UInt16) : Bool :=
  48 ≤ u && u ≤ 57

/-- What occurs in numbers: digits, signs, the point and the letter of the exponent. -/
def isNumberUnit (u : UInt16) : Bool :=
  isDigit u || u = 43 || u = 45 || u = 46 || u = 69 || u = 101

def isLead (u : UInt16) : Bool :=
  0xD800 ≤ u && u ≤ 0xDBFF

def isTrail (u : UInt16) : Bool :=
  0xDC00 ≤ u && u ≤ 0xDFFF

/-- `null`. -/
def nullText : Units := [110, 117, 108, 108]

/-- `true`. -/
def trueText : Units := [116, 114, 117, 101]

/-- `false`. -/
def falseText : Units := [102, 97, 108, 115, 101]

end Symbols

section Numbers

/-- What follows the integer part: `0`, or digits that do not start with it. -/
def afterInteger : Units → Option Units
  | [] => none
  | u :: rest =>
      if u = 48 then some rest
      else if isDigit u then some (rest.dropWhile isDigit)
      else none

/-- What follows at least one digit. -/
def afterDigits : Units → Option Units
  | [] => none
  | u :: rest => if isDigit u then some (rest.dropWhile isDigit) else none

def afterFraction : Units → Option Units
  | [] => some []
  | u :: rest => if u = 46 then afterDigits rest else some (u :: rest)

def afterSign : Units → Units
  | [] => []
  | u :: rest => if u = 43 ∨ u = 45 then rest else u :: rest

def afterExponent : Units → Option Units
  | [] => some []
  | u :: rest => if u = 69 ∨ u = 101 then afterDigits (afterSign rest) else some (u :: rest)

def afterMinus : Units → Units
  | [] => []
  | u :: rest => if u = 45 then rest else u :: rest

/-- The text is a number. -/
def isNumber (text : Units) : Bool :=
  ((afterInteger (afterMinus text)).bind afterFraction).bind afterExponent == some []

/-- The text of a number. -/
structure NumberText where
  digits : Units
  units : digits.all isNumberUnit = true
  number : isNumber digits = true

end Numbers

inductive Value where
  | null
  | bool (value : Bool)
  | number (text : NumberText)
  | string (text : Units)
  | array (items : List Value)
  | object (members : List (Units × Value))

section Writing

/-- A hexadecimal digit. -/
def hexDigit (n : Nat) : UInt16 :=
  if n < 10 then UInt16.ofNat (48 + n) else UInt16.ofNat (87 + n)

/-- A unit by its number. -/
def unicodeEscape (u : UInt16) : Units :=
  [backslash, 117, hexDigit (u.toNat / 4096), hexDigit (u.toNat / 256 % 16),
    hexDigit (u.toNat / 16 % 16), hexDigit (u.toNat % 16)]

/-- The letters of the short escapes. -/
def escapeLetter (u : UInt16) : Option UInt16 :=
  if u = 8 then some 98
  else if u = 9 then some 116
  else if u = 10 then some 110
  else if u = 12 then some 102
  else if u = 13 then some 114
  else if u = quote then some quote
  else if u = backslash then some backslash
  else none

/-- One unit of a string that is not half of a pair. -/
def escapeUnit (u : UInt16) : Units :=
  match escapeLetter u with
  | some letter => [backslash, letter]
  | none => if u < 32 ∨ isLead u ∨ isTrail u then unicodeEscape u else [u]

/-- What stands between the quotes. -/
def stringText : Units → Units
  | [] => []
  | [u] => escapeUnit u
  | u :: v :: rest =>
      if isLead u && isTrail v then
        u :: v :: stringText rest
      else
        escapeUnit u ++ stringText (v :: rest)

def quoted (text : Units) : Units :=
  quote :: stringText text ++ [quote]

mutual

/-- The JSON text of a value. -/
def Value.text : Value → Units
  | .null => nullText
  | .bool true => trueText
  | .bool false => falseText
  | .number n => n.digits
  | .string s => quoted s
  | .array items => leftBracket :: itemsText items ++ [rightBracket]
  | .object members => leftBrace :: membersText members ++ [rightBrace]

def itemsText : List Value → Units
  | [] => []
  | [v] => v.text
  | v :: w :: rest => v.text ++ comma :: itemsText (w :: rest)

def membersText : List (Units × Value) → Units
  | [] => []
  | [(key, v)] => quoted key ++ colonSign :: v.text
  | (key, v) :: m :: rest => quoted key ++ colonSign :: v.text ++ comma :: membersText (m :: rest)

end

end Writing

section Reading

def skipSpace (text : Units) : Units :=
  text.dropWhile isSpace

/-- What follows a symbol, if it comes next. -/
def expect (u : UInt16) (text : Units) : Option Units :=
  match skipSpace text with
  | [] => none
  | v :: rest => if v = u then some rest else none

def hexValue (u : UInt16) : Option Nat :=
  if isDigit u then some (u.toNat - 48)
  else if 97 ≤ u ∧ u ≤ 102 then some (u.toNat - 87)
  else if 65 ≤ u ∧ u ≤ 70 then some (u.toNat - 55)
  else none

/-- The unit that four digits name. -/
def hexUnit (a b c d : UInt16) : Option UInt16 := do
  let a ← hexValue a
  let b ← hexValue b
  let c ← hexValue c
  let d ← hexValue d
  return UInt16.ofNat (((a * 16 + b) * 16 + c) * 16 + d)

/-- The unit of a short escape; a slash may be escaped too. -/
def escapedUnit (letter : UInt16) : Option UInt16 :=
  if letter = 98 then some 8
  else if letter = 116 then some 9
  else if letter = 110 then some 10
  else if letter = 102 then some 12
  else if letter = 114 then some 13
  else if letter = quote then some quote
  else if letter = backslash then some backslash
  else if letter = 47 then some 47
  else none

/-- A string up to its closing quote. -/
def readString : Units → Option (Units × Units)
  | [] => none
  | u :: rest =>
      if u = quote then
        some ([], rest)
      else if u = backslash then
        match rest with
        | [] => none
        | letter :: rest =>
            if letter = 117 then
              match rest with
              | a :: b :: c :: d :: rest =>
                  match hexUnit a b c d with
                  | some v => (readString rest).map fun p => (v :: p.1, p.2)
                  | none => none
              | _ => none
            else
              match escapedUnit letter with
              | some v => (readString rest).map fun p => (v :: p.1, p.2)
              | none => none
      else if u < 32 then
        none
      else
        (readString rest).map fun p => (u :: p.1, p.2)

/-- The longest text of number units must be a number. -/
def readNumber (text : Units) : Option (Value × Units) :=
  if h : isNumber (text.takeWhile isNumberUnit) = true then
    some (.number ⟨text.takeWhile isNumberUnit, List.all_takeWhile, h⟩, text.dropWhile isNumberUnit)
  else
    none

/-- A value that is no string, array or object. -/
def readAtom (text : Units) : Option (Value × Units) :=
  if nullText.isPrefixOf text then
    some (.null, text.drop nullText.length)
  else if trueText.isPrefixOf text then
    some (.bool true, text.drop trueText.length)
  else if falseText.isPrefixOf text then
    some (.bool false, text.drop falseText.length)
  else
    readNumber text

mutual

/-- A value and what follows it. -/
def readValue : Nat → Units → Option (Value × Units)
  | 0, _ => none
  | fuel + 1, text =>
      match expect quote text with
      | some rest => (readString rest).map fun p => (.string p.1, p.2)
      | none =>
          match expect leftBracket text with
          | some rest =>
              match expect rightBracket rest with
              | some rest => some (.array [], rest)
              | none => (readItems fuel rest).map fun p => (.array p.1, p.2)
          | none =>
              match expect leftBrace text with
              | some rest =>
                  match expect rightBrace rest with
                  | some rest => some (.object [], rest)
                  | none => (readMembers fuel rest).map fun p => (.object p.1, p.2)
              | none => readAtom (skipSpace text)

/-- The items of an array up to its bracket. -/
def readItems : Nat → Units → Option (List Value × Units)
  | 0, _ => none
  | fuel + 1, text => do
      let (v, rest) ← readValue fuel text
      match expect comma rest with
      | some rest => (readItems fuel rest).map fun p => (v :: p.1, p.2)
      | none => (expect rightBracket rest).map fun rest => ([v], rest)

/-- The members of an object up to its brace. -/
def readMembers : Nat → Units → Option (List (Units × Value) × Units)
  | 0, _ => none
  | fuel + 1, text => do
      let rest ← expect quote text
      let (key, rest) ← readString rest
      let rest ← expect colonSign rest
      let (v, rest) ← readValue fuel rest
      match expect comma rest with
      | some rest => (readMembers fuel rest).map fun p => ((key, v) :: p.1, p.2)
      | none => (expect rightBrace rest).map fun rest => ([(key, v)], rest)

end

/-- The value of a whole text. -/
def parse (text : Units) : Option Value :=
  match readValue (text.length + 1) text with
  | some (v, rest) => if skipSpace rest = [] then some v else none
  | none => none

end Reading

section Symbols

theorem expect_cons
    {u : UInt16} {rest : Units}
    (h : isSpace u = false) :
    expect u (u :: rest) = some rest := by
  rw [expect, skipSpace, List.dropWhile_cons_of_neg (by rw [h]; exact Bool.false_ne_true)]
  exact if_pos rfl

theorem expect_ne
    {u v : UInt16} {rest : Units}
    (h : isSpace v = false)
    (hne : v ≠ u) :
    expect u (v :: rest) = none := by
  rw [expect, skipSpace, List.dropWhile_cons_of_neg (by rw [h]; exact Bool.false_ne_true)]
  exact if_neg hne

theorem skipSpace_cons
    {u : UInt16} {rest : Units}
    (h : isSpace u = false) :
    skipSpace (u :: rest) = u :: rest :=
  List.dropWhile_cons_of_neg (by rw [h]; exact Bool.false_ne_true)

end Symbols

section Strings

theorem hexValue_digit
    {n : Nat}
    (h : n < 16) :
    hexValue (hexDigit n) = some n := by
  have hall : ∀ n, n < 16 → hexValue (hexDigit n) = some n := by decide
  exact hall n h

/-- The number of a unit is put together from its four digits. -/
theorem hexUnit_digits
    (u : UInt16) :
    hexUnit (hexDigit (u.toNat / 4096)) (hexDigit (u.toNat / 256 % 16))
      (hexDigit (u.toNat / 16 % 16)) (hexDigit (u.toNat % 16)) = some u := by
  have hu : u.toNat < 65536 := u.toNat_lt
  have hvalue : ((u.toNat / 4096 * 16 + u.toNat / 256 % 16) * 16 + u.toNat / 16 % 16) * 16 +
      u.toNat % 16 = u.toNat := by
    omega
  rw [hexUnit, hexValue_digit (by omega), hexValue_digit (by omega), hexValue_digit (by omega),
    hexValue_digit (by omega)]
  simp only [Option.bind_eq_bind, Option.bind_some, hvalue, UInt16.ofNat_toNat]
  rfl

theorem escapedUnit_letter
    {u letter : UInt16}
    (h : escapeLetter u = some letter) :
    escapedUnit letter = some u ∧ letter ≠ 117 := by
  unfold escapeLetter at h
  split_ifs at h with h₁ h₂ h₃ h₄ h₅ h₆ h₇
  all_goals
    cases h
    subst_vars
    decide

/-- What is not escaped is no quote, no backslash and no control. -/
theorem plain_of_escapeLetter
    {u : UInt16}
    (h : escapeLetter u = none) :
    u ≠ quote ∧ u ≠ backslash := by
  constructor
  · rintro rfl
    cases h
  · rintro rfl
    cases h

theorem readString_quote
    (rest : Units) :
    readString (quote :: rest) = some ([], rest) := by
  rw [readString.eq_def]
  exact if_pos rfl

theorem readString_plain
    {u : UInt16}
    (hquote : u ≠ quote)
    (hbackslash : u ≠ backslash)
    (hcontrol : ¬ u < 32)
    (rest : Units) :
    readString (u :: rest) = (readString rest).map fun p => (u :: p.1, p.2) := by
  rw [readString.eq_def]
  simp only [if_neg hquote, if_neg hbackslash, if_neg hcontrol]

theorem readString_letter
    {letter v : UInt16}
    (hletter : letter ≠ 117)
    (hescaped : escapedUnit letter = some v)
    (rest : Units) :
    readString (backslash :: letter :: rest) =
      (readString rest).map fun p => (v :: p.1, p.2) := by
  rw [readString.eq_def]
  have hquote : backslash ≠ quote := by decide
  simp only [if_neg hquote, if_true, if_neg hletter, hescaped]

theorem readString_unicode
    {a b c d v : UInt16}
    (hunit : hexUnit a b c d = some v)
    (rest : Units) :
    readString (backslash :: 117 :: a :: b :: c :: d :: rest) =
      (readString rest).map fun p => (v :: p.1, p.2) := by
  rw [readString.eq_def]
  have hquote : backslash ≠ quote := by decide
  simp only [if_neg hquote, if_true, hunit]

/-- A unit is read from its escape. -/
theorem readString_escapeUnit
    (u : UInt16) (rest : Units) :
    readString (escapeUnit u ++ rest) = (readString rest).map fun p => (u :: p.1, p.2) := by
  cases hletter : escapeLetter u with
  | some letter =>
      obtain ⟨hescaped, hne⟩ := escapedUnit_letter hletter
      simp only [escapeUnit, hletter, List.cons_append, List.nil_append]
      exact readString_letter hne hescaped rest
  | none =>
      obtain ⟨hquote, hbackslash⟩ := plain_of_escapeLetter hletter
      by_cases hescape : u < 32 ∨ isLead u ∨ isTrail u
      · simp only [escapeUnit, hletter, if_pos hescape, unicodeEscape, List.cons_append,
          List.nil_append]
        exact readString_unicode (hexUnit_digits u) rest
      · simp only [escapeUnit, hletter, if_neg hescape, List.cons_append, List.nil_append]
        exact readString_plain hquote hbackslash (fun hcontrol => hescape (Or.inl hcontrol)) rest

/-- Half of a pair is read as it stands. -/
theorem readString_surrogate
    {u : UInt16}
    (h : isLead u = true ∨ isTrail u = true)
    (rest : Units) :
    readString (u :: rest) = (readString rest).map fun p => (u :: p.1, p.2) := by
  have hu : 0xD800 ≤ u.toNat := by
    simp only [isLead, isTrail, Bool.and_eq_true, decide_eq_true_eq, UInt16.le_iff_toNat_le] at h
    have hlead : (0xD800 : UInt16).toNat = 0xD800 := rfl
    have htrail : (0xDC00 : UInt16).toNat = 0xDC00 := rfl
    omega
  have hne : ∀ v : UInt16, v.toNat < 0xD800 → u ≠ v := by
    rintro v hv rfl
    omega
  have hcontrol : ¬ u < 32 := by
    rw [UInt16.lt_iff_toNat_lt]
    have hbound : (32 : UInt16).toNat = 32 := rfl
    omega
  exact readString_plain (hne quote (by decide)) (hne backslash (by decide)) hcontrol rest

/-- **Strings.**  A string is read up to its closing quote. -/
theorem readString_stringText
    (text rest : Units) :
    readString (stringText text ++ quote :: rest) = some (text, rest) := by
  induction text using stringText.induct with
  | case1 =>
      rw [stringText, List.nil_append, readString_quote]
  | case2 u =>
      rw [stringText, readString_escapeUnit, readString_quote]
      rfl
  | case3 u v text hpair ih =>
      obtain ⟨hlead, htrail⟩ := (Bool.and_eq_true _ _).mp hpair
      rw [stringText, if_pos hpair, List.cons_append, List.cons_append,
        readString_surrogate (Or.inl hlead), readString_surrogate (Or.inr htrail), ih]
      rfl
  | case4 u v text hpair ih =>
      rw [stringText, if_neg hpair, List.append_assoc, readString_escapeUnit, ih]
      rfl

end Strings

section Numbers

theorem ne_of_isNumberUnit
    {u v : UInt16}
    (hu : isNumberUnit u = true)
    (hv : isNumberUnit v = false) :
    u ≠ v := by
  rintro rfl
  rw [hu] at hv
  cases hv

theorem isSpace_of_isNumberUnit
    {u : UInt16}
    (h : isNumberUnit u = true) :
    isSpace u = false := by
  have hne : ∀ v, isNumberUnit v = false → decide (u = v) = false := by
    intro v hv
    exact decide_eq_false (ne_of_isNumberUnit h hv)
  rw [isSpace, hne 9 (by decide), hne 10 (by decide), hne 13 (by decide), hne 32 (by decide)]
  rfl

theorem NumberText.digits_cons
    (n : NumberText) :
    ∃ u rest, n.digits = u :: rest ∧ isNumberUnit u = true := by
  obtain ⟨digits, hunits, hnumber⟩ := n
  cases digits with
  | nil => cases hnumber
  | cons u rest =>
      rw [List.all_cons, Bool.and_eq_true] at hunits
      exact ⟨u, rest, rfl, hunits.1⟩

/-- What may follow a number. -/
def EndsNumber (rest : Units) : Prop :=
  ∀ u, u ∈ rest.head? → isNumberUnit u = false

theorem takeWhile_digits
    {digits rest : Units}
    (hunits : digits.all isNumberUnit = true)
    (hrest : EndsNumber rest) :
    (digits ++ rest).takeWhile isNumberUnit = digits ∧
      (digits ++ rest).dropWhile isNumberUnit = rest := by
  have hall : ∀ u, u ∈ digits → isNumberUnit u = true := List.all_eq_true.mp hunits
  rw [List.takeWhile_append_of_pos hall, List.dropWhile_append_of_pos hall]
  cases rest with
  | nil => exact ⟨List.append_nil _, rfl⟩
  | cons u rest =>
      have hu : isNumberUnit u = false := hrest u rfl
      have hstop : ¬ isNumberUnit u = true := by
        rw [hu]
        exact Bool.false_ne_true
      rw [List.takeWhile_cons_of_neg hstop, List.dropWhile_cons_of_neg hstop]
      exact ⟨List.append_nil _, rfl⟩

theorem readNumber_digits
    (n : NumberText) {rest : Units}
    (hrest : EndsNumber rest) :
    readNumber (n.digits ++ rest) = some (.number n, rest) := by
  obtain ⟨htake, hdrop⟩ := takeWhile_digits n.units hrest
  unfold readNumber
  rw [dif_pos (by rw [htake]; exact n.number)]
  simp only [htake, hdrop]

/-- A text with another first unit does not start so. -/
theorem isPrefixOf_ne
    {u v : UInt16} {pattern rest : Units}
    (h : u ≠ v) :
    (v :: pattern).isPrefixOf (u :: rest) = false := by
  have hbeq : (v == u) = false := beq_eq_false_iff_ne.mpr h.symm
  rw [List.isPrefixOf, hbeq, Bool.false_and]

theorem readAtom_digits
    (n : NumberText) {rest : Units}
    (hrest : EndsNumber rest) :
    readAtom (n.digits ++ rest) = some (.number n, rest) := by
  have hread := readNumber_digits n hrest
  obtain ⟨u, digits, hdigits, hu⟩ := n.digits_cons
  rw [hdigits, List.cons_append] at hread ⊢
  rw [readAtom, nullText, trueText, falseText,
    isPrefixOf_ne (ne_of_isNumberUnit hu (by decide)),
    isPrefixOf_ne (ne_of_isNumberUnit hu (by decide)),
    isPrefixOf_ne (ne_of_isNumberUnit hu (by decide))]
  exact hread

end Numbers

section Values

mutual

/-- The fuel that reading a value takes. -/
def Value.cost : Value → Nat
  | .null => 1
  | .bool _ => 1
  | .number _ => 1
  | .string _ => 1
  | .array items => 1 + itemsCost items
  | .object members => 1 + membersCost members

def itemsCost : List Value → Nat
  | [] => 0
  | v :: rest => 1 + v.cost + itemsCost rest

def membersCost : List (Units × Value) → Nat
  | [] => 0
  | (_, v) :: rest => 1 + v.cost + membersCost rest

end

/-- The first unit of a value. -/
theorem text_start
    (v : Value) :
    ∃ u rest, v.text = u :: rest ∧ isSpace u = false ∧ u ≠ rightBracket := by
  cases v with
  | null => exact ⟨_, _, rfl, rfl, by decide⟩
  | bool b =>
      cases b
      · exact ⟨_, _, rfl, rfl, by decide⟩
      · exact ⟨_, _, rfl, rfl, by decide⟩
  | number n =>
      obtain ⟨u, rest, hdigits, hu⟩ := n.digits_cons
      refine ⟨u, rest, ?_, isSpace_of_isNumberUnit hu, ne_of_isNumberUnit hu (by decide)⟩
      rw [Value.text, hdigits]
  | string s => exact ⟨_, _, by rw [Value.text, quoted]; rfl, rfl, by decide⟩
  | array items => exact ⟨_, _, by rw [Value.text]; rfl, rfl, by decide⟩
  | object members => exact ⟨_, _, by rw [Value.text]; rfl, rfl, by decide⟩

/-- The text that stands between the braces or brackets starts no blank. -/
theorem itemsText_start
    (v : Value) (items : List Value) :
    ∃ u rest, itemsText (v :: items) = u :: rest ∧ isSpace u = false ∧ u ≠ rightBracket := by
  obtain ⟨u, rest, htext, hspace, hne⟩ := text_start v
  cases items with
  | nil => exact ⟨u, rest, by rw [itemsText, htext], hspace, hne⟩
  | cons w items => exact ⟨u, _, by rw [itemsText, htext]; rfl, hspace, hne⟩

theorem membersText_start
    (m : Units × Value) (members : List (Units × Value)) :
    ∃ rest, membersText (m :: members) = quote :: rest := by
  obtain ⟨key, v⟩ := m
  cases members with
  | nil => exact ⟨_, by rw [membersText, quoted]; rfl⟩
  | cons m members => exact ⟨_, by rw [membersText, quoted]; rfl⟩

/-- A value whose first unit opens nothing is an atom. -/
theorem readValue_atom
    {u : UInt16} {rest : Units} (fuel : Nat)
    (hspace : isSpace u = false)
    (hquote : u ≠ quote)
    (hbracket : u ≠ leftBracket)
    (hbrace : u ≠ leftBrace) :
    readValue (fuel + 1) (u :: rest) = readAtom (u :: rest) := by
  rw [readValue, expect_ne hspace hquote, expect_ne hspace hbracket, expect_ne hspace hbrace,
    skipSpace_cons hspace]

theorem readValue_string
    (text rest : Units) (fuel : Nat) :
    readValue (fuel + 1) (quoted text ++ rest) = some (.string text, rest) := by
  rw [quoted, List.append_assoc, List.cons_append, readValue, expect_cons rfl,
    List.singleton_append]
  simp only [readString_stringText, Option.map_some]

theorem endsNumber_cons
    {u : UInt16} {rest : Units}
    (h : isNumberUnit u = false) :
    EndsNumber (u :: rest) := by
  intro v hv
  cases hv
  exact h

theorem readItems_last
    {fuel : Nat} {v : Value} {text rest : Units}
    (h : readValue fuel text = some (v, rightBracket :: rest)) :
    readItems (fuel + 1) text = some ([v], rest) := by
  have hcomma : expect comma (rightBracket :: rest) = none := expect_ne rfl (by decide)
  rw [readItems, h]
  simp only [Option.bind_eq_bind, Option.bind_some, hcomma]
  rw [expect_cons rfl, Option.map_some]

theorem readItems_more
    {fuel : Nat} {v : Value} {items : List Value} {text rest last : Units}
    (h : readValue fuel text = some (v, comma :: rest))
    (hitems : readItems fuel rest = some (items, last)) :
    readItems (fuel + 1) text = some (v :: items, last) := by
  have hcomma : expect comma (comma :: rest) = some rest := expect_cons rfl
  rw [readItems, h]
  simp only [Option.bind_eq_bind, Option.bind_some, hcomma, hitems, Option.map_some]

theorem readMembers_last
    {fuel : Nat} {key : Units} {v : Value} {text rest : Units}
    (h : readValue fuel text = some (v, rightBrace :: rest)) :
    readMembers (fuel + 1) (quoted key ++ colonSign :: text) = some ([(key, v)], rest) := by
  have hcolon : expect colonSign (colonSign :: text) = some text := expect_cons rfl
  have hcomma : expect comma (rightBrace :: rest) = none := expect_ne rfl (by decide)
  rw [quoted, List.append_assoc, List.cons_append, readMembers, expect_cons rfl]
  simp only [Option.bind_eq_bind, Option.bind_some, List.singleton_append, readString_stringText,
    hcolon, h, hcomma]
  rw [expect_cons rfl, Option.map_some]

theorem readMembers_more
    {fuel : Nat} {key : Units} {v : Value} {members : List (Units × Value)}
    {text rest last : Units}
    (h : readValue fuel text = some (v, comma :: rest))
    (hmembers : readMembers fuel rest = some (members, last)) :
    readMembers (fuel + 1) (quoted key ++ colonSign :: text) =
      some ((key, v) :: members, last) := by
  have hcolon : expect colonSign (colonSign :: text) = some text := expect_cons rfl
  have hcomma : expect comma (comma :: rest) = some rest := expect_cons rfl
  rw [quoted, List.append_assoc, List.cons_append, readMembers, expect_cons rfl]
  simp only [Option.bind_eq_bind, Option.bind_some, List.singleton_append, readString_stringText,
    hcolon, h, hcomma, hmembers, Option.map_some]

theorem readValue_array
    {fuel : Nat} {v : Value} {items : List Value} {rest : Units}
    (h : readItems fuel (itemsText (v :: items) ++ rightBracket :: rest) =
      some (v :: items, rest)) :
    readValue (fuel + 1) ((Value.array (v :: items)).text ++ rest) =
      some (.array (v :: items), rest) := by
  obtain ⟨u, inner, hstart, hspace, hne⟩ := itemsText_start v items
  have hempty : expect rightBracket (itemsText (v :: items) ++ rightBracket :: rest) = none := by
    rw [hstart]
    exact expect_ne hspace hne
  have hquote : ∀ text, expect quote (leftBracket :: text) = none :=
    fun _ => expect_ne rfl (by decide)
  rw [Value.text, List.append_assoc, List.cons_append, List.singleton_append, readValue, hquote,
    expect_cons rfl]
  simp only [hempty, h, Option.map_some]

theorem readValue_object
    {fuel : Nat} {m : Units × Value} {members : List (Units × Value)} {rest : Units}
    (h : readMembers fuel (membersText (m :: members) ++ rightBrace :: rest) =
      some (m :: members, rest)) :
    readValue (fuel + 1) ((Value.object (m :: members)).text ++ rest) =
      some (.object (m :: members), rest) := by
  obtain ⟨inner, hstart⟩ := membersText_start m members
  have hempty : expect rightBrace (membersText (m :: members) ++ rightBrace :: rest) = none := by
    rw [hstart]
    exact expect_ne rfl (by decide)
  have hquote : ∀ text, expect quote (leftBrace :: text) = none :=
    fun _ => expect_ne rfl (by decide)
  have hbracket : ∀ text, expect leftBracket (leftBrace :: text) = none :=
    fun _ => expect_ne rfl (by decide)
  rw [Value.text, List.append_assoc, List.cons_append, List.singleton_append, readValue, hquote,
    hbracket, expect_cons rfl]
  simp only [hempty, h, Option.map_some]

/-- Fuel that is enough: a value, the items of an array and the members of an object are
read from their texts, whatever follows. -/
structure Reads (fuel : Nat) : Prop where
  value : ∀ (v : Value) (rest : Units), v.cost ≤ fuel → EndsNumber rest →
    readValue fuel (v.text ++ rest) = some (v, rest)
  items : ∀ (v : Value) (items : List Value) (rest : Units), itemsCost (v :: items) ≤ fuel →
    readItems fuel (itemsText (v :: items) ++ rightBracket :: rest) = some (v :: items, rest)
  members : ∀ (m : Units × Value) (members : List (Units × Value)) (rest : Units),
    membersCost (m :: members) ≤ fuel →
      readMembers fuel (membersText (m :: members) ++ rightBrace :: rest) =
        some (m :: members, rest)

theorem cost_pos
    (v : Value) :
    0 < v.cost := by
  cases v <;> simp only [Value.cost] <;> omega

theorem readValue_of_reads
    {fuel : Nat} {v : Value} {rest : Units}
    (ih : Reads fuel)
    (hfuel : v.cost ≤ fuel + 1)
    (hrest : EndsNumber rest) :
    readValue (fuel + 1) (v.text ++ rest) = some (v, rest) := by
  match v with
  | .null => exact readValue_atom fuel rfl (by decide) (by decide) (by decide)
  | .bool true => exact readValue_atom fuel rfl (by decide) (by decide) (by decide)
  | .bool false => exact readValue_atom fuel rfl (by decide) (by decide) (by decide)
  | .number n =>
      have hatom := readAtom_digits n hrest
      obtain ⟨u, digits, hdigits, hu⟩ := n.digits_cons
      rw [Value.text]
      rw [hdigits, List.cons_append] at hatom ⊢
      rw [readValue_atom fuel (isSpace_of_isNumberUnit hu) (ne_of_isNumberUnit hu (by decide))
        (ne_of_isNumberUnit hu (by decide)) (ne_of_isNumberUnit hu (by decide))]
      exact hatom
  | .string s => exact readValue_string s rest fuel
  | .array [] => rfl
  | .array (w :: items) =>
      rw [Value.cost] at hfuel
      exact readValue_array (ih.items w items rest (by omega))
  | .object [] => rfl
  | .object (m :: members) =>
      rw [Value.cost] at hfuel
      exact readValue_object (ih.members m members rest (by omega))

theorem readItems_of_reads
    {fuel : Nat} {v : Value} {items : List Value} {rest : Units}
    (ih : Reads fuel)
    (hfuel : itemsCost (v :: items) ≤ fuel + 1) :
    readItems (fuel + 1) (itemsText (v :: items) ++ rightBracket :: rest) =
      some (v :: items, rest) := by
  rw [itemsCost] at hfuel
  cases items with
  | nil =>
      rw [itemsText]
      exact readItems_last (ih.value v _ (by omega) (endsNumber_cons rfl))
  | cons w items =>
      rw [itemsText, List.append_assoc, List.cons_append]
      exact readItems_more (ih.value v _ (by omega) (endsNumber_cons rfl))
        (ih.items w items rest (by omega))

theorem readMembers_of_reads
    {fuel : Nat} {m : Units × Value} {members : List (Units × Value)} {rest : Units}
    (ih : Reads fuel)
    (hfuel : membersCost (m :: members) ≤ fuel + 1) :
    readMembers (fuel + 1) (membersText (m :: members) ++ rightBrace :: rest) =
      some (m :: members, rest) := by
  obtain ⟨key, v⟩ := m
  rw [membersCost] at hfuel
  cases members with
  | nil =>
      rw [membersText, List.append_assoc, List.cons_append]
      exact readMembers_last (ih.value v _ (by omega) (endsNumber_cons rfl))
  | cons n members =>
      rw [membersText, List.append_assoc, List.cons_append, List.append_assoc, List.cons_append]
      exact readMembers_more (ih.value v _ (by omega) (endsNumber_cons rfl))
        (ih.members n members rest (by omega))

theorem reads_text
    (fuel : Nat) :
    Reads fuel := by
  induction fuel with
  | zero =>
      refine ⟨fun v rest hfuel => ?_, fun v items rest hfuel => ?_, fun m members rest hfuel => ?_⟩
      · have hv := cost_pos v
        omega
      · rw [itemsCost] at hfuel
        omega
      · obtain ⟨key, v⟩ := m
        rw [membersCost] at hfuel
        omega
  | succ fuel ih =>
      exact ⟨fun _ _ => readValue_of_reads ih, fun _ _ _ => readItems_of_reads ih,
        fun _ _ _ => readMembers_of_reads ih⟩

mutual

theorem cost_le_text
    (v : Value) :
    v.cost ≤ v.text.length := by
  match v with
  | .null => decide
  | .bool true => decide
  | .bool false => decide
  | .number n =>
      obtain ⟨u, digits, hdigits, _⟩ := n.digits_cons
      rw [Value.cost, Value.text, hdigits, List.length_cons]
      omega
  | .string s =>
      rw [Value.cost, Value.text, quoted]
      simp
  | .array items =>
      have hitems := itemsCost_le_text items
      rw [Value.cost, Value.text]
      simp only [List.length_append, List.length_cons, List.length_nil]
      omega
  | .object members =>
      have hmembers := membersCost_le_text members
      rw [Value.cost, Value.text]
      simp only [List.length_append, List.length_cons, List.length_nil]
      omega

theorem itemsCost_le_text
    (items : List Value) :
    itemsCost items ≤ (itemsText items).length + 1 := by
  match items with
  | [] => exact Nat.zero_le _
  | [v] =>
      have hv := cost_le_text v
      rw [itemsCost, itemsCost, itemsText]
      omega
  | v :: w :: items =>
      have hv := cost_le_text v
      have hitems := itemsCost_le_text (w :: items)
      rw [itemsCost, itemsText]
      simp only [List.length_append, List.length_cons]
      omega

theorem membersCost_le_text
    (members : List (Units × Value)) :
    membersCost members ≤ (membersText members).length + 1 := by
  match members with
  | [] => exact Nat.zero_le _
  | [(key, v)] =>
      have hv := cost_le_text v
      rw [membersCost, membersCost, membersText]
      simp only [List.length_append, List.length_cons]
      omega
  | (key, v) :: m :: members =>
      have hv := cost_le_text v
      have hmembers := membersCost_le_text (m :: members)
      rw [membersCost, membersText]
      simp only [List.length_append, List.length_cons]
      omega

end

/-- **Round trip.**  A value is read from its text. -/
theorem parse_text
    (v : Value) :
    parse v.text = some v := by
  have hcost := cost_le_text v
  have hread := (reads_text (v.text.length + 1)).value v [] (by omega) (fun u hu => by cases hu)
  rw [List.append_nil] at hread
  simp only [parse, hread]
  rfl

end Values

section Alphabet

/-- A unit that stands for a character by itself and is no control. -/
def isPlain (u : UInt16) : Bool :=
  32 ≤ u && !isLead u && !isTrail u

/-- A property of every text that is made of plain units and pairs. -/
structure Closed (P : Units → Prop) : Prop where
  nil : P []
  append : ∀ first second, P first → P second → P (first ++ second)
  plain : ∀ u, isPlain u = true → P [u]
  pair : ∀ u v, isLead u = true → isTrail v = true → P [u, v]

variable {P : Units → Prop}

theorem Closed.cons
    (hP : Closed P) {u : UInt16} {rest : Units}
    (hu : isPlain u = true)
    (hrest : P rest) :
    P (u :: rest) :=
  hP.append [u] rest (hP.plain u hu) hrest

theorem Closed.of_plain
    (hP : Closed P) (text : Units)
    (h : ∀ u, u ∈ text → isPlain u = true) :
    P text := by
  induction text with
  | nil => exact hP.nil
  | cons u text ih =>
      exact hP.cons (h u List.mem_cons_self) (ih fun v hv => h v (List.mem_cons_of_mem u hv))

theorem isPlain_of_isNumberUnit
    {u : UInt16}
    (h : isNumberUnit u = true) :
    isPlain u = true := by
  have hbounds : 43 ≤ u.toNat ∧ u.toNat ≤ 101 := by
    have hnumbers : (43 : UInt16).toNat = 43 ∧ (45 : UInt16).toNat = 45 ∧
        (46 : UInt16).toNat = 46 ∧ (48 : UInt16).toNat = 48 ∧ (57 : UInt16).toNat = 57 ∧
          (69 : UInt16).toNat = 69 ∧ (101 : UInt16).toNat = 101 := by
      decide
    simp only [isNumberUnit, isDigit, Bool.or_eq_true, Bool.and_eq_true, decide_eq_true_eq,
      UInt16.le_iff_toNat_le, ← UInt16.toNat_inj] at h
    omega
  have hnumbers : (32 : UInt16).toNat = 32 ∧ (0xD800 : UInt16).toNat = 0xD800 ∧
      (0xDC00 : UInt16).toNat = 0xDC00 := by
    decide
  have hlead : isLead u = false := by
    rw [isLead, Bool.and_eq_false_iff]
    left
    rw [decide_eq_false_iff_not, UInt16.le_iff_toNat_le]
    omega
  have htrail : isTrail u = false := by
    rw [isTrail, Bool.and_eq_false_iff]
    left
    rw [decide_eq_false_iff_not, UInt16.le_iff_toNat_le]
    omega
  have hcontrol : (32 : UInt16) ≤ u := by
    rw [UInt16.le_iff_toNat_le]
    omega
  rw [isPlain, hlead, htrail, decide_eq_true hcontrol]
  rfl

theorem isPlain_hexDigit
    {n : Nat}
    (h : n < 16) :
    isPlain (hexDigit n) = true := by
  have hall : ∀ n, n < 16 → isPlain (hexDigit n) = true := by decide
  exact hall n h

theorem isPlain_escapeLetter
    {u letter : UInt16}
    (h : escapeLetter u = some letter) :
    isPlain letter = true := by
  unfold escapeLetter at h
  split_ifs at h
  all_goals
    cases h
    subst_vars
    decide

theorem Closed.escapeUnit
    (hP : Closed P) (u : UInt16) :
    P (escapeUnit u) := by
  have hu : u.toNat < 65536 := u.toNat_lt
  unfold JsonText.escapeUnit
  cases hletter : escapeLetter u with
  | some letter => exact hP.cons (by decide) (hP.plain letter (isPlain_escapeLetter hletter))
  | none =>
      by_cases hescape : u < 32 ∨ isLead u ∨ isTrail u
      · simp only [if_pos hescape]
        refine hP.of_plain _ ?_
        intro v hv
        simp only [unicodeEscape, List.mem_cons, List.not_mem_nil, or_false] at hv
        rcases hv with rfl | rfl | rfl | rfl | rfl | rfl
        · decide
        · decide
        · exact isPlain_hexDigit (by omega)
        · exact isPlain_hexDigit (by omega)
        · exact isPlain_hexDigit (by omega)
        · exact isPlain_hexDigit (by omega)
      · simp only [if_neg hescape]
        obtain ⟨hcontrol, hsurrogate⟩ := not_or.mp hescape
        obtain ⟨hlead, htrail⟩ := not_or.mp hsurrogate
        refine hP.plain u ?_
        rw [isPlain, Bool.eq_false_iff.mpr hlead, Bool.eq_false_iff.mpr htrail,
          decide_eq_true (UInt16.not_lt.mp hcontrol)]
        rfl

theorem Closed.stringText
    (hP : Closed P) (text : Units) :
    P (stringText text) := by
  induction text using stringText.induct with
  | case1 => exact hP.nil
  | case2 u => exact hP.escapeUnit u
  | case3 u v text hpair ih =>
      obtain ⟨hlead, htrail⟩ := (Bool.and_eq_true _ _).mp hpair
      rw [JsonText.stringText, if_pos hpair]
      exact hP.append [u, v] _ (hP.pair u v hlead htrail) ih
  | case4 u v text hpair ih =>
      rw [JsonText.stringText, if_neg hpair]
      exact hP.append _ _ (hP.escapeUnit u) ih

theorem Closed.quoted
    (hP : Closed P) (text : Units) :
    P (quoted text) :=
  hP.cons (by decide) (hP.append _ _ (hP.stringText text) (hP.plain quote (by decide)))

mutual

theorem Closed.text
    (hP : Closed P) (v : Value) :
    P v.text := by
  match v with
  | .null => exact hP.of_plain _ (List.all_eq_true.mp (by decide))
  | .bool true => exact hP.of_plain _ (List.all_eq_true.mp (by decide))
  | .bool false => exact hP.of_plain _ (List.all_eq_true.mp (by decide))
  | .number n =>
      rw [Value.text]
      exact hP.of_plain _ fun u hu => isPlain_of_isNumberUnit (List.all_eq_true.mp n.units u hu)
  | .string s =>
      rw [Value.text]
      exact hP.quoted s
  | .array items =>
      rw [Value.text]
      exact hP.cons (by decide)
        (hP.append _ _ (Closed.items hP items) (hP.plain rightBracket (by decide)))
  | .object members =>
      rw [Value.text]
      exact hP.cons (by decide)
        (hP.append _ _ (Closed.members hP members) (hP.plain rightBrace (by decide)))

theorem Closed.items
    (hP : Closed P) (items : List Value) :
    P (itemsText items) := by
  match items with
  | [] => exact hP.nil
  | [v] =>
      rw [itemsText]
      exact Closed.text hP v
  | v :: w :: items =>
      rw [itemsText]
      exact hP.append _ _ (Closed.text hP v)
        (hP.cons (by decide) (Closed.items hP (w :: items)))

theorem Closed.members
    (hP : Closed P) (members : List (Units × Value)) :
    P (membersText members) := by
  match members with
  | [] => exact hP.nil
  | [(key, v)] =>
      rw [membersText]
      exact hP.append _ _ (hP.quoted key) (hP.cons (by decide) (Closed.text hP v))
  | (key, v) :: m :: members =>
      rw [membersText]
      refine hP.append _ _ (hP.append _ _ (hP.quoted key)
        (hP.cons (by decide) (Closed.text hP v))) ?_
      exact hP.cons (by decide) (Closed.members hP (m :: members))

end

/-- No unit is a control. -/
def Printable (text : Units) : Prop :=
  ∀ u, u ∈ text → (32 : UInt16) ≤ u

theorem le_of_isLead
    {u : UInt16}
    (h : isLead u = true ∨ isTrail u = true) :
    (32 : UInt16) ≤ u := by
  have hnumbers : (32 : UInt16).toNat = 32 ∧ (0xD800 : UInt16).toNat = 0xD800 ∧
      (0xDC00 : UInt16).toNat = 0xDC00 := by
    decide
  simp only [isLead, isTrail, Bool.and_eq_true, decide_eq_true_eq, UInt16.le_iff_toNat_le] at h ⊢
  omega

theorem closed_printable : Closed Printable where
  nil := fun _ hu => by cases hu
  append := by
    intro first second hfirst hsecond u hu
    rcases List.mem_append.mp hu with hu | hu
    · exact hfirst u hu
    · exact hsecond u hu
  plain := by
    intro u hu v hv
    rw [List.mem_singleton.mp hv]
    simp only [isPlain, Bool.and_eq_true, decide_eq_true_eq] at hu
    exact hu.1.1
  pair := by
    intro u v hlead htrail w hw
    simp only [List.mem_cons, List.not_mem_nil, or_false] at hw
    rcases hw with rfl | rfl
    · exact le_of_isLead (Or.inl hlead)
    · exact le_of_isLead (Or.inr htrail)

/-- A text holds no control. -/
theorem text_printable
    (v : Value) :
    Printable v.text :=
  closed_printable.text v

end Alphabet

end JsonText
end Lib
end BengaliTts
