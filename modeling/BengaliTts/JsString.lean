import Mathlib.Data.List.Basic

/-!
# JavaScript strings and the text column

The gateway handles text as JavaScript strings: lists of UTF-16 code units in
which a surrogate need not be paired.  PostgreSQL keeps text as a sequence of
Unicode scalar values, which is what a Lean `String` is.  The driver sends a
string as UTF-8, so an unpaired surrogate reaches the column as U+FFFD
(`toColumn`); reading the column encodes it as UTF-16 again (`fromColumn`).
-/

namespace BengaliTts

/-- A JavaScript string, as its UTF-16 code units. -/
abbrev JsString := List UInt16

/-- A leading surrogate. -/
def isHighSurrogate (u : UInt16) : Bool :=
  0xD800 ≤ u && u ≤ 0xDBFF

/-- A trailing surrogate. -/
def isLowSurrogate (u : UInt16) : Bool :=
  0xDC00 ≤ u && u ≤ 0xDFFF

/--
The strings that iterating over a JavaScript string yields, as `[...text]` and
`for (const char of text)` do: a surrogate pair is one of them, and so is a
surrogate without a partner.
-/
def codePoints : JsString → List JsString
  | [] => []
  | [u] => [[u]]
  | u :: v :: rest =>
      if isHighSurrogate u && isLowSurrogate v then
        [u, v] :: codePoints rest
      else
        [u] :: codePoints (v :: rest)

/-- `char.codePointAt(0) ?? 0` for one string that iteration yields. -/
def codePointAt0 : JsString → Nat
  | [u] => u.toNat
  | [u, v] => 0x10000 + (u.toNat - 0xD800) * 0x400 + (v.toNat - 0xDC00)
  | _ => 0

/-- The replacement character U+FFFD. -/
def replacementChar : Char :=
  Char.ofNat 0xFFFD

/-- One codepoint as the driver sends it: a lone surrogate is replaced. -/
def sendCodePoint (char : JsString) : Char :=
  if (codePointAt0 char).isValidChar then
    Char.ofNat (codePointAt0 char)
  else
    replacementChar

/-- What the column holds after a JavaScript string was written to it. -/
def toColumn (text : JsString) : String :=
  String.ofList ((codePoints text).map sendCodePoint)

/-- UTF-16 code units of one Unicode scalar value. -/
def encodeChar (c : Char) : JsString :=
  if c.toNat < 0x10000 then
    [UInt16.ofNat c.toNat]
  else
    [UInt16.ofNat (0xD800 + (c.toNat - 0x10000) / 0x400),
      UInt16.ofNat (0xDC00 + (c.toNat - 0x10000) % 0x400)]

/-- The JavaScript string read back from the column. -/
def fromColumn (text : String) : JsString :=
  text.toList.flatMap encodeChar

/-- Writing a text to the column and reading it back gives the text. -/
def SurvivesColumn (text : JsString) : Prop :=
  fromColumn (toColumn text) = text

instance (text : JsString) : Decidable (SurvivesColumn text) :=
  inferInstanceAs (Decidable (_ = _))

/-- PostgreSQL refuses a text parameter that contains U+0000. -/
def hasNul (text : JsString) : Bool :=
  text.contains 0

/-- A lone surrogate comes back as the replacement character. -/
example : fromColumn (toColumn [0xD800]) = [0xFFFD] := by decide

end BengaliTts
