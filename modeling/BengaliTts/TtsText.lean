import BengaliTts.JsString
import BengaliTts.Errors
import Mathlib.Data.Rat.Lemmas
import Mathlib.Algebra.Order.Ring.Rat

/-!
# The text rules

The rules a submitted text must meet, as the gateway checks them: not blank, at
most `maxLength` codepoints, and at least half of its non-whitespace codepoints
in the Bengali block.  Ratios are exact rationals here.
-/

namespace BengaliTts

def BENGALI_BLOCK_START : Nat := 0x0980
def BENGALI_BLOCK_END : Nat := 0x09FF
def MIN_BENGALI_RATIO : ℚ := 1 / 2

/--
White space and line terminators of JavaScript.  `String.prototype.trim` and the
class `\s` of regular expressions share this set; all of it is in the basic
plane, so it is a set of code units.
-/
def isWhitespace (u : UInt16) : Bool :=
  (0x0009 ≤ u && u ≤ 0x000D) || u = 0x0020 || u = 0x00A0 || u = 0x1680 ||
    (0x2000 ≤ u && u ≤ 0x200A) || u = 0x2028 || u = 0x2029 || u = 0x202F ||
    u = 0x205F || u = 0x3000 || u = 0xFEFF

/-- `String.prototype.trim`. -/
def trim (text : JsString) : JsString :=
  ((text.dropWhile isWhitespace).reverse.dropWhile isWhitespace).reverse

/-- `/\s/.test(char)`: some code unit of the string is white space. -/
def testWhitespace (char : JsString) : Bool :=
  char.any isWhitespace

/-- The loop of `bengaliRatio`: the counts of Bengali and of all codepoints that
are not white space. -/
def countBengali : List JsString → Nat → Nat → Nat × Nat
  | [], bengali, total => (bengali, total)
  | char :: rest, bengali, total =>
      if testWhitespace char then
        countBengali rest bengali total
      else if BENGALI_BLOCK_START ≤ codePointAt0 char ∧
          codePointAt0 char ≤ BENGALI_BLOCK_END then
        countBengali rest (bengali + 1) (total + 1)
      else
        countBengali rest bengali (total + 1)

/-- Share of non-whitespace codepoints that fall in the Bengali block. -/
def bengaliRatio (text : JsString) : ℚ :=
  let counts := countBengali (codePoints text) 0 0
  if counts.2 = 0 then
    0
  else
    (counts.1 : ℚ) / (counts.2 : ℚ)

def validateTtsText (text : JsString) (maxLength : Nat) : Except DomainError Unit :=
  if (trim text).length = 0 then
    .error .textEmpty
  else if (codePoints text).length > maxLength then
    .error (.textTooLong maxLength (codePoints text).length)
  else if bengaliRatio text < MIN_BENGALI_RATIO then
    .error (.textNotBengali (bengaliRatio text) MIN_BENGALI_RATIO)
  else
    .ok ()

/-- Two Bengali letters and a Latin one are accepted; one and two are not. -/
example :
    validateTtsText [0x0986, 0x0995, 0x0061] 10 = .ok () ∧
      validateTtsText [0x0986, 0x0061, 0x0062] 10 =
        .error (.textNotBengali (1 / 3) (1 / 2)) := by
  decide +kernel

end BengaliTts
