import BengaliTts.CodePoints
import BengaliTts.TtsText
import Mathlib.Data.List.TakeWhile
import Mathlib.Tactic.Linarith

/-!
# The language of accepted texts

The validator traverses a text three times: `trim` goes over its code units, the
length check and `bengaliRatio` over its codepoints, and the test for white space
over the code units of each codepoint.  The three agree because every white space
character is one code unit and no surrogate.

The verdict therefore depends on three counts only: the codepoints of the text, those
that are not white space, and those in the Bengali block.

Main result:
* `validateTtsText_language`: the verdict in terms of the three counts; its second
  check divides by no zero; and the two closure laws, for white space and order and
  for texts put together.
-/

namespace BengaliTts

section Counts

/-- The codepoint lies in the Bengali block. -/
def inBengaliBlock (char : JsString) : Bool :=
  decide (BENGALI_BLOCK_START ≤ codePointAt0 char ∧ codePointAt0 char ≤ BENGALI_BLOCK_END)

/-- The codepoint is not white space. -/
def isSolid (char : JsString) : Bool :=
  !testWhitespace char

/-- Number of codepoints. -/
def lengthOf (text : JsString) : Nat :=
  (codePoints text).length

/-- Number of codepoints that are not white space. -/
def solidCount (text : JsString) : Nat :=
  (codePoints text).countP isSolid

/-- Number of codepoints in the Bengali block. -/
def bengaliCount (text : JsString) : Nat :=
  (codePoints text).countP inBengaliBlock

/-- The documented verdict on a text, from its three counts. -/
def documentedVerdict (text : JsString) (maxLength : Nat) : Except DomainError Unit :=
  if solidCount text = 0 then
    .error .textEmpty
  else if lengthOf text > maxLength then
    .error (.textTooLong maxLength (lengthOf text))
  else if 2 * bengaliCount text < solidCount text then
    .error (.textNotBengali ((bengaliCount text : ℚ) / (solidCount text : ℚ)) MIN_BENGALI_RATIO)
  else
    .ok ()

/-- White space and Bengali are apart, and so are white space and surrogates. -/
theorem toNat_of_isWhitespace
    {u : UInt16}
    (h : isWhitespace u = true) :
    u.toNat < 0x0980 ∨ 0x09FF < u.toNat ∧ u.toNat < 0xD800 ∨ u.toNat = 0xFEFF := by
  simp only [isWhitespace, Bool.or_eq_true, Bool.and_eq_true, decide_eq_true_eq,
    UInt16.le_iff_toNat_le, ← UInt16.toNat_inj] at h
  simp only [UInt16.reduceToNat] at h
  omega

theorem not_whitespace_of_high
    {u : UInt16}
    (h : isHighSurrogate u = true) :
    isWhitespace u = false := by
  rw [isHighSurrogate_iff] at h
  by_contra hw
  have := toNat_of_isWhitespace (Bool.eq_true_of_not_eq_false hw)
  omega

theorem not_whitespace_of_low
    {u : UInt16}
    (h : isLowSurrogate u = true) :
    isWhitespace u = false := by
  rw [isLowSurrogate_iff] at h
  by_contra hw
  have := toNat_of_isWhitespace (Bool.eq_true_of_not_eq_false hw)
  omega

/-- A codepoint of the Bengali block is not white space. -/
theorem isSolid_of_inBengaliBlock
    {text char : JsString}
    (hchar : char ∈ codePoints text)
    (h : inBengaliBlock char = true) :
    isSolid char = true := by
  rcases mem_codePoints hchar with ⟨u, rfl⟩ | ⟨u, v, rfl, hu, hv⟩
  · have hblock : 0x0980 ≤ u.toNat ∧ u.toNat ≤ 0x09FF := of_decide_eq_true h
    by_contra hw
    have hwhite : isWhitespace u = true := by simpa [isSolid, testWhitespace] using hw
    have := toNat_of_isWhitespace hwhite
    omega
  · simp [isSolid, testWhitespace, not_whitespace_of_high hu, not_whitespace_of_low hv]

/-- The loop of `bengaliRatio` counts the Bengali codepoints and the solid ones. -/
theorem countBengali_eq
    (chars : List JsString)
    (hsolid : ∀ char, char ∈ chars → inBengaliBlock char = true → isSolid char = true)
    (bengali total : Nat) :
    countBengali chars bengali total =
      (bengali + chars.countP inBengaliBlock, total + chars.countP isSolid) := by
  induction chars generalizing bengali total with
  | nil => rfl
  | cons char chars ih =>
      have hrest := ih fun c hc => hsolid c (List.mem_cons_of_mem _ hc)
      have hchar := hsolid char List.mem_cons_self
      rw [countBengali]
      by_cases hw : testWhitespace char = true
      · have hnot : isSolid char = false := by simp [isSolid, hw]
        have hblock : inBengaliBlock char = false := by
          by_contra hb
          rw [hchar (Bool.eq_true_of_not_eq_false hb)] at hnot
          cases hnot
        rw [if_pos hw, hrest, List.countP_cons_of_neg (by simp [hblock]),
          List.countP_cons_of_neg (by simp [hnot])]
      · have hyes : isSolid char = true := by simpa [isSolid] using hw
        rw [if_neg hw, List.countP_cons_of_pos hyes]
        by_cases hb : inBengaliBlock char = true
        · rw [if_pos (of_decide_eq_true hb), hrest, List.countP_cons_of_pos hb]
          simp only [Prod.mk.injEq]
          omega
        · rw [if_neg fun hin => hb (decide_eq_true hin), hrest, List.countP_cons_of_neg hb]
          congr 1
          omega

/-- What the loop counts in a text. -/
theorem countBengali_codePoints
    (text : JsString) :
    countBengali (codePoints text) 0 0 = (bengaliCount text, solidCount text) := by
  rw [countBengali_eq _ fun char hc => isSolid_of_inBengaliBlock hc]
  simp [bengaliCount, solidCount]

/-- `trim` leaves nothing exactly of a text that is white space throughout. -/
theorem trim_length_eq_zero_iff
    (text : JsString) :
    (trim text).length = 0 ↔ ∀ u, u ∈ text → isWhitespace u = true := by
  calc
    (trim text).length = 0 ↔ ∀ u, u ∈ text.dropWhile isWhitespace → isWhitespace u = true := by
      simp [trim, List.dropWhile_eq_nil_iff]
    _ ↔ ((text.dropWhile isWhitespace).any fun u => !isWhitespace u) = false := by
      rw [List.any_eq_false]
      simp
    _ ↔ ∀ u, u ∈ text → isWhitespace u = true := by
      rw [List.any_dropWhile]
      simp

/-- A codepoint is white space exactly when its code units are. -/
theorem testWhitespace_iff
    {text char : JsString}
    (hchar : char ∈ codePoints text) :
    testWhitespace char = true ↔ ∀ u, u ∈ char → isWhitespace u = true := by
  rcases mem_codePoints hchar with ⟨u, rfl⟩ | ⟨u, v, rfl, hu, hv⟩
  · simp [testWhitespace]
  · simp [testWhitespace, not_whitespace_of_high hu, not_whitespace_of_low hv]

/-- The check by `trim` and the count of solid codepoints agree. -/
theorem trim_length_eq_zero_iff_solidCount
    (text : JsString) :
    (trim text).length = 0 ↔ solidCount text = 0 := by
  rw [trim_length_eq_zero_iff, solidCount, List.countP_eq_zero]
  have hunits : (∀ u, u ∈ text → isWhitespace u = true) ↔
      ∀ char, char ∈ codePoints text → ∀ u, u ∈ char → isWhitespace u = true := by
    conv_lhs => rw [← flatten_codePoints text]
    constructor
    · intro h char hchar u hu
      exact h u (List.mem_flatten.mpr ⟨char, hchar, hu⟩)
    · intro h u hu
      obtain ⟨char, hchar, hu⟩ := List.mem_flatten.mp hu
      exact h char hchar u hu
  rw [hunits]
  constructor
  · intro h char hchar
    have := (testWhitespace_iff hchar).mpr (h char hchar)
    simp [isSolid, this]
  · intro h char hchar
    exact (testWhitespace_iff hchar).mp (by simpa [isSolid] using h char hchar)

/-- The ratio is below one half exactly when fewer than half of the solid codepoints
are Bengali. -/
theorem ratio_lt_iff
    {bengali solid : Nat}
    (h : solid ≠ 0) :
    (bengali : ℚ) / (solid : ℚ) < MIN_BENGALI_RATIO ↔ 2 * bengali < solid := by
  have hpos : (0 : ℚ) < solid := by exact_mod_cast Nat.pos_of_ne_zero h
  unfold MIN_BENGALI_RATIO
  rw [div_lt_div_iff₀ hpos (by norm_num)]
  constructor
  · intro hlt
    have : ((2 * bengali : Nat) : ℚ) < (solid : ℚ) := by
      push_cast
      linarith
    exact_mod_cast this
  · intro hlt
    have : ((2 * bengali : Nat) : ℚ) < (solid : ℚ) := by exact_mod_cast hlt
    push_cast at this
    linarith

/-- The verdict is the documented one. -/
theorem validateTtsText_eq_documentedVerdict
    (text : JsString)
    (maxLength : Nat) :
    validateTtsText text maxLength = documentedVerdict text maxLength := by
  rw [validateTtsText, documentedVerdict]
  by_cases hempty : solidCount text = 0
  · rw [if_pos hempty, if_pos ((trim_length_eq_zero_iff_solidCount text).mpr hempty)]
  · rw [if_neg hempty, if_neg fun h => hempty ((trim_length_eq_zero_iff_solidCount text).mp h)]
    have hratio : bengaliRatio text = (bengaliCount text : ℚ) / (solidCount text : ℚ) := by
      simp only [bengaliRatio, countBengali_codePoints]
      rw [if_neg hempty]
    rw [hratio]
    exact if_congr Iff.rfl rfl (if_congr (ratio_lt_iff hempty) rfl rfl)

/-- A text is accepted exactly when it is not blank, within the cap and Bengali enough. -/
theorem validateTtsText_ok_iff
    (text : JsString)
    (maxLength : Nat) :
    validateTtsText text maxLength = .ok () ↔
      solidCount text ≠ 0 ∧ lengthOf text ≤ maxLength ∧
        solidCount text ≤ 2 * bengaliCount text := by
  rw [validateTtsText_eq_documentedVerdict, documentedVerdict]
  split_ifs with hempty hlong hratio
  · simp [hempty]
  · simp only [false_iff]
    omega
  · simp only [false_iff]
    omega
  · simp only [true_iff]
    omega

end Counts

section Closure

variable {text first second : JsString} {chars : List JsString} {maxLength : Nat}

/-- The codepoints are the solid ones of the text in some order, with some white space
characters among them. -/
structure RespacedFrom (text : JsString) (chars : List JsString) : Prop where
  solid : (chars.filter isSolid).Perm ((codePoints text).filter isSolid)
  white : ∀ char, char ∈ chars → isSolid char = false → ∃ u, char = [u] ∧ isWhitespace u = true

theorem isScalar_of_isWhitespace
    {u : UInt16}
    (h : isWhitespace u = true) :
    isScalar [u] = true := by
  have hhigh : isHighSurrogate u = false := by
    by_contra hu
    rw [not_whitespace_of_high (Bool.eq_true_of_not_eq_false hu)] at h
    cases h
  have hlow : isLowSurrogate u = false := by
    by_contra hu
    rw [not_whitespace_of_low (Bool.eq_true_of_not_eq_false hu)] at h
    cases h
  simp [isScalar, hhigh, hlow]

/-- Respacing a text without unpaired surrogates gives a text with the given codepoints. -/
theorem codePoints_respaced
    (htext : WellFormed text)
    (h : RespacedFrom text chars) :
    codePoints chars.flatten = chars := by
  apply codePoints_flatten
  intro char hchar
  by_cases hsolid : isSolid char = true
  · have hmem := h.solid.mem_iff.mp (List.mem_filter.mpr ⟨hchar, hsolid⟩)
    exact htext char (List.mem_of_mem_filter hmem)
  · obtain ⟨u, rfl, hu⟩ := h.white char hchar (Bool.eq_false_iff.mpr hsolid)
    exact isScalar_of_isWhitespace hu

/-- Only the solid codepoints count towards the Bengali ones. -/
theorem countP_inBengaliBlock
    (text : JsString) :
    bengaliCount text = ((codePoints text).filter isSolid).countP inBengaliBlock := by
  rw [bengaliCount, List.countP_filter]
  apply List.countP_congr
  intro char hchar
  constructor
  · intro hb
    rw [hb, isSolid_of_inBengaliBlock hchar hb]
    rfl
  · intro hb
    exact (Bool.and_eq_true_iff.mp hb).1

/-- Respacing keeps the solid codepoints and the Bengali ones. -/
theorem counts_respaced
    (htext : WellFormed text)
    (h : RespacedFrom text chars) :
    solidCount chars.flatten = solidCount text ∧
      bengaliCount chars.flatten = bengaliCount text := by
  have hcode := codePoints_respaced htext h
  constructor
  · rw [solidCount, solidCount, hcode, List.countP_eq_length_filter, List.countP_eq_length_filter]
    exact h.solid.length_eq
  · rw [countP_inBengaliBlock, countP_inBengaliBlock, hcode]
    exact h.solid.countP_eq _

/-- Respacing within the cap keeps the verdict. -/
theorem verdict_respaced
    (htext : WellFormed text)
    (h : RespacedFrom text chars)
    (hlength : lengthOf text ≤ maxLength)
    (hchars : chars.length ≤ maxLength) :
    documentedVerdict chars.flatten maxLength = documentedVerdict text maxLength := by
  obtain ⟨hsolid, hbengali⟩ := counts_respaced htext h
  have hnew : lengthOf chars.flatten ≤ maxLength := by
    rwa [lengthOf, codePoints_respaced htext h]
  rw [documentedVerdict, documentedVerdict, hsolid, hbengali, if_neg (Nat.not_lt.mpr hnew),
    if_neg (Nat.not_lt.mpr hlength)]

/-- Where two texts join, at most one solid codepoint disappears, and it is not Bengali. -/
theorem counts_append
    (first second : JsString) :
    (solidCount (first ++ second) = solidCount first + solidCount second ∨
        solidCount (first ++ second) + 1 = solidCount first + solidCount second ∧
          0 < solidCount (first ++ second)) ∧
      bengaliCount (first ++ second) = bengaliCount first + bengaliCount second := by
  rcases codePoints_append first second with
    heq | ⟨before, u, v, after, hu, hv, hfirst, hsecond, heq⟩
  · simp only [solidCount, bengaliCount, heq, List.countP_append]
    exact ⟨Or.inl trivial, trivial⟩
  · -- The halves and the pair are solid, and none of the three is in the block.
    have hsolid : isSolid [u] = true ∧ isSolid [v] = true ∧ isSolid [u, v] = true := by
      simp [isSolid, testWhitespace, not_whitespace_of_high hu, not_whitespace_of_low hv]
    have hblock : inBengaliBlock [u] = false ∧ inBengaliBlock [v] = false ∧
        inBengaliBlock [u, v] = false := by
      rw [isHighSurrogate_iff] at hu
      rw [isLowSurrogate_iff] at hv
      refine ⟨decide_eq_false ?_, decide_eq_false ?_, decide_eq_false ?_⟩ <;>
        simp only [codePointAt0_singleton, codePointAt0_pair, BENGALI_BLOCK_START,
          BENGALI_BLOCK_END] <;>
        omega
    simp only [solidCount, bengaliCount, heq, hfirst, hsecond, List.countP_append,
      List.countP_cons, List.countP_nil, hsolid, hblock]
    simp only [if_true, Bool.false_eq_true, if_false]
    omega

/-- Two accepted texts put together are accepted within the cap. -/
theorem accepted_append
    (hfirst : validateTtsText first maxLength = .ok ())
    (hsecond : validateTtsText second maxLength = .ok ())
    (hlength : lengthOf (first ++ second) ≤ maxLength) :
    validateTtsText (first ++ second) maxLength = .ok () := by
  rw [validateTtsText_ok_iff] at hfirst hsecond ⊢
  obtain ⟨hsolid, hbengali⟩ := counts_append first second
  omega

end Closure

section Language

/-- The verdict on every text is the documented one; past the first check the ratio
divides by no zero; white space and order do not matter within the cap; and accepted
texts put together within the cap are accepted. -/
theorem validateTtsText_language
    (text : JsString)
    (maxLength : Nat) :
    validateTtsText text maxLength = documentedVerdict text maxLength ∧
      ((trim text).length ≠ 0 → (countBengali (codePoints text) 0 0).2 ≠ 0) ∧
      (∀ chars, WellFormed text → RespacedFrom text chars → lengthOf text ≤ maxLength →
        chars.length ≤ maxLength →
          validateTtsText chars.flatten maxLength = validateTtsText text maxLength) ∧
      (∀ other, validateTtsText text maxLength = .ok () →
        validateTtsText other maxLength = .ok () → lengthOf (text ++ other) ≤ maxLength →
          validateTtsText (text ++ other) maxLength = .ok ()) := by
  refine ⟨validateTtsText_eq_documentedVerdict text maxLength, ?_, ?_, ?_⟩
  · rw [countBengali_codePoints]
    exact mt (trim_length_eq_zero_iff_solidCount text).mpr
  · intro chars htext hrespaced hlength hchars
    rw [validateTtsText_eq_documentedVerdict, validateTtsText_eq_documentedVerdict]
    exact verdict_respaced htext hrespaced hlength hchars
  · intro other hfirst hsecond hlength
    exact accepted_append hfirst hsecond hlength

/-- The halves of a pair at the seam of two texts become one codepoint. -/
example :
    lengthOf [0x0986, 0xD83D] = 2 ∧ lengthOf [0xDE00, 0x0986] = 2 ∧
      lengthOf ([0x0986, 0xD83D] ++ [0xDE00, 0x0986]) = 3 := by
  decide +kernel

end Language

end BengaliTts
