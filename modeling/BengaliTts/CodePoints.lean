import BengaliTts.JsString

/-!
# Codepoints of JavaScript strings

Iterating over a JavaScript string takes it apart into codepoints, each of them one
code unit or a surrogate pair.  Putting the codepoints together again gives the
string.  Two strings put together have the codepoints of both, unless the first one
ends and the second one begins with the halves of a pair.

A string is well formed if none of its codepoints is an unpaired surrogate.

Main results:
* `flatten_codePoints`, `codePoints_flatten`: taking apart and putting together;
* `codePoints_append`: the codepoints of two strings put together;
* `survivesColumn_iff`: the strings that come back from a text column unchanged are
  the well formed ones.
-/

namespace BengaliTts

section Shape

/-- One codepoint that is no unpaired surrogate: a code unit of the basic plane or a
surrogate pair. -/
def isScalar : JsString → Bool
  | [u] => !isHighSurrogate u && !isLowSurrogate u
  | [u, v] => isHighSurrogate u && isLowSurrogate v
  | _ => false

/-- No codepoint is an unpaired surrogate. -/
def WellFormed (text : JsString) : Prop :=
  ∀ char, char ∈ codePoints text → isScalar char = true

instance (text : JsString) : Decidable (WellFormed text) :=
  inferInstanceAs (Decidable (∀ char, char ∈ codePoints text → isScalar char = true))

theorem codePoints_cons_cons
    (u v : UInt16) (rest : JsString) :
    codePoints (u :: v :: rest) =
      if isHighSurrogate u && isLowSurrogate v then
        [u, v] :: codePoints rest
      else
        [u] :: codePoints (v :: rest) :=
  rfl

/-- A code unit that is no leading surrogate is a codepoint. -/
theorem codePoints_cons_of_not_high
    {u : UInt16}
    (h : isHighSurrogate u = false)
    (rest : JsString) :
    codePoints (u :: rest) = [u] :: codePoints rest := by
  cases rest with
  | nil => rfl
  | cons v rest => simp [codePoints_cons_cons, h]

/-- A surrogate pair is a codepoint. -/
theorem codePoints_cons_pair
    {u v : UInt16}
    (hu : isHighSurrogate u = true)
    (hv : isLowSurrogate v = true)
    (rest : JsString) :
    codePoints (u :: v :: rest) = [u, v] :: codePoints rest := by
  simp [codePoints_cons_cons, hu, hv]

theorem not_high_of_low
    {u : UInt16}
    (h : isLowSurrogate u = true) :
    isHighSurrogate u = false := by
  simp only [isLowSurrogate, Bool.and_eq_true, decide_eq_true_eq] at h
  simp only [isHighSurrogate, Bool.and_eq_false_iff, decide_eq_false_iff_not]
  right
  intro hle
  have hlt : (0xDC00 : UInt16) ≤ 0xDBFF := UInt16.le_trans h.1 hle
  exact absurd hlt (by decide)

/-- The codepoints put together are the string. -/
@[simp] theorem flatten_codePoints
    (text : JsString) :
    (codePoints text).flatten = text := by
  fun_induction codePoints text with
  | case1 => rfl
  | case2 u => rfl
  | case3 u v rest hpair ih => simp [ih]
  | case4 u v rest hpair ih => simp [ih]

/-- Each codepoint is one code unit or a surrogate pair. -/
theorem mem_codePoints
    {text char : JsString}
    (h : char ∈ codePoints text) :
    (∃ u, char = [u]) ∨
      ∃ u v, char = [u, v] ∧ isHighSurrogate u = true ∧ isLowSurrogate v = true := by
  fun_induction codePoints text with
  | case1 => cases h
  | case2 u =>
      left
      exact ⟨u, List.mem_singleton.mp h⟩
  | case3 u v rest hpair ih =>
      rcases List.mem_cons.mp h with rfl | h
      · right
        rw [Bool.and_eq_true] at hpair
        exact ⟨u, v, rfl, hpair⟩
      · exact ih h
  | case4 u v rest hpair ih =>
      rcases List.mem_cons.mp h with rfl | h
      · exact Or.inl ⟨u, rfl⟩
      · exact ih h

/-- Codepoints without unpaired surrogates put together are the codepoints of the
result. -/
theorem codePoints_flatten
    {chars : List JsString}
    (h : ∀ char, char ∈ chars → isScalar char = true) :
    codePoints chars.flatten = chars := by
  induction chars with
  | nil => rfl
  | cons char chars ih =>
      have hrest := ih fun c hc => h c (List.mem_cons_of_mem _ hc)
      have hchar := h char List.mem_cons_self
      rw [List.flatten_cons]
      match char, hchar with
      | [u], hu =>
          simp only [isScalar, Bool.and_eq_true, Bool.not_eq_true'] at hu
          rw [List.singleton_append, codePoints_cons_of_not_high hu.1, hrest]
      | [u, v], hu =>
          simp only [isScalar, Bool.and_eq_true] at hu
          rw [List.cons_append, List.singleton_append, codePoints_cons_pair hu.1 hu.2, hrest]

/-- Two strings put together have the codepoints of both, unless the first ends with a
leading surrogate and the second begins with a trailing one: these two become one
codepoint. -/
theorem codePoints_append
    (first second : JsString) :
    codePoints (first ++ second) = codePoints first ++ codePoints second ∨
      ∃ before u v after,
        isHighSurrogate u = true ∧ isLowSurrogate v = true ∧
          codePoints first = before ++ [[u]] ∧ codePoints second = [v] :: after ∧
          codePoints (first ++ second) = before ++ [u, v] :: after := by
  fun_induction codePoints first with
  | case1 => exact Or.inl rfl
  | case2 u =>
      cases second with
      | nil => exact Or.inl rfl
      | cons v rest =>
          rw [List.singleton_append, codePoints_cons_cons]
          by_cases hpair : (isHighSurrogate u && isLowSurrogate v) = true
          · right
            rw [if_pos hpair]
            rw [Bool.and_eq_true] at hpair
            exact ⟨[], u, v, codePoints rest, hpair.1, hpair.2, rfl,
              codePoints_cons_of_not_high (not_high_of_low hpair.2) rest, rfl⟩
          · left
            rw [if_neg hpair]
            rfl
  | case3 u v rest hpair ih =>
      rw [List.cons_append, List.cons_append, codePoints_cons_cons, if_pos hpair]
      rcases ih with heq | ⟨before, x, y, after, hx, hy, hfirst, hsecond, heq⟩
      · left
        rw [heq, List.cons_append]
      · right
        refine ⟨[u, v] :: before, x, y, after, hx, hy, ?_, hsecond, ?_⟩
        · rw [hfirst, List.cons_append]
        · rw [heq, List.cons_append]
  | case4 u v rest hpair ih =>
      rw [List.cons_append, List.cons_append, codePoints_cons_cons, if_neg hpair]
      rcases ih with heq | ⟨before, x, y, after, hx, hy, hfirst, hsecond, heq⟩
      · left
        rw [← List.cons_append, heq, List.cons_append]
      · right
        refine ⟨[u] :: before, x, y, after, hx, hy, ?_, hsecond, ?_⟩
        · rw [hfirst, List.cons_append]
        · rw [← List.cons_append, heq, List.cons_append]

end Shape

section Column

theorem isHighSurrogate_iff
    (u : UInt16) :
    isHighSurrogate u = true ↔ 0xD800 ≤ u.toNat ∧ u.toNat ≤ 0xDBFF := by
  simp [isHighSurrogate, UInt16.le_iff_toNat_le]

theorem isLowSurrogate_iff
    (u : UInt16) :
    isLowSurrogate u = true ↔ 0xDC00 ≤ u.toNat ∧ u.toNat ≤ 0xDFFF := by
  simp [isLowSurrogate, UInt16.le_iff_toNat_le]

@[simp] theorem codePointAt0_singleton
    (u : UInt16) :
    codePointAt0 [u] = u.toNat :=
  rfl

@[simp] theorem codePointAt0_pair
    (u v : UInt16) :
    codePointAt0 [u, v] = 0x10000 + (u.toNat - 0xD800) * 0x400 + (v.toNat - 0xDC00) :=
  rfl

theorem toNat_ofNat_of_valid
    {n : Nat}
    (h : n.isValidChar) :
    (Char.ofNat n).toNat = n := by
  rw [Char.ofNat, dif_pos h]
  rfl

/-- A scalar value is sent as itself. -/
theorem encode_sendCodePoint
    {char : JsString}
    (h : isScalar char = true) :
    encodeChar (sendCodePoint char) = char := by
  match char, h with
  | [u], hu =>
      have hlt := u.toNat_lt
      simp only [isScalar, Bool.and_eq_true, Bool.not_eq_true', ← Bool.not_eq_true,
        isHighSurrogate_iff, isLowSurrogate_iff] at hu
      have hvalid : u.toNat.isValidChar := by
        simp only [Nat.isValidChar]
        omega
      have hsent : (sendCodePoint [u]).toNat = u.toNat := by
        rw [sendCodePoint, codePointAt0_singleton, if_pos hvalid]
        exact toNat_ofNat_of_valid hvalid
      rw [encodeChar, hsent, if_pos (by omega), UInt16.ofNat_toNat]
  | [u, v], huv =>
      simp only [isScalar, Bool.and_eq_true, isHighSurrogate_iff, isLowSurrogate_iff] at huv
      have hvalid : (0x10000 + (u.toNat - 0xD800) * 0x400 + (v.toNat - 0xDC00)).isValidChar := by
        simp only [Nat.isValidChar]
        omega
      have hsent : (sendCodePoint [u, v]).toNat =
          0x10000 + (u.toNat - 0xD800) * 0x400 + (v.toNat - 0xDC00) := by
        rw [sendCodePoint, codePointAt0_pair, if_pos hvalid]
        exact toNat_ofNat_of_valid hvalid
      rw [encodeChar, hsent, if_neg (by omega)]
      have hu : 0xD800 + (0x10000 + (u.toNat - 0xD800) * 0x400 + (v.toNat - 0xDC00) -
          0x10000) / 0x400 = u.toNat := by
        omega
      have hv : 0xDC00 + (0x10000 + (u.toNat - 0xD800) * 0x400 + (v.toNat - 0xDC00) -
          0x10000) % 0x400 = v.toNat := by
        omega
      rw [hu, hv, UInt16.ofNat_toNat, UInt16.ofNat_toNat]

/-- An unpaired surrogate is sent as the replacement character. -/
theorem encode_sendCodePoint_of_unpaired
    {u : UInt16}
    (h : isScalar [u] = false) :
    encodeChar (sendCodePoint [u]) = [0xFFFD] := by
  simp only [isScalar, Bool.and_eq_false_iff, Bool.not_eq_false', isHighSurrogate_iff,
    isLowSurrogate_iff] at h
  have hinvalid : ¬ u.toNat.isValidChar := by
    simp only [Nat.isValidChar]
    omega
  have hsent : sendCodePoint [u] = replacementChar := if_neg hinvalid
  rw [hsent]
  decide

/-- What comes back for a codepoint has as many code units as the codepoint. -/
theorem length_encode_sendCodePoint
    {text char : JsString}
    (h : char ∈ codePoints text) :
    (encodeChar (sendCodePoint char)).length = char.length := by
  by_cases hscalar : isScalar char = true
  · rw [encode_sendCodePoint hscalar]
  · rcases mem_codePoints h with ⟨u, rfl⟩ | ⟨u, v, rfl, hu, hv⟩
    · rw [encode_sendCodePoint_of_unpaired (Bool.eq_false_iff.mpr hscalar)]
      rfl
    · simp [isScalar, hu, hv] at hscalar

/-- What comes back from the column, codepoint by codepoint. -/
theorem fromColumn_toColumn
    (text : JsString) :
    fromColumn (toColumn text) =
      ((codePoints text).map fun char => encodeChar (sendCodePoint char)).flatten := by
  rw [fromColumn, toColumn, String.toList_ofList, List.flatMap_def, List.map_map]
  rfl

/-- Replacing pieces of a list by pieces of the same length gives the same list only if
no piece changes. -/
theorem piece_eq_of_flatten_eq
    {f : JsString → JsString}
    {chars : List JsString}
    (hlength : ∀ char, char ∈ chars → (f char).length = char.length)
    (h : (chars.map f).flatten = chars.flatten) :
    ∀ char, char ∈ chars → f char = char := by
  induction chars with
  | nil =>
      intro char hc
      cases hc
  | cons first chars ih =>
      rw [List.map_cons, List.flatten_cons, List.flatten_cons] at h
      obtain ⟨hfirst, hrest⟩ := List.append_inj h (hlength first List.mem_cons_self)
      have hih := ih (fun c hc => hlength c (List.mem_cons_of_mem _ hc)) hrest
      intro char hc
      rcases List.mem_cons.mp hc with rfl | hc
      · exact hfirst
      · exact hih char hc

/-- The strings that come back from a text column unchanged are the well formed ones. -/
theorem survivesColumn_iff
    (text : JsString) :
    SurvivesColumn text ↔ WellFormed text := by
  rw [SurvivesColumn, fromColumn_toColumn]
  constructor
  · intro h char hc
    have hsame := piece_eq_of_flatten_eq (fun c => length_encode_sendCodePoint)
      (h.trans (flatten_codePoints text).symm) char hc
    by_contra hscalar
    rcases mem_codePoints hc with ⟨u, rfl⟩ | ⟨u, v, rfl, hu, hv⟩
    · rw [encode_sendCodePoint_of_unpaired (Bool.eq_false_iff.mpr hscalar)] at hsame
      cases hsame
      exact hscalar (by decide)
    · simp [isScalar, hu, hv] at hscalar
  · intro h
    have hmap : (codePoints text).map (fun char => encodeChar (sendCodePoint char)) =
        codePoints text := by
      rw [List.map_congr_left fun char hc => encode_sendCodePoint (h char hc), List.map_id']
    rw [hmap, flatten_codePoints]

end Column

end BengaliTts
