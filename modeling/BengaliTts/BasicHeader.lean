import BengaliTts.BasicAuth

/-!
# The header of a client

A client encodes address and password as `basicAuth` decodes them: joined by a colon, in
UTF-8, in Base64.  The decoders of the gateway are the lenient ones of its platform; what
an encoder writes they give back.

Main facts:
* `decodeBasic_token`: the token of a string decodes to the string, an unpaired surrogate
  replaced;
* `credentials_of_clientHeader`: the header made from valid credentials is taken apart into
  the same address and a password of the same bytes.
-/

namespace BengaliTts

open Lib

section Encoding

/-- The digits of Base64. -/
def base64Digit (n : Nat) : UInt16 :=
  if n < 26 then
    UInt16.ofNat (65 + n)
  else if n < 52 then
    UInt16.ofNat (97 + (n - 26))
  else if n < 62 then
    UInt16.ofNat (48 + (n - 52))
  else if n = 62 then
    43
  else
    47

/-- Three bytes are four digits; at the end, bits that fill no digit are zero. -/
def base64Digits : Bytes → List Nat
  | a :: b :: c :: rest =>
      a.toNat / 4 :: (a.toNat % 4 * 16 + b.toNat / 16) :: (b.toNat % 16 * 4 + c.toNat / 64) ::
        c.toNat % 64 :: base64Digits rest
  | [a, b] => [a.toNat / 4, a.toNat % 4 * 16 + b.toNat / 16, b.toNat % 16 * 4]
  | [a] => [a.toNat / 4, a.toNat % 4 * 16]
  | [] => []

/-- The padding of the last group. -/
def base64Padding (length : Nat) : JsString :=
  if length % 3 = 1 then [61, 61] else if length % 3 = 2 then [61] else []

def base64 (bytes : Bytes) : JsString :=
  (base64Digits bytes).map base64Digit ++ base64Padding bytes.length

/-- The token of a Basic header for a string. -/
def basicToken (text : JsString) : JsString :=
  base64 (utf8 text)

/-- The header that a client makes from an address and a password. -/
def clientHeader (email password : JsString) : JsString :=
  literal "Basic " ++ basicToken (email ++ colon :: password)

end Encoding

section Base64

theorem base64Value_digit
    {n : Nat}
    (h : n < 64) :
    base64Value (base64Digit n) = some n ∧ base64Digit n ≠ 61 := by
  have hall : ∀ n, n < 64 → base64Value (base64Digit n) = some n ∧ base64Digit n ≠ 61 := by
    decide
  exact hall n h

theorem base64Digits_lt
    (bytes : Bytes) :
    ∀ n, n ∈ base64Digits bytes → n < 64 := by
  induction bytes using base64Digits.induct with
  | case1 a b c rest ih =>
      have ha := a.toNat_lt
      have hb := b.toNat_lt
      have hc := c.toNat_lt
      intro n hn
      simp only [base64Digits, List.mem_cons] at hn
      rcases hn with rfl | rfl | rfl | rfl | hn
      · omega
      · omega
      · omega
      · omega
      · exact ih n hn
  | case2 a b =>
      have ha := a.toNat_lt
      have hb := b.toNat_lt
      intro n hn
      simp only [base64Digits, List.mem_cons, List.not_mem_nil, or_false] at hn
      rcases hn with rfl | rfl | rfl <;> omega
  | case3 a =>
      have ha := a.toNat_lt
      intro n hn
      simp only [base64Digits, List.mem_cons, List.not_mem_nil, or_false] at hn
      rcases hn with rfl | rfl <;> omega
  | case4 =>
      intro n hn
      cases hn

/-- A byte is put together from its quotient and its remainder. -/
theorem ofNat_eq
    {b : UInt8} {n : Nat}
    (h : n = b.toNat) :
    UInt8.ofNat n = b := by
  rw [h, UInt8.ofNat_toNat]

theorem bytesOfDigits_digits
    (bytes : Bytes) :
    bytesOfDigits (base64Digits bytes) = bytes := by
  induction bytes using base64Digits.induct with
  | case1 a b c rest ih =>
      have ha := a.toNat_lt
      have hb := b.toNat_lt
      have hc := c.toNat_lt
      rw [base64Digits, bytesOfDigits, ih, ofNat_eq (b := a) (by omega), ofNat_eq (b := b) (by omega),
        ofNat_eq (b := c) (by omega)]
  | case2 a b =>
      have ha := a.toNat_lt
      have hb := b.toNat_lt
      rw [base64Digits, bytesOfDigits, ofNat_eq (b := a) (by omega), ofNat_eq (b := b) (by omega)]
  | case3 a =>
      have ha := a.toNat_lt
      rw [base64Digits, bytesOfDigits, ofNat_eq (b := a) (by omega)]
  | case4 => rfl

/-- The padding ends the digits. -/
theorem takeWhile_padding
    {digits : JsString} (n : Nat)
    (h : ∀ u, u ∈ digits → u ≠ 61) :
    (digits ++ base64Padding n).takeWhile (fun u => decide (u ≠ 61)) = digits := by
  have hpadding : (base64Padding n).takeWhile (fun u => decide (u ≠ 61)) = [] := by
    unfold base64Padding
    split
    · rfl
    · split <;> rfl
  rw [List.takeWhile_append_of_pos fun u hu => decide_eq_true (h u hu), hpadding, List.append_nil]

/-- **Base64.**  Bytes are decoded from their digits. -/
theorem bufferFromBase64_base64
    (bytes : Bytes) :
    bufferFromBase64 (base64 bytes) = bytes := by
  have hdigits : ∀ u, u ∈ (base64Digits bytes).map base64Digit → u ≠ 61 := by
    intro u hu
    obtain ⟨n, hn, rfl⟩ := List.mem_map.mp hu
    exact (base64Value_digit (base64Digits_lt bytes n hn)).2
  have hvalues : ∀ digits : List Nat, (∀ n, n ∈ digits → n < 64) →
      (digits.map base64Digit).filterMap base64Value = digits := by
    intro digits hlt
    induction digits with
    | nil => rfl
    | cons n digits ih =>
        rw [List.map_cons, List.filterMap_cons_some (base64Value_digit (hlt n (by simp))).1,
          ih fun m hm => hlt m (List.mem_cons_of_mem n hm)]
  rw [bufferFromBase64, base64, takeWhile_padding _ hdigits, hvalues _ (base64Digits_lt bytes),
    bytesOfDigits_digits]

end Base64

section Utf8

theorem toNat_ofNat_of_lt
    {n : Nat}
    (h : n < 256) :
    (UInt8.ofNat n).toNat = n :=
  UInt8.toNat_ofNat_of_lt' h

/-- A byte of a sequence before the last. -/
theorem decodeUtf8_more
    {m v y : Nat} {lower upper : UInt8} (rest : Bytes)
    (hlower : lower.toNat ≤ y + 128)
    (hupper : y + 128 ≤ upper.toNat)
    (hy : y < 64) :
    decodeUtf8 (some ⟨m + 2, v, lower, upper⟩) (UInt8.ofNat (y + 128) :: rest) =
      decodeUtf8 (some ⟨m + 1, v * 64 + y, 0x80, 0xBF⟩) rest := by
  have hbyte := toNat_ofNat_of_lt (n := y + 128) (by omega)
  have hrem : (y + 128) % 64 = y := by omega
  rw [decodeUtf8, if_pos ⟨by rw [UInt8.le_iff_toNat_le, hbyte]; exact hlower,
    by rw [UInt8.le_iff_toNat_le, hbyte]; exact hupper⟩, if_neg (Nat.succ_succ_ne_one m), hbyte,
    hrem]
  rfl

/-- A byte in the middle. -/
theorem decodeUtf8_middle
    {m v y : Nat} (rest : Bytes)
    (hy : y < 64) :
    decodeUtf8 (some ⟨m + 2, v, 0x80, 0xBF⟩) (UInt8.ofNat (y + 128) :: rest) =
      decodeUtf8 (some ⟨m + 1, v * 64 + y, 0x80, 0xBF⟩) rest :=
  decodeUtf8_more rest (Nat.le_add_left 128 y) (Nat.add_le_add_right (Nat.le_of_lt_succ hy) 128) hy

/-- The last byte. -/
theorem decodeUtf8_last
    {v y : Nat} (rest : Bytes)
    (hy : y < 64) :
    decodeUtf8 (some ⟨1, v, 0x80, 0xBF⟩) (UInt8.ofNat (y + 128) :: rest) =
      Char.ofNat (v * 64 + y) :: decodeUtf8 none rest := by
  have hbyte := toNat_ofNat_of_lt (n := y + 128) (by omega)
  have hrem : (y + 128) % 64 = y := by omega
  have hlower : (0x80 : UInt8) ≤ UInt8.ofNat (y + 128) := by
    rw [UInt8.le_iff_toNat_le, hbyte]
    exact Nat.le_add_left 128 y
  have hupper : UInt8.ofNat (y + 128) ≤ (0xBF : UInt8) := by
    rw [UInt8.le_iff_toNat_le, hbyte]
    exact Nat.add_le_add_right (Nat.le_of_lt_succ hy) 128
  rw [decodeUtf8, if_pos ⟨hlower, hupper⟩, if_pos rfl, hbyte, hrem]

theorem decodeUtf8_lead
    (b : UInt8) (rest : Bytes) :
    decodeUtf8 none (b :: rest) = (utf8Lead b).1 ++ decodeUtf8 (utf8Lead b).2 rest := by
  rw [decodeUtf8]

theorem ofNat_lt_iff
    {n : Nat} (b : UInt8)
    (h : n < 256) :
    UInt8.ofNat n < b ↔ n < b.toNat := by
  rw [UInt8.lt_iff_toNat_lt, toNat_ofNat_of_lt h]

theorem ofNat_le_iff
    {n : Nat} (b : UInt8)
    (h : n < 256) :
    UInt8.ofNat n ≤ b ↔ n ≤ b.toNat := by
  rw [UInt8.le_iff_toNat_le, toNat_ofNat_of_lt h]

theorem le_ofNat_iff
    {n : Nat} (b : UInt8)
    (h : n < 256) :
    b ≤ UInt8.ofNat n ↔ b.toNat ≤ n := by
  rw [UInt8.le_iff_toNat_le, toNat_ofNat_of_lt h]

/-- What the first byte of a sequence stands for, by its number. -/
theorem utf8Lead_ofNat
    {n : Nat}
    (h : n < 256) :
    utf8Lead (UInt8.ofNat n) =
      if n < 128 then ([Char.ofNat n], none)
      else if 194 ≤ n ∧ n ≤ 223 then ([], some ⟨1, n - 192, 0x80, 0xBF⟩)
      else if 224 ≤ n ∧ n ≤ 239 then
        ([], some ⟨2, n - 224, if n = 224 then 0xA0 else 0x80, if n = 237 then 0x9F else 0xBF⟩)
      else if 240 ≤ n ∧ n ≤ 244 then
        ([], some ⟨3, n - 240, if n = 240 then 0x90 else 0x80, if n = 244 then 0x8F else 0xBF⟩)
      else ([replacementChar], none) := by
  have hnumber : ∀ b : UInt8, UInt8.ofNat n = b ↔ n = b.toNat := by
    intro b
    rw [← UInt8.toNat_inj, toNat_ofNat_of_lt h]
  simp only [utf8Lead, ofNat_lt_iff _ h, ofNat_le_iff _ h, le_ofNat_iff _ h, hnumber,
    toNat_ofNat_of_lt h]
  rfl

/-- A character is decoded from its bytes. -/
theorem decodeUtf8_encodeChar
    (c : Char) (rest : Bytes) :
    decodeUtf8 none (String.utf8EncodeChar c ++ rest) = c :: decodeUtf8 none rest := by
  have hvalid : c.val.toNat < 0xD800 ∨ 0xDFFF < c.val.toNat ∧ c.val.toNat < 0x110000 := c.valid
  have hchar : Char.ofNat c.val.toNat = c := Char.ofNat_toNat c
  generalize hv : c.val.toNat = v at hvalid hchar
  unfold String.utf8EncodeChar
  rw [hv]
  dsimp only
  split_ifs with hone htwo hthree
  · rw [List.singleton_append, decodeUtf8_lead, utf8Lead_ofNat (by omega), if_pos (by omega), hchar]
    rfl
  · rw [List.cons_append, List.singleton_append, decodeUtf8_lead, utf8Lead_ofNat (by omega),
      if_neg (by omega), if_pos (by omega), List.nil_append, decodeUtf8_last rest (by omega)]
    have hvalue : (v / 64 % 32 + 192 - 192) * 64 + v % 64 = v := by omega
    rw [hvalue, hchar]
  · rw [List.cons_append, List.cons_append, List.singleton_append, decodeUtf8_lead,
      utf8Lead_ofNat (by omega), if_neg (by omega), if_neg (by omega), if_pos (by omega),
      List.nil_append, decodeUtf8_more _ ?_ ?_ (by omega), decodeUtf8_last rest (by omega)]
    · have hvalue : ((v / 4096 % 16 + 224 - 224) * 64 + v / 64 % 64) * 64 + v % 64 = v := by omega
      rw [hvalue, hchar]
    · -- What fits two bytes is not written in three.
      split
      · exact (by omega : 160 ≤ v / 64 % 64 + 128)
      · exact Nat.le_add_left 128 _
    · -- A surrogate is no character.
      split
      · exact (by omega : v / 64 % 64 + 128 ≤ 159)
      · exact (by omega : v / 64 % 64 + 128 ≤ 191)
  · rw [List.cons_append, List.cons_append, List.cons_append, List.singleton_append,
      decodeUtf8_lead, utf8Lead_ofNat (by omega), if_neg (by omega), if_neg (by omega),
      if_neg (by omega), if_pos (by omega), List.nil_append, decodeUtf8_more _ ?_ ?_ (by omega),
      decodeUtf8_middle _ (by omega), decodeUtf8_last rest (by omega)]
    · have hvalue : (((v / 262144 % 8 + 240 - 240) * 64 + v / 4096 % 64) * 64 + v / 64 % 64) * 64 +
          v % 64 = v := by omega
      rw [hvalue, hchar]
    · split
      · exact (by omega : 144 ≤ v / 4096 % 64 + 128)
      · exact Nat.le_add_left 128 _
    · split
      · exact (by omega : v / 4096 % 64 + 128 ≤ 143)
      · exact (by omega : v / 4096 % 64 + 128 ≤ 191)

theorem decodeUtf8_encode
    (chars : List Char) :
    decodeUtf8 none (chars.flatMap String.utf8EncodeChar) = chars := by
  induction chars with
  | nil => rfl
  | cons c chars ih => rw [List.flatMap_cons, decodeUtf8_encodeChar, ih]

/-- **Decoding a token.**  The token of a string decodes to what the column would hold of
it: the string, with U+FFFD for an unpaired surrogate. -/
theorem decodeBasic_token
    (text : JsString) :
    decodeBasic (basicToken text) = fromColumn (toColumn text) := by
  rw [decodeBasic, basicToken, bufferFromBase64_base64, utf8ToString, utf8, decodeUtf8_encode,
    String.ofList_toList]

end Utf8

section Column

/-- The code units of a character are one codepoint, and that of the character. -/
theorem encodeChar_scalar
    (c : Char) :
    isScalar (encodeChar c) = true ∧ codePointAt0 (encodeChar c) = c.toNat := by
  have hvalid : c.toNat < 0xD800 ∨ 0xDFFF < c.toNat ∧ c.toNat < 0x110000 := c.valid
  unfold encodeChar
  split
  · next hsmall =>
      have hunit : (UInt16.ofNat c.toNat).toNat = c.toNat := UInt16.toNat_ofNat_of_lt' hsmall
      have hhigh : isHighSurrogate (UInt16.ofNat c.toNat) = false := by
        rw [← Bool.not_eq_true, isHighSurrogate_iff, hunit]
        omega
      have hlow : isLowSurrogate (UInt16.ofNat c.toNat) = false := by
        rw [← Bool.not_eq_true, isLowSurrogate_iff, hunit]
        omega
      refine ⟨?_, ?_⟩
      · simp [isScalar, hhigh, hlow]
      · rw [codePointAt0_singleton, hunit]
  · next hlarge =>
      have hfirst : (UInt16.ofNat (0xD800 + (c.toNat - 0x10000) / 0x400)).toNat =
          0xD800 + (c.toNat - 0x10000) / 0x400 :=
        UInt16.toNat_ofNat_of_lt' (by
          change 0xD800 + (c.toNat - 0x10000) / 0x400 < 65536
          omega)
      have hsecond : (UInt16.ofNat (0xDC00 + (c.toNat - 0x10000) % 0x400)).toNat =
          0xDC00 + (c.toNat - 0x10000) % 0x400 :=
        UInt16.toNat_ofNat_of_lt' (by
          change 0xDC00 + (c.toNat - 0x10000) % 0x400 < 65536
          omega)
      refine ⟨?_, ?_⟩
      · simp only [isScalar, Bool.and_eq_true, isHighSurrogate_iff, isLowSurrogate_iff, hfirst,
          hsecond]
        omega
      · rw [codePointAt0_pair, hfirst, hsecond]
        omega

/-- What is read from the column is sent as it was. -/
theorem toColumn_fromColumn
    (text : String) :
    toColumn (fromColumn text) = text := by
  have hpoints : codePoints (fromColumn text) = text.toList.map encodeChar := by
    rw [fromColumn, List.flatMap_def, codePoints_flatten]
    intro char hchar
    obtain ⟨c, _, rfl⟩ := List.mem_map.mp hchar
    exact (encodeChar_scalar c).1
  have hsend : ∀ c : Char, sendCodePoint (encodeChar c) = c := by
    intro c
    have hvalid : c.toNat.isValidChar := c.valid
    rw [sendCodePoint, (encodeChar_scalar c).2, if_pos hvalid]
    exact Char.ofNat_toNat c
  rw [toColumn, hpoints, List.map_map]
  have hid : text.toList.map (sendCodePoint ∘ encodeChar) = text.toList := by
    conv_rhs => rw [← List.map_id text.toList]
    exact List.map_congr_left fun c _ => hsend c
  rw [hid, String.ofList_toList]

theorem toColumn_append
    {first : JsString} (second : JsString)
    (h : ∀ u, u ∈ first → isHighSurrogate u = false) :
    (toColumn (first ++ second)).toList = (toColumn first).toList ++ (toColumn second).toList := by
  have hpoints : codePoints (first ++ second) = codePoints first ++ codePoints second := by
    rcases codePoints_append first second with heq | ⟨before, u, v, after, hu, _, hfirst, _, _⟩
    · exact heq
    · have hmem : u ∈ first := by
        rw [← flatten_codePoints first, hfirst]
        simp
      rw [h u hmem] at hu
      cases hu
  simp only [toColumn, String.toList_ofList, hpoints, List.map_append]

/-- A string after a part without surrogates goes through the column by itself. -/
theorem fromColumn_toColumn_append
    {first : JsString} (second : JsString)
    (h : ∀ u, u ∈ first → isHighSurrogate u = false) :
    fromColumn (toColumn (first ++ second)) =
      fromColumn (toColumn first) ++ fromColumn (toColumn second) := by
  simp only [fromColumn, toColumn_append second h, List.flatMap_append]

end Column

section Header

variable {d : AccountDeps} {c : Credentials}

/-- **The header of a client.**  It is taken apart into the address and a password that is
the same for bcrypt. -/
theorem credentials_of_clientHeader
    (hc : c.Valid d) :
    basicCredentials (decodeBasic ((clientHeader c.email c.password).drop
      (literal "Basic ").length)) = (c.email, fromColumn (toColumn c.password)) ∧
    utf8 (fromColumn (toColumn c.password)) = utf8 c.password := by
  have hunits := d.isEmail_units c.email hc.email
  have hemail : ∀ u, u ∈ c.email → isHighSurrogate u = false := by
    intro u hu
    have := toNat_lt_of_emailUnit (hunits u hu)
    rw [← Bool.not_eq_true, isHighSurrogate_iff]
    omega
  have hhigh : ∀ u, u ∈ c.email ++ [colon] → isHighSurrogate u = false := by
    intro u hu
    rcases List.mem_append.mp hu with hu | hu
    · exact hemail u hu
    · rw [List.mem_singleton.mp hu]
      rfl
  have hcolon : colon ∉ c.email := fun h => absurd (hunits _ h) (by decide)
  have hjoined : c.email ++ colon :: c.password = (c.email ++ [colon]) ++ c.password := by
    rw [List.append_assoc, List.singleton_append]
  have haddress : fromColumn (toColumn (c.email ++ [colon])) = c.email ++ [colon] := by
    rw [fromColumn_toColumn_append _ hemail, fromColumn_toColumn_of_emailUnits hunits]
    rfl
  refine ⟨?_, ?_⟩
  · rw [clientHeader, List.drop_left, decodeBasic_token, hjoined,
      fromColumn_toColumn_append _ hhigh, haddress, List.append_assoc, List.singleton_append,
      basicCredentials_append hcolon]
  · rw [utf8, utf8, toColumn_fromColumn]

end Header

end BengaliTts
