import BengaliTts.ApiKeys
import BengaliTts.Registration

/-!
# Basic authentication

The routes over API keys authenticate with the address and the password of an account,
joined by a colon and encoded in Base64.  `basicAuth` takes the decoded string apart at
its first colon, looks the address up and lets bcrypt compare the password.

bcrypt reads 72 bytes, `slice` counts a negative index from the end, and PostgreSQL
rejects NUL; each of the three answers some decoded strings in a way of its own.

Main results:
* `basic_auth_exact_iff`: a decoded string is accepted exactly if it is the address, a
  colon and the password of an account, and refused as invalid credentials otherwise,
  precisely when it meets `ToldApart`;
* `basic_auth_accepts_others`: a string without a colon and a longer password that are
  accepted, and a string that is answered 500.
-/

namespace BengaliTts

open Lib

section Decoding

/-- The digits of Base64 and of its URL variant. -/
def base64Value (u : UInt16) : Option Nat :=
  if 65 ≤ u ∧ u ≤ 90 then
    some (u.toNat - 65)
  else if 97 ≤ u ∧ u ≤ 122 then
    some (u.toNat - 97 + 26)
  else if 48 ≤ u ∧ u ≤ 57 then
    some (u.toNat - 48 + 52)
  else if u = 43 ∨ u = 45 then
    some 62
  else if u = 47 ∨ u = 95 then
    some 63
  else
    none

/-- Four digits are three bytes; bits that fill no byte are dropped. -/
def bytesOfDigits : List Nat → Bytes
  | a :: b :: c :: e :: rest =>
      UInt8.ofNat (a * 4 + b / 16) :: UInt8.ofNat (b % 16 * 16 + c / 4) ::
        UInt8.ofNat (c % 4 * 64 + e) :: bytesOfDigits rest
  | [a, b, c] => [UInt8.ofNat (a * 4 + b / 16), UInt8.ofNat (b % 16 * 16 + c / 4)]
  | [a, b] => [UInt8.ofNat (a * 4 + b / 16)]
  | _ => []

/-- `Buffer.from(text, 'base64')`: other characters are skipped, padding ends it. -/
def bufferFromBase64 (text : JsString) : Bytes :=
  bytesOfDigits ((text.takeWhile fun u => decide (u ≠ 61)).filterMap base64Value)

/-- A sequence of UTF-8 that is not complete: the bytes still missing, the value so far
and the range of the next byte. -/
structure Utf8Pending where
  missing : Nat
  value : Nat
  lower : UInt8
  upper : UInt8

/-- What the first byte of a sequence stands for. -/
def utf8Lead (b : UInt8) : List Char × Option Utf8Pending :=
  if b < 0x80 then
    ([Char.ofNat b.toNat], none)
  else if 0xC2 ≤ b ∧ b ≤ 0xDF then
    ([], some ⟨1, b.toNat - 0xC0, 0x80, 0xBF⟩)
  else if 0xE0 ≤ b ∧ b ≤ 0xEF then
    ([], some ⟨2, b.toNat - 0xE0, if b = 0xE0 then 0xA0 else 0x80,
      if b = 0xED then 0x9F else 0xBF⟩)
  else if 0xF0 ≤ b ∧ b ≤ 0xF4 then
    ([], some ⟨3, b.toNat - 0xF0, if b = 0xF0 then 0x90 else 0x80,
      if b = 0xF4 then 0x8F else 0xBF⟩)
  else
    ([replacementChar], none)

/-- The characters of a byte string; what is not UTF-8 becomes U+FFFD. -/
def decodeUtf8 : Option Utf8Pending → Bytes → List Char
  | none, [] => []
  | some _, [] => [replacementChar]
  | none, b :: rest => (utf8Lead b).1 ++ decodeUtf8 (utf8Lead b).2 rest
  | some pending, b :: rest =>
      if pending.lower ≤ b ∧ b ≤ pending.upper then
        if pending.missing = 1 then
          Char.ofNat (pending.value * 64 + b.toNat % 64) :: decodeUtf8 none rest
        else
          decodeUtf8
            (some ⟨pending.missing - 1, pending.value * 64 + b.toNat % 64, 0x80, 0xBF⟩) rest
      else
        replacementChar :: (utf8Lead b).1 ++ decodeUtf8 (utf8Lead b).2 rest

/-- `toString('utf8')`. -/
def utf8ToString (bytes : Bytes) : JsString :=
  fromColumn (String.ofList (decodeUtf8 none bytes))

/-- The string that the token of a Basic header stands for. -/
def decodeBasic (token : JsString) : JsString :=
  utf8ToString (bufferFromBase64 token)

example : decodeBasic (literal "4KaVOuCmliDwn5iA/w==") = literal "ক:খ 😀\uFFFD" := by
  decide +kernel

end Decoding

section Middleware

/-- The colon. -/
def colon : UInt16 := 58

/-- `text.indexOf(char)`. -/
def indexOf (text : JsString) (u : UInt16) : Int :=
  match text.findIdx? fun v => decide (v = u) with
  | some i => i
  | none => -1

/-- An index that `slice` is given: a negative one counts from the end. -/
def sliceIndex (length : Nat) (i : Int) : Nat :=
  if i < 0 then (length + i).toNat else min i.toNat length

/-- `text.slice(start, stop)`. -/
def slice (text : JsString) (start stop : Int) : JsString :=
  (text.take (sliceIndex text.length stop)).drop (sliceIndex text.length start)

/-- `text.slice(start)`. -/
def sliceFrom (text : JsString) (start : Int) : JsString :=
  text.drop (sliceIndex text.length start)

/-- `email` and `password` of a decoded string. -/
def basicCredentials (decoded : JsString) : JsString × JsString :=
  let separator := indexOf decoded colon
  (slice decoded 0 separator, sliceFrom decoded (separator + 1))

/-- The lookup and the comparison; an unknown address costs a comparison too. -/
def checkCredentials (d : AccountDeps) (t : AccountTable) (decoySalt : Bytes)
    (email password : JsString) : Except Thrown AuthedUser :=
  if hasNul email then
    .error .fault
  else
    match t.findUnique (toColumn email) with
    | some user =>
        if d.compare password user.passwordHash then
          .ok ⟨user.id, user.email⟩
        else
          .error (.domain .invalidCredentials)
    | none =>
        if d.compare password (d.hash decoySalt (literal "decoy-password")) then
          .error (.domain .invalidCredentials)
        else
          .error (.domain .invalidCredentials)

def basicAuth (d : AccountDeps) (t : AccountTable) (decoySalt : Bytes)
    (header : Option JsString) : Except Thrown AuthedUser :=
  match header with
  | none => .error (.domain .missingCredentials)
  | some value =>
      if (literal "Basic ").isPrefixOf value then
        let (email, password) :=
          basicCredentials (decodeBasic (value.drop (literal "Basic ").length))
        checkCredentials d t decoySalt email password
      else
        .error (.domain .missingCredentials)

end Middleware

section Statements

/-- The account was registered with valid credentials and this password. -/
def RegisteredWith (d : AccountDeps) (u : User) (password : JsString) : Prop :=
  ∃ (c : Credentials) (salt : Bytes), c.Valid d ∧ u.email = toColumn c.email ∧ c.password = password ∧
    u.passwordHash = d.hash salt password

/-- A users table together with the passwords that its accounts were registered with. -/
structure RegisteredUsers (d : AccountDeps) where
  table : AccountTable
  password : User → JsString
  registered : ∀ u, u ∈ table.users → RegisteredWith d u (password u)

/-- The decoded string is the address of the account, a colon and its password. -/
def Joins {d : AccountDeps} (R : RegisteredUsers d) (u : User) (decoded : JsString) : Prop :=
  u ∈ R.table.users ∧ decoded = fromColumn u.email ++ colon :: R.password u

/-- Exactly the registered credentials are accepted. -/
structure AcceptsExactly {d : AccountDeps} (R : RegisteredUsers d) (decoded : JsString)
    (result : Except Thrown AuthedUser) : Prop where
  accepts : ∀ a, result = .ok a ↔ ∃ u, Joins R u decoded ∧ a = ⟨u.id, u.email⟩
  otherwise : (¬ ∃ u, Joins R u decoded) → result = .error (.domain .invalidCredentials)

/-- bcrypt cannot tell the two passwords apart. -/
def SameForBcrypt (p q : JsString) : Prop :=
  (utf8 p).take BCRYPT_BYTES = (utf8 q).take BCRYPT_BYTES

/--
What is in front of the first colon contains no NUL, and if it is the address of an
account, the rest agrees with its password on 72 bytes of UTF-8 only if it is that
password.  Without a colon, the string up to its last code unit contains no NUL, and
the whole string does not agree so with the password of an account whose address is the
string up to its last code unit.
-/
structure ToldApart {d : AccountDeps} (R : RegisteredUsers d) (decoded : JsString) : Prop where
  split : ∀ email password, decoded = email ++ colon :: password → colon ∉ email →
    0 ∉ email ∧ ∀ u, u ∈ R.table.users → fromColumn u.email = email →
      SameForBcrypt password (R.password u) → password = R.password u
  whole : colon ∉ decoded →
    0 ∉ decoded.dropLast ∧ ∀ u, u ∈ R.table.users → fromColumn u.email = decoded.dropLast →
      ¬ SameForBcrypt decoded (R.password u)

end Statements

section Addresses

variable {d : AccountDeps}

theorem toNat_lt_of_emailUnit
    {u : UInt16}
    (h : emailUnit u = true) :
    u.toNat < 128 := by
  simp only [emailUnit, Bool.or_eq_true, Bool.and_eq_true, decide_eq_true_eq,
    UInt16.le_iff_toNat_le, ← UInt16.toNat_inj] at h
  simp at h
  omega

/-- The codepoints of an address are its code units. -/
theorem codePoint_of_emailUnits
    {email char : JsString}
    (hunits : ∀ u, u ∈ email → emailUnit u = true)
    (h : char ∈ codePoints email) :
    ∃ u, u ∈ email ∧ char = [u] ∧ isScalar [u] = true := by
  have hmem : ∀ u, u ∈ char → u ∈ email := by
    intro u hu
    rw [← flatten_codePoints email]
    exact List.mem_flatten.mpr ⟨char, h, hu⟩
  have hhigh : ∀ u, u ∈ char → isHighSurrogate u = false ∧ isLowSurrogate u = false := by
    intro u hu
    have hlt := toNat_lt_of_emailUnit (hunits u (hmem u hu))
    simp only [← Bool.not_eq_true, isHighSurrogate_iff, isLowSurrogate_iff]
    omega
  rcases mem_codePoints h with ⟨u, rfl⟩ | ⟨u, v, rfl, hu, _⟩
  · refine ⟨u, hmem u List.mem_cons_self, rfl, ?_⟩
    simp [isScalar, hhigh u List.mem_cons_self]
  · rw [(hhigh u List.mem_cons_self).1] at hu
    cases hu

theorem fromColumn_toColumn_of_emailUnits
    {email : JsString}
    (hunits : ∀ u, u ∈ email → emailUnit u = true) :
    fromColumn (toColumn email) = email := by
  refine (survivesColumn_iff email).mpr fun char hc => ?_
  obtain ⟨u, _, rfl, hscalar⟩ := codePoint_of_emailUnits hunits hc
  exact hscalar

/-- Only the address itself is sent like the address. -/
theorem eq_of_toColumn_eq
    {text email : JsString}
    (hunits : ∀ u, u ∈ email → emailUnit u = true)
    (h : toColumn text = toColumn email) :
    text = email := by
  have hwell : WellFormed text := by
    intro char hc
    by_contra hscalar
    have hsent : sendCodePoint char ∈ (codePoints email).map sendCodePoint := by
      rw [toColumn, toColumn, String.ofList_inj] at h
      rw [← h]
      exact List.mem_map_of_mem hc
    obtain ⟨char', hc', hsame⟩ := List.mem_map.mp hsent
    obtain ⟨u, hu, rfl, hscalar'⟩ := codePoint_of_emailUnits hunits hc'
    rcases mem_codePoints hc with ⟨v, rfl⟩ | ⟨v, w, rfl, hv, hw⟩
    · have hreplaced := encode_sendCodePoint_of_unpaired (Bool.eq_false_iff.mpr hscalar)
      rw [← hsame, encode_sendCodePoint hscalar'] at hreplaced
      cases hreplaced
      exact absurd (hunits _ hu) (by decide)
    · simp [isScalar, hv, hw] at hscalar
  have hback : fromColumn (toColumn text) = text := (survivesColumn_iff text).mpr hwell
  rw [← hback, h, fromColumn_toColumn_of_emailUnits hunits]

/-- The address of an account, as the code units that were registered. -/
theorem emailUnits_of_registered
    {u : User} {password : JsString}
    (h : RegisteredWith d u password) :
    toColumn (fromColumn u.email) = u.email ∧
      ∀ v, v ∈ fromColumn u.email → emailUnit v = true := by
  obtain ⟨c, _, hvalid, hemail, _, _⟩ := h
  have hunits := d.isEmail_units c.email hvalid.email
  rw [hemail, fromColumn_toColumn_of_emailUnits hunits]
  exact ⟨rfl, hunits⟩

theorem email_eq_iff
    {u : User} {password email : JsString}
    (h : RegisteredWith d u password) :
    u.email = toColumn email ↔ fromColumn u.email = email := by
  obtain ⟨hback, hunits⟩ := emailUnits_of_registered h
  constructor
  · intro he
    exact (eq_of_toColumn_eq hunits (he.symm.trans hback.symm)).symm
  · rintro rfl
    exact hback.symm

end Addresses

section Splitting

theorem findIdx?_eq_none_of_not_mem
    {text : JsString} {u : UInt16}
    (h : u ∉ text) :
    text.findIdx? (fun v => decide (v = u)) = none := by
  rw [List.findIdx?_eq_none_iff]
  intro v hv
  refine decide_eq_false ?_
  rintro rfl
  exact h hv

theorem indexOf_append
    {before after : JsString} {u : UInt16}
    (h : u ∉ before) :
    indexOf (before ++ u :: after) u = before.length := by
  have hfind : (before ++ u :: after).findIdx? (fun v => decide (v = u)) =
      some before.length := by
    rw [List.findIdx?_append, findIdx?_eq_none_of_not_mem h]
    simp [List.findIdx?_cons]
  rw [indexOf, hfind]

theorem indexOf_of_not_mem
    {text : JsString} {u : UInt16}
    (h : u ∉ text) :
    indexOf text u = -1 := by
  rw [indexOf, findIdx?_eq_none_of_not_mem h]

/-- The decoded string is taken apart at its first colon. -/
theorem basicCredentials_append
    {email password : JsString}
    (h : colon ∉ email) :
    basicCredentials (email ++ colon :: password) = (email, password) := by
  simp only [basicCredentials, indexOf_append h, slice, sliceFrom, sliceIndex,
    List.length_append, List.length_cons]
  rw [if_neg (by omega), if_neg (by omega), if_neg (by omega)]
  have hlength : min (email.length : Int).toNat (email.length + (password.length + 1)) =
      email.length := by omega
  have hnext : min ((email.length : Int) + 1).toNat (email.length + (password.length + 1)) =
      email.length + 1 := by omega
  rw [hlength, hnext]
  simp

/-- Without a colon the address lacks the last code unit and the password is the whole
string. -/
theorem basicCredentials_whole
    {decoded : JsString}
    (h : colon ∉ decoded) :
    basicCredentials decoded = (decoded.dropLast, decoded) := by
  simp only [basicCredentials, indexOf_of_not_mem h, slice, sliceFrom, sliceIndex]
  have hlast : ((decoded.length : Int) + -1).toNat = decoded.length - 1 := by omega
  simp [hlast, List.dropLast_eq_take]

end Splitting

section Registered

variable {d : AccountDeps}

/-- What every run keeps of a request on its way to the INSERT. -/
def Registration.Prepared (d : AccountDeps) (p : Registration) : Prop :=
  match p.pc with
  | .looking c => c.Valid d
  | .hashing c => c.Valid d
  | .creating c passwordHash => c.Valid d ∧ ∃ salt, passwordHash = d.hash salt c.password
  | .answered _ => True

theorem prepared_start
    (body : Option Json) :
    (Registration.start d body).Prepared d := by
  unfold Registration.start validate
  split
  · next c hc =>
      split at hc
      · next hschema =>
          cases hc
          exact valid_of_registerSchema hschema
      · cases hc
  · trivial

/-- The account that an INSERT adds is registered with its credentials. -/
theorem registered_of_insert
    {t : AccountTable} {c : Credentials} {passwordHash : String} {id : Uuid} {now : Nat}
    (hprepared : c.Valid d ∧ ∃ salt, passwordHash = d.hash salt c.password)
    (hu : t.findUnique (newUser c passwordHash id now).email = none) :
    ∀ u, u ∈ (t.insert (newUser c passwordHash id now) hu).users →
      u ∈ t.users ∨ ∃ password, RegisteredWith d u password := by
  obtain ⟨hvalid, salt, rfl⟩ := hprepared
  intro u hmem
  rcases List.mem_cons.mp hmem with rfl | hmem
  · exact Or.inr ⟨c.password, c, salt, hvalid, rfl, rfl, rfl⟩
  · exact Or.inl hmem

/-- The accounts that requests insert are registered with their credentials. -/
theorem registered_of_registerStep
    {t t' : AccountTable} {p p' : Registration} {e : RegisterEvent}
    (hprepared : p.Prepared d)
    (hs : RegisterStep d t p e t' p'.pc) :
    p'.Prepared d ∧ ∀ u, u ∈ t'.users → u ∈ t.users ∨ ∃ password, RegisteredWith d u password := by
  obtain ⟨body, pc⟩ := p'
  cases hs with
  | found hpc => exact ⟨trivial, fun u hu => Or.inl hu⟩
  | free hpc =>
      rw [Registration.Prepared, hpc] at hprepared
      exact ⟨hprepared, fun u hu => Or.inl hu⟩
  | hashed salt hpc =>
      rw [Registration.Prepared, hpc] at hprepared
      exact ⟨⟨hprepared, salt, rfl⟩, fun u hu => Or.inl hu⟩
  | created hpc hu =>
      rw [Registration.Prepared, hpc] at hprepared
      exact ⟨trivial, registered_of_insert hprepared hu⟩
  | createdReplyLost hpc hu =>
      rw [Registration.Prepared, hpc] at hprepared
      exact ⟨trivial, registered_of_insert hprepared hu⟩
  | violated hpc => exact ⟨trivial, fun u hu => Or.inl hu⟩
  | fault hpc => exact ⟨trivial, fun u hu => Or.inl hu⟩

/-- The outline of the registrations: every account was registered with a password. -/
def registeredOutline (d : AccountDeps) :
    Outline (registrations d) Machine.anyStep (fun _ => True) where
  inv := fun t => ∀ u, u ∈ t.users → ∃ password, RegisteredWith d u password
  assert := fun _ _ p => p.Prepared d
  spawn := fun _ body _ _ => prepared_start body
  act := by
    intro g i e p p' w _ _ hall hp hact
    obtain ⟨hprepared, hnew⟩ :=
      registered_of_registerStep (hall.2 i p hp) (registerStep_of_act hact).1
    exact ⟨fun u hu => (hnew u hu).elim (hall.1 u) id, hprepared⟩
  frame := fun _ _ j _ _ _ q _ _ _ hall _ _ _ hq => hall.2 j q hq
  env := fun _ b _ _ _ _ _ => b.elim

/-- Every account that is in the table after a run from the empty one was registered
with valid credentials. -/
theorem registered_of_run
    {es : List RegistrationsEvent} {g : Registrations}
    (hrun : Machine.Run (registrations d).machine Machine.anyStep
      (Registrations.start AccountTable.empty) es g) :
    ∀ u, u ∈ g.world.users → ∃ password, RegisteredWith d u password := by
  refine ((registeredOutline d).run (fun _ _ _ => trivial) ⟨?_, ?_⟩ hrun).1
  · intro u hu
    cases hu
  · intro i p hp
    cases hp

end Registered

section Results

variable {d : AccountDeps} {R : RegisteredUsers d} {decoded : JsString}

theorem colon_not_mem_email
    {u : User}
    (hu : u ∈ R.table.users) :
    colon ∉ fromColumn u.email ∧ 0 ∉ fromColumn u.email := by
  have hunits := (emailUnits_of_registered (R.registered u hu)).2
  exact ⟨fun h => absurd (hunits _ h) (by decide), fun h => absurd (hunits _ h) (by decide)⟩

/-- The credentials that are taken from a joined string are those that were joined. -/
theorem basicCredentials_of_joins
    {u : User}
    (h : Joins R u decoded) :
    basicCredentials decoded = (fromColumn u.email, R.password u) := by
  obtain ⟨hu, rfl⟩ := h
  exact basicCredentials_append (colon_not_mem_email hu).1

/-- What the lookup and the comparison answer. -/
theorem checkCredentials_cases
    (decoySalt : Bytes) (email password : JsString) :
    (0 ∈ email ∧ checkCredentials d R.table decoySalt email password = .error .fault) ∨
      (0 ∉ email ∧ ∃ u, u ∈ R.table.users ∧ fromColumn u.email = email ∧
        SameForBcrypt password (R.password u) ∧
          checkCredentials d R.table decoySalt email password = .ok ⟨u.id, u.email⟩) ∨
      (0 ∉ email ∧ (∀ u, u ∈ R.table.users → fromColumn u.email = email →
        ¬ SameForBcrypt password (R.password u)) ∧
          checkCredentials d R.table decoySalt email password =
            .error (.domain .invalidCredentials)) := by
  unfold checkCredentials
  by_cases hnul : 0 ∈ email
  · exact Or.inl ⟨hnul, if_pos (by simpa [hasNul] using hnul)⟩
  · right
    rw [if_neg (by simpa [hasNul] using hnul)]
    split
    · next u hfind =>
        obtain ⟨hu, hemail⟩ := AccountTable.findUnique_eq_some.mp hfind
        have hreg := R.registered u hu
        have hcompare : d.compare password u.passwordHash = true ↔
            SameForBcrypt password (R.password u) := by
          obtain ⟨_, salt, _, _, _, hhash⟩ := hreg
          rw [hhash]
          exact d.compare_hash salt _ _
        by_cases hsame : SameForBcrypt password (R.password u)
        · left
          exact ⟨hnul, u, hu, (email_eq_iff hreg).mp hemail, hsame, if_pos (hcompare.mpr hsame)⟩
        · right
          refine ⟨hnul, ?_, if_neg fun h => hsame (hcompare.mp h)⟩
          intro v hv hve
          have hvu : v = u := by
            refine eq_of_uniqueKey R.table.emailUnique hv hu ?_
            rw [hemail]
            exact (email_eq_iff (R.registered v hv)).mpr hve
          rw [hvu]
          exact hsame
    · next hfind =>
        right
        refine ⟨hnul, ?_, ite_self _⟩
        intro u hu hemail
        have hne := AccountTable.findUnique_eq_none.mp hfind u hu
        exact absurd ((email_eq_iff (R.registered u hu)).mpr hemail) hne

/-- The credentials that the code takes from a string are accepted exactly if whatever
bcrypt takes for the password of the account is joined in it. -/
theorem acceptsExactly_iff
    {decoySalt : Bytes} {email password : JsString}
    (hcred : basicCredentials decoded = (email, password)) :
    AcceptsExactly R decoded (checkCredentials d R.table decoySalt email password) ↔
      0 ∉ email ∧ ∀ u, u ∈ R.table.users → fromColumn u.email = email →
        SameForBcrypt password (R.password u) → Joins R u decoded := by
  have hjoined : ∀ u, Joins R u decoded →
      fromColumn u.email = email ∧ R.password u = password := by
    intro u hu
    exact Prod.mk.inj ((basicCredentials_of_joins hu).symm.trans hcred)
  have hone : ∀ u v, Joins R u decoded → v ∈ R.table.users → fromColumn v.email = email →
      u = v := by
    intro u v hu hv hve
    refine eq_of_uniqueKey R.table.emailUnique hu.1 hv ?_
    rw [(email_eq_iff (R.registered u hu.1)).mpr (hjoined u hu).1,
      (email_eq_iff (R.registered v hv)).mpr hve]
  rcases checkCredentials_cases (R := R) decoySalt email password with
    ⟨hnul, hresult⟩ | ⟨hnul, v, hv, hve, hsame, hresult⟩ | ⟨hnul, hnone, hresult⟩
  · rw [hresult]
    constructor
    · intro hexact
      have hnobody : ¬ ∃ u, Joins R u decoded := by
        rintro ⟨u, hu⟩
        rw [← (hjoined u hu).1] at hnul
        exact (colon_not_mem_email hu.1).2 hnul
      cases hexact.otherwise hnobody
    · rintro ⟨hnot, _⟩
      exact absurd hnul hnot
  · rw [hresult]
    constructor
    · intro hexact
      obtain ⟨u, hu, _⟩ := (hexact.accepts _).mp rfl
      refine ⟨hnul, fun w hw hwe _ => ?_⟩
      exact hone u w hu hw hwe ▸ hu
    · rintro ⟨_, hall⟩
      have hjoins := hall v hv hve hsame
      refine ⟨fun a => ⟨fun ha => ⟨v, hjoins, (Except.ok.inj ha).symm⟩, ?_⟩,
        fun hnot => absurd ⟨v, hjoins⟩ hnot⟩
      rintro ⟨u, hu, rfl⟩
      rw [hone u v hu hv hve]
  · rw [hresult]
    constructor
    · intro _
      exact ⟨hnul, fun u hu hue hsame => absurd hsame (hnone u hu hue)⟩
    · intro _
      have hnobody : ¬ ∃ u, Joins R u decoded := by
        rintro ⟨u, hu⟩
        refine hnone u hu.1 (hjoined u hu).1 ?_
        rw [(hjoined u hu).2]
        rfl
      refine ⟨fun a => ⟨fun ha => (by cases ha), ?_⟩, fun _ => rfl⟩
      rintro ⟨u, hu, _⟩
      exact absurd ⟨u, hu⟩ hnobody

/-- A string is taken apart at its first colon in one way. -/
theorem split_unique
    {a b p q : JsString}
    (ha : colon ∉ a)
    (hb : colon ∉ b)
    (h : a ++ colon :: p = b ++ colon :: q) :
    a = b ∧ p = q := by
  have hcred : basicCredentials (a ++ colon :: p) = (a, p) := basicCredentials_append ha
  rw [h, basicCredentials_append hb] at hcred
  obtain ⟨rfl, rfl⟩ := Prod.mk.inj hcred
  exact ⟨rfl, rfl⟩

theorem toldApart_iff
    {email password : JsString}
    (hcred : basicCredentials decoded = (email, password)) :
    ToldApart R decoded ↔
      0 ∉ email ∧ ∀ u, u ∈ R.table.users → fromColumn u.email = email →
        SameForBcrypt password (R.password u) → Joins R u decoded := by
  by_cases hcolon : colon ∈ decoded
  · obtain ⟨before, after, rfl, hbefore⟩ := List.eq_append_cons_of_mem hcolon
    rw [basicCredentials_append hbefore] at hcred
    obtain ⟨rfl, rfl⟩ := Prod.mk.inj hcred
    constructor
    · intro htold
      obtain ⟨hnul, hall⟩ := htold.split before after rfl hbefore
      refine ⟨hnul, fun u hu hue hsame => ⟨hu, ?_⟩⟩
      rw [hue, ← hall u hu hue hsame]
    · rintro ⟨hnul, hall⟩
      refine ⟨?_, fun hnot => absurd hcolon hnot⟩
      intro email' password' hsplit hemail'
      obtain ⟨rfl, rfl⟩ := split_unique hbefore hemail' hsplit
      refine ⟨hnul, fun u hu hue hsame => ?_⟩
      have hjoins := (hall u hu hue hsame).2
      exact (split_unique hbefore (colon_not_mem_email hu).1 hjoins).2
  · rw [basicCredentials_whole hcolon] at hcred
    obtain ⟨rfl, rfl⟩ := Prod.mk.inj hcred
    constructor
    · intro htold
      obtain ⟨hnul, hall⟩ := htold.whole hcolon
      exact ⟨hnul, fun u hu hue hsame => absurd hsame (hall u hu hue)⟩
    · rintro ⟨hnul, hall⟩
      refine ⟨?_, fun _ => ⟨hnul, fun u hu hue hsame => ?_⟩⟩
      · rintro email' password' rfl _
        exact absurd (List.mem_append_right _ List.mem_cons_self) hcolon
      · refine hcolon ?_
        rw [(hall u hu hue hsame).2]
        exact List.mem_append_right _ List.mem_cons_self

/-- The token of a Basic header is decoded and taken apart. -/
theorem basicAuth_token
    (t : AccountTable) (decoySalt : Bytes) (token : JsString) :
    basicAuth d t decoySalt (some (literal "Basic " ++ token)) =
      checkCredentials d t decoySalt (basicCredentials (decodeBasic token)).1
        (basicCredentials (decodeBasic token)).2 := by
  have hprefix : (literal "Basic ").isPrefixOf (literal "Basic " ++ token) = true :=
    List.isPrefixOf_iff_prefix.mpr (List.prefix_append _ _)
  simp only [basicAuth, hprefix, if_true, List.drop_left]

/--
**Basic authentication.**  For every users table whose accounts were registered with
valid credentials, and every header that starts with `Basic `: the request is
authenticated as an account exactly if the decoded string is its address, a colon and
its password, and refused as INVALID_CREDENTIALS if there is no such account, precisely
when the decoded string meets `ToldApart`.
-/
theorem basic_auth_exact_iff
    (R : RegisteredUsers d) (decoySalt : Bytes) (token : JsString) :
    AcceptsExactly R (decodeBasic token)
        (basicAuth d R.table decoySalt (some (literal "Basic " ++ token))) ↔
      ToldApart R (decodeBasic token) := by
  have hcred : basicCredentials (decodeBasic token) =
      ((basicCredentials (decodeBasic token)).1, (basicCredentials (decodeBasic token)).2) :=
    Prod.mk.eta.symm
  rw [basicAuth_token, acceptsExactly_iff hcred, toldApart_iff hcred]

/-- The password of a first user continues its address. -/
def firstPassword : JsString :=
  literal "mitu@example.com!"

/-- The password of a second user is longer than what bcrypt reads. -/
def secondPassword : JsString :=
  List.replicate 73 97

def sampleUsers : RegisteredUsers sampleAccounts where
  table :=
    { users :=
        [⟨sampleUserId, "mitu@example.com", readBytes firstPassword, 0⟩,
          ⟨otherUserId, "rana@example.com", readBytes secondPassword, 0⟩]
      emailUnique := by
        unfold UniqueKey
        decide }
  password := fun u => if u.email = "mitu@example.com" then firstPassword else secondPassword
  registered := by
    intro u hu
    rcases List.mem_cons.mp hu with rfl | hu
    · exact ⟨⟨literal "mitu@example.com", firstPassword⟩, [],
        ⟨by decide +kernel, by decide +kernel, by decide +kernel⟩, by decide +kernel, rfl, rfl⟩
    · cases List.mem_singleton.mp hu
      exact ⟨⟨literal "rana@example.com", secondPassword⟩, [],
        ⟨by decide +kernel, by decide +kernel, by decide +kernel⟩, by decide +kernel, rfl, rfl⟩

/-- The first password alone, without an address and a colon. -/
def onlyPassword : JsString :=
  literal "bWl0dUBleGFtcGxlLmNvbSE="

/-- The second user with a password that differs in its last character. -/
def otherEnding : JsString :=
  literal "cmFuYUBleGFtcGxlLmNvbTphYWFhYWFhYWFhYWFhYWFhYWFhYWFhYWFhYWFh" ++
    literal "YWFhYWFhYWFhYWFhYWFhYWFhYWFhYWFhYWFhYWFhYWFhYWFhYWFhYWFhYWFi"

/-- NUL for an address. -/
def nulAddress : JsString :=
  literal "ADp4"

theorem not_acceptsExactly
    {result : Except Thrown AuthedUser}
    (hnobody : ∀ u, u ∈ R.table.users → decoded ≠ fromColumn u.email ++ colon :: R.password u)
    (hresult : result ≠ .error (.domain .invalidCredentials)) :
    ¬ AcceptsExactly R decoded result := by
  intro hexact
  refine hresult (hexact.otherwise ?_)
  rintro ⟨u, hu, hjoined⟩
  exact hnobody u hu hjoined

/-- What the code answers to a Basic header with the token. -/
def sampleAnswerTo (token : JsString) : Except Thrown AuthedUser :=
  basicAuth sampleAccounts sampleUsers.table [] (some (literal "Basic " ++ token))

theorem sampleAnswerTo_of_decoded
    {token decoded : JsString}
    (h : decodeBasic token = decoded) :
    sampleAnswerTo token = checkCredentials sampleAccounts sampleUsers.table []
      (basicCredentials decoded).1 (basicCredentials decoded).2 := by
  rw [sampleAnswerTo, basicAuth_token, h]

/-- Two strings that join no registered credentials and are accepted, and one that is
answered 500. -/
theorem basic_auth_accepts_others :
    (sampleAnswerTo onlyPassword = .ok ⟨sampleUserId, "mitu@example.com"⟩ ∧
      ¬ AcceptsExactly sampleUsers (decodeBasic onlyPassword) (sampleAnswerTo onlyPassword)) ∧
    (sampleAnswerTo otherEnding = .ok ⟨otherUserId, "rana@example.com"⟩ ∧
      ¬ AcceptsExactly sampleUsers (decodeBasic otherEnding) (sampleAnswerTo otherEnding)) ∧
    sampleAnswerTo nulAddress = .error .fault ∧
      ¬ AcceptsExactly sampleUsers (decodeBasic nulAddress) (sampleAnswerTo nulAddress) := by
  have honly : decodeBasic onlyPassword = firstPassword := by decide +kernel
  have hother : decodeBasic otherEnding =
      literal "rana@example.com:" ++ List.replicate 72 97 ++ [98] := by decide +kernel
  have hnul : decodeBasic nulAddress = [0, colon, 120] := by decide +kernel
  have honlyAnswer : sampleAnswerTo onlyPassword = .ok ⟨sampleUserId, "mitu@example.com"⟩ := by
    rw [sampleAnswerTo_of_decoded honly]
    decide +kernel
  have hotherAnswer : sampleAnswerTo otherEnding = .ok ⟨otherUserId, "rana@example.com"⟩ := by
    rw [sampleAnswerTo_of_decoded hother]
    decide +kernel
  have hnulAnswer : sampleAnswerTo nulAddress = .error .fault := by
    rw [sampleAnswerTo_of_decoded hnul]
    decide +kernel
  rw [honly, hother, hnul, honlyAnswer, hotherAnswer, hnulAnswer]
  exact ⟨⟨rfl, not_acceptsExactly (by decide +kernel) nofun⟩,
    ⟨rfl, not_acceptsExactly (by decide +kernel) nofun⟩,
    rfl, not_acceptsExactly (by decide +kernel) nofun⟩

end Results

end BengaliTts
