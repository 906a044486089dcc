import BengaliTts.Lib.RowTable
import BengaliTts.Jobs
import BengaliTts.Validation
import BengaliTts.CodePoints

/-!
# Accounts

A user registers with an email address and a password.  The table holds the address,
which is unique, and the bcrypt hash of the password.

The pattern of addresses belongs to the schema library and the hash to bcrypt; both are
parameters, with what the routes rely on.  `AccountTable` is a table in which no address
occurs twice, so an account is inserted together with the fact that its address is new.
-/

namespace BengaliTts

open Lib

section Parameters

/-- The bytes of a string in UTF-8, as `Buffer.from` and bcrypt read it. -/
def utf8 (text : JsString) : List UInt8 :=
  (toColumn text).toList.flatMap String.utf8EncodeChar

/-- The code units of an email address: letters, digits, the signs of its local part,
the dot and the at sign. -/
def emailUnit (u : UInt16) : Bool :=
  (97 ≤ u && u ≤ 122) || (65 ≤ u && u ≤ 90) || (48 ≤ u && u ≤ 57) ||
    u = 95 || u = 39 || u = 43 || u = 45 || u = 46 || u = 64

/-- bcrypt reads this many bytes of a password. -/
def BCRYPT_BYTES : Nat := 72

/-- What the routes over accounts are run with: the pattern `z.email()`, and
`bcrypt.hash` for a salt and `bcrypt.compare`. -/
structure AccountDeps where
  isEmail : JsString → Bool
  hash : List UInt8 → JsString → String
  compare : JsString → String → Bool
  /-- An address is made of the characters that the pattern lists. -/
  isEmail_units : ∀ email, isEmail email = true → ∀ u, u ∈ email → emailUnit u = true
  /-- bcrypt compares the first bytes. -/
  compare_hash : ∀ salt p q, compare p (hash salt q) = true ↔
    (utf8 p).take BCRYPT_BYTES = (utf8 q).take BCRYPT_BYTES

end Parameters

section Schema

structure Credentials where
  email : JsString
  password : JsString
deriving DecidableEq

/-- The issues of a member that is not a string, or of the string that it is. -/
def stringIssues (name : String) (check : JsString → List String) : Option Json → List Issue
  | some (.str value) => (check value).map fun message => ⟨name, message⟩
  | other => [⟨name, "Invalid input: expected string, received " ++ receivedType other⟩]

/-- `.max(limit)` of a string schema. -/
def tooBig (limit : Nat) (value : JsString) : List String :=
  if value.length > limit then
    ["Too big: expected string to have <=" ++ toString limit ++ " characters"]
  else
    []

/-- `.min(limit)` of a string schema. -/
def tooSmall (limit : Nat) (value : JsString) : List String :=
  if value.length < limit then
    ["Too small: expected string to have >=" ++ toString limit ++ " characters"]
  else
    []

/-- `z.email().max(254)`. -/
def emailChecks (d : AccountDeps) (value : JsString) : List String :=
  (if d.isEmail value then [] else ["Invalid email address"]) ++ tooBig 254 value

/-- `z.string().min(8).max(128)`. -/
def passwordChecks (value : JsString) : List String :=
  tooSmall 8 value ++ tooBig 128 value

def registerSchema (d : AccountDeps) : Option Json → Except (List Issue) Credentials
  | some (.obj members) =>
      match stringIssues "email" (emailChecks d) (member "email" members) ++
          stringIssues "password" passwordChecks (member "password" members),
        member "email" members, member "password" members with
      | [], some (.str email), some (.str password) => .ok ⟨email, password⟩
      | issues, _, _ => .error issues
  | other =>
      .error [⟨"", "Invalid input: expected object, received " ++ receivedType other⟩]

/-- What the schema guarantees. -/
structure Credentials.Valid (d : AccountDeps) (c : Credentials) : Prop where
  email : d.isEmail c.email = true
  emailLength : c.email.length ≤ 254
  passwordLength : 8 ≤ c.password.length ∧ c.password.length ≤ 128

theorem stringIssues_eq_nil
    {name : String} {check : JsString → List String} {value : JsString}
    (h : stringIssues name check (some (.str value)) = []) :
    check value = [] :=
  List.map_eq_nil_iff.mp h

theorem tooBig_eq_nil
    {limit : Nat} {value : JsString} :
    tooBig limit value = [] ↔ value.length ≤ limit := by
  simp [tooBig]

theorem tooSmall_eq_nil
    {limit : Nat} {value : JsString} :
    tooSmall limit value = [] ↔ limit ≤ value.length := by
  simp [tooSmall]

theorem valid_of_registerSchema
    {d : AccountDeps} {body : Option Json} {c : Credentials}
    (h : registerSchema d body = .ok c) :
    c.Valid d := by
  unfold registerSchema at h
  split at h
  · next members =>
      split at h
      · next email password hissues hemail hpassword =>
          cases h
          rw [hemail, hpassword] at hissues
          obtain ⟨he, hp⟩ := List.append_eq_nil_iff.mp hissues
          obtain ⟨hpattern, hlong⟩ := List.append_eq_nil_iff.mp (stringIssues_eq_nil he)
          obtain ⟨hshort, hbig⟩ := List.append_eq_nil_iff.mp (stringIssues_eq_nil hp)
          refine ⟨?_, tooBig_eq_nil.mp hlong, tooSmall_eq_nil.mp hshort, tooBig_eq_nil.mp hbig⟩
          by_contra hnot
          simp [hnot] at hpattern
      · cases h
  · cases h

end Schema

section Table

/-- A row of the users table. -/
structure User where
  id : Uuid
  email : String
  passwordHash : String
  createdAt : Nat
deriving DecidableEq

/-- The users table, with its unique index on `email`. -/
structure AccountTable where
  users : List User
  emailUnique : UniqueKey User.email users

def AccountTable.empty : AccountTable :=
  ⟨[], List.nodup_nil⟩

/-- `findUnique({ where: { email } })`. -/
def AccountTable.findUnique (t : AccountTable) (email : String) : Option User :=
  t.users.find? fun u => decide (u.email = email)

theorem AccountTable.findUnique_eq_some
    {t : AccountTable} {email : String} {u : User} :
    t.findUnique email = some u ↔ u ∈ t.users ∧ u.email = email :=
  find?_eq_some_iff_of_unique t.emailUnique

theorem AccountTable.findUnique_eq_none
    {t : AccountTable} {email : String} :
    t.findUnique email = none ↔ ∀ u, u ∈ t.users → u.email ≠ email := by
  simp [AccountTable.findUnique]

/-- The INSERT of an account whose address the index does not hold. -/
def AccountTable.insert (t : AccountTable) (u : User) (h : t.findUnique u.email = none) :
    AccountTable where
  users := u :: t.users
  emailUnique := uniqueKey_cons (AccountTable.findUnique_eq_none.mp h) t.emailUnique

/-- The addresses of a table occur once. -/
theorem AccountTable.countP_email_le_one
    (t : AccountTable) (email : String) :
    t.users.countP (fun u => decide (u.email = email)) ≤ 1 := by
  have hcount : t.users.countP (fun u => decide (u.email = email)) =
      (t.users.map User.email).count email := by
    rw [List.count, List.countP_map]
    rfl
  rw [hcount]
  exact List.nodup_iff_count_le_one.mp t.emailUnique email

end Table

section Samples

/-- A hash that keeps the bytes that bcrypt reads. -/
def readBytes (password : JsString) : String :=
  String.ofList (((utf8 password).take BCRYPT_BYTES).map fun b => Char.ofNat b.toNat)

theorem readBytes_inj
    {p q : JsString} :
    readBytes p = readBytes q ↔ (utf8 p).take BCRYPT_BYTES = (utf8 q).take BCRYPT_BYTES := by
  have hinj : Function.Injective fun b : UInt8 => Char.ofNat b.toNat := by
    intro a b h
    have hvalid : ∀ c : UInt8, c.toNat.isValidChar := fun c =>
      Or.inl (lt_trans c.toNat_lt (by decide))
    have hnat := congrArg Char.toNat h
    simp only [toNat_ofNat_of_valid (hvalid _)] at hnat
    exact UInt8.toNat_inj.mp hnat
  rw [readBytes, readBytes, String.ofList_inj]
  exact hinj.list_map.eq_iff

/-- Dependencies for examples: a rough pattern and a hash without salt. -/
def sampleAccounts : AccountDeps where
  isEmail := fun email => email.all emailUnit && email.contains 64
  hash := fun _ password => readBytes password
  compare := fun password hash => decide (readBytes password = hash)
  isEmail_units := fun _ h => List.all_eq_true.mp ((Bool.and_eq_true _ _).mp h).1
  compare_hash := fun _ p q => decide_eq_true_iff.trans (readBytes_inj (p := p) (q := q))

def sampleUserId : Uuid :=
  ⟨"aaaaaaaa-0000-4000-8000-000000000001", by decide⟩

def otherUserId : Uuid :=
  ⟨"aaaaaaaa-0000-4000-8000-000000000002", by decide⟩

end Samples

end BengaliTts
