import BengaliTts.Platform

/-!
# Who stands behind a row and behind an answer

A row of the jobs table names a user, and so does a row of the table of keys.  What the
user of a row has to do with the person who sent the request is spread over the
middleware, the key table and the transaction of the submission, with awaits between
them.  Here the chain is closed: account, key, admission, submission, row, recording.

A token is known by its digest only, so the chain says that the token of a request has
the digest of a key that was issued to the user.

Main results:
* `row_provenance`: behind every row of the three tables stands an account, behind every
  key the request of the account that created it, and behind every job such a key;
* `answers_about_own_jobs`: what a GET is answered shows and plays jobs that were
  submitted with a key of the same account;
* `revoked_key_admits_nothing`: once a DELETE is answered 204, no request whose key is
  looked up later is let through by the key.
-/

namespace BengaliTts

open Lib

section Statements

/-- Basic authentication accepts the header as the account, whatever the decoy costs. -/
def AcceptedAs (d : AccountDeps) (t : AccountTable) (header : Option JsString) (u : User) : Prop :=
  u ∈ t.users ∧ ∀ salt, basicAuth d t salt header = .ok ⟨u.id, u.email⟩

/-- The request created the key: its statement came to the answer 201 with the key, and
it was answered so, or with a failure if the reply of the statement was lost. -/
structure KeyRequest.Created (q : KeyRequest) (e : IssuedKey) : Prop where
  route : q.route = .create
  answer : ∃ keyPrefix createdAt,
    q.outcome = some (.success 201 (.created e.id e.key keyPrefix createdAt)) ∧
      (q.pc = .answered (.success 201 (.created e.id e.key keyPrefix createdAt)) ∨
        q.pc = .answered (errorHandler .fault))

/-- The key was created by a request that gave the credentials of the account. -/
def CreatedBy (d : PlatformDeps) (p : Platform) (e : IssuedKey) (u : User) : Prop :=
  u.id = e.user ∧ ∃ (i : Nat) (q : KeyRequest), p.keyRequests[i]? = some q ∧ q.Created e ∧
    AcceptedAs d.accounts p.registrations.world q.header u

/-- The request carried a token with the digest of the key. -/
structure AdmittedBy (d : PlatformDeps) (s : KeyStore) (a : Admission) (e : IssuedKey) : Prop where
  issued : e ∈ s.issued
  row : e.id = a.keyId
  owner : e.user = a.user
  token : ∃ token, bearerToken a.header = some token ∧
    d.keys.sha256Hex token = d.keys.sha256Hex e.key

/-- The request was let through by a key that the account created. -/
def Authorized (d : PlatformDeps) (p : Platform) (a : Admission) (u : User) : Prop :=
  a ∈ p.admitted ∧ u.id = a.user ∧ ∃ e, AdmittedBy d p.keys a e ∧ CreatedBy d p e u

/-- A POST with this header and body was let through and runs as process `i`. -/
structure EnteredAs (p : Platform) (a : Admission) (i : Nat) (h : Handler) : Prop where
  admitted : a ∈ p.admitted
  user : a.user = h.user
  request : ∃ (k : Nat) (t : Submit), a.started = .submission k i ∧ p.submits[k]? = some t ∧
    t.pc = .passed i ∧ t.header = a.header ∧ t.body = h.body

/-- The row was inserted and committed by a submission of the account. -/
def SubmittedBy (d : PlatformDeps) (p : Platform) (u : User) (b : Job) : Prop :=
  ∃ (i : Nat) (h : Handler) (a : Admission),
    (i, b) ∈ p.service.world.born ∧ b.id ∈ p.service.world.everCommitted ∧
      p.service.procs[i]? = some (.handler h) ∧ InsertedBy d.gateway h b ∧
        EnteredAs p a i h ∧ Authorized d p a u

/-- The answer shows and plays jobs of the account only. -/
structure AnswersFrom (d : PlatformDeps) (p : Platform) (u : User) (request : ReadRequest)
    (body : ReadBody) : Prop where
  views : ∀ v, v ∈ body.views → ∃ b, SubmittedBy d p u b ∧ b.id = v.id
  audio : ∀ data, body = .audio data → ∃ b, SubmittedBy d p u b ∧
    request = .audio b.id.text ∧ (b.inputText, data) ∈ p.service.world.synthesized

/-- Behind every row stands an account. -/
structure RowsHaveOwners (d : PlatformDeps) (p : Platform) : Prop where
  accounts : ∀ u, u ∈ p.registrations.world.users →
    ∃ password, RegisteredWith d.accounts u password
  keys : ∀ k, k ∈ p.keys.rows → ∃ u e, k.userId = u.id ∧ e ∈ p.keys.issued ∧ e.id = k.id ∧
    k.keyHash = d.keys.sha256Hex e.key ∧ CreatedBy d p e u
  jobs : ∀ r, r ∈ p.service.world.jobs → ∃ u b, r.userId = u.id ∧ SameSubmission b r ∧
    SubmittedBy d p u b

/-- The record that the lookup of a waiting request found. -/
def SubmitPc.found? : SubmitPc → Option ApiKey
  | .checking _ found => found
  | _ => none

def ReadPc.found? : ReadPc → Option ApiKey
  | .checking _ found => found
  | _ => none

def Platform.found? (p : Platform) : Started → Option ApiKey
  | .submission k _ => (p.submits[k]?).bind fun t => t.pc.found?
  | .read k => (p.reads[k]?).bind fun r => r.pc.found?

/-- The lookup of the request's key was answered before the key was revoked, and the
checks were not made yet. -/
def LookedUp (p : Platform) (a : Admission) : Prop :=
  ∃ record, p.found? a.started = some record ∧ record.id = a.keyId ∧ record.revokedAt = none

end Statements

section Headers

variable {d : AccountDeps} {t t' : AccountTable} {header : Option JsString} {u : User}

/-- The credentials of a Basic header. -/
def basicHeader : Option JsString → Option (JsString × JsString)
  | none => none
  | some value =>
      if (literal "Basic ").isPrefixOf value then
        some (basicCredentials (decodeBasic (value.drop (literal "Basic ").length)))
      else
        none

theorem basicAuth_of_header
    {email password : JsString}
    (h : basicHeader header = some (email, password))
    (salt : Bytes) :
    basicAuth d t salt header = checkCredentials d t salt email password := by
  cases header with
  | none => cases h
  | some value =>
      simp only [basicHeader] at h
      split at h
      · next hbasic =>
          have hcredentials := Option.some.inj h
          simp only [basicAuth, if_pos hbasic, hcredentials]
      · cases h

theorem start_of_header
    (header : Option JsString) (route : KeyRoute) :
    KeyRequest.start header route =
      match basicHeader header with
      | some (email, password) => ⟨header, route, .looking email password, none⟩
      | none => ⟨header, route, .answered (errorHandler (.domain .missingCredentials)), none⟩ := by
  cases header with
  | none => rfl
  | some value =>
      simp only [KeyRequest.start, basicHeader]
      split <;> rfl

/-- An account that was found and whose password compares is accepted. -/
theorem acceptedAs_of_compare
    {email password : JsString}
    (hheader : basicHeader header = some (email, password))
    (hnul : hasNul email = false)
    (hfound : t.findUnique (toColumn email) = some u)
    (hvalid : d.compare password u.passwordHash = true) :
    AcceptedAs d t header u := by
  refine ⟨(AccountTable.findUnique_eq_some.mp hfound).1, fun salt => ?_⟩
  rw [basicAuth_of_header hheader, checkCredentials_eq, hnul, hfound]
  simp [passwordVerdict, hvalid]

/-- An accepted header stays accepted while accounts are added. -/
theorem acceptedAs_later
    (hlater : ∀ email u, t.findUnique email = some u → t'.findUnique email = some u)
    (h : AcceptedAs d t header u) :
    AcceptedAs d t' header u := by
  obtain ⟨hu, haccepts⟩ := h
  have hkept := hlater u.email u (AccountTable.findUnique_eq_some.mpr ⟨hu, rfl⟩)
  refine ⟨(AccountTable.findUnique_eq_some.mp hkept).1, fun salt => ?_⟩
  have hok := haccepts salt
  cases header with
  | none => cases hok
  | some value =>
      simp only [basicAuth] at hok ⊢
      split at hok
      · next hbasic =>
          rw [if_pos hbasic]
          rw [checkCredentials_eq] at hok ⊢
          split at hok
          · cases hok
          · next hnul =>
              rw [if_neg hnul]
              cases hfound : t.findUnique (toColumn (basicCredentials
                  (decodeBasic (value.drop (literal "Basic ").length))).1) with
              | none =>
                  rw [hfound] at hok
                  cases hok
              | some found =>
                  rw [hfound] at hok
                  rw [hlater _ _ hfound]
                  exact hok
      · cases hok

end Headers

section Invariant

variable {d : PlatformDeps} {p q : Platform} {e : PlatformEvent}

/-- The job was committed, for the user. -/
def OnRecord (w : World) (user : Uuid) (b : Job) : Prop :=
  (∃ i, (i, b) ∈ w.born) ∧ b.id ∈ w.everCommitted ∧ b.userId = user

/-- The answer shows and plays jobs of the user. -/
structure ShownTo (w : World) (user : Uuid) (request : ReadRequest) (body : ReadBody) : Prop where
  views : ∀ v, v ∈ body.views → ∃ b, OnRecord w user b ∧ b.id = v.id
  audio : ∀ data, body = .audio data → ∃ b, OnRecord w user b ∧
    request = .audio b.id.text ∧ (b.inputText, data) ∈ w.synthesized

/-- What every run keeps of a request over keys, by where it stands. -/
def KeyRequestOk (d : PlatformDeps) (t : AccountTable) (s : KeyStore) (q : KeyRequest) : Prop :=
  match q.pc with
  | .looking email password => basicHeader q.header = some (email, password)
  | .comparing found password => ∃ email, basicHeader q.header = some (email, password) ∧
      hasNul email = false ∧ ∀ u, found = some u → t.findUnique (toColumn email) = some u
  | .authenticated user => ∃ u, AcceptedAs d.accounts t q.header u ∧ user = ⟨u.id, u.email⟩
  | .answered r => ∀ keyId, q.route = .revoke keyId → r = .success 204 .empty →
      ∃ u id, AcceptedAs d.accounts t q.header u ∧ id.text = keyId ∧ (u.id, id) ∈ s.revocations

/-- What every run keeps of the answer to the lookup of a key. -/
structure LookupOk (d : KeyDeps) (s : KeyStore) (header : Option JsString) (key : JsString)
    (found : Option ApiKey) : Prop where
  presented : presentedKey header = .ok key
  record : ∀ record, found = some record → ∃ x, x ∈ s.issued ∧ x.id = record.id ∧
    x.user = record.userId ∧ d.sha256Hex key = d.sha256Hex x.key ∧
      (record.revokedAt.isSome = true → (record.userId, record.id) ∈ s.revocations)

/-- What every run keeps of a POST, by where it stands. -/
def SubmitOk (d : PlatformDeps) (s : KeyStore) (t : Submit) : Prop :=
  match t.pc with
  | .looking key => presentedKey t.header = .ok key
  | .checking key found => LookupOk d.keys s t.header key found
  | .passed _ => True
  | .answered _ => True

/-- A GET was let through for the user. -/
def ReadFor (p : Platform) (i : Nat) (r : Read) (user : Uuid) : Prop :=
  ∃ a, a ∈ p.admitted ∧ a.started = .read i ∧ a.header = r.header ∧ a.user = user

/-- What every run keeps of a GET, by where it stands. -/
def ReadOk (d : PlatformDeps) (p : Platform) (i : Nat) (r : Read) : Prop :=
  match r.pc with
  | .looking key => presentedKey r.header = .ok key
  | .checking key found => LookupOk d.keys p.keys r.header key found
  | .querying user => ReadFor p i r user
  | .fetching job key => ReadFor p i r job.userId ∧ r.request = .audio job.id.text ∧
      key = audioKey job.userId job.id ∧
        HoldsRecording p.service.world key job.inputText ∧
          ∃ b, OnRecord p.service.world job.userId b ∧ SameSubmission b job
  | .answered (.success _ body) => ∃ user, ReadFor p i r user ∧
      ShownTo p.service.world user r.request body
  | .answered (.failure _ _ _) => True

/-- What every run keeps of the platform. -/
structure PlatformOk (d : PlatformDeps) (p : Platform) : Prop where
  requests : ∀ (i : Nat) q, p.keyRequests[i]? = some q →
    KeyRequestOk d p.registrations.world p.keys q
  issued : ∀ e, e ∈ p.keys.issued → ∃ u, CreatedBy d p e u
  revoked : ∀ x, x ∈ p.keys.revocations → ∃ e, e ∈ p.keys.issued ∧ e.user = x.1 ∧ e.id = x.2
  admitted : ∀ a, a ∈ p.admitted → ∃ e, AdmittedBy d p.keys a e
  submits : ∀ (i : Nat) t, p.submits[i]? = some t → SubmitOk d p.keys t
  submissions : ∀ (i : Nat) h, p.service.procs[i]? = some (.handler h) → ∃ a, EnteredAs p a i h
  reads : ∀ (i : Nat) r, p.reads[i]? = some r → ReadOk d p i r

theorem onRecord_later
    {w w' : World} {user : Uuid} {b : Job}
    (hgrows : Grows w w')
    (h : OnRecord w user b) :
    OnRecord w' user b := by
  obtain ⟨⟨i, hb⟩, hcommitted, huser⟩ := h
  exact ⟨⟨i, hgrows.born _ hb⟩, hgrows.committed _ hcommitted, huser⟩

/-- A row of the table is on record for its user. -/
theorem onRecord_of_row
    {w : World} {r : Job}
    (hw : WorldOk w)
    (hr : r ∈ w.jobs) :
    ∃ b, OnRecord w r.userId b ∧ SameSubmission b r := by
  obtain ⟨i, b, hb, hsame⟩ := hw.rowsBorn r hr
  exact ⟨b, ⟨⟨i, hb⟩, hsame.id.symm ▸ hw.rowsCommitted r hr, hsame.userId⟩, hsame⟩

theorem keyRequestOk_later
    {t t' : AccountTable} {s s' : KeyStore} {q : KeyRequest}
    (haccounts : ∀ email u, t.findUnique email = some u → t'.findUnique email = some u)
    (hhistory : HistoryGrows s s')
    (h : KeyRequestOk d t s q) :
    KeyRequestOk d t' s' q := by
  unfold KeyRequestOk at h ⊢
  split
  · next email password hpc =>
      rw [hpc] at h
      exact h
  · next found password hpc =>
      rw [hpc] at h
      obtain ⟨email, hheader, hnul, hfound⟩ := h
      exact ⟨email, hheader, hnul, fun u hu => haccounts _ _ (hfound u hu)⟩
  · next user hpc =>
      rw [hpc] at h
      obtain ⟨u, haccepted, huser⟩ := h
      exact ⟨u, acceptedAs_later haccounts haccepted, huser⟩
  · next r hpc =>
      rw [hpc] at h
      intro keyId hroute hr
      obtain ⟨u, id, haccepted, hid, hrevoked⟩ := h keyId hroute hr
      exact ⟨u, id, acceptedAs_later haccounts haccepted, hid, hhistory.revocations _ hrevoked⟩

theorem shownTo_later
    {w w' : World} {user : Uuid} {request : ReadRequest} {body : ReadBody}
    (hgrows : Grows w w')
    (hsynthesized : ∀ x, x ∈ w.synthesized → x ∈ w'.synthesized)
    (h : ShownTo w user request body) :
    ShownTo w' user request body where
  views := by
    intro v hv
    obtain ⟨b, hb, hid⟩ := h.views v hv
    exact ⟨b, onRecord_later hgrows hb, hid⟩
  audio := by
    intro data hdata
    obtain ⟨b, hb, hrequest, hmem⟩ := h.audio data hdata
    exact ⟨b, onRecord_later hgrows hb, hrequest, hsynthesized _ hmem⟩

theorem readFor_later
    {i : Nat} {r : Read} {user : Uuid}
    (hlater : Later p q)
    (h : ReadFor p i r user) :
    ReadFor q i r user := by
  obtain ⟨a, ha, hstarted⟩ := h
  exact ⟨a, hlater.admitted a ha, hstarted⟩

theorem lookupOk_later
    {k : KeyDeps} {s s' : KeyStore} {header : Option JsString} {key : JsString}
    {found : Option ApiKey}
    (hhistory : HistoryGrows s s')
    (h : LookupOk k s header key found) :
    LookupOk k s' header key found where
  presented := h.presented
  record := by
    intro record hfound
    obtain ⟨x, hx, hid, huser, hdigest, hrevoked⟩ := h.record record hfound
    exact ⟨x, hhistory.issued x hx, hid, huser, hdigest,
      fun hstamp => hhistory.revocations _ (hrevoked hstamp)⟩

theorem submitOk_later
    {s s' : KeyStore} {t : Submit}
    (hhistory : HistoryGrows s s')
    (h : SubmitOk d s t) :
    SubmitOk d s' t := by
  unfold SubmitOk at h ⊢
  split
  · next key hpc =>
      rw [hpc] at h
      exact h
  · next key found hpc =>
      rw [hpc] at h
      exact lookupOk_later hhistory h
  · trivial
  · trivial

theorem readOk_later
    {i : Nat} {r : Read}
    (hlater : Later p q)
    (h : ReadOk d p i r) :
    ReadOk d q i r := by
  unfold ReadOk at h ⊢
  split
  · next key hpc =>
      rw [hpc] at h
      exact h
  · next key found hpc =>
      rw [hpc] at h
      exact lookupOk_later hlater.history h
  · next user hpc =>
      rw [hpc] at h
      exact readFor_later hlater h
  · next job key hpc =>
      rw [hpc] at h
      obtain ⟨hfor, hrequest, hkey, hholds, b, hb, hsame⟩ := h
      subst hkey
      obtain ⟨k, hborn⟩ := hb.1
      exact ⟨readFor_later hlater hfor, hrequest, rfl,
        hlater.recordings _ _ _ ⟨k, b, hborn, hsame.id, hsame.inputText⟩ hholds,
        b, onRecord_later hlater.world hb, hsame⟩
  · next status body hpc =>
      rw [hpc] at h
      obtain ⟨user, hfor, hshown⟩ := h
      exact ⟨user, readFor_later hlater hfor, shownTo_later hlater.world hlater.synthesized hshown⟩
  · trivial

/-- The requests over keys stay what they are, and those that were answered do not
change. -/
def RequestsKept (p q : Platform) : Prop :=
  ∀ (i : Nat) x r, p.keyRequests[i]? = some x → x.pc = .answered r →
    q.keyRequests[i]? = some x

theorem answered_stays
    {t : AccountTable} {s s' : KeyStore} {x x' : KeyRequest} {r : KeysResponse}
    (hs : KeyRequestStep d t s x s' x')
    (h : x.pc = .answered r) :
    False := by
  cases hs with
  | lookup hpc => exact KeyRequestPc.noConfusion (hpc.symm.trans h)
  | accept hpc => exact KeyRequestPc.noConfusion (hpc.symm.trans h)
  | refuse _ hpc => exact hpc r h
  | execute _ _ _ _ hpc => exact KeyRequestPc.noConfusion (hpc.symm.trans h)

theorem requestsKept_of_step
    (hs : PlatformStep d p e q) :
    RequestsKept p q := by
  intro i x r hx hr
  cases hs with
  | keyRequest header route => exact getElem?_spawn_of_some hx
  | @keyStep j _ y y' _ hy hstep =>
      have hij : j ≠ i := by
        rintro rfl
        cases hy.symm.trans hx
        exact answered_stays hstep hr
      exact (List.getElem?_set_ne hij).trans hx
  | _ => exact hx

theorem createdBy_later
    {x : IssuedKey} {u : User}
    (hlater : Later p q)
    (hkept : RequestsKept p q)
    (h : CreatedBy d p x u) :
    CreatedBy d q x u := by
  obtain ⟨howner, i, r, hr, hcreated, haccepted⟩ := h
  refine ⟨howner, i, r, ?_, hcreated, acceptedAs_later hlater.accounts haccepted⟩
  obtain ⟨_, _, _, hpc | hpc⟩ := hcreated.answer
  · exact hkept i r _ hr hpc
  · exact hkept i r _ hr hpc

theorem admittedBy_later
    {a : Admission} {x : IssuedKey} {s s' : KeyStore}
    (hhistory : HistoryGrows s s')
    (h : AdmittedBy d s a x) :
    AdmittedBy d s' a x :=
  ⟨hhistory.issued x h.issued, h.row, h.owner, h.token⟩

end Invariant

section KeySteps

variable {d : PlatformDeps} {p q : Platform} {e : PlatformEvent}

theorem presentedKey_eq_ok
    {header : Option JsString} {key : JsString}
    (h : presentedKey header = .ok key) :
    bearerToken header = some key := by
  unfold presentedKey at h
  split at h
  · cases h
  · next token htoken =>
      split at h <;> cases h
      exact htoken

/-- What the lookup of a key finds. -/
theorem lookupOk_of_find
    {s : KeyStore} {header : Option JsString} {key : JsString}
    (hok : KeysOk d.keys s)
    (hpresented : presentedKey header = .ok key) :
    LookupOk d.keys s header key (findApiKey d.keys s.rows key) where
  presented := hpresented
  record := by
    intro record hfound
    have hrow := List.mem_of_find?_eq_some hfound
    have hmatch := List.find?_some hfound
    have hhash : record.keyHash = hashApiKey d.keys key := of_decide_eq_true hmatch
    obtain ⟨x, hx, hid, huser, hdigest⟩ := hok.issuedKey hrow
    exact ⟨x, hx, hid, huser, hhash.symm.trans hdigest.symm, (hok.stamped record hrow).mp⟩

/-- A request that is let through carries a token with the digest of an issued key. -/
theorem admittedBy_of_lookup
    {s : KeyStore} {header : Option JsString} {key : JsString} {record : ApiKey}
    (started : Started)
    (h : LookupOk d.keys s header key (some record)) :
    ∃ x, AdmittedBy d s ⟨header, record.userId, record.id, started⟩ x := by
  obtain ⟨x, hx, hid, huser, hdigest, _⟩ := h.record record rfl
  exact ⟨x, hx, hid, huser, key, presentedKey_eq_ok h.presented, hdigest⟩

/-- A POST that stands at the checks of its key. -/
theorem lookupOk_of_submit
    {i : Nat} {t : Submit} {key : JsString} {found : Option ApiKey}
    (hok : PlatformOk d p)
    (ht : p.submits[i]? = some t)
    (hpc : t.pc = .checking key found) :
    LookupOk d.keys p.keys t.header key found := by
  have hsubmit := hok.submits i t ht
  rw [SubmitOk, hpc] at hsubmit
  exact hsubmit

/-- A GET that stands at the checks of its key. -/
theorem lookupOk_of_read
    {i : Nat} {r : Read} {key : JsString} {found : Option ApiKey}
    (hok : PlatformOk d p)
    (hr : p.reads[i]? = some r)
    (hpc : r.pc = .checking key found) :
    LookupOk d.keys p.keys r.header key found := by
  have hread := hok.reads i r hr
  rw [ReadOk, hpc] at hread
  exact hread

/-- The keys that are on record after the statement of a route over keys. -/
theorem issued_of_statement
    {s : KeyStore} {user : Uuid} {secret : Secret} {id : Uuid} {now : Nat} {route : KeyRoute}
    {x : IssuedKey}
    (h : x ∈ (s.run d.keys user secret id now route).1.issued) :
    x ∈ s.issued ∨ (route = .create ∧ user = x.user ∧ ∃ keyPrefix,
      (s.run d.keys user secret id now route).2 =
        .success 201 (.created x.id x.key keyPrefix now)) := by
  cases route with
  | create =>
      rcases issued_create_iff.mp h with hold | ⟨huser, _, hanswer⟩
      · exact Or.inl hold
      · exact Or.inr ⟨rfl, huser, hanswer⟩
  | list => exact Or.inl h
  | revoke keyId =>
      simp only [KeyStore.run, KeyStore.revoke] at h
      split at h
      · exact Or.inl h
      · split at h <;> exact Or.inl h

/-- The revocations after the statement of a route over keys are of issued keys. -/
theorem revocations_of_statement
    {s : KeyStore} {user : Uuid} {secret : Secret} {id : Uuid} {now : Nat} {route : KeyRoute}
    {x : Uuid × Uuid}
    (hok : KeysOk d.keys s)
    (h : x ∈ (s.run d.keys user secret id now route).1.revocations) :
    x ∈ s.revocations ∨ ∃ y, y ∈ s.issued ∧ y.user = x.1 ∧ y.id = x.2 := by
  cases route with
  | create =>
      simp only [KeyStore.run, KeyStore.create] at h
      split at h <;> exact Or.inl h
  | list => exact Or.inl h
  | revoke keyId =>
      simp only [KeyStore.run, KeyStore.revoke] at h
      split at h
      · exact Or.inl h
      · split at h
        · exact Or.inl h
        · rcases List.mem_append.mp h with hnew | hold
          · obtain ⟨r, hr, rfl⟩ := List.mem_map.mp hnew
            obtain ⟨hrow, hrevocable⟩ := List.mem_filter.mp hr
            obtain ⟨y, hy, hid, huser, _⟩ := hok.issuedKey hrow
            exact Or.inr ⟨y, hy, huser.trans (revocable_iff.mp hrevocable).2.1, hid⟩
          · exact Or.inl hold

theorem keyRequestOk_start
    {t : AccountTable} {s : KeyStore}
    (header : Option JsString) (route : KeyRoute) :
    KeyRequestOk d t s (KeyRequest.start header route) := by
  rw [start_of_header]
  split
  · next hheader => exact hheader
  · intro keyId _ hr
    exact absurd hr (errorHandler_ne_success _ _ _)

/-- A step of a request over keys keeps what is known of it. -/
theorem keyRequestOk_of_step
    {t : AccountTable} {s s' : KeyStore} {x x' : KeyRequest}
    (hs : KeyRequestStep d t s x s' x')
    (hok : KeyRequestOk d t s x) :
    KeyRequestOk d t s' x' := by
  cases hs with
  | @lookup email password hpc hnul =>
      rw [KeyRequestOk, hpc] at hok
      exact ⟨email, hok, hnul, fun u hu => hu⟩
  | @accept user password hpc hvalid =>
      rw [KeyRequestOk, hpc] at hok
      obtain ⟨email, hheader, hnul, hfound⟩ := hok
      exact ⟨user, acceptedAs_of_compare hheader hnul (hfound user rfl) hvalid, rfl⟩
  | refuse thrown hpc =>
      intro keyId _ hr
      exact absurd hr (errorHandler_ne_success _ _ _)
  | @execute user secret id now replyLost hpc =>
      rw [KeyRequestOk, hpc] at hok
      obtain ⟨u, haccepted, rfl⟩ := hok
      intro keyId hroute hr
      cases replyLost with
      | true =>
          rw [if_pos rfl] at hr
          exact absurd hr (errorHandler_ne_success _ _ _)
      | false =>
          rw [if_neg Bool.false_ne_true] at hr
          rw [show x.route = .revoke keyId from hroute] at hr ⊢
          obtain ⟨k, hk, hrevoked⟩ := revoked_of_empty hr
          exact ⟨u, k, haccepted, hk, hrevoked⟩

/-- A key that a request over keys has issued was created by it, for its account. -/
theorem createdBy_of_keyStep
    {i : Nat} {x x' : KeyRequest} {s : KeyStore} {y : IssuedKey}
    (hok : PlatformOk d p)
    (hx : p.keyRequests[i]? = some x)
    (hs : KeyRequestStep d p.registrations.world p.keys x s x')
    (hy : y ∈ s.issued) :
    y ∈ p.keys.issued ∨ ∃ u, CreatedBy d
      { p with keys := s, keyRequests := p.keyRequests.set i x' } y u := by
  cases hs with
  | lookup => exact Or.inl hy
  | accept => exact Or.inl hy
  | refuse => exact Or.inl hy
  | @execute user secret id now replyLost hpc =>
      rcases issued_of_statement hy with hold | ⟨hroute, howner, keyPrefix, hanswer⟩
      · exact Or.inl hold
      · have hrequest := hok.requests i x hx
        rw [KeyRequestOk, hpc] at hrequest
        obtain ⟨u, haccepted, rfl⟩ := hrequest
        have hpc' : (if replyLost then errorHandler .fault else
              (p.keys.run d.keys u.id secret id now x.route).2) =
            .success 201 (.created y.id y.key keyPrefix now) ∨
            (if replyLost then errorHandler .fault else
              (p.keys.run d.keys u.id secret id now x.route).2) =
            (errorHandler .fault : KeysResponse) := by
          cases replyLost with
          | true => exact Or.inr rfl
          | false => exact Or.inl hanswer
        exact Or.inr ⟨u, howner, i, _, getElem?_set_self_of_some hx,
          ⟨hroute, keyPrefix, now, congrArg some hanswer,
            hpc'.imp (congrArg KeyRequestPc.answered) (congrArg KeyRequestPc.answered)⟩,
          haccepted⟩

end KeySteps

section Steps

variable {d : PlatformDeps} {p q : Platform} {e : PlatformEvent}

/-- The history lists rows of the user only. -/
theorem owned_of_findMany
    {jobs : List Job} {user : Uuid} {take : Nat} {cursor : Option Uuid} {r : Job}
    (h : r ∈ findMany jobs user take cursor) :
    r.userId = user := by
  have hordered : ∀ x, x ∈ orderByDesc Job.position (jobs.filter (ownedBy user)) →
      x.userId = user :=
    fun x hx => ownedBy_iff.mp (List.mem_filter.mp (mem_orderByDesc.mp hx)).2
  unfold findMany at h
  split at h
  · exact hordered r (List.mem_of_mem_take h)
  · split at h
    · cases h
    · exact hordered r (List.mem_of_mem_filter (List.mem_of_mem_drop (List.mem_of_mem_take h)))

/-- The routes over one job show the user's row. -/
theorem shownTo_of_lookup
    {w : World} {user : Uuid} {id : String} {wrap : JobView → ReadBody} {body : ReadBody}
    {request : ReadRequest}
    (hw : WorldOk w)
    (hviews : ∀ view, (wrap view).views = [view])
    (haudio : ∀ view data, wrap view ≠ .audio data)
    (h : ((findOwnedJob w user id).map fun job => wrap (serializeJob job)) = .ok body) :
    ShownTo w user request body := by
  cases hjob : findOwnedJob w user id with
  | error thrown =>
      rw [hjob] at h
      cases h
  | ok job =>
      rw [hjob] at h
      cases h
      obtain ⟨hmem, rfl⟩ := owned_of_findOwnedJob hjob
      obtain ⟨b, hb, hsame⟩ := onRecord_of_row hw hmem
      constructor
      · intro v hv
        rw [hviews, List.mem_singleton] at hv
        subst hv
        exact ⟨b, hb, hsame.id⟩
      · intro data hdata
        exact absurd hdata (haudio _ data)

/-- What the routes without an object show. -/
theorem shownTo_of_route
    {w : World} {user : Uuid} {request : ReadRequest} {body : ReadBody}
    {report : Query → List Issue}
    (hw : WorldOk w)
    (hroute : ∀ id, request ≠ .audio id)
    (h : readRoute report w user request = .ok body) :
    ShownTo w user request body := by
  cases request with
  | history query =>
      cases hparsed : historyQuerySchema report query with
      | error issues => simp [readRoute, getHistory, validate, hparsed] at h
      | ok parsed =>
          rw [readRoute, getHistory_of_parsed w user hparsed] at h
          cases h
          constructor
          · intro v hv
            obtain ⟨r, hr, rfl⟩ := List.mem_map.mp hv
            have hmem := List.mem_of_mem_take hr
            obtain ⟨b, hb, hsame⟩ := onRecord_of_row hw (mem_of_findMany hmem)
            rw [owned_of_findMany hmem] at hb
            exact ⟨b, hb, hsame.id⟩
          · intro data hdata
            cases hdata
  | job id =>
      exact shownTo_of_lookup hw (fun view => (rfl : (ReadBody.job view).views = [view]))
        (fun _ _ => ReadBody.noConfusion) h
  | events id =>
      exact shownTo_of_lookup hw (fun view => (rfl : (ReadBody.event view).views = [view]))
        (fun _ _ => ReadBody.noConfusion) h
  | audio id => exact absurd rfl (hroute id)

theorem readOk_failed
    {i : Nat} {r : Read} (thrown : Thrown)
    (hpc : r.pc = .answered (errorHandler thrown)) :
    ReadOk d p i r := by
  rw [ReadOk, hpc]
  cases thrown <;> trivial

/-- The shared lookup finds a row with the id that was asked for. -/
theorem id_of_findOwnedJob
    {w : World} {user : Uuid} {id : String} {job : Job}
    (h : findOwnedJob w user id = .ok job) :
    job.id.text = id := by
  unfold findOwnedJob requireParam at h
  split at h
  · cases h
  · simp only [bind, Except.bind] at h
    split at h
    · cases h
    · split at h
      · cases h
      · next found hfind =>
          cases h
          have hmatch := List.find?_some hfind
          rw [Bool.and_eq_true, decide_eq_true_eq] at hmatch
          exact hmatch.1

/-- Where the statement over jobs leads a GET that was let through. -/
theorem readOk_afterQuery
    {i : Nat} {r : Read} {user : Uuid}
    (hknown : Known d p)
    (hfor : ReadFor p i r user) :
    ReadOk d p i { r with pc := afterQuery d p.service.world user r.request } := by
  obtain ⟨header, request, pc⟩ := r
  have hroute : (∀ id, request ≠ .audio id) →
      ReadOk d p i ⟨header, request,
        .answered (respond d.report p.service.world user request)⟩ := by
    intro hno
    cases h : readRoute d.report p.service.world user request with
    | error thrown => exact readOk_failed thrown (by rw [respond, h])
    | ok body =>
        rw [respond, h]
        exact ⟨user, hfor, shownTo_of_route hknown.service.1 hno h⟩
  cases request with
  | audio id =>
      simp only [afterQuery]
      split
      · next job key htarget =>
          obtain ⟨hjob, hdone, hkey⟩ := audioTarget_eq_ok htarget
          obtain ⟨hmem, rfl⟩ := owned_of_findOwnedJob hjob
          have hcompleted := (hknown.rows job hmem).consistent.completed hdone
          obtain ⟨b, hb, hsame⟩ := onRecord_of_row hknown.service.1 hmem
          obtain rfl := Option.some.inj (hkey.symm.trans hcompleted.key)
          obtain rfl := id_of_findOwnedJob hjob
          exact ⟨hfor, rfl, rfl, hcompleted.recording, b, hb, hsame⟩
      · exact readOk_failed _ rfl
  | history query => exact hroute (fun _ => ReadRequest.noConfusion)
  | job id => exact hroute (fun _ => ReadRequest.noConfusion)
  | events id => exact hroute (fun _ => ReadRequest.noConfusion)

/-- After its statement over jobs a GET is past the checks of its key. -/
theorem afterQuery_ne_checking
    (w : World) (user : Uuid) (request : ReadRequest) (key : JsString) (found : Option ApiKey) :
    afterQuery d w user request ≠ .checking key found := by
  unfold afterQuery
  split
  · split <;> exact nofun
  · exact nofun

theorem found?_afterQuery
    (w : World) (user : Uuid) (request : ReadRequest) (record : ApiKey) :
    (afterQuery d w user request).found? ≠ some record := by
  cases hpc : afterQuery d w user request with
  | checking key found => exact absurd hpc (afterQuery_ne_checking _ _ _ _ _)
  | _ => exact nofun

/-- A step of a GET keeps what is known of it. -/
theorem readOk_of_readStep
    {i : Nat} {r : Read} {e : ReadEvent} {pc : ReadPc}
    (hknown : Known d p)
    (hok : ReadOk d p i r)
    (hs : ReadStep d p.keys.rows p.service.world r e pc) :
    ReadOk d p i { r with pc := pc } := by
  cases hs with
  | lookup hpc =>
      rw [ReadOk, hpc] at hok
      exact lookupOk_of_find hknown.keys hok
  | refuse => exact readOk_failed _ rfl
  | query hpc =>
      rw [ReadOk, hpc] at hok
      exact readOk_afterQuery hknown hok
  | @object job key hpc =>
      rw [ReadOk, hpc] at hok
      obtain ⟨hfor, hrequest, rfl, ⟨data, hdata, hmem⟩, b, hb, hsame⟩ := hok
      have hfetch : fetchObject p.service.world (audioKey job.userId job.id) =
          .ok (.audio data) := by
        rw [fetchObject, hdata]
      rw [hfetch]
      refine ⟨job.userId, hfor, ?_, ?_⟩
      · intro v hv
        cases hv
      · intro data' hdata'
        cases hdata'
        refine ⟨b, hb, ?_, ?_⟩
        · rw [hsame.id]
          exact hrequest
        · rw [hsame.inputText]
          exact hmem
  | fault => exact readOk_failed _ rfl

/-- A step of a POST keeps what is known of it. -/
theorem submitOk_of_submitStep
    {s : KeyStore} {t : Submit} {e : SubmitEvent} {pc : SubmitPc}
    (hkeys : KeysOk d.keys s)
    (hok : SubmitOk d s t)
    (hs : SubmitStep d s.rows t e pc) :
    SubmitOk d s { t with pc := pc } := by
  cases hs with
  | lookup hpc =>
      rw [SubmitOk, hpc] at hok
      exact lookupOk_of_find hkeys hok
  | refuse => trivial
  | fault => trivial

theorem request_of_handlerStep
    {i : Nat} {w w' : World} {h h' : Handler} {pc : HandlerPc} {e : HandlerEvent}
    (hs : HandlerStep d.gateway i w h pc e w' h') :
    h'.user = h.user ∧ h'.body = h.body := by
  cases hs <;> exact ⟨rfl, rfl⟩

/-- A step of the service brings no submission by itself. -/
theorem handler_before
    {s t : Service} {e : ServiceEvent} {i : Nat} {h' : Handler}
    (hno : entersByKey e = false)
    (hs : (service d.gateway).machine.step s e = some t)
    (hp : t.procs[i]? = some (.handler h')) :
    ∃ h, s.procs[i]? = some (.handler h) ∧ h'.user = h.user ∧ h'.body = h.body := by
  cases serviceStep_of_step hs with
  | spawn r =>
      rcases getElem?_spawn hp with hp | ⟨_, hboot⟩
      · exact ⟨h', hp, rfl, rfl⟩
      · cases r with
        | submit r => cases hno
        | deliver job => cases hboot
        | failedEvent job => cases hboot
  | handler hq hstep =>
      rcases getElem?_set_cases hp with ⟨rfl, heq⟩ | ⟨_, hp⟩
      · cases heq
        exact ⟨_, hq, request_of_handlerStep hstep⟩
      · exact ⟨h', hp, rfl, rfl⟩
  | call =>
      rcases getElem?_set_cases hp with ⟨_, heq⟩ | ⟨_, hp⟩
      · cases heq
      · exact ⟨h', hp, rfl, rfl⟩
  | env => exact ⟨h', hp, rfl, rfl⟩

theorem request_of_start
    (r : SubmitRequest) :
    (Handler.start r).user = r.user ∧ (Handler.start r).body = r.body := by
  unfold Handler.start
  split <;> exact ⟨rfl, rfl⟩

/-- A POST that was let through does not change any more. -/
theorem passed_of_step
    (hs : PlatformStep d p e q)
    {k i : Nat} {t : Submit}
    (ht : p.submits[k]? = some t)
    (hpc : t.pc = .passed i) :
    q.submits[k]? = some t := by
  cases hs with
  | submit => exact getElem?_spawn_of_some ht
  | @waiting j _ t' _ ht' hstep =>
      have hjk : j ≠ k := by
        rintro rfl
        cases ht'.symm.trans ht
        cases hstep with
        | lookup hlooking => exact SubmitPc.noConfusion (hlooking.symm.trans hpc)
        | refuse hchecking => exact SubmitPc.noConfusion (hchecking.symm.trans hpc)
        | fault hlooking => exact SubmitPc.noConfusion (hlooking.symm.trans hpc)
      exact (List.getElem?_set_ne hjk).trans ht
  | @submitted j t' _ _ ht' hchecking =>
      have hjk : j ≠ k := by
        rintro rfl
        cases ht'.symm.trans ht
        exact SubmitPc.noConfusion (hchecking.symm.trans hpc)
      exact (List.getElem?_set_ne hjk).trans ht
  | _ => exact ht

theorem enteredAs_later
    {a : Admission} {i : Nat} {h h' : Handler}
    (hs : PlatformStep d p e q)
    (hlater : Later p q)
    (hsame : h'.user = h.user ∧ h'.body = h.body)
    (hentered : EnteredAs p a i h) :
    EnteredAs q a i h' := by
  obtain ⟨ha, huser, k, t, hstarted, ht, hpc, hheader, hbody⟩ := hentered
  exact ⟨hlater.admitted a ha, huser.trans hsame.1.symm, k, t, hstarted,
    passed_of_step hs ht hpc, hpc, hheader, hbody.trans hsame.2.symm⟩

/-- Every submission was let through for its user. -/
theorem submissions_of_step
    (hknown : Known d p)
    (hok : PlatformOk d p)
    (hs : PlatformStep d p e q)
    {i : Nat} {h : Handler}
    (hp : q.service.procs[i]? = some (.handler h)) :
    ∃ a, EnteredAs q a i h := by
  have hlater := later_of_step hknown hs
  have hold : ∀ h₀, p.service.procs[i]? = some (.handler h₀) →
      h.user = h₀.user ∧ h.body = h₀.body → ∃ a, EnteredAs q a i h := by
    intro h₀ hp₀ hsame
    obtain ⟨a, ha⟩ := hok.submissions i h₀ hp₀
    exact ⟨a, enteredAs_later hs hlater hsame ha⟩
  cases hs with
  | @submitted j t key record ht hpc hvalid =>
      rcases getElem?_spawn hp with hp | ⟨rfl, heq⟩
      · exact hold h hp ⟨rfl, rfl⟩
      · cases heq
        obtain ⟨huser, hbody⟩ :=
          request_of_start ⟨record.userId, t.idempotencyKey, t.body⟩
        exact ⟨_, List.mem_cons_self, huser.symm, j, _, rfl, getElem?_set_self_of_some ht, rfl,
          rfl, hbody.symm⟩
  | service hno hstep =>
      obtain ⟨h₀, hp₀, hsame⟩ := handler_before hno hstep hp
      exact hold h₀ hp₀ hsame
  | _ => exact hold h hp ⟨rfl, rfl⟩

theorem readOk_start
    (p : Platform) (i : Nat) (header : Option JsString) (request : ReadRequest) :
    ReadOk d p i (Read.start header request) := by
  unfold Read.start
  split
  · next key hkey => exact hkey
  · exact readOk_failed _ rfl

/-- Every GET is where it should be after a step. -/
theorem reads_of_step
    (hknown : Known d p)
    (hok : PlatformOk d p)
    (hs : PlatformStep d p e q)
    {i : Nat} {r : Read}
    (hr : q.reads[i]? = some r) :
    ReadOk d q i r := by
  have hlater := later_of_step hknown hs
  cases hs with
  | read header request =>
      rcases getElem?_spawn hr with hr | ⟨_, rfl⟩
      · exact readOk_later hlater (hok.reads i r hr)
      · exact readOk_start _ _ header request
  | @reading j x key record hx hpc hvalid =>
      rcases getElem?_set_cases hr with ⟨rfl, rfl⟩ | ⟨_, hr⟩
      · exact ⟨_, List.mem_cons_self, rfl, rfl, rfl⟩
      · exact readOk_later hlater (hok.reads i r hr)
  | @readStep j _ x pc hx hstep =>
      rcases getElem?_set_cases hr with ⟨rfl, rfl⟩ | ⟨_, hr⟩
      · exact readOk_later hlater (readOk_of_readStep hknown (hok.reads j x hx) hstep)
      · exact readOk_later hlater (hok.reads i r hr)
  | _ => exact readOk_later hlater (hok.reads i r hr)

theorem submitOk_start
    (s : KeyStore) (header : Option JsString) (idempotencyKey : Option HeaderValue)
    (body : Option Json) :
    SubmitOk d s (Submit.start header idempotencyKey body) := by
  unfold Submit.start
  split
  · next key hkey => exact hkey
  · trivial

/-- Every POST is where it should be after a step. -/
theorem submits_of_step
    (hknown : Known d p)
    (hok : PlatformOk d p)
    (hs : PlatformStep d p e q)
    {i : Nat} {t : Submit}
    (ht : q.submits[i]? = some t) :
    SubmitOk d q.keys t := by
  have hhistory := (later_of_step hknown hs).history
  cases hs with
  | submit header idempotencyKey body =>
      rcases getElem?_spawn ht with ht | ⟨_, rfl⟩
      · exact submitOk_later hhistory (hok.submits i t ht)
      · exact submitOk_start _ header idempotencyKey body
  | submitted =>
      rcases getElem?_set_cases ht with ⟨rfl, rfl⟩ | ⟨_, ht⟩
      · trivial
      · exact submitOk_later hhistory (hok.submits i t ht)
  | @waiting j _ x pc hx hstep =>
      rcases getElem?_set_cases ht with ⟨rfl, rfl⟩ | ⟨_, ht⟩
      · exact submitOk_of_submitStep hknown.keys (hok.submits j x hx) hstep
      · exact submitOk_later hhistory (hok.submits i t ht)
  | _ => exact submitOk_later hhistory (hok.submits i t ht)

/-- Every request over keys is where it should be after a step. -/
theorem requests_of_step
    (hknown : Known d p)
    (hok : PlatformOk d p)
    (hs : PlatformStep d p e q)
    {i : Nat} {x : KeyRequest}
    (hx : q.keyRequests[i]? = some x) :
    KeyRequestOk d q.registrations.world q.keys x := by
  have hlater := later_of_step hknown hs
  have hold : ∀ y, p.keyRequests[i]? = some y →
      KeyRequestOk d q.registrations.world q.keys y :=
    fun y hy => keyRequestOk_later hlater.accounts hlater.history (hok.requests i y hy)
  cases hs with
  | keyRequest header route =>
      rcases getElem?_spawn hx with hx | ⟨_, rfl⟩
      · exact hold x hx
      · exact keyRequestOk_start header route
  | keyStep hy hstep =>
      rcases getElem?_set_cases hx with ⟨rfl, rfl⟩ | ⟨_, hx⟩
      · exact keyRequestOk_of_step hstep (hok.requests _ _ hy)
      · exact hold x hx
  | _ => exact hold x hx

/-- Every issued key was created by a request of an account, after a step. -/
theorem createdBy_of_step
    (hknown : Known d p)
    (hok : PlatformOk d p)
    (hs : PlatformStep d p e q)
    {y : IssuedKey}
    (hy : y ∈ q.keys.issued) :
    ∃ u, CreatedBy d q y u := by
  have hold : y ∈ p.keys.issued → ∃ u, CreatedBy d q y u := by
    intro hmem
    obtain ⟨u, hcreated⟩ := hok.issued y hmem
    exact ⟨u, createdBy_later (later_of_step hknown hs) (requestsKept_of_step hs) hcreated⟩
  cases hs with
  | keyStep hx hstep => exact (createdBy_of_keyStep hok hx hstep hy).elim hold id
  | touched _ hissued => exact hold (hissued ▸ hy)
  | _ => exact hold hy

/-- Every request that was let through carried an issued key, after a step. -/
theorem admitted_of_step
    (hknown : Known d p)
    (hok : PlatformOk d p)
    (hs : PlatformStep d p e q)
    {a : Admission}
    (ha : a ∈ q.admitted) :
    ∃ x, AdmittedBy d q.keys a x := by
  have hhistory := (later_of_step hknown hs).history
  have hold : a ∈ p.admitted → ∃ x, AdmittedBy d q.keys a x := by
    intro hmem
    obtain ⟨x, hx⟩ := hok.admitted a hmem
    exact ⟨x, admittedBy_later hhistory hx⟩
  cases hs with
  | submitted ht hpc =>
      rcases List.mem_cons.mp ha with rfl | ha
      · obtain ⟨x, hx⟩ := admittedBy_of_lookup _ (lookupOk_of_submit hok ht hpc)
        exact ⟨x, admittedBy_later hhistory hx⟩
      · exact hold ha
  | reading hr hpc =>
      rcases List.mem_cons.mp ha with rfl | ha
      · obtain ⟨x, hx⟩ := admittedBy_of_lookup _ (lookupOk_of_read hok hr hpc)
        exact ⟨x, admittedBy_later hhistory hx⟩
      · exact hold ha
  | _ => exact hold ha

/-- Every revocation is of an issued key, after a step. -/
theorem revoked_of_step
    (hknown : Known d p)
    (hok : PlatformOk d p)
    (hs : PlatformStep d p e q)
    {x : Uuid × Uuid}
    (hx : x ∈ q.keys.revocations) :
    ∃ y, y ∈ q.keys.issued ∧ y.user = x.1 ∧ y.id = x.2 := by
  have hgrows := (later_of_step hknown hs).history
  have hfrom : x ∈ p.keys.revocations ∨ ∃ y, y ∈ p.keys.issued ∧ y.user = x.1 ∧ y.id = x.2 := by
    cases hs with
    | keyStep _ hstep =>
        cases hstep with
        | execute => exact revocations_of_statement hknown.keys hx
        | _ => exact Or.inl hx
    | touched _ _ hrevocations => exact Or.inl (hrevocations ▸ hx)
    | _ => exact Or.inl hx
  obtain ⟨y, hy, heq⟩ := hfrom.elim (hok.revoked x) id
  exact ⟨y, hgrows.issued y hy, heq⟩

/-- **The step lemma.** -/
theorem platformOk_of_step
    (hknown : Known d p)
    (hok : PlatformOk d p)
    (hs : PlatformStep d p e q) :
    PlatformOk d q where
  requests := fun _ _ => requests_of_step hknown hok hs
  issued := fun _ => createdBy_of_step hknown hok hs
  revoked := fun _ => revoked_of_step hknown hok hs
  admitted := fun _ => admitted_of_step hknown hok hs
  submits := fun _ _ => submits_of_step hknown hok hs
  submissions := fun _ _ => submissions_of_step hknown hok hs
  reads := fun _ _ => reads_of_step hknown hok hs

theorem platformOk_of_run
    {es : List PlatformEvent}
    (hrun : PlatformRun d es p) :
    PlatformOk d p := by
  refine platform_invariant (.nil _) hrun (fun _ _ _ hu hI hs => platformOk_of_step hu hI hs) ?_
  constructor <;> simp [Platform.initial, KeyStore.empty, Service.initial]

end Steps

section Accounts

variable {d : AccountDeps} {g g' : Registrations} {e : RegistrationsEvent}

/-- An INSERT draws an id that no account has. -/
theorem userIds_of_insert
    {t : AccountTable} {u : User} {hfree : t.findUnique u.email = none}
    (hfresh : ¬ (t.users.any fun v => decide (v.id = u.id)) = true)
    (hunique : UniqueKey User.id t.users) :
    UniqueKey User.id (t.insert u hfree).users := by
  refine uniqueKey_cons (fun v hv heq => hfresh ?_) hunique
  exact List.any_eq_true.mpr ⟨v, hv, decide_eq_true heq⟩

theorem userIds_of_act
    {t t' : AccountTable} {p p' : Registration} {e : RegisterEvent}
    (hunique : UniqueKey User.id t.users)
    (h : p.act d t e = some (t', p')) :
    UniqueKey User.id t'.users := by
  cases e with
  | findUnique =>
      simp only [Registration.act] at h
      split at h
      · split at h <;> cases h <;> exact hunique
      · cases h
  | hash salt =>
      simp only [Registration.act] at h
      split at h <;> cases h
      exact hunique
  | create id now =>
      simp only [Registration.act] at h
      split at h
      · split at h
        · cases h
        · next hfresh =>
            split at h <;> cases h
            · exact userIds_of_insert hfresh hunique
            · exact hunique
      · cases h
  | createReplyLost id now =>
      simp only [Registration.act] at h
      split at h
      · split at h
        · cases h
        · next hfresh =>
            split at h <;> cases h
            exact userIds_of_insert hfresh hunique
      · cases h
  | fault =>
      simp only [Registration.act] at h
      split at h <;> cases h
      exact hunique

theorem userIds_of_run
    {es : List RegistrationsEvent}
    (hrun : Machine.Run (registrations d).machine Machine.anyStep
      (Registrations.start AccountTable.empty) es g) :
    UniqueKey User.id g.world.users := by
  have hempty : UniqueKey User.id (Registrations.start AccountTable.empty).world.users :=
    List.nodup_nil
  refine Machine.run_invariant (I := fun g => UniqueKey User.id g.world.users) ?_ hrun hempty
  intro g e g' hI _ hs
  cases Program.step_of_machine hs with
  | spawn => exact hI
  | act _ hact => exact userIds_of_act hI hact
  | @env b => exact b.elim

end Accounts

section Results

variable {d : PlatformDeps} {p q : Platform} {es fs : List PlatformEvent}

theorem authorized_of_admitted
    {a : Admission}
    (hok : PlatformOk d p)
    (ha : a ∈ p.admitted) :
    ∃ u, Authorized d p a u := by
  obtain ⟨x, hx⟩ := hok.admitted a ha
  obtain ⟨u, hcreated⟩ := hok.issued x hx.issued
  exact ⟨u, ha, hcreated.1.trans hx.owner, x, hx, hcreated⟩

theorem mem_users_of_authorized
    {a : Admission} {u : User}
    (h : Authorized d p a u) :
    u ∈ p.registrations.world.users := by
  obtain ⟨_, _, _, _, _, _, _, _, _, haccepted⟩ := h
  exact haccepted.1

/-- Behind a job on record stands the account of its submission. -/
theorem submittedBy_of_onRecord
    {user : Uuid} {b : Job}
    (hknown : Known d p)
    (hok : PlatformOk d p)
    (hb : OnRecord p.service.world user b) :
    ∃ u, u.id = user ∧ SubmittedBy d p u b := by
  obtain ⟨⟨i, hborn⟩, hcommitted, rfl⟩ := hb
  obtain ⟨h, hp, hjob⟩ := hknown.creators i b hborn hcommitted
  have hby := ((hknown.service.2 i _ hp).own b hjob).2.1
  obtain ⟨a, hentered⟩ := hok.submissions i h hp
  obtain ⟨u, hauthorized⟩ := authorized_of_admitted hok hentered.admitted
  refine ⟨u, ?_, i, h, a, hborn, hcommitted, hp, hby, hentered, hauthorized⟩
  rw [hauthorized.2.1, hentered.user, hby.userId]

/-- Accounts with one id are one. -/
theorem account_unique
    {a a' : Admission} {u u' : User}
    (hrun : PlatformRun d es p)
    (h : Authorized d p a u)
    (h' : Authorized d p a' u')
    (hid : u.id = u'.id) :
    u = u' := by
  obtain ⟨rs, hregistrations⟩ := registrations_of_run hrun
  exact eq_of_uniqueKey (userIds_of_run hregistrations) (mem_users_of_authorized h)
    (mem_users_of_authorized h') hid

/--
**Provenance of rows.**  For every interleaving of registrations, requests over keys,
submissions, reads and workers, with replies that are lost and awaits that raise: every
account was registered with valid credentials; every key row was created by a POST
whose Basic header gave the address and the password of the account it belongs to, whose
INSERT returned that row's id with the key, and which was answered with the two, or with
a failure if that reply was lost; and every job was inserted by a submission of that very
text, which was let through by a token with the digest of a key that the job's owner had
created so.
-/
theorem row_provenance
    (hrun : PlatformRun d es p) :
    RowsHaveOwners d p := by
  have hknown := known_of_run hrun
  have hok := platformOk_of_run hrun
  refine ⟨hknown.accounts, ?_, ?_⟩
  · intro k hk
    obtain ⟨x, hx, hid, huser, hhash⟩ := hknown.keys.issuedKey hk
    obtain ⟨u, hcreated⟩ := hok.issued x hx
    exact ⟨u, x, huser.symm.trans hcreated.1.symm, hx, hid, hhash.symm, hcreated⟩
  · intro r hr
    obtain ⟨b, hb, hsame⟩ := onRecord_of_row hknown.service.1 hr
    obtain ⟨u, hid, hsubmitted⟩ := submittedBy_of_onRecord hknown hok hb
    exact ⟨u, b, hid.symm, hsame, hsubmitted⟩

/-- The account behind a job of a user is the one behind every request let through for
that user. -/
theorem submittedBy_of_authorized
    {a : Admission} {u : User} {b : Job}
    (hrun : PlatformRun d es p)
    (hauthorized : Authorized d p a u)
    (hb : OnRecord p.service.world a.user b) :
    SubmittedBy d p u b := by
  obtain ⟨u', hid, hby⟩ := submittedBy_of_onRecord (known_of_run hrun) (platformOk_of_run hrun) hb
  obtain ⟨_, _, a', _, _, _, _, _, hauthorized'⟩ := id hby
  rw [account_unique hrun hauthorized hauthorized' (hauthorized.2.1.trans hid.symm)]
  exact hby

/--
**Answers are about one's own jobs.**  For every interleaving, and however many other
steps fall between the lookup of a GET's key, its statement over jobs and its fetch of
the object: a GET that is answered with a success was let through by a key that an
account created; every job that it shows was submitted with a key of the same account,
and the bytes it plays are a recording that the engine returned for the text of the job
that it names, which was submitted with a key of the same account.
-/
theorem answers_about_own_jobs
    {i : Nat} {r : Read} {status : Nat} {body : ReadBody}
    (hrun : PlatformRun d es p)
    (hr : p.reads[i]? = some r)
    (hpc : r.pc = .answered (.success status body)) :
    ∃ a u, a.started = .read i ∧ a.header = r.header ∧ Authorized d p a u ∧
      AnswersFrom d p u r.request body := by
  have hknown := known_of_run hrun
  have hok := platformOk_of_run hrun
  have hread := hok.reads i r hr
  rw [ReadOk, hpc] at hread
  obtain ⟨user, ⟨a, ha, hstarted, hheader, rfl⟩, hshown⟩ := hread
  obtain ⟨u, hauthorized⟩ := authorized_of_admitted hok ha
  have hsubmitted : ∀ b, OnRecord p.service.world a.user b → SubmittedBy d p u b :=
    fun _ => submittedBy_of_authorized hrun hauthorized
  refine ⟨a, u, hstarted, hheader, hauthorized, ?_, ?_⟩
  · intro v hv
    obtain ⟨b, hb, hid⟩ := hshown.views v hv
    exact ⟨b, hsubmitted b hb, hid⟩
  · intro data hdata
    obtain ⟨b, hb, hrequest, hmem⟩ := hshown.audio data hdata
    exact ⟨b, hsubmitted b hb, hrequest, hmem⟩

/-- The record that a waiting request has found, it had found before, or the row is in the
table. -/
theorem found_of_step
    {e : PlatformEvent} {started : Started} {record : ApiKey}
    (hs : PlatformStep d p e q)
    (hfound : q.found? started = some record) :
    p.found? started = some record ∨ record ∈ p.keys.rows := by
  cases started with
  | submission k i =>
      obtain ⟨t, ht, hpc⟩ := Option.bind_eq_some_iff.mp hfound
      have hold : p.submits[k]? = some t → p.found? (.submission k i) = some record :=
        fun h => Option.bind_eq_some_iff.mpr ⟨t, h, hpc⟩
      cases hs with
      | submit header idempotencyKey body =>
          rcases getElem?_spawn ht with ht | ⟨_, rfl⟩
          · exact Or.inl (hold ht)
          · unfold Submit.start at hpc
            split at hpc <;> cases hpc
      | waiting _ hstep =>
          rcases getElem?_set_cases ht with ⟨_, rfl⟩ | ⟨_, ht⟩
          · cases hstep with
            | lookup => exact Or.inr (List.mem_of_find?_eq_some hpc)
            | refuse => cases hpc
            | fault => cases hpc
          · exact Or.inl (hold ht)
      | submitted =>
          rcases getElem?_set_cases ht with ⟨_, rfl⟩ | ⟨_, ht⟩
          · cases hpc
          · exact Or.inl (hold ht)
      | _ => exact Or.inl (hold ht)
  | read k =>
      obtain ⟨r, hr, hpc⟩ := Option.bind_eq_some_iff.mp hfound
      have hold : p.reads[k]? = some r → p.found? (.read k) = some record :=
        fun h => Option.bind_eq_some_iff.mpr ⟨r, h, hpc⟩
      cases hs with
      | read header request =>
          rcases getElem?_spawn hr with hr | ⟨_, rfl⟩
          · exact Or.inl (hold hr)
          · unfold Read.start at hpc
            split at hpc <;> cases hpc
      | readStep _ hstep =>
          rcases getElem?_set_cases hr with ⟨_, rfl⟩ | ⟨_, hr⟩
          · cases hstep with
            | lookup => exact Or.inr (List.mem_of_find?_eq_some hpc)
            | @query user => exact absurd hpc (found?_afterQuery _ _ _ _)
            | refuse => cases hpc
            | object => cases hpc
            | fault => cases hpc
          · exact Or.inl (hold hr)
      | reading =>
          rcases getElem?_set_cases hr with ⟨_, rfl⟩ | ⟨_, hr⟩
          · cases hpc
          · exact Or.inl (hold hr)
      | _ => exact Or.inl (hold hr)

/-- What a step lets through stood at the checks with an unrevoked record of its key. -/
theorem found_of_admitted
    {e : PlatformEvent} {a : Admission}
    (hs : PlatformStep d p e q)
    (ha : a ∈ q.admitted) :
    a ∈ p.admitted ∨ ∃ record, p.found? a.started = some record ∧ record.id = a.keyId ∧
      record.revokedAt = none := by
  cases hs with
  | @submitted i t key record ht hpc hvalid =>
      rcases List.mem_cons.mp ha with rfl | ha
      · refine Or.inr ⟨record, Option.bind_eq_some_iff.mpr ⟨t, ht, ?_⟩, rfl, hvalid⟩
        rw [hpc]
        rfl
      · exact Or.inl ha
  | @reading i r key record hr hpc hvalid =>
      rcases List.mem_cons.mp ha with rfl | ha
      · refine Or.inr ⟨record, Option.bind_eq_some_iff.mpr ⟨r, hr, ?_⟩, rfl, hvalid⟩
        rw [hpc]
        rfl
      · exact Or.inl ha
  | _ => exact Or.inl ha

/-- Once the key `keyId` is revoked, who finds its record later finds it revoked, and who
is let through by it had found it before. -/
structure Refused (p : Platform) (keyId : Uuid) (q : Platform) : Prop where
  found : ∀ started record, q.found? started = some record → record.id = keyId →
    record.revokedAt.isSome = true ∨ p.found? started = some record
  admitted : ∀ a, a ∈ q.admitted → a.keyId = keyId → a ∈ p.admitted ∨ LookedUp p a

theorem refused_of_step
    {v w : Platform} {e : PlatformEvent} {x : IssuedKey}
    (hknown : Known d v)
    (hx : x ∈ v.keys.issued)
    (hrevoked : (x.user, x.id) ∈ v.keys.revocations)
    (hI : Refused p x.id v)
    (hs : PlatformStep d v e w) :
    Refused p x.id w := by
  constructor
  · intro started record hfound hid
    rcases found_of_step hs hfound with hold | hrow
    · exact hI.found started record hold hid
    · obtain ⟨row, hmem, hrowId, hrowUser, _⟩ := hknown.keys.row hx
      cases eq_of_uniqueKey hknown.keys.idsUnique hrow hmem (hid.trans hrowId.symm)
      exact Or.inl ((hknown.keys.stamped record hrow).mpr (by rw [hrowUser, hrowId]; exact hrevoked))
  · intro a ha hkey
    rcases found_of_admitted hs ha with hold | ⟨record, hfound, hid, hvalid⟩
    · exact hI.admitted a hold hkey
    · rcases hI.found _ record hfound (hid.trans hkey) with hstamp | hbefore
      · rw [hvalid] at hstamp
        cases hstamp
      · exact Or.inr ⟨record, hbefore, hid, hvalid⟩

/-- Processes of the service are never removed. -/
theorem procs_length_le
    {s t : Service} {e : ServiceEvent}
    (hs : (service d.gateway).machine.step s e = some t) :
    s.procs.length ≤ t.procs.length := by
  cases Program.step_of_machine hs with
  | spawn => simp
  | act => simp
  | env => exact le_rfl

/-- An admission for a submission is of one that has started. -/
theorem startedBefore_of_run
    {a : Admission} {k j : Nat}
    (hrun : PlatformRun d es p)
    (ha : a ∈ p.admitted)
    (hstarted : a.started = .submission k j) :
    j < p.service.procs.length := by
  refine platform_invariant (I := fun v => ∀ a, a ∈ v.admitted → ∀ k j,
    a.started = .submission k j → j < v.service.procs.length) (.nil _) hrun ?_ ?_ a ha k j hstarted
  · intro v e w _ hI hs a ha k j hstarted
    cases hs with
    | submitted =>
        rw [List.length_append]
        rcases List.mem_cons.mp ha with rfl | ha
        · cases hstarted
          exact Nat.lt_succ_self _
        · exact Nat.lt_add_right _ (hI a ha k j hstarted)
    | reading =>
        rcases List.mem_cons.mp ha with rfl | ha
        · cases hstarted
        · exact hI a ha k j hstarted
    | service _ hstep => exact lt_of_lt_of_le (hI a ha k j hstarted) (procs_length_le hstep)
    | _ => exact hI a ha k j hstarted
  · intro a ha
    cases ha

/--
**A revoked key lets nothing through.**  Once a DELETE for a key is answered 204, the
key is one that was issued to the account whose credentials the DELETE carried, and
however the platform goes on, every request that this key ever lets through was let
through before that answer, or its lookup had found the key before it was revoked; in
particular every submission that starts later was let through by another key, or by such
a lookup.
-/
theorem revoked_key_admits_nothing
    {i : Nat} {r : KeyRequest} {keyId : String}
    (hrun : PlatformRun d es p)
    (hr : p.keyRequests[i]? = some r)
    (hroute : r.route = .revoke keyId)
    (hpc : r.pc = .answered (.success 204 .empty))
    (hfs : Machine.Run (platform d) Machine.anyStep p fs q) :
    ∃ u x, AcceptedAs d.accounts p.registrations.world r.header u ∧ x ∈ p.keys.issued ∧
      x.user = u.id ∧ x.id.text = keyId ∧
        (∀ a, a ∈ q.admitted → a.keyId = x.id → a ∈ p.admitted ∨ LookedUp p a) ∧
          ∀ (j : Nat) h, p.service.procs.length ≤ j → q.service.procs[j]? = some (.handler h) →
            ∃ a, EnteredAs q a j h ∧ (a.keyId ≠ x.id ∨ LookedUp p a) := by
  have hok := platformOk_of_run hrun
  have hrequest := hok.requests i r hr
  rw [KeyRequestOk, hpc] at hrequest
  obtain ⟨u, id, haccepted, hid, hrevoked⟩ := hrequest keyId hroute rfl
  obtain ⟨x, hx, howner, hxid⟩ := hok.revoked _ hrevoked
  dsimp only at howner hxid
  rw [← hxid] at hid hrevoked
  have hrefused : Refused p x.id q := by
    refine (platform_invariant (I := fun v => Later p v ∧ Refused p x.id v) hrun hfs ?_
      ⟨Later.refl p, fun _ _ h _ => Or.inr h, fun _ h _ => Or.inl h⟩).2
    rintro v e w hv ⟨hlater, hI⟩ hs
    refine ⟨hlater.trans (later_of_step hv hs),
      refused_of_step hv (hlater.history.issued x hx) ?_ hI hs⟩
    rw [howner]
    exact hlater.history.revocations _ hrevoked
  refine ⟨u, x, haccepted, hx, howner, hid, hrefused.admitted, ?_⟩
  intro j h hj hp
  obtain ⟨a, hentered⟩ := (platformOk_of_run (Machine.run_append hrun hfs)).submissions j h hp
  refine ⟨a, hentered, ?_⟩
  by_cases hkey : a.keyId = x.id
  · rcases hrefused.admitted a hentered.admitted hkey with hbefore | hlooked
    · obtain ⟨k, _, hstarted, _⟩ := hentered.request
      have hlt := startedBefore_of_run hrun hbefore hstarted
      omega
    · exact Or.inr hlooked
  · exact Or.inl hkey

end Results

section Samples

def samplePlatform : PlatformDeps where
  gateway := sampleDeps
  accounts := sampleAccounts
  keys := sampleKeyDeps
  report := fun _ => []

/-- The credentials of the sample registration. -/
def ownerBasic : JsString :=
  literal "Basic bWl0dUBleGFtcGxlLmNvbTpwYXNzd29yZC1vbmU="

def ownerSecret : Secret :=
  ⟨List.replicate 32 (UInt8.ofNat 0), List.length_replicate⟩

/-- A request over keys from its arrival to its answer. -/
def keyRequestEvents (i : Nat) (route : KeyRoute) (id : Uuid) : List PlatformEvent :=
  [.keyRequest (some ownerBasic) route, .keyStep i .findUnique, .keyStep i (.compare []),
    .keyStep i (.execute ownerSecret id 1 false)]

/-- The registration of the sample account. -/
def registrationEvents : List RegistrationsEvent :=
  registration "password-one" :: untilCreate 0 ++ [.act 0 (.create sampleUserId 5)]

/-- A POST from its arrival to the verdict on its key. -/
def postEvents (i : Nat) (header : Option JsString) (body : Option Json) : List PlatformEvent :=
  [.submit header none body, .submitStep i .findKey, .submitStep i .check]

/-- A GET from its arrival to the verdict on its key. -/
def getEvents (i : Nat) (header : Option JsString) (request : ReadRequest) :
    List PlatformEvent :=
  [.read header request, .readStep i .findKey, .readStep i .check]

def sampleBody : Option Json :=
  some (.obj [("text", .str [0x0995])])

/-- An account, a key, a submission with it and a GET of its recording. -/
def recordingPlayedOf (wav : Bytes) : List PlatformEvent :=
  registrationEvents.map PlatformEvent.registration ++
    keyRequestEvents 0 .create ownedKey ++ postEvents 0 (some ownerHeader) sampleBody ++
      (handlerEvents 0 (insertEvents sampleJob ++ enqueueEvents) ++
        .spawn (.deliver sampleDelivery) ::
          callEvents 1 [.fetchJob, .markActive, .synthesize, .synthesizeReturns wav,
            .uploadWav, .markCompleted, .finish]).map PlatformEvent.service ++
    getEvents 0 (some ownerHeader) (.audio sampleJob.text) ++
      [.readStep 0 .query, .readStep 0 .getObject]

def recordingPlayed : List PlatformEvent :=
  recordingPlayedOf [82]

def ReadPc.response? : ReadPc → Option ReadResponse
  | .answered response => some response
  | _ => none

theorem answered_of_response?
    {pc : ReadPc} {response : ReadResponse}
    (h : pc.response? = some response) :
    pc = .answered response := by
  cases pc <;> cases h
  rfl

/-- The state after the sample run: the recording was played. -/
theorem recordingPlayed_run :
    ∃ p, PlatformRun samplePlatform recordingPlayed p ∧
      p.service.world.jobs.length = 1 ∧
        ∃ r, p.reads[0]? = some r ∧ r.pc = .answered (.success 200 (.audio [82])) := by
  have hexec : ((platform samplePlatform).exec (fun _ _ => true) Platform.initial
      recordingPlayed).any
      (fun p => decide (p.service.world.jobs.length = 1) &&
        p.reads[0]?.any fun r => decide (r.pc.response? = some (.success 200 (.audio [82])))) =
      true := by
    decide +kernel
  obtain ⟨p, hrun, hp⟩ := Machine.exists_anyRun_of_exec hexec
  obtain ⟨hjobs, hread⟩ := (Bool.and_eq_true _ _).mp hp
  obtain ⟨r, hr, hpc⟩ := (Option.any_eq_true _ _).mp hread
  exact ⟨p, hrun, of_decide_eq_true hjobs, r, hr, answered_of_response? (of_decide_eq_true hpc)⟩

theorem row_provenance_played :
    ∃ p : Platform, PlatformRun samplePlatform recordingPlayed p ∧
      p.service.world.jobs.length = 1 ∧ RowsHaveOwners samplePlatform p := by
  obtain ⟨p, hrun, hjobs, _⟩ := recordingPlayed_run
  exact ⟨p, hrun, hjobs, row_provenance hrun⟩

theorem answers_about_own_jobs_played :
    ∃ (p : Platform) (r : Read) (a : Admission) (u : User),
      PlatformRun samplePlatform recordingPlayed p ∧ p.reads[0]? = some r ∧
        r.pc = .answered (.success 200 (.audio [82])) ∧ Authorized samplePlatform p a u ∧
          AnswersFrom samplePlatform p u r.request (.audio [82]) := by
  obtain ⟨p, hrun, _, r, hr, hpc⟩ := recordingPlayed_run
  obtain ⟨a, u, _, _, hauthorized, hanswers⟩ := answers_about_own_jobs hrun hr hpc
  exact ⟨p, r, a, u, hrun, hr, hpc, hauthorized, hanswers⟩

/-- Answered 204. -/
def KeyRequestPc.isDone : KeyRequestPc → Bool
  | .answered (.success 204 .empty) => true
  | _ => false

theorem answered_of_isDone
    {pc : KeyRequestPc}
    (h : pc.isDone = true) :
    pc = .answered (.success 204 .empty) := by
  unfold KeyRequestPc.isDone at h
  split at h
  · rfl
  · cases h

/-- The sample key is revoked while the record of a second GET is about to be checked. -/
def keyRevoked : List PlatformEvent :=
  recordingPlayed ++ [.read (some ownerHeader) (.job sampleJob.text), .readStep 1 .findKey] ++
    keyRequestEvents 1 (.revoke ownedKey.text) ownedKey

/-- That GET is let through; a submission and a GET that come later are not. -/
def afterRevocation : List PlatformEvent :=
  .readStep 1 .check :: postEvents 1 (some ownerHeader) sampleBody ++
    getEvents 2 (some ownerHeader) (.job sampleJob.text)

theorem revoked_key_admits_nothing_sample :
    ∃ (p q : Platform) (x : IssuedKey), PlatformRun samplePlatform keyRevoked p ∧
      Machine.Run (platform samplePlatform) Machine.anyStep p afterRevocation q ∧
        x ∈ p.keys.issued ∧ x.id = ownedKey ∧ p.admitted.length = 2 ∧ q.admitted.length = 3 ∧
          ∀ a, a ∈ q.admitted → a.keyId = x.id → a ∈ p.admitted ∨ LookedUp p a := by
  have hexec : ((platform samplePlatform).exec (fun _ _ => true) Platform.initial
      keyRevoked).any
      (fun p => decide (p.admitted.length = 2) &&
        (p.keyRequests[1]?.any fun r => decide (r.route = .revoke ownedKey.text) && r.pc.isDone) &&
          ((platform samplePlatform).exec (fun _ _ => true) p afterRevocation).any
            fun q => decide (q.admitted.length = 3)) = true := by
    decide +kernel
  obtain ⟨p, hrun, hp⟩ := Machine.exists_anyRun_of_exec hexec
  obtain ⟨hfirst, hlater⟩ := (Bool.and_eq_true _ _).mp hp
  obtain ⟨hbefore, hrequest⟩ := (Bool.and_eq_true _ _).mp hfirst
  obtain ⟨r, hr, hdone⟩ := (Option.any_eq_true _ _).mp hrequest
  obtain ⟨hroute, hpc⟩ := (Bool.and_eq_true _ _).mp hdone
  obtain ⟨q, hfs, hafter⟩ := Machine.exists_anyRun_of_exec hlater
  obtain ⟨_, x, _, hx, _, hid, hadmitted, _⟩ := revoked_key_admits_nothing hrun hr
    (of_decide_eq_true hroute) (answered_of_isDone hpc) hfs
  exact ⟨p, q, x, hrun, hfs, hx, Uuid.ext hid, of_decide_eq_true hbefore,
    of_decide_eq_true hafter, hadmitted⟩

end Samples

end BengaliTts
