import BengaliTts.BasicAuth
import BengaliTts.Recordings

/-!
# The platform

Registrations, API keys, submissions, reads and workers run side by side over one
database, one queue and one bucket.  Every module before this one follows one of them
and takes for granted who the user of a request is; here a request comes with its
`Authorization` header, and the user is what the middleware makes of it.

A request waits at every await of its middleware and of its route, and anything may
happen meanwhile: a key that was just looked up may be revoked before its record is
checked, and a key that was just accepted before the route reads a row.  The reply of a
statement may be lost after the statement took effect.

`Platform.admitted` is a history of the requests that an API key let through, and
`KeyRequest.outcome` of what the statement of a request came to; no code reads them.

Main facts:
* `registrations_of_run`, `service_of_run`: a run of the platform is, seen through one of
  its parts, a run of that part, so that what was proved of the part holds;
* `keys_of_step`: a step does to the table of keys what a step of its own machine does, or
  notes that a key was used;
* `later_of_step`: what a step leaves to everybody else.
-/

namespace BengaliTts

open Lib

section KeyRequests

/-- The routes over keys; the router has decoded the parameter. -/
inductive KeyRoute where
  | create
  | list
  | revoke (id : String)
deriving DecidableEq

/-- Where a request over keys stands. -/
inductive KeyRequestPc where
  /-- The lookup of the address is next. -/
  | looking (email password : JsString)
  /-- The address was looked up; `bcrypt.compare` is next. -/
  | comparing (found : Option User) (password : JsString)
  /-- Authenticated; the statement of the route is next. -/
  | authenticated (user : AuthedUser)
  | answered (response : KeysResponse)

structure KeyRequest where
  header : Option JsString
  route : KeyRoute
  pc : KeyRequestPc
  /-- History: what the statement of the route came to. -/
  outcome : Option KeysResponse

inductive KeyRequestEvent where
  | findUnique
  /-- `bcrypt.compare` returns; an unknown address costs a hash of the decoy. -/
  | compare (decoySalt : Bytes)
  /-- The statement of the route takes effect, with what a creation draws. -/
  | execute (secret : Secret) (id : Uuid) (now : Nat) (replyLost : Bool)
  /-- The awaited call raises without effect. -/
  | fault

/-- What the platform is run with. -/
structure PlatformDeps where
  gateway : Deps
  accounts : AccountDeps
  keys : KeyDeps
  report : Query → List Issue

/-- A request over keys up to its first await. -/
def KeyRequest.start (header : Option JsString) (route : KeyRoute) : KeyRequest :=
  match header with
  | none => ⟨header, route, .answered (errorHandler (.domain .missingCredentials)), none⟩
  | some value =>
      if (literal "Basic ").isPrefixOf value then
        let (email, password) :=
          basicCredentials (decodeBasic (value.drop (literal "Basic ").length))
        ⟨header, route, .looking email password, none⟩
      else
        ⟨header, route, .answered (errorHandler (.domain .missingCredentials)), none⟩

/-- The verdict of `basicAuth`, once the address was looked up. -/
def passwordVerdict (d : AccountDeps) (found : Option User) (decoySalt : Bytes)
    (password : JsString) : Except Thrown AuthedUser :=
  let hash :=
    match found with
    | some user => user.passwordHash
    | none => d.hash decoySalt (literal "decoy-password")
  let valid := d.compare password hash
  match found, valid with
  | some user, true => .ok ⟨user.id, user.email⟩
  | _, _ => .error (.domain .invalidCredentials)

/-- The statement of a route over keys, and what the route answers. -/
def KeyStore.run (d : KeyDeps) (s : KeyStore) (user : Uuid) (secret : Secret) (id : Uuid)
    (now : Nat) : KeyRoute → KeyStore × KeysResponse
  | .create => s.create d user secret id now
  | .list => (s, s.list user)
  | .revoke keyId => s.revoke user keyId now

/-- One atomic step of a request over keys. -/
def KeyRequest.act (d : PlatformDeps) (t : AccountTable) (s : KeyStore) (q : KeyRequest) :
    KeyRequestEvent → Option (KeyStore × KeyRequest)
  | .findUnique =>
      match q.pc with
      | .looking email password =>
          if hasNul email then
            some (s, { q with pc := .answered (errorHandler .fault) })
          else
            some (s, { q with pc := .comparing (t.findUnique (toColumn email)) password })
      | _ => none
  | .compare decoySalt =>
      match q.pc with
      | .comparing found password =>
          match passwordVerdict d.accounts found decoySalt password with
          | .ok user => some (s, { q with pc := .authenticated user })
          | .error thrown => some (s, { q with pc := .answered (errorHandler thrown) })
      | _ => none
  | .execute secret id now replyLost =>
      match q.pc with
      | .authenticated user =>
          let next := s.run d.keys user.id secret id now q.route
          some (next.1, { q with
            pc := .answered (if replyLost then errorHandler .fault else next.2)
            outcome := some next.2 })
      | _ => none
  | .fault =>
      match q.pc with
      | .answered _ => none
      | _ => some (s, { q with pc := .answered (errorHandler .fault) })

end KeyRequests

section Bearer

/-- `apiKeyAuth` up to its lookup: the key that is looked up. -/
def presentedKey (header : Option JsString) : Except DomainError JsString :=
  match bearerToken header with
  | none => .error .missingApiKey
  | some key => if looksLikeApiKey key then .ok key else .error .invalidApiKey

/-- The lookup of `apiKeyAuth`. -/
def findApiKey (d : KeyDeps) (rows : List ApiKey) (key : JsString) : Option ApiKey :=
  rows.find? fun r => decide (r.keyHash = hashApiKey d key)

/-- `apiKeyAuth` from the answer of its lookup on. -/
def keyVerdict (d : KeyDeps) (key : JsString) : Option ApiKey → Except DomainError ApiKey
  | none => .error .invalidApiKey
  | some record =>
      if hashesMatch record.keyHash (hashApiKey d key) then
        if record.revokedAt.isSome then
          .error .revokedApiKey
        else
          .ok record
      else
        .error .invalidApiKey

/-- `apiKeyAuth` is its stages one after the other. -/
theorem apiKeyAuth_eq
    (d : KeyDeps) (rows : List ApiKey) (header : Option JsString) :
    apiKeyAuth d rows header =
      (presentedKey header).bind fun key => keyVerdict d key (findApiKey d rows key) := by
  unfold apiKeyAuth presentedKey
  cases bearerToken header with
  | none => rfl
  | some key =>
      by_cases hlooks : looksLikeApiKey key = true
      · simp only [hlooks, if_true, Except.bind]
        rfl
      · simp only [hlooks, Bool.false_eq_true, if_false]
        rfl

/-- What the two stages of an accepted header are. -/
theorem stages_of_apiKeyAuth
    {d : KeyDeps} {rows : List ApiKey} {header : Option JsString} {record : ApiKey}
    (h : apiKeyAuth d rows header = .ok record) :
    ∃ key, presentedKey header = .ok key ∧
      keyVerdict d key (findApiKey d rows key) = .ok record := by
  rw [apiKeyAuth_eq] at h
  cases hkey : presentedKey header with
  | error error =>
      rw [hkey] at h
      cases h
  | ok key =>
      rw [hkey] at h
      exact ⟨key, rfl, h⟩

/-- The verdict lets nothing through but the record that was found, unrevoked. -/
theorem keyVerdict_eq_ok
    {d : KeyDeps} {key : JsString} {found : Option ApiKey} {record : ApiKey}
    (h : keyVerdict d key found = .ok record) :
    found = some record ∧ record.revokedAt = none := by
  unfold keyVerdict at h
  split at h
  · cases h
  · split at h
    · split at h
      · cases h
      · next hstamp =>
          cases h
          exact ⟨rfl, by simpa using hstamp⟩
    · cases h

end Bearer

section Submits

/-- Where a `POST /v1/tts` stands, until its key is accepted. -/
inductive SubmitPc where
  /-- The lookup of the key is next. -/
  | looking (key : JsString)
  /-- The lookup was answered; the checks of `apiKeyAuth` are next. -/
  | checking (key : JsString) (found : Option ApiKey)
  /-- Let through; the route runs as process `i` of the service. -/
  | passed (i : Nat)
  | answered (response : SubmitResponse)

structure Submit where
  header : Option JsString
  idempotencyKey : Option HeaderValue
  body : Option Json
  pc : SubmitPc

inductive SubmitEvent where
  | findKey
  | check
  /-- The awaited lookup raises. -/
  | fault

/-- A `POST /v1/tts` up to its first await. -/
def Submit.start (header : Option JsString) (idempotencyKey : Option HeaderValue)
    (body : Option Json) : Submit :=
  match presentedKey header with
  | .ok key => ⟨header, idempotencyKey, body, .looking key⟩
  | .error error => ⟨header, idempotencyKey, body, .answered (errorHandler (.domain error))⟩

/-- One atomic step of `apiKeyAuth`, with the record that lets the request through as
process `next`. -/
def Submit.act (d : PlatformDeps) (rows : List ApiKey) (next : Nat) (t : Submit) :
    SubmitEvent → Option (Submit × Option ApiKey)
  | .findKey =>
      match t.pc with
      | .looking key => some ({ t with pc := .checking key (findApiKey d.keys rows key) }, none)
      | _ => none
  | .check =>
      match t.pc with
      | .checking key found =>
          match keyVerdict d.keys key found with
          | .ok record => some ({ t with pc := .passed next }, some record)
          | .error error => some ({ t with pc := .answered (errorHandler (.domain error)) }, none)
      | _ => none
  | .fault =>
      match t.pc with
      | .looking _ => some ({ t with pc := .answered (errorHandler .fault) }, none)
      | _ => none

end Submits

section Reads

/-- Where a GET over jobs stands. -/
inductive ReadPc where
  /-- The lookup of the key is next. -/
  | looking (key : JsString)
  /-- The lookup was answered; the checks of `apiKeyAuth` are next. -/
  | checking (key : JsString) (found : Option ApiKey)
  /-- The key was accepted; the statement over jobs is next. -/
  | querying (user : Uuid)
  /-- The audio route found a finished row; its object is fetched next. -/
  | fetching (job : Job) (key : String)
  | answered (response : ReadResponse)

structure Read where
  header : Option JsString
  request : ReadRequest
  pc : ReadPc

inductive ReadEvent where
  | findKey
  | check
  | query
  | getObject
  /-- The awaited call raises. -/
  | fault

/-- `GET /v1/jobs/:id/audio` up to the fetch of the object. -/
def audioTarget (w : World) (user : Uuid) (id : String) : Except Thrown (Job × String) := do
  let job ← findOwnedJob w user id
  if job.status = .failed then
    throw (.domain .jobFailed)
  if job.status ≠ .completed then
    throw (.domain .jobNotReady)
  match job.audioKey with
  | none => throw (.domain .jobNotReady)
  | some key =>
      if key.length = 0 then
        throw (.domain .jobNotReady)
      return (job, key)

/-- `getAudioObject`, and the body that the route pipes. -/
def fetchObject (w : World) (key : String) : Except Thrown ReadBody :=
  match w.bucket key with
  | none => .error .fault
  | some data => .ok (.audio data)

/-- What a result of a route is answered. -/
def answerRead : Except Thrown ReadBody → ReadResponse
  | .ok body => .success 200 body
  | .error thrown => errorHandler thrown

/-- Where the statement over jobs leads. -/
def afterQuery (d : PlatformDeps) (w : World) (user : Uuid) : ReadRequest → ReadPc
  | .audio id =>
      match audioTarget w user id with
      | .ok (job, key) => .fetching job key
      | .error thrown => .answered (errorHandler thrown)
  | request => .answered (respond d.report w user request)

/-- A GET over jobs up to its first await. -/
def Read.start (header : Option JsString) (request : ReadRequest) : Read :=
  match presentedKey header with
  | .ok key => ⟨header, request, .looking key⟩
  | .error error => ⟨header, request, .answered (errorHandler (.domain error))⟩

/-- One atomic step of a GET over jobs, with the record that lets it through. -/
def Read.act (d : PlatformDeps) (rows : List ApiKey) (w : World) (r : Read) :
    ReadEvent → Option (Read × Option ApiKey)
  | .findKey =>
      match r.pc with
      | .looking key => some ({ r with pc := .checking key (findApiKey d.keys rows key) }, none)
      | _ => none
  | .check =>
      match r.pc with
      | .checking key found =>
          match keyVerdict d.keys key found with
          | .ok record => some ({ r with pc := .querying record.userId }, some record)
          | .error error => some ({ r with pc := .answered (errorHandler (.domain error)) }, none)
      | _ => none
  | .query =>
      match r.pc with
      | .querying user => some ({ r with pc := afterQuery d w user r.request }, none)
      | _ => none
  | .getObject =>
      match r.pc with
      | .fetching _ key => some ({ r with pc := .answered (answerRead (fetchObject w key)) }, none)
      | _ => none
  | .fault =>
      match r.pc with
      | .checking _ _ => none
      | .answered _ => none
      | _ => some ({ r with pc := .answered (errorHandler .fault) }, none)

end Reads

section Platform

/-- What an admitted request started: a POST the process `i` of the service, a GET
itself. -/
inductive Started where
  | submission (request i : Nat)
  | read (request : Nat)
deriving DecidableEq

/-- A request that an API key let through: the key's row and its user. -/
structure Admission where
  header : Option JsString
  user : Uuid
  keyId : Uuid
  started : Started
deriving DecidableEq

structure Platform where
  registrations : Registrations
  keys : KeyStore
  keyRequests : List KeyRequest
  submits : List Submit
  reads : List Read
  service : Service
  /-- History: the requests that an API key let through. -/
  admitted : List Admission

/-- Empty stores and no request. -/
def Platform.initial : Platform where
  registrations := Registrations.start AccountTable.empty
  keys := KeyStore.empty
  keyRequests := []
  submits := []
  reads := []
  service := Service.initial
  admitted := []

inductive PlatformEvent where
  | registration (e : RegistrationsEvent)
  /-- A request over keys arrives. -/
  | keyRequest (header : Option JsString) (route : KeyRoute)
  | keyStep (i : Nat) (e : KeyRequestEvent)
  /-- A `POST /v1/tts` arrives. -/
  | submit (header : Option JsString) (idempotencyKey : Option HeaderValue) (body : Option Json)
  | submitStep (i : Nat) (e : SubmitEvent)
  /-- A GET over jobs arrives. -/
  | read (header : Option JsString) (request : ReadRequest)
  | readStep (i : Nat) (e : ReadEvent)
  /-- An update of a time of last use takes effect, or fails. -/
  | markUsed (k now : Nat)
  | markUsedFails (k : Nat)
  /-- A step of a submission or of the worker, a delivery, or the environment. -/
  | service (e : ServiceEvent)

/-- The key of a request was accepted, and its time of last use is to be written. -/
def KeyStore.touch (s : KeyStore) (id : Uuid) : KeyStore :=
  { s with touches := s.touches ++ [id] }

/-- The request goes past `apiKeyAuth`, if a record lets it through. -/
def Platform.letThrough (p : Platform) (header : Option JsString) (started : Started) :
    Option ApiKey → Platform
  | none => p
  | some record =>
      { p with
        keys := p.keys.touch record.id
        admitted := ⟨header, record.userId, record.id, started⟩ :: p.admitted }

/-- The route of a POST starts for the user of the record. -/
def Platform.enter (p : Platform) (t : Submit) : Option ApiKey → Platform
  | none => p
  | some record =>
      { p with service := ⟨p.service.world, p.service.procs ++
          [.handler (Handler.start ⟨record.userId, t.idempotencyKey, t.body⟩)]⟩ }

/-- A submission enters the service by its key only. -/
def entersByKey : ServiceEvent → Bool
  | .spawn (.submit _) => true
  | _ => false

/-- One step of the platform. -/
def platformStep (d : PlatformDeps) (p : Platform) : PlatformEvent → Option Platform
  | .registration e =>
      ((registrations d.accounts).machine.step p.registrations e).map fun g =>
        { p with registrations := g }
  | .keyRequest header route =>
      some { p with keyRequests := p.keyRequests ++ [KeyRequest.start header route] }
  | .keyStep i e =>
      match p.keyRequests[i]? with
      | none => none
      | some q =>
          (q.act d p.registrations.world p.keys e).map fun next =>
            { p with keys := next.1, keyRequests := p.keyRequests.set i next.2 }
  | .submit header idempotencyKey body =>
      some { p with submits := p.submits ++ [Submit.start header idempotencyKey body] }
  | .submitStep i e =>
      match p.submits[i]? with
      | none => none
      | some t =>
          (t.act d p.keys.rows p.service.procs.length e).map fun next =>
            ({ p with submits := p.submits.set i next.1 }.letThrough t.header
              (.submission i p.service.procs.length) next.2).enter t next.2
  | .read header request =>
      some { p with reads := p.reads ++ [Read.start header request] }
  | .readStep i e =>
      match p.reads[i]? with
      | none => none
      | some r =>
          (r.act d p.keys.rows p.service.world e).map fun next =>
            { p with reads := p.reads.set i next.1 }.letThrough r.header (.read i) next.2
  | .markUsed k now =>
      ((keyMachine d.keys).step p.keys (.markUsed k now)).map fun s => { p with keys := s }
  | .markUsedFails k =>
      ((keyMachine d.keys).step p.keys (.markUsedFails k)).map fun s => { p with keys := s }
  | .service e =>
      if entersByKey e then
        none
      else
        ((service d.gateway).machine.step p.service e).map fun s => { p with service := s }

def platform (d : PlatformDeps) : Machine Platform PlatformEvent where
  step := platformStep d

/-- A run of the platform from its initial state. -/
abbrev PlatformRun (d : PlatformDeps) (es : List PlatformEvent) (p : Platform) : Prop :=
  Machine.Run (platform d) Machine.anyStep Platform.initial es p

end Platform

section Inversion

variable {d : PlatformDeps} {p q : Platform} {e : PlatformEvent}

/-- What a step of a request over keys does. -/
inductive KeyRequestStep (d : PlatformDeps) (t : AccountTable) (s : KeyStore) (q : KeyRequest) :
    KeyStore → KeyRequest → Prop
  | lookup {email password : JsString}
      (hpc : q.pc = .looking email password)
      (hnul : hasNul email = false) :
      KeyRequestStep d t s q s
        { q with pc := .comparing (t.findUnique (toColumn email)) password }
  | accept {user : User} {password : JsString}
      (hpc : q.pc = .comparing (some user) password)
      (hvalid : d.accounts.compare password user.passwordHash = true) :
      KeyRequestStep d t s q s { q with pc := .authenticated ⟨user.id, user.email⟩ }
  | refuse (thrown : Thrown)
      (hpc : ∀ r, q.pc ≠ .answered r) :
      KeyRequestStep d t s q s { q with pc := .answered (errorHandler thrown) }
  | execute {user : AuthedUser} (secret : Secret) (id : Uuid) (now : Nat) (replyLost : Bool)
      (hpc : q.pc = .authenticated user) :
      KeyRequestStep d t s q (s.run d.keys user.id secret id now q.route).1 { q with
        pc := .answered (if replyLost then errorHandler .fault
          else (s.run d.keys user.id secret id now q.route).2)
        outcome := some (s.run d.keys user.id secret id now q.route).2 }

theorem keyRequestStep_of_act
    {t : AccountTable} {s s' : KeyStore} {r r' : KeyRequest} {e : KeyRequestEvent}
    (h : r.act d t s e = some (s', r')) :
    KeyRequestStep d t s r s' r' := by
  cases e with
  | findUnique =>
      simp only [KeyRequest.act] at h
      split at h
      · next email password hpc =>
          split at h
          · cases h
            exact .refuse .fault (by simp [hpc])
          · next hnul =>
              cases h
              exact .lookup hpc (by simpa using hnul)
      · cases h
  | compare decoySalt =>
      simp only [KeyRequest.act] at h
      split at h
      · next found password hpc =>
          split at h
          · next user hverdict =>
              cases h
              simp only [passwordVerdict] at hverdict
              split at hverdict
              · next account hvalid =>
                  cases hverdict
                  exact .accept hpc hvalid
              · cases hverdict
          · next thrown _ =>
              cases h
              exact .refuse thrown (by simp [hpc])
      · cases h
  | execute secret id now replyLost =>
      simp only [KeyRequest.act] at h
      split at h
      · next user hpc =>
          cases h
          exact .execute secret id now replyLost hpc
      · cases h
  | fault =>
      simp only [KeyRequest.act] at h
      split at h
      · cases h
      · next hpc =>
          cases h
          exact .refuse .fault hpc

/-- What a step of a POST does that does not let it through. -/
inductive SubmitStep (d : PlatformDeps) (rows : List ApiKey) (t : Submit) :
    SubmitEvent → SubmitPc → Prop
  | lookup {key : JsString}
      (hpc : t.pc = .looking key) :
      SubmitStep d rows t .findKey (.checking key (findApiKey d.keys rows key))
  | refuse {key : JsString} {found : Option ApiKey} {error : DomainError}
      (hpc : t.pc = .checking key found)
      (hverdict : keyVerdict d.keys key found = .error error) :
      SubmitStep d rows t .check (.answered (errorHandler (.domain error)))
  | fault {key : JsString}
      (hpc : t.pc = .looking key) :
      SubmitStep d rows t .fault (.answered (errorHandler .fault))

/-- What a step of a GET does that does not let it through. -/
inductive ReadStep (d : PlatformDeps) (rows : List ApiKey) (w : World) (r : Read) :
    ReadEvent → ReadPc → Prop
  | lookup {key : JsString}
      (hpc : r.pc = .looking key) :
      ReadStep d rows w r .findKey (.checking key (findApiKey d.keys rows key))
  | refuse {key : JsString} {found : Option ApiKey} {error : DomainError}
      (hpc : r.pc = .checking key found)
      (hverdict : keyVerdict d.keys key found = .error error) :
      ReadStep d rows w r .check (.answered (errorHandler (.domain error)))
  | query {user : Uuid}
      (hpc : r.pc = .querying user) :
      ReadStep d rows w r .query (afterQuery d w user r.request)
  | object {job : Job} {key : String}
      (hpc : r.pc = .fetching job key) :
      ReadStep d rows w r .getObject (.answered (answerRead (fetchObject w key)))
  | fault
      (hpc : ∀ response, r.pc ≠ .answered response) :
      ReadStep d rows w r .fault (.answered (errorHandler .fault))

/-- Everything a step of the platform can do. -/
inductive PlatformStep (d : PlatformDeps) (p : Platform) : PlatformEvent → Platform → Prop
  | registration {e : RegistrationsEvent} {g : Registrations}
      (hs : (registrations d.accounts).machine.step p.registrations e = some g) :
      PlatformStep d p (.registration e) { p with registrations := g }
  | keyRequest (header : Option JsString) (route : KeyRoute) :
      PlatformStep d p (.keyRequest header route)
        { p with keyRequests := p.keyRequests ++ [KeyRequest.start header route] }
  | keyStep {i : Nat} {e : KeyRequestEvent} {r r' : KeyRequest} {s : KeyStore}
      (hr : p.keyRequests[i]? = some r)
      (hs : KeyRequestStep d p.registrations.world p.keys r s r') :
      PlatformStep d p (.keyStep i e)
        { p with keys := s, keyRequests := p.keyRequests.set i r' }
  | submit (header : Option JsString) (idempotencyKey : Option HeaderValue)
      (body : Option Json) :
      PlatformStep d p (.submit header idempotencyKey body)
        { p with submits := p.submits ++ [Submit.start header idempotencyKey body] }
  | waiting {i : Nat} {e : SubmitEvent} {t : Submit} {pc : SubmitPc}
      (ht : p.submits[i]? = some t)
      (hs : SubmitStep d p.keys.rows t e pc) :
      PlatformStep d p (.submitStep i e) { p with submits := p.submits.set i { t with pc := pc } }
  | submitted {i : Nat} {t : Submit} {key : JsString} {record : ApiKey}
      (ht : p.submits[i]? = some t)
      (hpc : t.pc = .checking key (some record))
      (hvalid : record.revokedAt = none) :
      PlatformStep d p (.submitStep i .check) { p with
        keys := p.keys.touch record.id
        submits := p.submits.set i { t with pc := .passed p.service.procs.length }
        service := ⟨p.service.world, p.service.procs ++
          [.handler (Handler.start ⟨record.userId, t.idempotencyKey, t.body⟩)]⟩
        admitted := ⟨t.header, record.userId, record.id,
          .submission i p.service.procs.length⟩ :: p.admitted }
  | read (header : Option JsString) (request : ReadRequest) :
      PlatformStep d p (.read header request)
        { p with reads := p.reads ++ [Read.start header request] }
  | readStep {i : Nat} {e : ReadEvent} {r : Read} {pc : ReadPc}
      (hr : p.reads[i]? = some r)
      (hs : ReadStep d p.keys.rows p.service.world r e pc) :
      PlatformStep d p (.readStep i e) { p with reads := p.reads.set i { r with pc := pc } }
  | reading {i : Nat} {r : Read} {key : JsString} {record : ApiKey}
      (hr : p.reads[i]? = some r)
      (hpc : r.pc = .checking key (some record))
      (hvalid : record.revokedAt = none) :
      PlatformStep d p (.readStep i .check) { p with
        keys := p.keys.touch record.id
        reads := p.reads.set i { r with pc := .querying record.userId }
        admitted := ⟨r.header, record.userId, record.id, .read i⟩ :: p.admitted }
  | touched {e : PlatformEvent} {f : KeyEvent} {s : KeyStore}
      (hs : (keyMachine d.keys).step p.keys f = some s)
      (hissued : s.issued = p.keys.issued)
      (hrevocations : s.revocations = p.keys.revocations) :
      PlatformStep d p e { p with keys := s }
  | service {e : ServiceEvent} {s : Service}
      (hno : entersByKey e = false)
      (hs : (BengaliTts.service d.gateway).machine.step p.service e = some s) :
      PlatformStep d p (.service e) { p with service := s }

theorem submitStep_of_act
    {rows : List ApiKey} {next : Nat} {t t' : Submit} {e : SubmitEvent} {admitted : Option ApiKey}
    (h : t.act d rows next e = some (t', admitted)) :
    (∃ pc, t' = { t with pc := pc } ∧ admitted = none ∧ SubmitStep d rows t e pc) ∨
      (e = .check ∧ ∃ key record, t.pc = .checking key (some record) ∧ record.revokedAt = none ∧
        t' = { t with pc := .passed next } ∧ admitted = some record) := by
  cases e with
  | findKey =>
      simp only [Submit.act] at h
      split at h
      · next key hpc =>
          cases h
          exact Or.inl ⟨_, rfl, rfl, .lookup hpc⟩
      · cases h
  | check =>
      simp only [Submit.act] at h
      split at h
      · next key found hpc =>
          split at h
          · next record hverdict =>
              cases h
              obtain ⟨rfl, hvalid⟩ := keyVerdict_eq_ok hverdict
              exact Or.inr ⟨rfl, key, record, hpc, hvalid, rfl, rfl⟩
          · next error hverdict =>
              cases h
              exact Or.inl ⟨_, rfl, rfl, .refuse hpc hverdict⟩
      · cases h
  | fault =>
      simp only [Submit.act] at h
      split at h
      · next key hpc =>
          cases h
          exact Or.inl ⟨_, rfl, rfl, .fault hpc⟩
      · cases h

theorem readStep_of_act
    {rows : List ApiKey} {w : World} {r r' : Read} {e : ReadEvent} {admitted : Option ApiKey}
    (h : r.act d rows w e = some (r', admitted)) :
    (∃ pc, r' = { r with pc := pc } ∧ admitted = none ∧ ReadStep d rows w r e pc) ∨
      (e = .check ∧ ∃ key record, r.pc = .checking key (some record) ∧ record.revokedAt = none ∧
        r' = { r with pc := .querying record.userId } ∧ admitted = some record) := by
  cases e with
  | findKey =>
      simp only [Read.act] at h
      split at h
      · next key hpc =>
          cases h
          exact Or.inl ⟨_, rfl, rfl, .lookup hpc⟩
      · cases h
  | check =>
      simp only [Read.act] at h
      split at h
      · next key found hpc =>
          split at h
          · next record hverdict =>
              cases h
              obtain ⟨rfl, hvalid⟩ := keyVerdict_eq_ok hverdict
              exact Or.inr ⟨rfl, key, record, hpc, hvalid, rfl, rfl⟩
          · next error hverdict =>
              cases h
              exact Or.inl ⟨_, rfl, rfl, .refuse hpc hverdict⟩
      · cases h
  | query =>
      simp only [Read.act] at h
      split at h
      · next user hpc =>
          cases h
          exact Or.inl ⟨_, rfl, rfl, .query hpc⟩
      · cases h
  | getObject =>
      simp only [Read.act] at h
      split at h
      · next job key hpc =>
          cases h
          exact Or.inl ⟨_, rfl, rfl, .object hpc⟩
      · cases h
  | fault =>
      simp only [Read.act] at h
      split at h
      · cases h
      · cases h
      · next hpc =>
          cases h
          exact Or.inl ⟨_, rfl, rfl, .fault hpc⟩

theorem platformStep_of_step
    (h : (platform d).step p e = some q) :
    PlatformStep d p e q := by
  cases e with
  | registration e =>
      obtain ⟨g, hs, rfl⟩ := Option.map_eq_some_iff.mp h
      exact .registration hs
  | keyRequest header route =>
      cases h
      exact .keyRequest header route
  | keyStep i e =>
      simp only [platform, platformStep] at h
      split at h
      · cases h
      · next r hr =>
          obtain ⟨⟨s, r'⟩, hact, rfl⟩ := Option.map_eq_some_iff.mp h
          exact .keyStep hr (keyRequestStep_of_act hact)
  | submit header idempotencyKey body =>
      cases h
      exact .submit header idempotencyKey body
  | submitStep i e =>
      simp only [platform, platformStep] at h
      split at h
      · cases h
      · next t ht =>
          obtain ⟨⟨t', found⟩, hact, rfl⟩ := Option.map_eq_some_iff.mp h
          rcases submitStep_of_act hact with ⟨pc, rfl, rfl, hs⟩ |
            ⟨rfl, key, record, hpc, hvalid, rfl, rfl⟩
          · exact .waiting ht hs
          · exact .submitted ht hpc hvalid
  | read header request =>
      cases h
      exact .read header request
  | readStep i e =>
      simp only [platform, platformStep] at h
      split at h
      · cases h
      · next r hr =>
          obtain ⟨⟨r', found⟩, hact, rfl⟩ := Option.map_eq_some_iff.mp h
          rcases readStep_of_act hact with ⟨pc, rfl, rfl, hs⟩ |
            ⟨rfl, key, record, hpc, hvalid, rfl, rfl⟩
          · exact .readStep hr hs
          · exact .reading hr hpc hvalid
  | markUsed k now =>
      obtain ⟨s, hs, rfl⟩ := Option.map_eq_some_iff.mp h
      obtain ⟨hissued, hrevocations⟩ := histories_of_step hs (by intros; nofun) (by intros; nofun)
      exact .touched hs hissued hrevocations
  | markUsedFails k =>
      obtain ⟨s, hs, rfl⟩ := Option.map_eq_some_iff.mp h
      obtain ⟨hissued, hrevocations⟩ := histories_of_step hs (by intros; nofun) (by intros; nofun)
      exact .touched hs hissued hrevocations
  | service e =>
      simp only [platform, platformStep] at h
      split at h
      · cases h
      · next hno =>
          obtain ⟨s, hs, rfl⟩ := Option.map_eq_some_iff.mp h
          exact .service (by simpa using hno) hs

end Inversion

section Parts

variable {d : PlatformDeps} {G : Platform → PlatformEvent → Prop} {p q : Platform}
  {es : List PlatformEvent}

/-- The statement of a route over keys is a step of the table of keys. -/
theorem keyMachine_run
    (s : KeyStore) (user : Uuid) (secret : Secret) (id : Uuid) (now : Nat) (route : KeyRoute) :
    ∃ e, (keyMachine d.keys).step s e = some (s.run d.keys user secret id now route).1 := by
  cases route with
  | create => exact ⟨.create user secret id now, rfl⟩
  | list => exact ⟨.list user, rfl⟩
  | revoke keyId => exact ⟨.revoke user keyId now, rfl⟩

/-- A step of the platform does to the table of keys what a step of its own machine does,
notes that a key was used, or leaves the table alone. -/
theorem keys_of_step
    {e : PlatformEvent}
    (hs : PlatformStep d p e q) :
    q.keys = p.keys ∨ (∃ f, (keyMachine d.keys).step p.keys f = some q.keys) ∨
      ∃ id, q.keys = p.keys.touch id := by
  cases hs with
  | keyStep hr hs =>
      cases hs with
      | lookup => exact Or.inl rfl
      | accept => exact Or.inl rfl
      | refuse => exact Or.inl rfl
      | execute secret id now => exact Or.inr (Or.inl (keyMachine_run _ _ secret id now _))
  | submitted => exact Or.inr (Or.inr ⟨_, rfl⟩)
  | reading => exact Or.inr (Or.inr ⟨_, rfl⟩)
  | touched hs => exact Or.inr (Or.inl ⟨_, hs⟩)
  | _ => exact Or.inl rfl

/-- A step of the platform is a step of the service, or leaves it alone. -/
theorem service_of_step
    {e : PlatformEvent}
    (hs : PlatformStep d p e q) :
    q.service = p.service ∨
      ∃ f, (BengaliTts.service d.gateway).machine.step p.service f = some q.service := by
  cases hs with
  | @submitted _ t _ record =>
      exact Or.inr ⟨.spawn (.submit ⟨record.userId, t.idempotencyKey, t.body⟩), rfl⟩
  | service _ hs => exact Or.inr ⟨_, hs⟩
  | _ => exact Or.inl rfl

theorem registrations_of_run
    (h : Machine.Run (platform d) G p es q) :
    ∃ fs, Machine.Run (registrations d.accounts).machine Machine.anyStep
      p.registrations fs q.registrations := by
  refine Machine.run_projects Platform.registrations ?_ h
  intro s e t _ hs
  cases platformStep_of_step hs with
  | registration hstep => exact Or.inr ⟨_, trivial, hstep⟩
  | _ => exact Or.inl rfl

/-- What is known of every table of keys is known of the one on the platform. -/
theorem keysOk_of_platformRun
    (h : Machine.Run (platform d) G Platform.initial es p) :
    KeysOk d.keys p.keys := by
  refine Machine.run_invariant (I := fun v => KeysOk d.keys v.keys) ?_ h
    (keysOk_of_run (Machine.Run.nil KeyStore.empty))
  intro s e t hok _ hs
  rcases keys_of_step (platformStep_of_step hs) with hsame | ⟨f, hf⟩ | ⟨id, htouch⟩
  · rw [hsame]
    exact hok
  · exact keysOk_of_step hf hok
  · rw [htouch]
    exact keysOk_of_touches _ hok

theorem service_of_run
    (h : Machine.Run (platform d) G p es q) :
    ∃ fs, Machine.Run (BengaliTts.service d.gateway).machine Machine.anyStep
      p.service fs q.service := by
  refine Machine.run_projects Platform.service ?_ h
  intro s e t _ hs
  exact (service_of_step (platformStep_of_step hs)).imp id fun ⟨f, hf⟩ => ⟨f, trivial, hf⟩

end Parts

section Stages

/-- `basicAuth` is its lookup and its verdict one after the other. -/
theorem checkCredentials_eq
    (d : AccountDeps) (t : AccountTable) (decoySalt : Bytes) (email password : JsString) :
    checkCredentials d t decoySalt email password =
      if hasNul email then
        .error .fault
      else
        passwordVerdict d (t.findUnique (toColumn email)) decoySalt password := by
  unfold checkCredentials passwordVerdict
  by_cases hnul : hasNul email = true
  · rw [if_pos hnul, if_pos hnul]
  · rw [if_neg hnul, if_neg hnul]
    cases t.findUnique (toColumn email) with
    | none => simp
    | some user =>
        cases hvalid : d.compare password user.passwordHash with
        | false => simp [hvalid]
        | true => simp [hvalid]

/-- The audio route is its two stages one after the other. -/
theorem getAudio_eq
    (w : World) (user : Uuid) (id : String) :
    getAudio w user id =
      (audioTarget w user id).bind fun target => fetchObject w target.2 := by
  cases hjob : findOwnedJob w user id with
  | error thrown => simp only [getAudio, audioTarget, hjob, bind, Except.bind]
  | ok job =>
      simp only [getAudio, audioTarget, hjob, bind, Except.bind]
      by_cases hfailed : job.status = .failed
      · simp only [if_pos hfailed]
        rfl
      · by_cases hdone : job.status = .completed
        · cases hkey : job.audioKey with
          | none => simp [hdone]; rfl
          | some key =>
              by_cases hempty : key.length = 0
              · simp [hdone, hempty]; rfl
              · simp only [hdone, hempty]
                rfl
        · simp [hfailed, hdone]
          rfl

/-- The row and the key that the audio route goes on with. -/
theorem audioTarget_eq_ok
    {w : World} {user : Uuid} {id : String} {job : Job} {key : String}
    (h : audioTarget w user id = .ok (job, key)) :
    findOwnedJob w user id = .ok job ∧ job.status = .completed ∧ job.audioKey = some key := by
  unfold audioTarget at h
  cases hjob : findOwnedJob w user id with
  | error thrown =>
      rw [hjob] at h
      cases h
  | ok found =>
      rw [hjob] at h
      simp only [bind, Except.bind] at h
      split at h
      · cases h
      · by_cases hdone : found.status = .completed
        · rw [if_neg (not_not.mpr hdone)] at h
          cases hkey : found.audioKey with
          | none =>
              rw [hkey] at h
              cases h
          | some key' =>
              rw [hkey] at h
              by_cases hempty : key'.length = 0
              · simp only [hempty] at h
                cases h
              · simp only [hempty] at h
                cases h
                exact ⟨rfl, hdone, hkey⟩
        · rw [if_pos hdone] at h
          cases h

theorem audioTarget_of_completed
    {w : World} {user : Uuid} {id : String} {job : Job}
    (hjob : findOwnedJob w user id = .ok job)
    (hdone : job.status = .completed)
    (hkey : job.audioKey = some (audioKey job.userId job.id)) :
    audioTarget w user id = .ok (job, audioKey job.userId job.id) := by
  have hlength : (audioKey job.userId job.id).length ≠ 0 := by
    simp [audioKey]
  simp only [audioTarget, hjob, bind, Except.bind]
  simp [hdone, hkey, hlength]
  rfl

end Stages

section Later

variable {d : PlatformDeps} {p q r : Platform} {e : PlatformEvent} {es fs : List PlatformEvent}

/-- What is known of the parts of every reachable platform. -/
structure Known (d : PlatformDeps) (p : Platform) : Prop where
  service : ServiceOk d.gateway p.service
  progress : ∀ (i : Nat) c, p.service.procs[i]? = some (.call c) → CallProgress p.service.world c
  rows : ∀ row, row ∈ p.service.world.jobs → RowInv p.service.world row
  creators : CreatorsKnown p.service
  keys : KeysOk d.keys p.keys
  accounts : ∀ u, u ∈ p.registrations.world.users → ∃ password, RegisteredWith d.accounts u password

theorem known_of_run
    (hrun : PlatformRun d es p) :
    Known d p := by
  obtain ⟨fs, hservice⟩ := service_of_run hrun
  obtain ⟨rs, hregistrations⟩ := registrations_of_run hrun
  have hrows := (rowsOutline d.gateway Machine.anyStep).run
    (fun _ _ hr => serviceOk_of_run hr) (rowsOutline_initial _) hservice
  exact ⟨serviceOk_of_run hservice, fun i c hc => hrows.2 i _ hc, rowInv_of_run hservice,
    creatorsKnown_of_run hservice, keysOk_of_platformRun hrun, registered_of_run hregistrations⟩

/-- What is never taken back: accounts, issued keys, revocations and admissions, what the
service has on record, and the recordings. -/
structure Later (p q : Platform) : Prop where
  accounts : ∀ email u, p.registrations.world.findUnique email = some u →
    q.registrations.world.findUnique email = some u
  history : HistoryGrows p.keys q.keys
  admitted : ∀ a, a ∈ p.admitted → a ∈ q.admitted
  world : Grows p.service.world q.service.world
  synthesized : ∀ x, x ∈ p.service.world.synthesized → x ∈ q.service.world.synthesized
  recordings : ∀ owner id text, TextOf p.service.world id text →
    HoldsRecording p.service.world (audioKey owner id) text →
      HoldsRecording q.service.world (audioKey owner id) text

theorem Later.refl
    (p : Platform) :
    Later p p :=
  ⟨fun _ _ h => h, ⟨fun _ h => h, fun _ h => h⟩, fun _ h => h,
    ⟨fun _ h => h, fun _ h => h, fun _ h => h, fun _ h => h⟩, fun _ h => h, fun _ _ _ _ h => h⟩

theorem textOf_later
    {w w' : World} {id : Uuid} {text : String}
    (hgrows : Grows w w')
    (h : TextOf w id text) :
    TextOf w' id text := by
  obtain ⟨i, b, hb, hid, htext⟩ := h
  exact ⟨i, b, hgrows.born _ hb, hid, htext⟩

theorem Later.trans
    (h₁ : Later p q)
    (h₂ : Later q r) :
    Later p r where
  accounts := fun email u h => h₂.accounts email u (h₁.accounts email u h)
  history := ⟨fun x h => h₂.history.issued x (h₁.history.issued x h),
    fun x h => h₂.history.revocations x (h₁.history.revocations x h)⟩
  admitted := fun a h => h₂.admitted a (h₁.admitted a h)
  world := ⟨fun x h => h₂.world.born x (h₁.world.born x h),
    fun x h => h₂.world.committed x (h₁.world.committed x h),
    fun x h => h₂.world.calls x (h₁.world.calls x h),
    fun x h => h₂.world.added x (h₁.world.added x h)⟩
  synthesized := fun x h => h₂.synthesized x (h₁.synthesized x h)
  recordings := fun owner id text ht h =>
    h₂.recordings owner id text (textOf_later h₁.world ht) (h₁.recordings owner id text ht h)

/-- The recordings after a step of the service. -/
theorem recordings_of_serviceStep
    {s t : Service} {e : ServiceEvent}
    (hok : ServiceOk d.gateway s)
    (hprogress : ∀ (i : Nat) c, s.procs[i]? = some (.call c) → CallProgress s.world c)
    (hs : (service d.gateway).machine.step s e = some t) :
    (∀ x, x ∈ s.world.synthesized → x ∈ t.world.synthesized) ∧
      ∀ owner id text, TextOf s.world id text →
        HoldsRecording s.world (audioKey owner id) text →
          HoldsRecording t.world (audioKey owner id) text := by
  cases serviceStep_of_step hs with
  | spawn => exact ⟨fun _ h => h, fun _ _ _ _ h => h⟩
  | @handler i h h' _ w hp hstep =>
      have hf := handlerFrame_of_handlerStep hstep rfl (hok.2 i _ hp)
      refine ⟨fun x hx => hf.synthesized ▸ hx, ?_⟩
      rintro owner id text _ ⟨bytes, hbytes, hmem⟩
      exact ⟨bytes, hf.bucket ▸ hbytes, hf.synthesized ▸ hmem⟩
  | @call i c c' _ w hp _ hstep =>
      refine ⟨?_, fun owner id text htext h =>
        holdsRecording_of_callStep hstep rfl hok.1 (hok.2 i _ hp) (hprogress i c hp) htext h⟩
      generalize c.pc = pc, c'.pc = pc' at hstep
      cases hstep with
      | synthesizeReturns row wav => exact fun x hx => List.mem_cons_of_mem _ hx
      | _ => exact fun x hx => hx
  | @env b _ henv =>
      cases b <;> cases henv <;> exact ⟨fun _ h => h, fun _ _ _ _ h => h⟩

theorem accounts_of_step
    {g g' : Registrations} {e : RegistrationsEvent}
    (hs : (registrations d.accounts).machine.step g e = some g') :
    ∀ email u, g.world.findUnique email = some u → g'.world.findUnique email = some u := by
  intro email u hu
  cases Program.step_of_machine hs with
  | spawn => exact hu
  | act _ hact => exact findUnique_kept (registerStep_of_act hact).1 hu
  | @env b => exact b.elim

/-- What a step leaves to everybody else. -/
theorem later_of_step
    (hknown : Known d p)
    (hs : PlatformStep d p e q) :
    Later p q := by
  have hkeys : HistoryGrows p.keys q.keys := by
    rcases keys_of_step hs with hsame | ⟨f, hf⟩ | ⟨id, htouch⟩
    · rw [hsame]
      exact ⟨fun _ h => h, fun _ h => h⟩
    · exact (historyGrows_of_step hf).1
    · rw [htouch]
      exact ⟨fun _ h => h, fun _ h => h⟩
  have hservice : Grows p.service.world q.service.world ∧
      (∀ x, x ∈ p.service.world.synthesized → x ∈ q.service.world.synthesized) ∧
        ∀ owner id text, TextOf p.service.world id text →
          HoldsRecording p.service.world (audioKey owner id) text →
            HoldsRecording q.service.world (audioKey owner id) text := by
    rcases service_of_step hs with hsame | ⟨f, hf⟩
    · rw [hsame]
      exact ⟨(Later.refl p).world, fun _ h => h, fun _ _ _ _ h => h⟩
    · exact ⟨grows_of_step hknown.service hf,
        recordings_of_serviceStep hknown.service hknown.progress hf⟩
  obtain ⟨hgrows, hsynthesized, hrecordings⟩ := hservice
  refine ⟨?_, hkeys, ?_, hgrows, hsynthesized, hrecordings⟩
  · cases hs with
    | registration hstep => exact accounts_of_step hstep
    | _ => exact fun _ _ h => h
  · cases hs with
    | submitted => exact fun a ha => List.mem_cons_of_mem _ ha
    | reading => exact fun a ha => List.mem_cons_of_mem _ ha
    | _ => exact fun _ h => h

/-- A property of reachable platforms that every step keeps holds in every
continuation of a run. -/
theorem platform_invariant
    {I : Platform → Prop}
    (hrun : PlatformRun d es p)
    (hfs : Machine.Run (platform d) Machine.anyStep p fs q)
    (hstep : ∀ u e v, Known d u → I u → PlatformStep d u e v → I v)
    (hp : I p) :
    I q :=
  Machine.run_invariant_of_known (K := Known d)
    (fun _ _ hgs => known_of_run (Machine.run_append hrun hgs))
    (fun u e v hu _ hI _ hs => hstep u e v hu hI (platformStep_of_step hs)) hfs hp

theorem later_of_run
    (hrun : PlatformRun d es p)
    (hfs : Machine.Run (platform d) Machine.anyStep p fs q) :
    Later p q :=
  platform_invariant hrun hfs
    (fun _ _ _ hu hI hs => hI.trans (later_of_step hu hs)) (Later.refl p)

end Later

end BengaliTts
