import BengaliTts.ClientMistakes
import BengaliTts.ConnectionPool
import BengaliTts.Engines
import BengaliTts.Lib.Solo
import BengaliTts.Login

/-!
# The smoke test

`scripts/e2e-smoke.sh` registers a user, issues an API key, checks that a submission
without a key is turned away, submits a text, polls the job until it is completed,
downloads the audio and checks that it is a playable file.

The results before this one say what the platform never does.  This one says that it
still can do its work: in every reachable state, whatever other clients left behind at
whatever await, a run of the script together with one delivery to a worker with the fake
engine succeeds.  The run takes no more than there is: its statements find a free
connection of the gateways' pool, and its delivery an idle worker.

Main result:
* `smoke_test_passes`: from every reachable state the script passes, if its address and
  the ids that are drawn are new, nobody holds the lock of the new user, the queue has
  room and has handed out its entries, and a connection and a worker are free.
-/

namespace BengaliTts

open Lib

section Capacity

/-- The statement begins a transaction or stands outside one, and waits for a connection
of the pool. -/
def PlatformEvent.needsConnection : PlatformEvent → Bool
  | .registration (.act _ .findUnique) => true
  | .registration (.act _ (.create _ _)) => true
  | .registration (.act _ (.createReplyLost _ _)) => true
  | .keyStep _ .findUnique => true
  | .keyStep _ (.execute _ _ _ _) => true
  | .submitStep _ .findKey => true
  | .readStep _ .findKey => true
  | .readStep _ .query => true
  | .markUsed _ _ => true
  | .service (.act _ (.handler e)) => e.needsConnection
  | _ => false

/-- A worker is at work on the job. -/
def Proc.worksOn (id : Uuid) : Proc → Bool
  | .handler _ => false
  | .call c => c.pc.running && decide (c.job.jobId = id)

/-- A worker is at work. -/
def Proc.working : Proc → Bool
  | .handler _ => false
  | .call c => c.pc.running

def busyWorkers (s : Service) : Nat :=
  s.procs.countP Proc.working

/-- A worker is at work on every entry of the queue but that of the given job. -/
def HandedOut (s : Service) (jobId : Uuid) : Prop :=
  ∀ id, id ∈ s.world.queue → id ≠ jobId → s.procs.any (Proc.worksOn id) = true

/-- What the event takes is there: a connection of the pool, or for a delivery an idle
worker and no entry that waits for one beside. -/
structure Possible (poolSize workers : Nat) (p : Platform) (e : PlatformEvent) : Prop where
  connection : e.needsConnection = true → openTransactions p.service < poolSize
  worker : ∀ job, e = .service (.spawn (.deliver job)) →
    busyWorkers p.service < workers ∧ HandedOut p.service job.jobId

end Capacity

section Statements

/-- What the script sends, what the stores draw for it, and what the fake engine
returns. -/
structure SmokeTest (d : PlatformDeps) where
  /-- The body of the registration. -/
  registration : Option Json
  credentials : Credentials
  registers : registerSchema d.accounts registration = .ok credentials
  salt : Bytes
  userId : Uuid
  secret : Secret
  keyId : Uuid
  /-- The body of the submission without a key. -/
  anonymous : Option Json
  /-- The body of the submission. -/
  submission : Option Json
  text : JsString
  submits : submitSchema submission = .ok text
  accepted : validateTtsText text d.gateway.config.TTS_MAX_TEXT_LENGTH = .ok ()
  noNul : hasNul text = false
  jobId : Uuid
  sin : MathSin
  wav : Bytes
  returned : fakeSynthesize sin = .ok wav
  now : Nat

variable {d : PlatformDeps}

/-- The account of the test. -/
def SmokeTest.user (t : SmokeTest d) : User :=
  newUser t.credentials (d.accounts.hash t.salt t.credentials.password) t.userId t.now

def SmokeTest.apiKey (t : SmokeTest d) : GeneratedApiKey :=
  generateApiKey d.keys t.secret

/-- `Authorization: Bearer ${API_KEY}` -/
def SmokeTest.bearer (t : SmokeTest d) : Option JsString :=
  some (literal "Bearer " ++ t.apiKey.key)

/-- The row of the submission. -/
def SmokeTest.job (t : SmokeTest d) : Job :=
  newJob t.jobId t.userId (toColumn t.text) none t.now

/-- The address and the ids are new, the lock of the user is free, the queue has room and
has handed out its entries, and a connection and a worker are free. -/
structure SmokeTest.CanStart (t : SmokeTest d) (poolSize workers : Nat) (p : Platform) :
    Prop where
  emailFree : p.registrations.world.findUnique (toColumn t.credentials.email) = none
  userFresh : ∀ u, u ∈ p.registrations.world.users → u.id ≠ t.userId
  keyFresh : keyExists p.keys.rows t.keyId t.apiKey.keyHash = false
  jobFresh : ∀ b, b ∈ p.service.world.born → b.2.id ≠ t.jobId
  lockFree : p.service.world.locks (d.gateway.lockKey t.userId) = none
  room : queueDepth p.service.world < d.gateway.config.TTS_QUEUE_CAPACITY
  handedOut : HandedOut p.service t.jobId
  connectionFree : openTransactions p.service < poolSize
  workerIdle : busyWorkers p.service < workers

/-- `POST /v1/auth/register`, as request `i`. -/
def SmokeTest.registerEvents (t : SmokeTest d) (i : Nat) : List PlatformEvent :=
  (.spawn t.registration ::
    [RegisterEvent.findUnique, .hash t.salt, .create t.userId t.now].map (.act i)).map
      .registration

/-- `POST /v1/keys` -/
def SmokeTest.keyEvents (t : SmokeTest d) (i : Nat) : List PlatformEvent :=
  .keyRequest t.credentials.header .create ::
    [KeyRequestEvent.findUnique, .compare [], .execute t.secret t.keyId t.now false].map
      (.keyStep i)

/-- The awaits of a submission that is accepted. -/
def SmokeTest.handlerEvents (t : SmokeTest d) : List HandlerEvent :=
  [.takeToken 1 0, .beginTx, .lock, .count, .readDepth, .create t.jobId t.now, .commit,
    .callAdd, .addTakesEffect, .addReturns, .accept]

/-- `POST /v1/tts` without a key. -/
def SmokeTest.anonymousEvent (t : SmokeTest d) : PlatformEvent :=
  .submit none none t.anonymous

/-- `POST /v1/tts` as request `k`, which becomes process `i`. -/
def SmokeTest.submitEvents (t : SmokeTest d) (k i : Nat) : List PlatformEvent :=
  [.submit t.bearer none t.submission, .submitStep k .findKey, .submitStep k .check] ++
    ((t.handlerEvents.map Action.handler).map (.act i)).map .service

/-- What the queue hands to a worker. -/
def SmokeTest.delivery (t : SmokeTest d) : QueueJob :=
  ⟨t.jobId, 0, d.gateway.config.TTS_JOB_ATTEMPTS, false⟩

/-- The statements of a delivery that completes. -/
def SmokeTest.callEvents (t : SmokeTest d) : List CallEvent :=
  [.fetchJob, .markActive, .synthesize, .synthesizeReturns t.wav, .uploadWav, .markCompleted,
    .finish]

/-- A worker takes the job and completes it. -/
def SmokeTest.workEvents (t : SmokeTest d) (i : Nat) : List PlatformEvent :=
  (.spawn (.deliver t.delivery) ::
    (t.callEvents.map Action.call).map (.act i)).map .service

/-- `GET /v1/jobs/:id` -/
def SmokeTest.pollEvents (t : SmokeTest d) (i : Nat) : List PlatformEvent :=
  [.read t.bearer (.job t.jobId.text), .readStep i .findKey, .readStep i .check,
    .readStep i .query]

/-- `GET /v1/jobs/:id/audio` -/
def SmokeTest.downloadEvents (t : SmokeTest d) (i : Nat) : List PlatformEvent :=
  [.read t.bearer (.audio t.jobId.text), .readStep i .findKey, .readStep i .check,
    .readStep i .query, .readStep i .getObject]

/-- The script, and the worker that it waits for. -/
def SmokeTest.script (t : SmokeTest d) (p : Platform) : List PlatformEvent :=
  t.registerEvents p.registrations.procs.length ++ t.keyEvents p.keyRequests.length ++
    t.anonymousEvent :: t.submitEvents (p.submits.length + 1) p.service.procs.length ++
      t.workEvents (p.service.procs.length + 1) ++ t.pollEvents p.reads.length ++
        t.downloadEvents (p.reads.length + 1)

/-- The checks of the script: what its requests were answered, and that the submission
without a key changes nothing whenever it is sent. -/
structure SmokeTest.Passed (t : SmokeTest d) (p q : Platform) : Prop where
  registered : ∃ r, q.registrations.procs[p.registrations.procs.length]? = some r ∧
    r.body = t.registration ∧ r.pc = .answered (.success 201 (registeredBody t.user))
  issued : ∃ r, q.keyRequests[p.keyRequests.length]? = some r ∧
    r.header = t.credentials.header ∧
      r.pc = .answered (.success 201 (.created t.keyId t.apiKey.key t.apiKey.keyPrefix t.now))
  turnedAway : ∃ refused error,
    refused = ⟨none, none, t.anonymous, .answered (.failure 401 none error)⟩ ∧
      q.submits[p.submits.length]? = some refused ∧
        ∀ v : Platform, (platform d).step v t.anonymousEvent =
          some { v with submits := v.submits ++ [refused] }
  submitted : ∃ h, q.service.procs[p.service.procs.length]? = some (.handler h) ∧
    h.body = t.submission ∧ h.pc = .answered (.success 202 (submissionBody d.gateway t.job))
  completed : ∃ r view, q.reads[p.reads.length]? = some r ∧ r.header = t.bearer ∧
    r.request = .job t.jobId.text ∧ r.pc = .answered (.success 200 (.job view)) ∧
      view.id = t.jobId ∧ view.status = .completed
  downloaded : ∃ r, q.reads[p.reads.length + 1]? = some r ∧ r.header = t.bearer ∧
    r.request = .audio t.jobId.text ∧ r.pc = .answered (.success 200 (.audio t.wav))
  isPlayable : playable t.wav

end Statements

section Parts

variable {d : PlatformDeps} {poolSize workers : Nat} {p : Platform}

/-- An event that hands no job to a worker needs at most a connection. -/
theorem possible_of_free
    {e : PlatformEvent}
    (hfree : openTransactions p.service < poolSize)
    (he : ∀ job, e ≠ .service (.spawn (.deliver job))) :
    Possible poolSize workers p e where
  connection _ := hfree
  worker job h := absurd h (he job)

/-- What the registrations do among themselves they do on the platform. -/
theorem run_of_registrations
    {g g' : Registrations} {es : List RegistrationsEvent}
    (hfree : openTransactions p.service < poolSize)
    (h : Machine.Run (registrations d.accounts).machine Machine.anyStep g es g') :
    Machine.Run (platform d) (Possible poolSize workers) { p with registrations := g }
      (es.map .registration) { p with registrations := g' } := by
  refine Machine.run_lift (fun g => { p with registrations := g }) PlatformEvent.registration ?_ h
  intro s e t _ hs
  refine ⟨possible_of_free hfree (by simp), ?_⟩
  simp only [platform, platformStep, hs, Option.map_some]

/-- What the service does by itself it does on the platform, as long as no submission
enters. -/
theorem run_of_service
    (p : Platform) {s s' : Service} {es : List ServiceEvent}
    (h : Machine.Run (service d.gateway).machine (fun s e => entersByKey e = false ∧
      Possible poolSize workers { p with service := s } (.service e)) s es s') :
    Machine.Run (platform d) (Possible poolSize workers) { p with service := s }
      (es.map .service) { p with service := s' } := by
  refine Machine.run_lift (fun s => { p with service := s }) PlatformEvent.service ?_ h
  intro s e t hno hs
  refine ⟨hno.2, ?_⟩
  simp only [platform, platformStep, hno.1, hs, Option.map_some, Bool.false_eq_true, if_false]

/-- A process by itself waits for no connection while it holds one. -/
def Proc.canAct : Proc → Action → Bool
  | p, .handler e => !(e.needsConnection && p.inTransaction)
  | _, .call _ => true

/-- A connection that is free beside a process is free when the process needs one. -/
theorem possible_of_canAct
    {w : World} {procs : List Proc} {π : Proc} {i : Nat} {a : Action}
    (hfree : procs.countP Proc.inTransaction < poolSize)
    (hcan : π.canAct a = true) :
    Possible poolSize workers { p with service := ⟨w, procs ++ [π]⟩ } (.service (.act i a)) where
  connection hneeds := by
    cases a with
    | call e => cases hneeds
    | handler e =>
        have hneeds : e.needsConnection = true := hneeds
        have hclosed : π.inTransaction = false := by
          simpa [Proc.canAct, hneeds] using hcan
        have hcount : openTransactions ⟨w, procs ++ [π]⟩ = procs.countP Proc.inTransaction := by
          simp [openTransactions, List.countP_append, hclosed]
        exact hcount ▸ hfree
  worker job h := by cases h

/-- A request over keys by itself. -/
def keyRequestMachine (d : PlatformDeps) (t : AccountTable) :
    Machine (KeyStore × KeyRequest) KeyRequestEvent where
  step := fun s e => s.2.act d t s.1 e

theorem run_of_keyRequest
    {header : Option JsString} {route : KeyRoute} {s : KeyStore} {r : KeyRequest}
    {es : List KeyRequestEvent}
    (hfree : openTransactions p.service < poolSize)
    (h : Machine.Run (keyRequestMachine d p.registrations.world) Machine.anyStep
      (p.keys, KeyRequest.start header route) es (s, r)) :
    Machine.Run (platform d) (Possible poolSize workers) p
      (.keyRequest header route :: es.map (.keyStep p.keyRequests.length))
      { p with keys := s, keyRequests := p.keyRequests ++ [r] } := by
  refine Machine.run_step (possible_of_free hfree (by simp)) rfl ?_
  refine Machine.run_lift
    (fun u : KeyStore × KeyRequest =>
      { p with keys := u.1, keyRequests := p.keyRequests ++ [u.2] })
    (PlatformEvent.keyStep p.keyRequests.length) ?_ h
  intro u e v _ hact
  refine ⟨possible_of_free hfree (by simp), ?_⟩
  simp only [platform, platformStep, getElem?_last]
  rw [show u.2.act d p.registrations.world u.1 e = some v from hact, Option.map_some, set_last]

/-- The platform after a key has let a POST through. -/
def submissionAdmitted (p : Platform) (header : Option JsString) (body : Option Json)
    (record : ApiKey) : Platform :=
  { p with
    keys := p.keys.touch record.id
    submits := p.submits ++ [⟨header, none, body, .passed p.service.procs.length⟩]
    service := ⟨p.service.world, p.service.procs ++
      [.handler (Handler.start ⟨record.userId, none, body⟩)]⟩
    admitted := ⟨header, record.userId, record.id,
      .submission p.submits.length p.service.procs.length⟩ :: p.admitted }

/-- A POST that its key lets through, while nobody else does anything. -/
theorem run_of_submit
    {header : Option JsString} {body : Option Json} {record : ApiKey}
    (hfree : openTransactions p.service < poolSize)
    (hauth : apiKeyAuth d.keys p.keys.rows header = .ok record) :
    Machine.Run (platform d) (Possible poolSize workers) p
      [.submit header none body, .submitStep p.submits.length .findKey,
        .submitStep p.submits.length .check]
      (submissionAdmitted p header body record) := by
  obtain ⟨key, hkey, hverdict⟩ := stages_of_apiKeyAuth hauth
  have hstart : Submit.start header none body = ⟨header, none, body, .looking key⟩ := by
    simp only [Submit.start, hkey]
  refine Machine.run_step (t := { p with
    submits := p.submits ++ [⟨header, none, body, .looking key⟩] })
    (possible_of_free hfree (by simp)) ?_ ?_
  · simp only [platform, platformStep, hstart]
  refine Machine.run_step (t := { p with submits := p.submits ++
    [⟨header, none, body, .checking key (findApiKey d.keys p.keys.rows key)⟩] })
    (possible_of_free hfree (by simp)) ?_ ?_
  · simp only [platform, platformStep, getElem?_last, Submit.act, Option.map_some, set_last]
    rfl
  refine Machine.run_single (possible_of_free hfree (by simp)) ?_
  simp only [platform, platformStep, getElem?_last, Submit.act, hverdict, Option.map_some,
    set_last]
  rfl

/-- The platform after a key has let a GET through. -/
def readAdmitted (p : Platform) (record : ApiKey) (r : Read) : Platform :=
  { p with
    keys := p.keys.touch record.id
    reads := p.reads ++ [r]
    admitted := ⟨r.header, record.userId, record.id, .read p.reads.length⟩ :: p.admitted }

/-- A GET by itself once its key was accepted, over stores that stand still. -/
def readMachine (d : PlatformDeps) (rows : List ApiKey) (w : World) :
    Machine Read ReadEvent where
  step := fun r e => (r.act d rows w e).map Prod.fst

/-- Only the check lets a GET through. -/
theorem admits_nothing
    {rows : List ApiKey} {w : World} {r r' : Read} {e : ReadEvent} {record : Option ApiKey}
    (hact : r.act d rows w e = some (r', record))
    (he : e ≠ .check) :
    record = none ∧ r'.header = r.header := by
  cases e
  case check => exact absurd rfl he
  all_goals
    simp only [Read.act] at hact
    split at hact <;> cases hact
    exact ⟨rfl, rfl⟩

/-- A GET that its key lets through and that runs by itself. -/
theorem run_of_read
    {header : Option JsString} {request : ReadRequest} {record : ApiKey} {r : Read}
    {es : List ReadEvent}
    (hfree : openTransactions p.service < poolSize)
    (hauth : apiKeyAuth d.keys p.keys.rows header = .ok record)
    (h : Machine.Run (readMachine d p.keys.rows p.service.world) (fun _ e => e ≠ .check)
      ⟨header, request, .querying record.userId⟩ es r) :
    Machine.Run (platform d) (Possible poolSize workers) p
      (.read header request :: .readStep p.reads.length .findKey ::
        .readStep p.reads.length .check :: es.map (.readStep p.reads.length))
      (readAdmitted p record r) := by
  obtain ⟨key, hkey, hverdict⟩ := stages_of_apiKeyAuth hauth
  have hstart : Read.start header request = ⟨header, request, .looking key⟩ := by
    simp only [Read.start, hkey]
  refine Machine.run_step (t := { p with
    reads := p.reads ++ [⟨header, request, .looking key⟩] })
    (possible_of_free hfree (by simp)) ?_ ?_
  · simp only [platform, platformStep, hstart]
  refine Machine.run_step (t := { p with reads := p.reads ++
    [⟨header, request, .checking key (findApiKey d.keys p.keys.rows key)⟩] })
    (possible_of_free hfree (by simp)) ?_ ?_
  · simp only [platform, platformStep, getElem?_last, Read.act, Option.map_some, set_last]
    rfl
  refine Machine.run_step (t := readAdmitted p record
    ⟨header, request, .querying record.userId⟩) (possible_of_free hfree (by simp)) ?_ ?_
  · simp only [platform, platformStep, getElem?_last, Read.act, hverdict, Option.map_some,
      set_last]
    rfl
  refine Machine.run_lift (readAdmitted p record) (PlatformEvent.readStep p.reads.length) ?_ h
  intro u e v hcheck hact
  refine ⟨possible_of_free hfree (by simp), ?_⟩
  obtain ⟨⟨v', found⟩, hread, hv⟩ := Option.map_eq_some_iff.mp hact
  obtain ⟨rfl, hheader⟩ := admits_nothing hread hcheck
  cases hv
  simp only [platform, platformStep, readAdmitted, getElem?_last]
  rw [show u.act d (p.keys.touch record.id).rows p.service.world e = some (v', none) from hread,
    Option.map_some, set_last, hheader]
  rfl

end Parts

section Account

variable {d : PlatformDeps} {t : SmokeTest d} {p : Platform}

theorem findUnique_insert_self
    {a : AccountTable} {u : User}
    (h : a.findUnique u.email = none) :
    (a.insert u h).findUnique u.email = some u :=
  AccountTable.findUnique_eq_some.mpr ⟨List.mem_cons_self, rfl⟩

/-- The registration by itself. -/
theorem registration_run
    {a : AccountTable} {i : Nat}
    (hfree : a.findUnique (toColumn t.credentials.email) = none)
    (hfresh : ∀ u, u ∈ a.users → u.id ≠ t.userId) :
    Machine.Run ((registrations d.accounts).solo i) Machine.anyStep
      (a, Registration.start d.accounts t.registration)
      [.findUnique, .hash t.salt, .create t.userId t.now]
      (a.insert t.user hfree,
        ⟨t.registration, .answered (.success 201 (registeredBody t.user))⟩) := by
  have hstart : Registration.start d.accounts t.registration =
      ⟨t.registration, .looking t.credentials⟩ := by
    simp only [Registration.start, validate, t.registers]
  have hnew : (a.users.any fun u => decide (u.id = t.userId)) = false := by
    rw [List.any_eq_false]
    intro u hu
    rw [decide_eq_true_eq]
    exact hfresh u hu
  rw [hstart]
  refine Machine.run_step (t := (a, ⟨t.registration, .hashing t.credentials⟩)) trivial ?_ ?_
  · simp only [Program.solo, registrations, Registration.act, hfree]
  refine Machine.run_step (t := (a, ⟨t.registration, .creating t.credentials
    (d.accounts.hash t.salt t.credentials.password)⟩)) trivial rfl ?_
  refine Machine.run_single trivial ?_
  have hinsert : a.findUnique (newUser t.credentials
      (d.accounts.hash t.salt t.credentials.password) t.userId t.now).email = none := hfree
  simp only [Program.solo, registrations, Registration.act, hnew, dif_pos hinsert]
  rfl

/-- The request for a key once it was answered. -/
def SmokeTest.keyRequest (t : SmokeTest d) : KeyRequest where
  header := t.credentials.header
  route := .create
  pc := .answered (.success 201 (.created t.keyId t.apiKey.key t.apiKey.keyPrefix t.now))
  outcome := some (.success 201 (.created t.keyId t.apiKey.key t.apiKey.keyPrefix t.now))

/-- The request for a key by itself. -/
theorem keyRequest_run
    {a : AccountTable} {s : KeyStore}
    (hfound : a.findUnique (toColumn t.credentials.email) = some t.user)
    (hfresh : keyExists s.rows t.keyId t.apiKey.keyHash = false) :
    Machine.Run (keyRequestMachine d a) Machine.anyStep
      (s, KeyRequest.start t.credentials.header .create)
      [.findUnique, .compare [], .execute t.secret t.keyId t.now false]
      ((s.create d.keys t.userId t.secret t.keyId t.now).1,
        t.keyRequest) := by
  have hc := valid_of_registerSchema t.registers
  have hstart : KeyRequest.start t.credentials.header .create = ⟨t.credentials.header, .create,
      .looking t.credentials.email (fromColumn (toColumn t.credentials.password)), none⟩ := by
    rw [start_of_header, basicHeader_of_credentials hc]
  rw [hstart]
  refine Machine.run_step (t := (s, ⟨t.credentials.header, .create,
    .comparing (some t.user) (fromColumn (toColumn t.credentials.password)), none⟩)) trivial ?_ ?_
  · simp only [keyRequestMachine, KeyRequest.act, hasNul_email hc, hfound, Bool.false_eq_true,
      if_false]
  refine Machine.run_step (t := (s, ⟨t.credentials.header, .create,
    .authenticated ⟨t.userId, t.user.email⟩, none⟩)) trivial ?_ ?_
  · have hvalid : d.accounts.compare (fromColumn (toColumn t.credentials.password))
        t.user.passwordHash = true :=
      compare_of_credentials hc ⟨t.salt, rfl⟩
    simp only [keyRequestMachine, KeyRequest.act, passwordVerdict, hvalid]
    rfl
  refine Machine.run_single trivial ?_
  have hcreated : (s.create d.keys t.userId t.secret t.keyId t.now).2 =
      .success 201 (.created t.keyId t.apiKey.key t.apiKey.keyPrefix t.now) := by
    have hnew : keyExists s.rows t.keyId (generateApiKey d.keys t.secret).keyHash = false := hfresh
    simp only [KeyStore.create, hnew]
    rfl
  simp only [keyRequestMachine, KeyRequest.act, KeyStore.run, hcreated]
  rfl

end Account

section Bearer

/-- A text without white space is its own trim. -/
theorem trim_of_solid
    {text : JsString}
    (h : ∀ u, u ∈ text → isWhitespace u = false) :
    trim text = text := by
  have hdrop : ∀ units : JsString, (∀ u, u ∈ units → isWhitespace u = false) →
      units.dropWhile isWhitespace = units := by
    intro units hunits
    cases units with
    | nil => rfl
    | cons u rest => rw [List.dropWhile_cons, hunits u List.mem_cons_self]; rfl
  rw [trim, hdrop text h, hdrop text.reverse fun u hu => h u (List.mem_reverse.mp hu),
    List.reverse_reverse]

theorem isWhitespace_base64urlDigit
    (n : Nat) :
    isWhitespace (base64urlDigit n) = false := by
  have hupper : ∀ n, n < 26 → isWhitespace (UInt16.ofNat ('A'.toNat + n)) = false := by decide
  have hlower : ∀ n, n < 26 → isWhitespace (UInt16.ofNat ('a'.toNat + n)) = false := by decide
  have hdigit : ∀ n, n < 10 → isWhitespace (UInt16.ofNat ('0'.toNat + n)) = false := by decide
  unfold base64urlDigit
  split_ifs with h₁ h₂ h₃ h₄
  · exact hupper n h₁
  · exact hlower (n - 26) (by omega)
  · exact hdigit (n - 52) (by omega)
  · decide
  · decide

theorem isWhitespace_base64url
    (bytes : Bytes) :
    ∀ u, u ∈ base64url bytes → isWhitespace u = false := by
  induction bytes using base64url.induct with
  | case1 =>
      intro u hu
      cases hu
  | case2 a =>
      intro u hu
      simp only [base64url, List.mem_cons, List.not_mem_nil, or_false] at hu
      rcases hu with rfl | rfl <;> exact isWhitespace_base64urlDigit _
  | case3 a b =>
      intro u hu
      simp only [base64url, List.mem_cons, List.not_mem_nil, or_false] at hu
      rcases hu with rfl | rfl | rfl <;> exact isWhitespace_base64urlDigit _
  | case4 a b c rest ih =>
      intro u hu
      simp only [base64url, List.mem_cons] at hu
      rcases hu with rfl | rfl | rfl | rfl | hrest
      · exact isWhitespace_base64urlDigit _
      · exact isWhitespace_base64urlDigit _
      · exact isWhitespace_base64urlDigit _
      · exact isWhitespace_base64urlDigit _
      · exact ih u hrest

/-- A header made from an issued key carries that key. -/
theorem bearerToken_of_generated
    (d : KeyDeps) (secret : Secret) :
    bearerToken (some (literal "Bearer " ++ (generateApiKey d secret).key)) =
      some (generateApiKey d secret).key := by
  have hprefix : (literal "Bearer ").isPrefixOf
      (literal "Bearer " ++ (generateApiKey d secret).key) = true :=
    List.isPrefixOf_iff_prefix.mpr (List.prefix_append _ _)
  have hsolid : ∀ u, u ∈ (generateApiKey d secret).key → isWhitespace u = false := by
    intro u hu
    have hliteral : KEY_PREFIX.all (fun u => !isWhitespace u) = true := by decide
    rcases List.mem_append.mp hu with hu | hu
    · simpa using List.all_eq_true.mp hliteral u hu
    · exact isWhitespace_base64url secret.1 u hu
  rw [bearerToken, if_pos hprefix, List.drop_left, trim_of_solid hsolid]

/-- A key is accepted right after it was created. -/
theorem apiKeyAuth_of_created
    {d : KeyDeps} {s : KeyStore} {user id : Uuid} {secret : Secret} {now : Nat}
    (hfresh : keyExists s.rows id (generateApiKey d secret).keyHash = false) :
    apiKeyAuth d (s.create d user secret id now).1.rows
        (some (literal "Bearer " ++ (generateApiKey d secret).key)) =
      .ok ⟨id, user, (generateApiKey d secret).keyHash, (generateApiKey d secret).keyPrefix, now,
        none, none⟩ := by
  have hlooks := looksLikeApiKey_generated d secret
  have hhash : hashApiKey d (generateApiKey d secret).key = (generateApiKey d secret).keyHash := rfl
  simp only [apiKeyAuth, bearerToken_of_generated, hlooks, if_true, KeyStore.create, hfresh,
    Bool.false_eq_true, if_false, hhash, List.find?_cons, decide_true, hashesMatch_self,
    Option.isSome_none]

end Bearer

section Job

variable {d : PlatformDeps} {t : SmokeTest d}

theorem solo_handler
    {g : Deps} {i : Nat} {w w' : World} {h h' : Handler} {e : HandlerEvent}
    (hact : h.act g i w e = some (w', h')) :
    ((service g).solo i).step (w, .handler h) (.handler e) = some (w', .handler h') := by
  simp only [Program.solo, service, Proc.act, hact, Option.map_some]

/-- The submission and the delivery by themselves wait for no connection while they hold
one. -/
abbrev SoloRun (g : Deps) (i : Nat) : World × Proc → List Action → World × Proc → Prop :=
  Machine.Run ((service g).solo i) fun u a => u.2.canAct a = true

theorem solo_call
    {g : Deps} {i : Nat} {w w' : World} {c c' : Call} {e : CallEvent}
    (hact : c.act g w e = some (w', c')) :
    ((service g).solo i).step (w, .call c) (.call e) = some (w', .call c') := by
  simp only [Program.solo, service, Proc.act, hact, Option.map_some]

/-- The submission where it stands, before its row is committed. -/
def SmokeTest.handlerAt (t : SmokeTest d) (pc : HandlerPc) : Handler :=
  ⟨t.userId, none, t.submission, none, pc⟩

/-- The submission where it stands, after its row was committed. -/
def SmokeTest.committedAt (t : SmokeTest d) (pc : HandlerPc) : Handler :=
  ⟨t.userId, none, t.submission, some t.job, pc⟩

/-- The stores while the transaction is open, with its row inserted. -/
def SmokeTest.insertedWorld (t : SmokeTest d) (i : Nat) (w : World) : World :=
  (w.takeLock i (d.gateway.lockKey t.userId)).insertRow i t.job

/-- The stores after the submission. -/
def SmokeTest.submittedWorld (t : SmokeTest d) (i : Nat) (w : World) : World :=
  ((((t.insertedWorld i w).commitRow t.job).releaseLocks i).callAdd t.jobId).addEntry t.jobId

/-- The gates let the submission pass, and its row is inserted. -/
theorem inserted_run
    {w : World} {i : Nat}
    (hlock : w.locks (d.gateway.lockKey t.userId) = none)
    (hpending : pendingCount w.jobs t.userId < d.gateway.config.TTS_PENDING_CAP)
    (hroom : queueDepth w < d.gateway.config.TTS_QUEUE_CAPACITY)
    (hfresh : ∀ b, b ∈ w.born → b.2.id ≠ t.jobId) :
    SoloRun d.gateway i
      (w, .handler (t.handlerAt .rateGate))
      ([HandlerEvent.takeToken 1 0, .beginTx, .lock, .count, .readDepth,
        .create t.jobId t.now].map Action.handler)
      (t.insertedWorld i w, .handler (t.handlerAt (.inserted t.job))) := by
  have htoken : afterToken d.gateway (t.handlerAt .rateGate) 1 0 = .opening t.text := by
    have hbody : validate submitSchema t.submission = .ok t.text := by
      simp only [validate, t.submits]
    simp only [afterToken, takeRateLimitToken, SmokeTest.handlerAt, hbody, t.accepted]
    rfl
  have hnew : (w.born.any fun b => decide (b.2.id = t.jobId)) = false := by
    rw [List.any_eq_false]
    intro b hb
    rw [decide_eq_true_eq]
    exact hfresh b hb
  have hopening : (t.handlerAt .rateGate).act d.gateway i w (.takeToken 1 0) =
      some (w, t.handlerAt (.opening t.text)) := by
    rw [← htoken]
    rfl
  have hlocked : (t.handlerAt (.opened t.text)).act d.gateway i w .lock =
      some (w.takeLock i (d.gateway.lockKey t.userId), t.handlerAt (.locked t.text)) :=
    if_pos hlock
  have hcounted : (t.handlerAt (.locked t.text)).act d.gateway i
      (w.takeLock i (d.gateway.lockKey t.userId)) .count =
      some (w.takeLock i (d.gateway.lockKey t.userId), t.handlerAt (.counted t.text)) :=
    if_neg (Nat.not_le.mpr hpending)
  have hchecked : (t.handlerAt (.counted t.text)).act d.gateway i
      (w.takeLock i (d.gateway.lockKey t.userId)) .readDepth =
      some (w.takeLock i (d.gateway.lockKey t.userId), t.handlerAt (.depthChecked t.text)) :=
    if_neg (Nat.not_le.mpr hroom)
  have hinserted : (t.handlerAt (.depthChecked t.text)).act d.gateway i
      (w.takeLock i (d.gateway.lockKey t.userId)) (.create t.jobId t.now) =
      some (t.insertedWorld i w, t.handlerAt (.inserted t.job)) := by
    have hborn : ((w.takeLock i (d.gateway.lockKey t.userId)).born.any
        fun b => decide (b.2.id = t.jobId)) = false := hnew
    simp only [SmokeTest.handlerAt, Handler.act, hborn, t.noNul, Bool.false_eq_true, if_false]
    rfl
  refine Machine.run_step rfl (solo_handler hopening) ?_
  refine Machine.run_step rfl (solo_handler rfl) ?_
  refine Machine.run_step rfl (solo_handler hlocked) ?_
  refine Machine.run_step rfl (solo_handler hcounted) ?_
  refine Machine.run_step rfl (solo_handler hchecked) ?_
  exact Machine.run_single rfl (solo_handler hinserted)

/-- The row is committed and handed to the queue, and the submission is accepted. -/
theorem accepted_run
    {w : World} {i : Nat} :
    SoloRun d.gateway i
      (t.insertedWorld i w, .handler (t.handlerAt (.inserted t.job)))
      ([HandlerEvent.commit, .callAdd, .addTakesEffect, .addReturns, .accept].map Action.handler)
      (t.submittedWorld i w, .handler (t.committedAt
        (.answered (.success 202 (submissionBody d.gateway t.job))))) := by
  refine Machine.run_step (t := (_, .handler (t.committedAt .committed))) rfl
    (solo_handler rfl) ?_
  refine Machine.run_step (t := (_, .handler (t.committedAt (.adding false)))) rfl
    (solo_handler rfl) ?_
  refine Machine.run_step (t := (_, .handler (t.committedAt (.adding true)))) rfl
    (solo_handler rfl) ?_
  refine Machine.run_step (t := (_, .handler (t.committedAt .enqueued))) rfl
    (solo_handler rfl) ?_
  exact Machine.run_single rfl (solo_handler rfl)

/-- The submission by itself. -/
theorem submission_run
    {w : World} {i : Nat}
    (hlock : w.locks (d.gateway.lockKey t.userId) = none)
    (hpending : pendingCount w.jobs t.userId < d.gateway.config.TTS_PENDING_CAP)
    (hroom : queueDepth w < d.gateway.config.TTS_QUEUE_CAPACITY)
    (hfresh : ∀ b, b ∈ w.born → b.2.id ≠ t.jobId) :
    SoloRun d.gateway i
      (w, .handler (Handler.start ⟨t.userId, none, t.submission⟩))
      (t.handlerEvents.map Action.handler)
      (t.submittedWorld i w, .handler (t.committedAt
        (.answered (.success 202 (submissionBody d.gateway t.job))))) :=
  Machine.run_append (inserted_run hlock hpending hroom hfresh) accepted_run

/-- The object of the recording. -/
def SmokeTest.objectKey (t : SmokeTest d) : String :=
  audioKey t.userId t.jobId

/-- The stores after the delivery. -/
def SmokeTest.completedWorld (t : SmokeTest d) (w : World) : World :=
  (((w.markActive t.jobId).recordSynthesis (toColumn t.text) t.wav).uploadWav
    t.objectKey t.wav).markCompleted t.jobId t.objectKey

/-- The delivery by itself, on a row that was just submitted. -/
theorem delivery_run
    {w : World} {rest : List Job} {i : Nat}
    (hjobs : w.jobs = t.job :: rest) :
    SoloRun d.gateway i
      (w, .call (Call.process t.delivery)) (t.callEvents.map Action.call)
      (t.completedWorld w, .call ⟨t.delivery, .returned (.audioKey t.objectKey)⟩) := by
  have hrow : fetchJob w.jobs t.jobId = some t.job.toJobRow := by
    have hfind : ((t.job :: rest).find? fun r => decide (r.id = t.jobId)) = some t.job :=
      List.find?_cons_of_pos (decide_eq_true rfl)
    rw [fetchJob, hjobs, hfind, Option.map_some]
  have hfetched : (Call.process t.delivery).act d.gateway w .fetchJob =
      some (w, ⟨t.delivery, .fetched t.job.toJobRow⟩) := by
    simp only [Call.act, Call.process]
    rw [show fetchJob w.jobs t.delivery.jobId = some t.job.toJobRow from hrow]
    rfl
  refine Machine.run_step rfl (solo_call hfetched) ?_
  refine Machine.run_step rfl (solo_call rfl) ?_
  refine Machine.run_step rfl (solo_call rfl) ?_
  refine Machine.run_step rfl (solo_call rfl) ?_
  refine Machine.run_step rfl (solo_call rfl) ?_
  refine Machine.run_step rfl (solo_call rfl) ?_
  exact Machine.run_single rfl (solo_call rfl)

/-- The row after the delivery. -/
def SmokeTest.completedJob (t : SmokeTest d) (w : World) : Job :=
  setCompleted w.now t.objectKey (setActive w.now t.job)

theorem guardedUpdate_cons
    {id : Uuid} {f : Job → Job} {r : Job} {rest : List Job}
    (h : notTerminal id r = true) :
    guardedUpdate id f (r :: rest) = f r :: guardedUpdate id f rest := by
  rw [guardedUpdate, updateWhere, List.map_cons, if_pos h]
  rfl

/-- The owner of the job finds it completed. -/
theorem findOwnedJob_completed
    {w : World} {rest : List Job}
    (hjobs : w.jobs = t.job :: rest) :
    findOwnedJob (t.completedWorld w) t.userId t.jobId.text = .ok (t.completedJob w) := by
  have hhead : ∃ others, (t.completedWorld w).jobs = t.completedJob w :: others := by
    have hactive : notTerminal t.jobId t.job = true := by
      simp [notTerminal, SmokeTest.job, newJob, JobStatus.terminal]
    have hcompleted : notTerminal t.jobId (setActive w.now t.job) = true := by
      simp [notTerminal, SmokeTest.job, newJob, setActive, JobStatus.terminal]
    have hupdates : (t.completedWorld w).jobs = guardedUpdate t.jobId
        (setCompleted w.now t.objectKey) (guardedUpdate t.jobId (setActive w.now) w.jobs) := rfl
    rw [hupdates, hjobs, guardedUpdate_cons hactive, guardedUpdate_cons hcompleted]
    exact ⟨_, rfl⟩
  obtain ⟨others, hjobs'⟩ := hhead
  have hfind : ((t.completedJob w :: others).find? fun r =>
      decide (r.id.text = t.jobId.text) && ownedBy t.userId r) = some (t.completedJob w) :=
    List.find?_cons_of_pos ((Bool.and_eq_true _ _).mpr ⟨decide_eq_true rfl, ownedBy_iff.mpr rfl⟩)
  rw [findOwnedJob_eq, if_neg (length_text_ne_zero _), text_no_nul, hjobs', hfind]
  rfl

theorem fetchObject_completed
    (w : World) :
    fetchObject (t.completedWorld w) t.objectKey = .ok (.audio t.wav) := by
  have hbucket : (t.completedWorld w).bucket t.objectKey = some t.wav :=
    Function.update_self _ _ _
  rw [fetchObject, hbucket]

/-- The poll by itself. -/
theorem poll_run
    {rows : List ApiKey} {w : World} {rest : List Job}
    (hjobs : w.jobs = t.job :: rest) :
    Machine.Run (readMachine d rows (t.completedWorld w)) (fun _ e => e ≠ .check)
      ⟨t.bearer, .job t.jobId.text, .querying t.userId⟩ [.query]
      ⟨t.bearer, .job t.jobId.text, .answered
        (.success 200 (.job (serializeJob (t.completedJob w))))⟩ := by
  refine Machine.run_single (by simp) ?_
  have hanswer : respond d.report (t.completedWorld w) t.userId (.job t.jobId.text) =
      .success 200 (.job (serializeJob (t.completedJob w))) := by
    simp only [respond, readRoute, findOwnedJob_completed hjobs]
    rfl
  simp only [readMachine, Read.act, afterQuery, hanswer, Option.map_some]

/-- The download by itself. -/
theorem download_run
    {rows : List ApiKey} {w : World} {rest : List Job}
    (hjobs : w.jobs = t.job :: rest) :
    Machine.Run (readMachine d rows (t.completedWorld w)) (fun _ e => e ≠ .check)
      ⟨t.bearer, .audio t.jobId.text, .querying t.userId⟩ [.query, .getObject]
      ⟨t.bearer, .audio t.jobId.text, .answered (.success 200 (.audio t.wav))⟩ := by
  have htarget : audioTarget (t.completedWorld w) t.userId t.jobId.text =
      .ok (t.completedJob w, t.objectKey) :=
    audioTarget_of_completed (findOwnedJob_completed hjobs) rfl rfl
  refine Machine.run_step (t := ⟨t.bearer, .audio t.jobId.text,
    .fetching (t.completedJob w) t.objectKey⟩) (by simp) ?_ ?_
  · simp only [readMachine, Read.act, afterQuery, htarget, Option.map_some]
  · refine Machine.run_single (by simp) ?_
    simp only [readMachine, Read.act, fetchObject_completed, answerRead, Option.map_some]

end Job

section Stages

variable {d : PlatformDeps} {t : SmokeTest d} {poolSize workers : Nat} {p : Platform}
  {es : List PlatformEvent}

/-- The platform after the registration. -/
def SmokeTest.registeredState (t : SmokeTest d) (p : Platform)
    (hfree : p.registrations.world.findUnique (toColumn t.credentials.email) = none) : Platform :=
  { p with registrations := ⟨p.registrations.world.insert t.user hfree, p.registrations.procs ++
      [⟨t.registration, .answered (.success 201 (registeredBody t.user))⟩]⟩ }

theorem register_stage
    (hpool : openTransactions p.service < poolSize)
    (hfree : p.registrations.world.findUnique (toColumn t.credentials.email) = none)
    (hfresh : ∀ u, u ∈ p.registrations.world.users → u.id ≠ t.userId) :
    Machine.Run (platform d) (Possible poolSize workers) p
      (t.registerEvents p.registrations.procs.length) (t.registeredState p hfree) :=
  run_of_registrations hpool (Program.run_of_spawned trivial (fun _ _ _ => trivial)
    (registration_run hfree hfresh))

/-- The platform after the key was issued. -/
def SmokeTest.issuedState (t : SmokeTest d) (p : Platform) : Platform :=
  { p with
    keys := (p.keys.create d.keys t.userId t.secret t.keyId t.now).1
    keyRequests := p.keyRequests ++ [t.keyRequest] }

theorem key_stage
    (hpool : openTransactions p.service < poolSize)
    (hfound : p.registrations.world.findUnique (toColumn t.credentials.email) = some t.user)
    (hfresh : keyExists p.keys.rows t.keyId t.apiKey.keyHash = false) :
    Machine.Run (platform d) (Possible poolSize workers) p (t.keyEvents p.keyRequests.length)
      (t.issuedState p) :=
  run_of_keyRequest hpool (keyRequest_run hfound hfresh)

/-- The submission without a key, which is answered before its first await. -/
def SmokeTest.refused (t : SmokeTest d) : Submit :=
  Submit.start none none t.anonymous

/-- The platform after the submission without a key. -/
def SmokeTest.refusedState (t : SmokeTest d) (p : Platform) : Platform :=
  { p with submits := p.submits ++ [t.refused] }

/-- The row of the key of the test. -/
def SmokeTest.keyRow (t : SmokeTest d) : ApiKey :=
  ⟨t.keyId, t.userId, t.apiKey.keyHash, t.apiKey.keyPrefix, t.now, none, none⟩

/-- The key lets requests with the header of the test through. -/
def SmokeTest.Authorizes (t : SmokeTest d) (p : Platform) : Prop :=
  apiKeyAuth d.keys p.keys.rows t.bearer = .ok t.keyRow

/-- The platform after the submission. -/
def SmokeTest.submittedState (t : SmokeTest d) (p : Platform) : Platform :=
  { submissionAdmitted p t.bearer t.submission t.keyRow with
    service := ⟨t.submittedWorld p.service.procs.length p.service.world, p.service.procs ++
      [.handler (t.committedAt (.answered (.success 202 (submissionBody d.gateway t.job))))]⟩ }

theorem submit_stage
    (hpool : openTransactions p.service < poolSize)
    (hauth : t.Authorizes p)
    (hlock : p.service.world.locks (d.gateway.lockKey t.userId) = none)
    (hpending : pendingCount p.service.world.jobs t.userId < d.gateway.config.TTS_PENDING_CAP)
    (hroom : queueDepth p.service.world < d.gateway.config.TTS_QUEUE_CAPACITY)
    (hfresh : ∀ b, b ∈ p.service.world.born → b.2.id ≠ t.jobId) :
    Machine.Run (platform d) (Possible poolSize workers) p
      (t.submitEvents p.submits.length p.service.procs.length) (t.submittedState p) :=
  Machine.run_append (run_of_submit hpool hauth)
    (run_of_service (submissionAdmitted p t.bearer t.submission t.keyRow)
      (Program.run_of_last (fun _ _ hcan => ⟨rfl, possible_of_canAct hpool hcan⟩)
        (submission_run (i := p.service.procs.length) hlock hpending hroom hfresh)))

/-- The platform after the delivery. -/
def SmokeTest.workedState (t : SmokeTest d) (p : Platform) : Platform :=
  { p with service := ⟨t.completedWorld p.service.world, p.service.procs ++
      [.call ⟨t.delivery, .returned (.audioKey t.objectKey)⟩]⟩ }

theorem work_stage
    {rest : List Job}
    (hpool : openTransactions p.service < poolSize)
    (hidle : busyWorkers p.service < workers)
    (hqueue : HandedOut p.service t.jobId)
    (hjobs : p.service.world.jobs = t.job :: rest) :
    Machine.Run (platform d) (Possible poolSize workers) p (t.workEvents p.service.procs.length)
      (t.workedState p) := by
  have hdelivers : Possible poolSize workers p (.service (.spawn (.deliver t.delivery))) := by
    refine ⟨(fun h => by cases h), fun job hjob => ?_⟩
    cases hjob
    exact ⟨hidle, hqueue⟩
  exact run_of_service p (Program.run_of_spawned (r := Request.deliver t.delivery)
    ⟨rfl, hdelivers⟩ (fun _ _ hcan => ⟨rfl, possible_of_canAct hpool hcan⟩)
    (delivery_run (i := p.service.procs.length) hjobs))

/-- The engine's file passes the checks of the script. -/
theorem SmokeTest.playable_wav
    (t : SmokeTest d) :
    playable t.wav := by
  obtain ⟨file, hfile, _, hplayable, _⟩ := fake_recording t.sin
  cases hfile.symm.trans t.returned
  exact hplayable

/-- The platform after a GET of the test. -/
def SmokeTest.readState (t : SmokeTest d) (p : Platform) (request : ReadRequest)
    (body : ReadBody) : Platform :=
  readAdmitted p t.keyRow ⟨t.bearer, request, .answered (.success 200 body)⟩

theorem poll_stage
    {w : World} {rest : List Job}
    (hpool : openTransactions p.service < poolSize)
    (hauth : t.Authorizes p)
    (hworld : p.service.world = t.completedWorld w)
    (hjobs : w.jobs = t.job :: rest) :
    Machine.Run (platform d) (Possible poolSize workers) p (t.pollEvents p.reads.length)
      (t.readState p (.job t.jobId.text) (.job (serializeJob (t.completedJob w)))) :=
  run_of_read hpool hauth (hworld ▸ poll_run hjobs)

theorem download_stage
    {w : World} {rest : List Job}
    (hpool : openTransactions p.service < poolSize)
    (hauth : t.Authorizes p)
    (hworld : p.service.world = t.completedWorld w)
    (hjobs : w.jobs = t.job :: rest) :
    Machine.Run (platform d) (Possible poolSize workers) p (t.downloadEvents p.reads.length)
      (t.readState p (.audio t.jobId.text) (.audio t.wav)) :=
  run_of_read hpool hauth (hworld ▸ download_run hjobs)

theorem mem_users_of_submittedBy
    {u : User} {b : Job}
    (h : SubmittedBy d p u b) :
    u ∈ p.registrations.world.users := by
  obtain ⟨_, _, _, _, _, _, _, _, hauthorized⟩ := h
  exact mem_users_of_authorized hauthorized

/-- A user without an account has no jobs. -/
theorem pendingCount_of_fresh
    {userId : Uuid}
    (hrun : PlatformRun d es p)
    (hfresh : ∀ u, u ∈ p.registrations.world.users → u.id ≠ userId) :
    pendingCount p.service.world.jobs userId = 0 := by
  rw [pendingCount, List.countP_eq_zero]
  intro r hr hpending
  have hknown := known_of_run hrun
  obtain ⟨b, hb, _⟩ := onRecord_of_row hknown.service.1 hr
  obtain ⟨u, hid, hby⟩ := submittedBy_of_onRecord hknown (platformOk_of_run hrun) hb
  rw [isPending, Bool.and_eq_true, decide_eq_true_eq] at hpending
  exact hfresh u (mem_users_of_submittedBy hby) (hid.trans hpending.1)

end Stages

section Results

variable {d : PlatformDeps} {poolSize workers : Nat} {p : Platform} {es : List PlatformEvent}

/-- An answered submission occupies no connection and no worker, and leaves every other
entry of the queue in its worker's hands. -/
theorem capacity_of_submitted
    (t : SmokeTest d)
    (hqueue : HandedOut p.service t.jobId) :
    openTransactions (t.submittedState p).service = openTransactions p.service ∧
      busyWorkers (t.submittedState p).service = busyWorkers p.service ∧
        HandedOut (t.submittedState p).service t.jobId := by
  refine ⟨?_, ?_, ?_⟩
  · simp [openTransactions, SmokeTest.submittedState, List.countP_append, Proc.inTransaction,
      SmokeTest.committedAt, HandlerPc.inTransaction]
  · simp [busyWorkers, SmokeTest.submittedState, List.countP_append, Proc.working]
  · intro id hid hne
    have hmem : id ∈ p.service.world.queue := by
      have hadded : id ∈ (if t.jobId ∈ p.service.world.queue then p.service.world.queue
          else t.jobId :: p.service.world.queue) := hid
      split at hadded
      · exact hadded
      · exact (List.mem_cons.mp hadded).resolve_left hne
    have hworks := hqueue id hmem hne
    simp only [SmokeTest.submittedState, List.any_append, hworks, Bool.true_or]

/-- A delivery that is over occupies no connection. -/
theorem openTransactions_of_worked
    (t : SmokeTest d) :
    openTransactions (t.workedState p).service = openTransactions p.service := by
  simp [openTransactions, SmokeTest.workedState, List.countP_append, Proc.inTransaction]

/--
**The smoke test.**  From every reachable state of the platform, with any number of other
requests and deliveries standing at any of their awaits, the script passes, and its steps
find a connection of the pool and a worker: the account is registered and its key issued,
a submission without a key is answered 401 and changes nothing, the submission with the
key is accepted, a worker with the fake engine completes the job, the poll shows it as
completed, and the download is the engine's file, which is playable.
-/
theorem smoke_test_passes
    (hrun : PlatformRun d es p)
    (t : SmokeTest d)
    (hstart : t.CanStart poolSize workers p) :
    ∃ q, Machine.Run (platform d) (Possible poolSize workers) p (t.script p) q ∧
      t.Passed p q := by
  have hpending : pendingCount p.service.world.jobs t.userId <
      d.gateway.config.TTS_PENDING_CAP := by
    rw [pendingCount_of_fresh hrun hstart.userFresh]
    exact d.gateway.config.pendingCap_pos
  have hfree := hstart.connectionFree
  let p₁ := t.registeredState p hstart.emailFree
  let p₂ := t.issuedState p₁
  let p₃ := t.refusedState p₂
  let p₄ := t.submittedState p₃
  let p₅ := t.workedState p₄
  let p₆ := t.readState p₅ (.job t.jobId.text)
    (.job (serializeJob (t.completedJob p₄.service.world)))
  obtain ⟨hopen, hbusy, hqueue⟩ := capacity_of_submitted (p := p₃) t hstart.handedOut
  have hfree₄ : openTransactions p₄.service < poolSize := hopen.trans_lt hfree
  have hfree₅ : openTransactions p₅.service < poolSize :=
    (openTransactions_of_worked t).trans_lt hfree₄
  have hregister : Machine.Run (platform d) (Possible poolSize workers) p
      (t.registerEvents p.registrations.procs.length) p₁ :=
    register_stage hfree hstart.emailFree hstart.userFresh
  have hkey : Machine.Run (platform d) (Possible poolSize workers) p₁
      (t.keyEvents p.keyRequests.length) p₂ :=
    key_stage hfree (findUnique_insert_self hstart.emailFree) hstart.keyFresh
  have hissued : t.Authorizes p₂ := apiKeyAuth_of_created hstart.keyFresh
  have hrefused : (platform d).step p₂ t.anonymousEvent = some p₃ := rfl
  have hsubmit : Machine.Run (platform d) (Possible poolSize workers) p₃
      (t.submitEvents (p.submits.length + 1) p.service.procs.length) p₄ := by
    have hlength : p₃.submits.length = p.submits.length + 1 := List.length_append
    rw [← hlength]
    exact submit_stage hfree hissued hstart.lockFree hpending hstart.room hstart.jobFresh
  have hwork : Machine.Run (platform d) (Possible poolSize workers) p₄
      (t.workEvents (p.service.procs.length + 1)) p₅ := by
    have hlength : p₄.service.procs.length = p.service.procs.length + 1 := List.length_append
    rw [← hlength]
    exact work_stage hfree₄ (hbusy.trans_lt hstart.workerIdle) hqueue rfl
  have hpoll : Machine.Run (platform d) (Possible poolSize workers) p₅
      (t.pollEvents p.reads.length) p₆ :=
    poll_stage hfree₅ hissued rfl rfl
  have hreads : p₆.reads.length = p.reads.length + 1 := List.length_append
  have hdownload : Machine.Run (platform d) (Possible poolSize workers) p₆
      (t.downloadEvents (p.reads.length + 1))
      (t.readState p₆ (.audio t.jobId.text) (.audio t.wav)) := by
    rw [← hreads]
    exact download_stage hfree₅ hissued (w := p₄.service.world) rfl rfl
  have hposts : Machine.Run (platform d) (Possible poolSize workers) p₂ (t.anonymousEvent ::
      t.submitEvents (p.submits.length + 1) p.service.procs.length) p₄ :=
    Machine.run_step (possible_of_free hfree (by simp [SmokeTest.anonymousEvent])) hrefused hsubmit
  refine ⟨_, Machine.run_append (Machine.run_append (Machine.run_append (Machine.run_append
    (Machine.run_append hregister hkey) hposts) hwork) hpoll) hdownload, ?_⟩
  exact {
    registered := ⟨_, getElem?_last _ _, rfl, rfl⟩
    issued := ⟨_, getElem?_last _ _, rfl, rfl⟩
    turnedAway := ⟨t.refused, _, rfl, getElem?_spawn_of_some (getElem?_last _ _), fun _ => rfl⟩
    submitted := ⟨_, getElem?_spawn_of_some (getElem?_last _ _), rfl, rfl⟩
    completed := ⟨_, _, getElem?_spawn_of_some (getElem?_last _ _), rfl, rfl, rfl, rfl, rfl⟩
    downloaded := ⟨_, hreads ▸ getElem?_last _ _, rfl, rfl, rfl⟩
    isPlayable := t.playable_wav }

end Results

section Samples

theorem abs_zero_le_one : |(0 : ℚ)| ≤ 1 := by
  norm_num

def silence : MathSin where
  value := fun _ => 0
  bound := fun _ => abs_zero_le_one

def smokeCredentials : Credentials :=
  ⟨fromColumn "smoke@example.com", fromColumn "a sufficiently long password"⟩

def smokeRegistration : Option Json :=
  some (.obj [("email", .str (fromColumn "smoke@example.com")),
    ("password", .str (fromColumn "a sufficiently long password"))])

theorem registers_smoke :
    registerSchema samplePlatform.accounts smokeRegistration = .ok smokeCredentials := by
  rfl

theorem submits_sampleBody :
    submitSchema sampleBody = .ok [0x0995] := by
  rfl

theorem accepted_sampleBody :
    validateTtsText [0x0995] samplePlatform.gateway.config.TTS_MAX_TEXT_LENGTH = .ok () := by
  decide +kernel

theorem noNul_sampleBody :
    hasNul [0x0995] = false := by
  decide

theorem returned_silence :
    fakeSynthesize silence = .ok ((fakeSynthesize silence).toOption.getD []) := by
  obtain ⟨file, hfile, _⟩ := fake_recording silence
  rw [hfile]
  rfl

/-- A second user, beside the owner of the sample job. -/
def sampleSmokeTest : SmokeTest samplePlatform where
  registration := smokeRegistration
  credentials := smokeCredentials
  registers := registers_smoke
  salt := []
  userId := otherUserId
  secret := ⟨List.replicate 32 0xFB, sampleSecret_length⟩
  keyId := foreignKey
  anonymous := some (.obj [("text", .str [0x0078])])
  submission := sampleBody
  text := [0x0995]
  submits := submits_sampleBody
  accepted := accepted_sampleBody
  noNul := noNul_sampleBody
  jobId := otherJob
  sin := silence
  wav := (fakeSynthesize silence).toOption.getD []
  returned := returned_silence
  now := 7

/-- The sample user played a recording, whose entry has left the queue, and has another
submission under way whose transaction is open. -/
def besideAnother : List PlatformEvent :=
  recordingPlayed ++ .service (.env (.dequeue sampleJob)) ::
    postEvents 1 (some ownerHeader) sampleBody ++
      (handlerEvents 2 [.takeToken 1 0, .beginTx]).map .service

/-- The sample test passes with two connections and one worker, while another user's
transaction is open. -/
theorem smoke_test_passes_beside_another :
    ∃ p q : Platform, PlatformRun samplePlatform besideAnother p ∧
      openTransactions p.service = 1 ∧
        Machine.Run (platform samplePlatform) (Possible 2 1) p (sampleSmokeTest.script p) q ∧
          sampleSmokeTest.Passed p q := by
  have hexec : ((platform samplePlatform).exec (fun _ _ => true) Platform.initial
      besideAnother).any
      (fun p => decide (openTransactions p.service = 1 ∧
        p.registrations.world.findUnique "smoke@example.com" = none ∧
          (∀ u, u ∈ p.registrations.world.users → u.id ≠ otherUserId) ∧
            keyExists p.keys.rows foreignKey sampleSmokeTest.apiKey.keyHash = false ∧
              (∀ b, b ∈ p.service.world.born → b.2.id ≠ otherJob) ∧
                p.service.world.locks 0 = none ∧ queueDepth p.service.world < 100 ∧
                  p.service.world.queue = [] ∧ busyWorkers p.service = 0)) = true := by
    decide +kernel
  obtain ⟨p, hrun, hp⟩ := Machine.exists_anyRun_of_exec hexec
  obtain ⟨hopen, hemail, huser, hkey, hjob, hlock, hroom, hqueue, hbusy⟩ := of_decide_eq_true hp
  have haddress : toColumn sampleSmokeTest.credentials.email = "smoke@example.com" := by
    decide +kernel
  have hhanded : HandedOut p.service otherJob := by
    intro id hid
    rw [hqueue] at hid
    cases hid
  have hstart : sampleSmokeTest.CanStart 2 1 p :=
    ⟨haddress ▸ hemail, huser, hkey, hjob, hlock, hroom, hhanded,
      hopen.trans_lt Nat.one_lt_two, hbusy.trans_lt Nat.one_pos⟩
  obtain ⟨q, hscript, hpassed⟩ := smoke_test_passes hrun sampleSmokeTest hstart
  exact ⟨p, q, hrun, hopen, hscript, hpassed⟩

end Samples

end BengaliTts
