import BengaliTts.World
import BengaliTts.TtsText
import BengaliTts.Validation

/-!
# One submission

A `Handler` is one run of the `POST /v1/tts` route, after authentication, on any
of the gateways.  Its program counter names the `await` it stands at, with the
variables that are still in use there.  Between two awaits the code runs without
interruption, so one event is the answer to one awaited call together with the
code up to the next await.

What the events assume of the dependencies:
* a statement of PostgreSQL sees every row committed before it starts, and
  rows of other open transactions not at all;
* `pg_advisory_xact_lock` waits until no other transaction holds the key, and
  the end of the transaction releases it;
* an INSERT checks the unique index on `(user_id, idempotency_key)`; rows
  without a key never collide;
* a transaction that raises has been rolled back, and so has one whose gateway
  stopped; only a COMMIT may take effect although its reply is lost;
* `queue.add` takes effect at some point between its call and its return, or
  not at all, and may report a failure either way.
-/

namespace BengaliTts

open Lib

/-- A submission as the route receives it from an authenticated user. -/
structure SubmitRequest where
  user : Uuid
  idempotencyKey : Option HeaderValue
  body : Option Json

structure SubmissionBody where
  jobId : Uuid
  status : JobStatus
  statusUrl : String
  pollIntervalMs : Nat
deriving DecidableEq

abbrev SubmitResponse := Response SubmissionBody

/-- Where a submission stands. -/
inductive HandlerPc where
  /-- The replay lookup is next. -/
  | replaying
  /-- The lookup found a row; the retry is about to be answered from it. -/
  | replayFound (row : Job)
  /-- The token bucket is next. -/
  | rateGate
  /-- Every check on the request passed; the transaction is about to be opened. -/
  | opening (text : JsString)
  /-- The transaction is open; it asks for the user's advisory lock. -/
  | opened (text : JsString)
  /-- It holds the lock; the pending count is next. -/
  | locked (text : JsString)
  /-- It passed the pending gate; the queue depth is next. -/
  | counted (text : JsString)
  /-- It passed the capacity gate; the INSERT is next. -/
  | depthChecked (text : JsString)
  /-- The row is inserted; the COMMIT is next. -/
  | inserted (row : Job)
  /-- The transaction callback threw; the ROLLBACK is next. -/
  | aborting (thrown : Thrown)
  /-- Rolled back on a unique violation; the winner's row is looked up. -/
  | fallback
  /-- The winner's row was found; the retry is about to be answered from it. -/
  | fallbackFound (row : Job)
  /-- The row is committed; `queue.add` is next. -/
  | committed
  /-- `queue.add` is under way; the flag says whether it took effect yet. -/
  | adding (tookEffect : Bool)
  /-- `queue.add` returned; the submission is about to be accepted. -/
  | enqueued
  /-- `queue.add` raised; the row is about to be deleted. -/
  | cleanup
  | answered (response : SubmitResponse)
  /-- The gateway process stopped. -/
  | stopped
deriving DecidableEq

structure Handler where
  user : Uuid
  /-- `idempotencyKey` of the route, once the header was read. -/
  key : Option String
  body : Option Json
  /-- The row that the transaction committed: the variable `job`, unless the reply of the
  COMMIT was lost and the code never gets to it. -/
  job : Option Job
  pc : HandlerPc

/-- What happens at the await where a submission stands. -/
inductive HandlerEvent where
  | findReplay
  | answerReplay
  /-- The token bucket script answers `{allowed, retry_after_ms}`. -/
  | takeToken (allowed retryAfterMs : Nat)
  | beginTx
  | lock
  | count
  | readDepth
  | create (id : Uuid) (createdAt : Nat)
  | commit
  /-- The COMMIT takes effect, and its reply is lost. -/
  | commitReplyLost
  | rollback
  | findWinner
  | answerWinner
  | callAdd
  | addTakesEffect
  | addReturns
  | addRaises
  | deleteRow
  | deleteRowRaises (tookEffect : Bool)
  | accept
  /-- The awaited call to a store raises without effect. -/
  | fault
  /-- The gateway process stops. -/
  | stop
deriving DecidableEq

section Answers

def submissionBody (d : Deps) (job : Job) : SubmissionBody where
  jobId := job.id
  status := job.status
  statusUrl := "/v1/jobs/" ++ job.id.text
  pollIntervalMs := d.config.POLL_INTERVAL_MS

/-- A retry with the original text replays the stored job; the same key with
different input text is a conflict. -/
def respondForIdempotentRetry (d : Deps) (job : Job) (body : Option Json) :
    SubmitResponse :=
  match validate submitSchema body with
  | .error error => errorHandler (.domain error)
  | .ok text =>
      if text ≠ fromColumn job.inputText then
        errorHandler (.domain .idempotencyConflict)
      else
        .success 200 (submissionBody d job)

end Answers

/-- The gateway's side of the token bucket: what the script's answer means. -/
def takeRateLimitToken (allowed retryAfterMs : Nat) : Except DomainError Unit :=
  if allowed ≠ 1 then
    .error (.rateLimited (max 1 ((retryAfterMs + 999) / 1000)))
  else
    .ok ()

/-- The row of a user's idempotency key. -/
def findByKey (jobs : List Job) (user : Uuid) (key : String) : Option Job :=
  jobs.find? fun r => decide (r.userId = user ∧ r.idempotencyKey = some key)

/-- The row that a submission inserts. -/
def insertedRow (h : Handler) (text : JsString) (id : Uuid) (createdAt : Nat) : Job :=
  newJob id h.user (toColumn text) h.key createdAt

/-- The row would break the unique index on `(user_id, idempotency_key)`. -/
def violatesUnique (jobs : List Job) (row : Job) : Bool :=
  match row.idempotencyKey with
  | none => false
  | some key => (findByKey jobs row.userId key).isSome

/-- The advisory lock key of a user. -/
def Deps.lockKey (d : Deps) (user : Uuid) : Int :=
  d.hashtext user.text

/-- The end of a transaction releases the locks it holds. -/
def World.releaseLocks (w : World) (i : Nat) : World :=
  { w with locks := fun k => if w.locks k = some i then none else w.locks k }

def World.takeLock (w : World) (i : Nat) (k : Int) : World :=
  { w with locks := fun k' => if k' = k then some i else w.locks k' }

def World.insertRow (w : World) (i : Nat) (row : Job) : World :=
  { w with born := (i, row) :: w.born }

def World.commitRow (w : World) (row : Job) : World :=
  { w with jobs := row :: w.jobs, everCommitted := row.id :: w.everCommitted }

def World.deleteJob (w : World) (id : Uuid) : World :=
  { w with jobs := deleteWhere (fun r => decide (r.id = id)) w.jobs }

/-- `queue.add` was called. -/
def World.callAdd (w : World) (id : Uuid) : World :=
  { w with addCalls := id :: w.addCalls }

/-- `queue.add` took effect; an entry with the same id is not added twice. -/
def World.addEntry (w : World) (id : Uuid) : World :=
  { w with
    queue := if id ∈ w.queue then w.queue else id :: w.queue
    added := id :: w.added }

/-- `queueDepth`. -/
def queueDepth (w : World) : Nat :=
  w.queue.length

/-- The route up to its first await. -/
def Handler.start (r : SubmitRequest) : Handler :=
  match readIdempotencyKey r.idempotencyKey with
  | .error error =>
      ⟨r.user, none, r.body, none, .answered (errorHandler (.domain error))⟩
  | .ok none =>
      ⟨r.user, none, r.body, none, .rateGate⟩
  | .ok (some key) =>
      ⟨r.user, some key, r.body, none, .replaying⟩

/-- The code between the token bucket and the transaction. -/
def afterToken (d : Deps) (h : Handler) (allowed retryAfterMs : Nat) : HandlerPc :=
  match takeRateLimitToken allowed retryAfterMs with
  | .error error => .answered (errorHandler (.domain error))
  | .ok () =>
      match validate submitSchema h.body with
      | .error error => .answered (errorHandler (.domain error))
      | .ok text =>
          match validateTtsText text d.config.TTS_MAX_TEXT_LENGTH with
          | .error error => .answered (errorHandler (.domain error))
          | .ok () => .opening text

/-- After the ROLLBACK: the unique violation of a keyed submission is answered
from the winner's row, everything else is thrown on. -/
def afterRollback (h : Handler) (thrown : Thrown) : HandlerPc :=
  if h.key.isSome ∧ thrown = .uniqueViolation then
    .fallback
  else
    .answered (errorHandler thrown)

/-- Where an await that raises leads; `none` where nothing is awaited. -/
def afterFault : HandlerPc → Option HandlerPc
  | .replaying => some (.answered (errorHandler .fault))
  | .rateGate => some (.answered (errorHandler .fault))
  | .opening _ => some (.answered (errorHandler .fault))
  | .opened _ => some (.aborting .fault)
  | .locked _ => some (.aborting .fault)
  | .counted _ => some (.aborting .fault)
  | .depthChecked _ => some (.aborting .fault)
  | .inserted _ => some (.aborting .fault)
  | .fallback => some (.answered (errorHandler .fault))
  | _ => none

/-- A submission that was neither answered nor stopped. -/
def HandlerPc.running : HandlerPc → Bool
  | .answered _ => false
  | .stopped => false
  | _ => true

/-- One atomic step of submission `i`. -/
def Handler.act (d : Deps) (i : Nat) (w : World) (h : Handler) (e : HandlerEvent) :
    Option (World × Handler) :=
  match h.pc, e with
  | .replaying, .findReplay =>
      match h.key.bind (findByKey w.jobs h.user) with
      | some row => some (w, { h with pc := .replayFound row })
      | none => some (w, { h with pc := .rateGate })
  | .replayFound row, .answerReplay =>
      some (w, { h with pc := .answered (respondForIdempotentRetry d row h.body) })
  | .rateGate, .takeToken allowed retryAfterMs =>
      some (w, { h with pc := afterToken d h allowed retryAfterMs })
  | .opening text, .beginTx =>
      some (w, { h with pc := .opened text })
  | .opened text, .lock =>
      if w.locks (d.lockKey h.user) = none then
        some (w.takeLock i (d.lockKey h.user), { h with pc := .locked text })
      else
        none
  | .locked text, .count =>
      if pendingCount w.jobs h.user ≥ d.config.TTS_PENDING_CAP then
        some (w, { h with pc := .aborting (.domain .pendingCapExceeded) })
      else
        some (w, { h with pc := .counted text })
  | .counted text, .readDepth =>
      if queueDepth w ≥ d.config.TTS_QUEUE_CAPACITY then
        some (w, { h with pc := .aborting (.domain .queueFull) })
      else
        some (w, { h with pc := .depthChecked text })
  | .depthChecked text, .create id createdAt =>
      if (w.born.any fun b => decide (b.2.id = id)) = true then
        none
      else if hasNul text = true then
        some (w, { h with pc := .aborting .fault })
      else if violatesUnique w.jobs (insertedRow h text id createdAt) = true then
        some (w, { h with pc := .aborting .uniqueViolation })
      else
        some (w.insertRow i (insertedRow h text id createdAt),
          { h with pc := .inserted (insertedRow h text id createdAt) })
  | .inserted row, .commit =>
      some ((w.commitRow row).releaseLocks i, { h with job := some row, pc := .committed })
  | .inserted row, .commitReplyLost =>
      some ((w.commitRow row).releaseLocks i,
        { h with job := some row, pc := .answered (errorHandler .fault) })
  | .aborting thrown, .rollback =>
      some (w.releaseLocks i, { h with pc := afterRollback h thrown })
  | .fallback, .findWinner =>
      match h.key.bind (findByKey w.jobs h.user) with
      | some row => some (w, { h with pc := .fallbackFound row })
      | none => some (w, { h with pc := .answered (errorHandler .uniqueViolation) })
  | .fallbackFound row, .answerWinner =>
      some (w, { h with pc := .answered (respondForIdempotentRetry d row h.body) })
  | .committed, .callAdd =>
      h.job.map fun job => (w.callAdd job.id, { h with pc := .adding false })
  | .adding false, .addTakesEffect =>
      h.job.map fun job => (w.addEntry job.id, { h with pc := .adding true })
  | .adding true, .addReturns =>
      some (w, { h with pc := .enqueued })
  | .adding _, .addRaises =>
      some (w, { h with pc := .cleanup })
  | .cleanup, .deleteRow =>
      h.job.map fun job =>
        (w.deleteJob job.id, { h with pc := .answered (errorHandler .fault) })
  | .cleanup, .deleteRowRaises tookEffect =>
      h.job.map fun job =>
        (if tookEffect then w.deleteJob job.id else w,
          { h with pc := .answered (errorHandler .fault) })
  | .enqueued, .accept =>
      h.job.map fun job =>
        (w, { h with pc := .answered (.success 202 (submissionBody d job)) })
  | pc, .fault =>
      (afterFault pc).map fun pc' => (w, { h with pc := pc' })
  | pc, .stop =>
      if pc.running then
        some (w.releaseLocks i, { h with pc := .stopped })
      else
        none
  | _, _ => none

/-- What `findFirst` on a user's key can return. -/
theorem findByKey_eq_some
    {jobs : List Job} {user : Uuid} {key : Option String} {row : Job}
    (h : key.bind (findByKey jobs user) = some row) :
    row ∈ jobs ∧ row.userId = user ∧ ∃ k, key = some k ∧ row.idempotencyKey = some k := by
  obtain ⟨k, rfl, hk⟩ := Option.bind_eq_some_iff.mp h
  have hmem := List.mem_of_find?_eq_some hk
  have hprop := List.find?_some hk
  simp only [decide_eq_true_eq] at hprop
  exact ⟨hmem, hprop.1, k, rfl, hprop.2⟩

/-- No row of a user carries the key when `findFirst` returns nothing. -/
theorem findByKey_eq_none
    {jobs : List Job} {user : Uuid} {key : String} {row : Job}
    (h : findByKey jobs user key = none)
    (hrow : row ∈ jobs)
    (huser : row.userId = user) :
    row.idempotencyKey ≠ some key := by
  have hne := List.find?_eq_none.mp h row hrow
  intro hkey
  exact hne (by simp [huser, hkey])

/-- A row that the unique index admits shares its key with no row of the user. -/
theorem key_ne_of_not_violatesUnique
    {jobs : List Job} {row r : Job} {key : String}
    (h : violatesUnique jobs row = false)
    (hkey : row.idempotencyKey = some key)
    (hr : r ∈ jobs)
    (huser : r.userId = row.userId) :
    r.idempotencyKey ≠ some key := by
  unfold violatesUnique at h
  rw [hkey] at h
  simp only [Option.isSome_eq_false_iff, Option.isNone_iff_eq_none] at h
  exact findByKey_eq_none h hr huser

/-- Every answer of a retry is a failure or the 200 that names the stored job. -/
theorem respondForIdempotentRetry_cases
    (d : Deps) (job : Job) (body : Option Json) :
    (∃ error, validate submitSchema body = .error error ∧
        respondForIdempotentRetry d job body = errorHandler (.domain error)) ∨
      (∃ text, validate submitSchema body = .ok text ∧ text ≠ fromColumn job.inputText ∧
        respondForIdempotentRetry d job body =
          errorHandler (.domain .idempotencyConflict)) ∨
      (∃ text, validate submitSchema body = .ok text ∧ text = fromColumn job.inputText ∧
        respondForIdempotentRetry d job body = .success 200 (submissionBody d job)) := by
  unfold respondForIdempotentRetry
  cases hv : validate submitSchema body with
  | error error =>
      exact Or.inl ⟨error, rfl, rfl⟩
  | ok text =>
      right
      by_cases ht : text = fromColumn job.inputText
      · exact Or.inr ⟨text, rfl, ht, by simp [ht]⟩
      · exact Or.inl ⟨text, rfl, ht, by simp [ht]⟩

theorem takeRateLimitToken_error
    {allowed retryAfterMs : Nat} {error : DomainError}
    (h : takeRateLimitToken allowed retryAfterMs = .error error) :
    error ≠ .idempotencyConflict := by
  unfold takeRateLimitToken at h
  split at h <;> cases h
  simp

theorem validate_error
    {τ : Type} {schema : Option Json → Except (List Issue) τ} {body : Option Json}
    {error : DomainError}
    (h : validate schema body = .error error) :
    error ≠ .idempotencyConflict := by
  unfold validate at h
  split at h <;> cases h
  simp

theorem validateTtsText_error
    {text : JsString} {maxLength : Nat} {error : DomainError}
    (h : validateTtsText text maxLength = .error error) :
    error ≠ .idempotencyConflict := by
  unfold validateTtsText at h
  split at h
  · cases h
    simp
  · split at h
    · cases h
      simp
    · split at h
      · cases h
        simp
      · cases h

/-- After the token bucket a submission is refused, though not as a conflict, or
its body is a valid text. -/
theorem afterToken_cases
    (d : Deps) (h : Handler) (allowed retryAfterMs : Nat) :
    (∃ error, error ≠ .idempotencyConflict ∧
        afterToken d h allowed retryAfterMs = .answered (errorHandler (.domain error))) ∨
      (∃ text, afterToken d h allowed retryAfterMs = .opening text ∧
        validate submitSchema h.body = .ok text ∧
        validateTtsText text d.config.TTS_MAX_TEXT_LENGTH = .ok ()) := by
  unfold afterToken
  cases hr : takeRateLimitToken allowed retryAfterMs with
  | error error =>
      exact Or.inl ⟨error, takeRateLimitToken_error hr, rfl⟩
  | ok _ =>
      cases hv : validate submitSchema h.body with
      | error error =>
          exact Or.inl ⟨error, validate_error hv, rfl⟩
      | ok text =>
          cases ht : validateTtsText text d.config.TTS_MAX_TEXT_LENGTH with
          | error error =>
              exact Or.inl ⟨error, validateTtsText_error ht, by simp [ht]⟩
          | ok _ =>
              exact Or.inr ⟨text, by simp [ht], rfl, ht⟩

/-- An await that raises ends the submission with an error, or its transaction. -/
theorem afterFault_cases
    {pc pc' : HandlerPc}
    (hf : afterFault pc = some pc') :
    pc' = .answered (errorHandler .fault) ∨ pc' = .aborting .fault := by
  cases pc <;> simp only [afterFault, Option.some.injEq, reduceCtorEq] at hf <;> subst hf
  case opened => exact Or.inr rfl
  case locked => exact Or.inr rfl
  case counted => exact Or.inr rfl
  case depthChecked => exact Or.inr rfl
  case inserted => exact Or.inr rfl
  all_goals exact Or.inl rfl

theorem afterRollback_cases
    (h : Handler) (thrown : Thrown) :
    (h.key.isSome = true ∧ thrown = .uniqueViolation ∧
        afterRollback h thrown = .fallback) ∨
      afterRollback h thrown = .answered (errorHandler thrown) := by
  unfold afterRollback
  split
  · next hc => exact Or.inl ⟨hc.1, hc.2, rfl⟩
  · exact Or.inr rfl

/-- The steps of a submission that leave every store as it is. -/
inductive HandlerMove (d : Deps) (w : World) (h : Handler) :
    HandlerPc → HandlerEvent → HandlerPc → Prop
  | replayFound {row : Job} (hrow : h.key.bind (findByKey w.jobs h.user) = some row) :
      HandlerMove d w h .replaying .findReplay (.replayFound row)
  | replayMissing (hrow : h.key.bind (findByKey w.jobs h.user) = none) :
      HandlerMove d w h .replaying .findReplay .rateGate
  | answerReplay (row : Job) :
      HandlerMove d w h (.replayFound row) .answerReplay
        (.answered (respondForIdempotentRetry d row h.body))
  | takeToken (allowed retryAfterMs : Nat) :
      HandlerMove d w h .rateGate (.takeToken allowed retryAfterMs)
        (afterToken d h allowed retryAfterMs)
  | beginTx (text : JsString) :
      HandlerMove d w h (.opening text) .beginTx (.opened text)
  | pendingCap (text : JsString)
      (hcap : d.config.TTS_PENDING_CAP ≤ pendingCount w.jobs h.user) :
      HandlerMove d w h (.locked text) .count (.aborting (.domain .pendingCapExceeded))
  | counted (text : JsString)
      (hcap : pendingCount w.jobs h.user < d.config.TTS_PENDING_CAP) :
      HandlerMove d w h (.locked text) .count (.counted text)
  | queueFull (text : JsString)
      (hdepth : d.config.TTS_QUEUE_CAPACITY ≤ queueDepth w) :
      HandlerMove d w h (.counted text) .readDepth (.aborting (.domain .queueFull))
  | depthChecked (text : JsString)
      (hdepth : queueDepth w < d.config.TTS_QUEUE_CAPACITY) :
      HandlerMove d w h (.counted text) .readDepth (.depthChecked text)
  | rejectNul (text : JsString) (id : Uuid) (createdAt : Nat) (hnul : hasNul text = true) :
      HandlerMove d w h (.depthChecked text) (.create id createdAt) (.aborting .fault)
  | rejectDuplicate (text : JsString) (id : Uuid) (createdAt : Nat)
      (hdup : violatesUnique w.jobs (insertedRow h text id createdAt) = true) :
      HandlerMove d w h (.depthChecked text) (.create id createdAt)
        (.aborting .uniqueViolation)
  | winnerFound {row : Job} (hrow : h.key.bind (findByKey w.jobs h.user) = some row) :
      HandlerMove d w h .fallback .findWinner (.fallbackFound row)
  | winnerMissing (hrow : h.key.bind (findByKey w.jobs h.user) = none) :
      HandlerMove d w h .fallback .findWinner (.answered (errorHandler .uniqueViolation))
  | answerWinner (row : Job) :
      HandlerMove d w h (.fallbackFound row) .answerWinner
        (.answered (respondForIdempotentRetry d row h.body))
  | addReturns :
      HandlerMove d w h (.adding true) .addReturns .enqueued
  | addRaises (tookEffect : Bool) :
      HandlerMove d w h (.adding tookEffect) .addRaises .cleanup
  | deleteRaises (job : Job) (hjob : h.job = some job) :
      HandlerMove d w h .cleanup (.deleteRowRaises false) (.answered (errorHandler .fault))
  | accept (job : Job) (hjob : h.job = some job) :
      HandlerMove d w h .enqueued .accept
        (.answered (.success 202 (submissionBody d job)))
  | fault {pc pc' : HandlerPc} (hf : afterFault pc = some pc') :
      HandlerMove d w h pc .fault pc'

/-- Everything one step of a submission can do. -/
inductive HandlerStep (d : Deps) (i : Nat) (w : World) (h : Handler) :
    HandlerPc → HandlerEvent → World → Handler → Prop
  | move {pc pc' : HandlerPc} {e : HandlerEvent} (hm : HandlerMove d w h pc e pc') :
      HandlerStep d i w h pc e w { h with pc := pc' }
  | lock (text : JsString) (hfree : w.locks (d.lockKey h.user) = none) :
      HandlerStep d i w h (.opened text) .lock (w.takeLock i (d.lockKey h.user))
        { h with pc := .locked text }
  | insert (text : JsString) (id : Uuid) (createdAt : Nat)
      (hfresh : ∀ b, b ∈ w.born → b.2.id ≠ id)
      (hnul : hasNul text = false)
      (hunique : violatesUnique w.jobs (insertedRow h text id createdAt) = false) :
      HandlerStep d i w h (.depthChecked text) (.create id createdAt)
        (w.insertRow i (insertedRow h text id createdAt))
        { h with pc := .inserted (insertedRow h text id createdAt) }
  | commit (row : Job) :
      HandlerStep d i w h (.inserted row) .commit ((w.commitRow row).releaseLocks i)
        { h with job := some row, pc := .committed }
  | commitReplyLost (row : Job) :
      HandlerStep d i w h (.inserted row) .commitReplyLost ((w.commitRow row).releaseLocks i)
        { h with job := some row, pc := .answered (errorHandler .fault) }
  | rollback (thrown : Thrown) :
      HandlerStep d i w h (.aborting thrown) .rollback (w.releaseLocks i)
        { h with pc := afterRollback h thrown }
  | callAdd (job : Job) (hjob : h.job = some job) :
      HandlerStep d i w h .committed .callAdd (w.callAdd job.id)
        { h with pc := .adding false }
  | addTakesEffect (job : Job) (hjob : h.job = some job) :
      HandlerStep d i w h (.adding false) .addTakesEffect (w.addEntry job.id)
        { h with pc := .adding true }
  | deleteRow (job : Job) (hjob : h.job = some job) {e : HandlerEvent}
      (he : e = .deleteRow ∨ e = .deleteRowRaises true) :
      HandlerStep d i w h .cleanup e (w.deleteJob job.id)
        { h with pc := .answered (errorHandler .fault) }
  | stop {pc : HandlerPc} (hr : pc.running = true) :
      HandlerStep d i w h pc .stop (w.releaseLocks i) { h with pc := .stopped }

/-- **Inversion.**  A step of a submission is one of `HandlerStep`. -/
theorem handlerStep_of_act
    {d : Deps} {i : Nat} {w w' : World} {h h' : Handler} {e : HandlerEvent}
    (hact : h.act d i w e = some (w', h')) :
    HandlerStep d i w h h.pc e w' h' := by
  obtain ⟨user, key, body, job, pc⟩ := h
  unfold Handler.act at hact
  dsimp only at hact ⊢
  split at hact
  case h_1 =>
      split at hact
      · next row hrow =>
          cases hact
          exact .move (.replayFound hrow)
      · next hrow =>
          cases hact
          exact .move (.replayMissing hrow)
  case h_2 row =>
      cases hact
      exact .move (.answerReplay row)
  case h_3 allowed retryAfterMs =>
      cases hact
      exact .move (.takeToken allowed retryAfterMs)
  case h_4 text =>
      cases hact
      exact .move (.beginTx text)
  case h_5 text =>
      split at hact
      · next hfree =>
          cases hact
          exact .lock text hfree
      · cases hact
  case h_6 text =>
      split at hact
      · next hcap =>
          cases hact
          exact .move (.pendingCap text hcap)
      · next hcap =>
          cases hact
          exact .move (.counted text (not_le.mp hcap))
  case h_7 text =>
      split at hact
      · next hdepth =>
          cases hact
          exact .move (.queueFull text hdepth)
      · next hdepth =>
          cases hact
          exact .move (.depthChecked text (not_le.mp hdepth))
  case h_8 text id createdAt =>
      split at hact
      · cases hact
      · next hfresh =>
          split at hact
          · next hnul =>
              cases hact
              exact .move (.rejectNul text id createdAt hnul)
          · next hnul =>
              split at hact
              · next hdup =>
                  cases hact
                  exact .move (.rejectDuplicate text id createdAt hdup)
              · next hdup =>
                  cases hact
                  refine .insert text id createdAt ?_ (by simpa using hnul) (by simpa using hdup)
                  intro b hb hid
                  exact hfresh (List.any_eq_true.mpr ⟨b, hb, by simpa using hid⟩)
  case h_9 row =>
      cases hact
      exact .commit row
  case h_10 row =>
      cases hact
      exact .commitReplyLost row
  case h_11 thrown =>
      cases hact
      exact .rollback thrown
  case h_12 =>
      split at hact
      · next row hrow =>
          cases hact
          exact .move (.winnerFound hrow)
      · next hrow =>
          cases hact
          exact .move (.winnerMissing hrow)
  case h_13 row =>
      cases hact
      exact .move (.answerWinner row)
  case h_14 =>
      obtain ⟨job, hjob, hnext⟩ := Option.map_eq_some_iff.mp hact
      cases hnext
      exact .callAdd job hjob
  case h_15 =>
      obtain ⟨job, hjob, hnext⟩ := Option.map_eq_some_iff.mp hact
      cases hnext
      exact .addTakesEffect job hjob
  case h_16 =>
      cases hact
      exact .move .addReturns
  case h_17 tookEffect =>
      cases hact
      exact .move (.addRaises tookEffect)
  case h_18 =>
      obtain ⟨job, hjob, hnext⟩ := Option.map_eq_some_iff.mp hact
      cases hnext
      exact .deleteRow job hjob (Or.inl rfl)
  case h_19 tookEffect =>
      obtain ⟨job, hjob, hnext⟩ := Option.map_eq_some_iff.mp hact
      cases tookEffect with
      | false =>
          cases hnext
          exact .move (.deleteRaises job hjob)
      | true =>
          cases hnext
          exact .deleteRow job hjob (Or.inr rfl)
  case h_20 =>
      obtain ⟨job, hjob, hnext⟩ := Option.map_eq_some_iff.mp hact
      cases hnext
      exact .move (.accept job hjob)
  case h_21 =>
      obtain ⟨pc', hf, hnext⟩ := Option.map_eq_some_iff.mp hact
      cases hnext
      exact .move (.fault hf)
  case h_22 =>
      split at hact
      · next hr =>
          cases hact
          exact .stop hr
      · cases hact
  case h_23 =>
      cases hact

/-- An answered submission takes no step. -/
theorem no_step_of_answered
    {d : Deps} {i : Nat} {w w' : World} {h h' : Handler} {response : SubmitResponse}
    {e : HandlerEvent}
    (hs : HandlerStep d i w h (.answered response) e w' h') :
    False := by
  cases hs with
  | move hm =>
      cases hm with
      | fault hf => cases hf
  | stop hr => cases hr

end BengaliTts
