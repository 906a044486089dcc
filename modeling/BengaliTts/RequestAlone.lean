import BengaliTts.Service
import BengaliTts.Registration

/-!
# One request alone

A submission or a registration that runs while no other request does, with stores that
answer: its events come in the order in which the route awaits them, and those that the
request never waits for are skipped (`Machine.offer`).  What remains is a run of the
same machine that the races are about.

Main results:
* `submitAlone_run`, `registerAlone_run`: that run;
* `submitAlone_answer`: a submission alone is answered, with a status below 500 or with
  QUEUE_FULL, unless it inserts a text that contains NUL;
* `registerAlone_answer`: a registration alone is answered with a status below 500.
-/

namespace BengaliTts

open Lib

section Status

variable {β : Type}

def Response.status : Response β → Nat
  | .success status _ => status
  | .failure status _ _ => status

/-- The answer is no server error, or it says that the queue is full. -/
def BelowServerError (response : Response β) : Prop :=
  response.status < 500 ∨ response = errorHandler (.domain .queueFull)

theorem belowServerError_domain
    (error : DomainError) :
    BelowServerError (errorHandler (.domain error) : Response β) := by
  rcases (toRendering_status error).2 with hlt | h503
  · exact Or.inl hlt
  · cases error <;> first | exact Or.inr rfl | cases h503

theorem belowServerError_success
    {status : Nat} {body : β}
    (h : status < 500) :
    BelowServerError (.success status body) :=
  Or.inl h

/-- A fault is answered 500. -/
theorem not_belowServerError_fault :
    ¬ BelowServerError (errorHandler .fault : Response β) := by
  rintro (hlt | hfull)
  · exact absurd hlt (by simp [errorHandler, Response.status])
  · simp [errorHandler, toRendering] at hfull

end Status

section Submission

variable {d : Deps} {w : World}

/-- One submission with the stores. -/
def submissionMachine (d : Deps) : Machine (World × Handler) HandlerEvent where
  step := fun s e => s.2.act d 0 s.1 e

/-- The lookup of a keyed submission and the answer from the row. -/
def replayEvents : List HandlerEvent :=
  [.findReplay, .answerReplay]

/-- The transaction, up to the INSERT and the COMMIT. -/
def transactionEvents (id : Uuid) (createdAt : Nat) : List HandlerEvent :=
  [.beginTx, .lock, .count, .readDepth, .create id createdAt, .commit]

/-- Everything that the stores answer to a submission, in the order of the route. -/
def submissionEvents (allowed retryAfterMs : Nat) (id : Uuid) (createdAt : Nat) :
    List HandlerEvent :=
  replayEvents ++ ([.takeToken allowed retryAfterMs] ++
    (transactionEvents id createdAt ++ ([.rollback, .findWinner, .answerWinner] ++
      [.callAdd, .addTakesEffect, .addReturns, .accept])))

/-- A submission that runs alone. -/
def submitAlone (d : Deps) (w : World) (r : SubmitRequest) (allowed retryAfterMs : Nat)
    (id : Uuid) (createdAt : Nat) : World × Handler :=
  (submissionMachine d).offer (submissionEvents allowed retryAfterMs id createdAt)
    (w, Handler.start r)

/-- The submission passes every gate, so that it inserts this text. -/
structure ReachesInsert (d : Deps) (w : World) (r : SubmitRequest) (allowed : Nat)
    (text : JsString) : Prop where
  newKey : ∃ key, readIdempotencyKey r.idempotencyKey = .ok key ∧
    key.bind (findByKey w.jobs r.user) = none
  token : allowed = 1
  schema : validate submitSchema r.body = .ok text
  rules : validateTtsText text d.config.TTS_MAX_TEXT_LENGTH = .ok ()
  pending : pendingCount w.jobs r.user < d.config.TTS_PENDING_CAP
  depth : queueDepth w < d.config.TTS_QUEUE_CAPACITY

/-- An answered submission waits for nothing. -/
theorem offer_answered
    {h : Handler} {response : SubmitResponse}
    (hpc : h.pc = .answered response)
    (es : List HandlerEvent) :
    (submissionMachine d).offer es (w, h) = (w, h) := by
  refine Machine.offer_of_stuck (fun e => ?_) es
  rw [Option.eq_none_iff_forall_ne_some]
  rintro ⟨w', h'⟩ hact
  have hstep := handlerStep_of_act hact
  rw [hpc] at hstep
  exact no_step_of_answered hstep

/-- What the lookup leaves: an answer, or a submission at the token bucket. -/
theorem offer_replay
    (r : SubmitRequest) :
    (∃ h response, (submissionMachine d).offer replayEvents (w, Handler.start r) = (w, h) ∧
        h.pc = .answered response ∧ BelowServerError response ∧
          ∀ key, readIdempotencyKey r.idempotencyKey = .ok key →
            key.bind (findByKey w.jobs r.user) ≠ none) ∨
      ∃ key, readIdempotencyKey r.idempotencyKey = .ok key ∧
        key.bind (findByKey w.jobs r.user) = none ∧
          (submissionMachine d).offer replayEvents (w, Handler.start r) =
            (w, ⟨r.user, key, r.body, none, .rateGate⟩) := by
  cases hkey : readIdempotencyKey r.idempotencyKey with
  | error error =>
      left
      have hstart : Handler.start r =
          ⟨r.user, none, r.body, none, .answered (errorHandler (.domain error))⟩ := by
        rw [Handler.start, hkey]
      rw [hstart, offer_answered rfl]
      exact ⟨_, _, rfl, rfl, belowServerError_domain error, nofun⟩
  | ok key =>
      cases key with
      | none =>
          right
          refine ⟨none, rfl, rfl, ?_⟩
          have hstart : Handler.start r = ⟨r.user, none, r.body, none, .rateGate⟩ := by
            rw [Handler.start, hkey]
          rw [hstart]
          rfl
      | some key =>
          have hstart : Handler.start r = ⟨r.user, some key, r.body, none, .replaying⟩ := by
            rw [Handler.start, hkey]
          rw [hstart]
          cases hfind : findByKey w.jobs r.user key with
          | none =>
              right
              refine ⟨some key, rfl, hfind, ?_⟩
              simp [replayEvents, Machine.offer, submissionMachine, Handler.act, hfind]
          | some row =>
              left
              refine ⟨⟨r.user, some key, r.body, none,
                .answered (respondForIdempotentRetry d row r.body)⟩, _, ?_, rfl, ?_, ?_⟩
              · simp [replayEvents, Machine.offer, submissionMachine, Handler.act, hfind]
              · rcases respondForIdempotentRetry_cases d row r.body with
                  ⟨error, _, h⟩ | ⟨_, _, _, h⟩ | ⟨_, _, _, h⟩
                · rw [h]
                  exact belowServerError_domain error
                · rw [h]
                  exact belowServerError_domain _
                · rw [h]
                  exact belowServerError_success (by decide)
              · rintro _ ⟨⟩
                simp [hfind]

/-- With the advisory lock free, the transaction gets to its pending count. -/
theorem offer_locked
    (user : Uuid) (key : Option String) (body : Option Json) (job : Option Job)
    (text : JsString) (es : List HandlerEvent)
    (hlocks : ∀ k, w.locks k = none) :
    (submissionMachine d).offer ([.beginTx, .lock] ++ es)
        (w, ⟨user, key, body, job, .opening text⟩) =
      (submissionMachine d).offer es
        (w.takeLock 0 (d.lockKey user), ⟨user, key, body, job, .locked text⟩) := by
  have hlock : (submissionMachine d).step (w, ⟨user, key, body, job, .opened text⟩) .lock =
      some (w.takeLock 0 (d.lockKey user), ⟨user, key, body, job, .locked text⟩) :=
    if_pos (hlocks _)
  exact Machine.offer_cons hlock es

/-- The transaction of a submission that a gate refuses. -/
theorem offer_refused
    {h : Handler} {text : JsString}
    (hlocks : ∀ k, w.locks k = none)
    (hpc : h.pc = .opening text)
    (hgate : pendingCount w.jobs h.user < d.config.TTS_PENDING_CAP →
      ¬ queueDepth w < d.config.TTS_QUEUE_CAPACITY)
    (id : Uuid) (createdAt : Nat) :
    ∃ w' error, (submissionMachine d).offer (transactionEvents id createdAt) (w, h) =
      (w', { h with pc := .aborting (.domain error) }) := by
  obtain ⟨user, key, body, job, pc⟩ := h
  cases hpc
  refine ⟨w.takeLock 0 (d.lockKey user), ?_⟩
  have hstart := offer_locked (d := d) user key body job text
    [.count, .readDepth, .create id createdAt, .commit] hlocks
  by_cases hpending : pendingCount w.jobs user < d.config.TTS_PENDING_CAP
  · have hcount : (submissionMachine d).step
        (w.takeLock 0 (d.lockKey user), ⟨user, key, body, job, .locked text⟩) .count =
          some (w.takeLock 0 (d.lockKey user), ⟨user, key, body, job, .counted text⟩) :=
      if_neg (Nat.not_le.mpr hpending)
    have hdepth : (submissionMachine d).step
        (w.takeLock 0 (d.lockKey user), ⟨user, key, body, job, .counted text⟩) .readDepth =
          some (w.takeLock 0 (d.lockKey user),
            ⟨user, key, body, job, .aborting (.domain .queueFull)⟩) :=
      if_pos (Nat.not_lt.mp (hgate hpending))
    exact ⟨.queueFull, hstart.trans
      ((Machine.offer_cons hcount _).trans (Machine.offer_cons hdepth _))⟩
  · have hcount : (submissionMachine d).step
        (w.takeLock 0 (d.lockKey user), ⟨user, key, body, job, .locked text⟩) .count =
          some (w.takeLock 0 (d.lockKey user),
            ⟨user, key, body, job, .aborting (.domain .pendingCapExceeded)⟩) :=
      if_pos (Nat.not_lt.mp hpending)
    exact ⟨.pendingCapExceeded, hstart.trans (Machine.offer_cons hcount _)⟩

/-- The transaction of a submission that passes both gates gets to its INSERT. -/
theorem offer_passed
    (user : Uuid) (key : Option String) (body : Option Json) (job : Option Job)
    (text : JsString) (es : List HandlerEvent)
    (hlocks : ∀ k, w.locks k = none)
    (hpending : pendingCount w.jobs user < d.config.TTS_PENDING_CAP)
    (hdepth : queueDepth w < d.config.TTS_QUEUE_CAPACITY) :
    (submissionMachine d).offer ([.beginTx, .lock] ++ ([.count, .readDepth] ++ es))
        (w, ⟨user, key, body, job, .opening text⟩) =
      (submissionMachine d).offer es
        (w.takeLock 0 (d.lockKey user), ⟨user, key, body, job, .depthChecked text⟩) := by
  have hcount : (submissionMachine d).step
      (w.takeLock 0 (d.lockKey user), ⟨user, key, body, job, .locked text⟩) .count =
        some (w.takeLock 0 (d.lockKey user), ⟨user, key, body, job, .counted text⟩) :=
    if_neg (Nat.not_le.mpr hpending)
  have hread : (submissionMachine d).step
      (w.takeLock 0 (d.lockKey user), ⟨user, key, body, job, .counted text⟩) .readDepth =
        some (w.takeLock 0 (d.lockKey user), ⟨user, key, body, job, .depthChecked text⟩) :=
    if_neg (Nat.not_le.mpr hdepth)
  rw [offer_locked user key body job text _ hlocks]
  exact (Machine.offer_cons hcount _).trans (Machine.offer_cons hread _)

/-- The INSERT of a submission alone: PostgreSQL rejects a text with NUL, and no row has
the key. -/
theorem offer_insert
    {h : Handler} {text : JsString} {id : Uuid}
    (hlocks : ∀ k, w.locks k = none)
    (hfresh : (w.born.any fun b => decide (b.2.id = id)) = false)
    (hkey : h.key.bind (findByKey w.jobs h.user) = none)
    (hpc : h.pc = .opening text)
    (hpending : pendingCount w.jobs h.user < d.config.TTS_PENDING_CAP)
    (hdepth : queueDepth w < d.config.TTS_QUEUE_CAPACITY)
    (createdAt : Nat) :
    ∃ w', (submissionMachine d).offer (transactionEvents id createdAt) (w, h) =
      (w', if hasNul text then
        { h with pc := .aborting .fault }
      else
        { h with job := some (insertedRow h text id createdAt), pc := .committed }) := by
  obtain ⟨user, key, body, job, pc⟩ := h
  cases hpc
  have hstart := offer_passed user key body job text [.create id createdAt, .commit] hlocks
    hpending hdepth
  have hcreate : (submissionMachine d).step
      (w.takeLock 0 (d.lockKey user), ⟨user, key, body, job, .depthChecked text⟩)
        (.create id createdAt) =
      if hasNul text = true then
        some (w.takeLock 0 (d.lockKey user), ⟨user, key, body, job, .aborting .fault⟩)
      else if violatesUnique w.jobs
          (insertedRow ⟨user, key, body, job, .depthChecked text⟩ text id createdAt) = true then
        some (w.takeLock 0 (d.lockKey user), ⟨user, key, body, job, .aborting .uniqueViolation⟩)
      else
        some ((w.takeLock 0 (d.lockKey user)).insertRow 0
            (insertedRow ⟨user, key, body, job, .depthChecked text⟩ text id createdAt),
          ⟨user, key, body, job,
            .inserted (insertedRow ⟨user, key, body, job, .depthChecked text⟩ text id
              createdAt)⟩) :=
    if_neg (Bool.eq_false_iff.mp hfresh)
  have hnew : violatesUnique w.jobs
      (insertedRow ⟨user, key, body, job, .depthChecked text⟩ text id createdAt) = false := by
    cases key with
    | none => rfl
    | some key =>
        have hnone : findByKey w.jobs user key = none := hkey
        simp [violatesUnique, insertedRow, newJob, hnone]
  by_cases hnul : hasNul text = true
  · rw [if_pos hnul] at hcreate
    rw [if_pos hnul]
    exact ⟨_, hstart.trans (Machine.offer_cons hcreate _)⟩
  · rw [if_neg hnul, hnew, if_neg Bool.false_ne_true] at hcreate
    rw [if_neg hnul]
    exact ⟨_, hstart.trans (Machine.offer_cons hcreate _)⟩

/-- After the transaction a submission is answered: by its abort, or 202. -/
theorem offer_answer
    {h : Handler} :
    (∀ thrown, h.pc = .aborting thrown → thrown ≠ .uniqueViolation →
      ((submissionMachine d).offer ([.rollback, .findWinner, .answerWinner] ++
        [.callAdd, .addTakesEffect, .addReturns, .accept]) (w, h)).2.pc =
          .answered (errorHandler thrown)) ∧
      ∀ job, h.pc = .committed → h.job = some job →
        ((submissionMachine d).offer ([.rollback, .findWinner, .answerWinner] ++
          [.callAdd, .addTakesEffect, .addReturns, .accept]) (w, h)).2.pc =
            .answered (.success 202 (submissionBody d job)) := by
  obtain ⟨user, key, body, job, pc⟩ := h
  constructor
  · rintro thrown rfl hne
    have hrollback : (submissionMachine d).step (w, ⟨user, key, body, job, .aborting thrown⟩)
        .rollback = some (w.releaseLocks 0,
          ⟨user, key, body, job, .answered (errorHandler thrown)⟩) := by
      rcases afterRollback_cases ⟨user, key, body, job, .aborting thrown⟩ thrown with
        ⟨_, hunique, _⟩ | hanswered
      · exact absurd hunique hne
      · simp only [submissionMachine, Handler.act, hanswered]
    rw [List.cons_append, Machine.offer_cons hrollback, offer_answered rfl]
  · rintro job rfl rfl
    rfl

/-- A submission that the token bucket lets pass, with a valid text. -/
theorem afterToken_opening_iff
    {h : Handler} {allowed retryAfterMs : Nat} {text : JsString} :
    afterToken d h allowed retryAfterMs = .opening text ↔
      allowed = 1 ∧ validate submitSchema h.body = .ok text ∧
        validateTtsText text d.config.TTS_MAX_TEXT_LENGTH = .ok () := by
  constructor
  · intro hopening
    have hallowed : allowed = 1 := by
      by_contra hne
      simp [afterToken, takeRateLimitToken, hne] at hopening
    rcases afterToken_cases d h allowed retryAfterMs with ⟨error, _, h'⟩ | ⟨text', h', hv, ht⟩
    · rw [hopening] at h'
      cases h'
    · rw [hopening] at h'
      cases h'
      exact ⟨hallowed, hv, ht⟩
  · rintro ⟨rfl, hv, ht⟩
    simp [afterToken, takeRateLimitToken, hv, ht]

/-- What a submission alone comes to is reached by a run of the submission. -/
theorem submitAlone_run
    (r : SubmitRequest) (allowed retryAfterMs : Nat) (id : Uuid) (createdAt : Nat) :
    ∃ es, Machine.Run (submissionMachine d) Machine.anyStep (w, Handler.start r) es
      (submitAlone d w r allowed retryAfterMs id createdAt) := by
  obtain ⟨es, _, hrun⟩ := Machine.offer_run (submissionMachine d)
    (submissionEvents allowed retryAfterMs id createdAt) (w, Handler.start r)
  exact ⟨es, hrun⟩

/--
**A submission alone.**  With no transaction open and a new id, it is answered; the
status is below 500 or the answer is QUEUE_FULL, exactly if it does not insert a text
that contains NUL.
-/
theorem submitAlone_answer
    (hlocks : ∀ k, w.locks k = none)
    {id : Uuid}
    (hfresh : (w.born.any fun b => decide (b.2.id = id)) = false)
    (r : SubmitRequest) (allowed retryAfterMs createdAt : Nat) :
    ∃ response, (submitAlone d w r allowed retryAfterMs id createdAt).2.response? =
        some response ∧
      ((BelowServerError response ∧
          ∀ text, ReachesInsert d w r allowed text → hasNul text = false) ∨
        (response = errorHandler .fault ∧
          ∃ text, ReachesInsert d w r allowed text ∧ hasNul text = true)) := by
  have hresponse : ∀ {x : World × Handler} {response},
      x.2.pc = .answered response → x.2.response? = some response := by
    intro x response hpc
    rw [Handler.response?, hpc]
  unfold submitAlone submissionEvents
  rw [Machine.offer_append]
  rcases offer_replay r with ⟨h, response, hoffer, hpc, hbelow, hfound⟩ | ⟨key, hkey, hnone, hoffer⟩
  · rw [hoffer, offer_answered hpc]
    refine ⟨response, hresponse hpc, Or.inl ⟨hbelow, fun text hreach => ?_⟩⟩
    obtain ⟨key, hkey, hnone⟩ := hreach.newKey
    exact absurd hnone (hfound key hkey)
  · rw [hoffer, Machine.offer_append]
    have htoken : (submissionMachine d).offer [.takeToken allowed retryAfterMs]
        (w, ⟨r.user, key, r.body, none, .rateGate⟩) =
          (w, ⟨r.user, key, r.body, none,
            afterToken d ⟨r.user, key, r.body, none, .rateGate⟩ allowed retryAfterMs⟩) := rfl
    rw [htoken]
    rcases afterToken_cases d ⟨r.user, key, r.body, none, .rateGate⟩ allowed retryAfterMs with
      ⟨error, _, hrefused⟩ | ⟨text, hopening, _, _⟩
    · rw [hrefused, offer_answered rfl]
      refine ⟨_, hresponse rfl, Or.inl ⟨belowServerError_domain error, fun text hreach => ?_⟩⟩
      have hopening : afterToken d ⟨r.user, key, r.body, none, .rateGate⟩ allowed retryAfterMs =
          .opening text :=
        afterToken_opening_iff.mpr ⟨hreach.token, hreach.schema, hreach.rules⟩
      rw [hrefused] at hopening
      cases hopening
    · rw [hopening, Machine.offer_append]
      obtain ⟨hallowed, hschema, hrules⟩ := afterToken_opening_iff.mp hopening
      by_cases hgate : pendingCount w.jobs r.user < d.config.TTS_PENDING_CAP ∧
          queueDepth w < d.config.TTS_QUEUE_CAPACITY
      · have hreach : ReachesInsert d w r allowed text :=
          ⟨⟨key, hkey, hnone⟩, hallowed, hschema, hrules, hgate.1, hgate.2⟩
        obtain ⟨w', hinsert⟩ := offer_insert (d := d)
          (h := ⟨r.user, key, r.body, none, .opening text⟩) hlocks hfresh hnone rfl hgate.1
            hgate.2 createdAt
        rw [hinsert]
        by_cases hnul : hasNul text = true
        · rw [if_pos hnul]
          exact ⟨_, hresponse (offer_answer.1 .fault rfl (by simp)),
            Or.inr ⟨rfl, text, hreach, hnul⟩⟩
        · rw [if_neg hnul]
          refine ⟨_, hresponse (offer_answer.2 _ rfl rfl),
            Or.inl ⟨belowServerError_success (by decide), fun text' hreach' => ?_⟩⟩
          cases hreach.schema.symm.trans hreach'.schema
          exact Bool.eq_false_iff.mpr hnul
      · obtain ⟨w', error, hrefused⟩ := offer_refused (d := d)
          (h := ⟨r.user, key, r.body, none, .opening text⟩) hlocks rfl
            (fun hpending hdepth => hgate ⟨hpending, hdepth⟩) id createdAt
        rw [hrefused]
        refine ⟨_, hresponse (offer_answer.1 (.domain error) rfl (by simp)),
          Or.inl ⟨belowServerError_domain error, fun text' hreach' => ?_⟩⟩
        exact absurd ⟨hreach'.pending, hreach'.depth⟩ hgate

/-- A new submission that is refused right after the token bucket. -/
theorem submitAlone_refused
    {r : SubmitRequest} {key : Option String} {allowed retryAfterMs : Nat} {error : DomainError}
    (hkey : readIdempotencyKey r.idempotencyKey = .ok key)
    (hnone : key.bind (findByKey w.jobs r.user) = none)
    (hrefused : afterToken d ⟨r.user, key, r.body, none, .rateGate⟩ allowed retryAfterMs =
      .answered (errorHandler (.domain error)))
    (id : Uuid) (createdAt : Nat) :
    (submitAlone d w r allowed retryAfterMs id createdAt).2.response? =
      some (errorHandler (.domain error)) := by
  unfold submitAlone submissionEvents
  rw [Machine.offer_append]
  rcases offer_replay r with ⟨_, _, _, _, _, hfound⟩ | ⟨key', hkey', _, hoffer⟩
  · exact absurd hnone (hfound key hkey)
  · cases hkey.symm.trans hkey'
    have htoken : (submissionMachine d).offer [.takeToken allowed retryAfterMs]
        (w, ⟨r.user, key, r.body, none, .rateGate⟩) =
          (w, ⟨r.user, key, r.body, none,
            afterToken d ⟨r.user, key, r.body, none, .rateGate⟩ allowed retryAfterMs⟩) := rfl
    rw [hoffer, Machine.offer_append, htoken, hrefused, offer_answered rfl]
    rfl

end Submission

section Registration

variable {d : AccountDeps} {t : AccountTable}

/-- One registration with the users table. -/
def registrationMachine (d : AccountDeps) :
    Machine (AccountTable × Registration) RegisterEvent where
  step := fun s e => s.2.act d s.1 e

/-- A registration that runs alone. -/
def registerAlone (d : AccountDeps) (t : AccountTable) (body : Option Json) (salt : Bytes)
    (id : Uuid) (now : Nat) : AccountTable × Registration :=
  (registrationMachine d).offer [.findUnique, .hash salt, .create id now]
    (t, Registration.start d body)

def Registration.response? (p : Registration) : Option RegisterResponse :=
  match p.pc with
  | .answered response => some response
  | _ => none

/-- What a registration alone comes to is reached by a run of the registration. -/
theorem registerAlone_run
    (body : Option Json) (salt : Bytes) (id : Uuid) (now : Nat) :
    ∃ es, Machine.Run (registrationMachine d) Machine.anyStep (t, Registration.start d body) es
      (registerAlone d t body salt id now) := by
  obtain ⟨es, _, hrun⟩ := Machine.offer_run (registrationMachine d)
    [.findUnique, .hash salt, .create id now] (t, Registration.start d body)
  exact ⟨es, hrun⟩

/-- **A registration alone**, with a new id, is answered with a status below 500. -/
theorem registerAlone_answer
    {id : Uuid}
    (hfresh : (t.users.any fun u => decide (u.id = id)) = false)
    (body : Option Json) (salt : Bytes) (now : Nat) :
    ∃ response, (registerAlone d t body salt id now).2.response? = some response ∧
      BelowServerError response := by
  unfold registerAlone Registration.start
  split
  · next c _ =>
      cases hfind : t.findUnique (toColumn c.email) with
      | some u =>
          have hfound : (registrationMachine d).step (t, ⟨body, .looking c⟩) .findUnique =
              some (t, ⟨body, .answered (errorHandler (.domain .emailTaken))⟩) := by
            simp only [registrationMachine, Registration.act, hfind]
          rw [Machine.offer_cons hfound]
          exact ⟨_, rfl, belowServerError_domain _⟩
      | none =>
          have hfree : (registrationMachine d).step (t, ⟨body, .looking c⟩) .findUnique =
              some (t, ⟨body, .hashing c⟩) := by
            simp only [registrationMachine, Registration.act, hfind]
          have hhash : (registrationMachine d).step (t, ⟨body, .hashing c⟩) (.hash salt) =
              some (t, ⟨body, .creating c (d.hash salt c.password)⟩) := rfl
          have hcreate : (registrationMachine d).step
              (t, ⟨body, .creating c (d.hash salt c.password)⟩) (.create id now) =
                some (t.insert (newUser c (d.hash salt c.password) id now) hfind,
                  ⟨body, .answered (.success 201
                    (registeredBody (newUser c (d.hash salt c.password) id now)))⟩) :=
            (if_neg (Bool.eq_false_iff.mp hfresh)).trans (dif_pos hfind)
          rw [Machine.offer_cons hfree, Machine.offer_cons hhash, Machine.offer_cons hcreate]
          exact ⟨_, rfl, belowServerError_success (by decide)⟩
  · next error _ => exact ⟨_, rfl, belowServerError_domain error⟩

end Registration

end BengaliTts
