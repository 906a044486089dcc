import BengaliTts.World
import Mathlib.Logic.Function.Basic

/-!
# One processing of a job

A `Call` is one call of the worker's `Processor.process`, or of its listener
`record_bypassed_failure` on the queue's `failed` event.  Its program counter
names the next statement that reaches outside the worker, and what the code
still holds in variables there.  An event is what happens at that statement: it
returns, or it raises, and a statement that raises may still have taken effect
on the store (a lost reply).  The synthesis runs in a thread, so its start and
its end are two events, with the expiry of the time limit as the other end.
A worker may crash before any statement.  What the engine, the upload and
`mark_completed` raise inside the `try` may be of any class; a database call outside it
raises errors of the database, of which none is an `UnrecoverableError`.

Calls are delivered by the queue; nothing is assumed of it here, so a job may be
delivered any number of times, also while another call for it still runs.
-/

namespace BengaliTts

open Lib

/-- What the queue hands to the worker about a job. -/
structure QueueJob where
  jobId : Uuid
  attemptsMade : Nat
  attempts : Nat
  /-- Set when the queue failed the job without running the processor. -/
  deferredFailure : Bool
deriving DecidableEq

/-- What `process` returns. -/
inductive ProcessResult where
  | skippedMissing
  | skipped (status : JobStatus)
  | audioKey (key : String)
deriving DecidableEq

/-- The classes of exceptions that `process` and the queue tell apart. -/
inductive ExcClass where
  | timeoutError
  /-- `UnrecoverableError`, which forbids a retry. -/
  | unrecoverableError
  /-- Any other `Exception`. -/
  | other
  /-- A `BaseException` that is no `Exception`. -/
  | baseException
deriving DecidableEq

/-- Where a call stands. -/
inductive CallPc where
  /-- Before `fetch_job`. -/
  | entered
  /-- A row that is not terminal was read; `mark_active` is next. -/
  | fetched (row : JobRow)
  /-- Inside the `try`, before the synthesis is started. -/
  | activated (row : JobRow)
  /-- The synthesis thread runs. -/
  | synthesizing (row : JobRow)
  /-- `upload_wav` is next. -/
  | synthesized (row : JobRow) (wav : Bytes)
  /-- `mark_completed` is next. -/
  | uploaded (row : JobRow) (key : String)
  /-- `mark_completed` returned; the call is about to return the key. -/
  | recorded (row : JobRow) (key : String)
  /-- In `except TimeoutError`, before `mark_failed`. -/
  | timedOut (row : JobRow)
  /-- In `except Exception`, before `mark_failed` or `mark_queued`; the exception is
  raised again afterwards. -/
  | failing (row : JobRow) (unrecoverable : Bool)
  | returned (result : ProcessResult)
  /-- An exception left `process`; `UnrecoverableError` forbids a retry. -/
  | raised (unrecoverable : Bool)
  /-- The listener passed its first test; `fetch_job` is next. -/
  | notified
  /-- The listener read a row that is not terminal; `mark_failed` is next. -/
  | bypassing (row : JobRow)
  /-- The listener is done. -/
  | listened
  | crashed
deriving DecidableEq

structure Call where
  job : QueueJob
  pc : CallPc
deriving DecidableEq

/-- The queue delivers a job to `process`. -/
def Call.process (job : QueueJob) : Call :=
  ⟨job, .entered⟩

/-- The queue emits `failed`; only a deferred failure gets past the first line. -/
def Call.recordBypassedFailure (job : QueueJob) : Call :=
  ⟨job, if job.deferredFailure then .notified else .listened⟩

/-- What happens at the next statement of a call. -/
inductive CallEvent where
  | fetchJob
  | fetchJobRaises
  | markActive
  | markActiveRaises (tookEffect : Bool)
  | synthesize
  | synthesizeReturns (wav : Bytes)
  | synthesizeRaises (exc : ExcClass)
  | timeoutExpires
  | uploadWav
  | uploadWavRaises (exc : ExcClass) (tookEffect : Bool)
  | markCompleted
  | markCompletedRaises (exc : ExcClass) (tookEffect : Bool)
  /-- The status write of an `except` clause or of the listener. -/
  | record
  | recordRaises (tookEffect : Bool)
  | finish
  | crash
deriving DecidableEq

/-- The `except` clause that an exception raised inside the `try` reaches; what is no
`Exception` passes both. -/
def exceptClause (row : JobRow) : ExcClass → CallPc
  | .timeoutError => .timedOut row
  | .unrecoverableError => .failing row true
  | .other => .failing row false
  | .baseException => .raised false

/-- A statement that raised: the store as it leaves it. -/
def afterRaise (tookEffect : Bool) (done w : World) : World :=
  if tookEffect then done else w

/-- `final_attempt = job.attemptsMade + 1 >= job.attempts`. -/
def QueueJob.finalAttempt (job : QueueJob) : Bool :=
  decide (job.attemptsMade + 1 ≥ job.attempts)

section Statements

def World.markActive (w : World) (jobId : Uuid) : World :=
  { w with jobs := BengaliTts.markActive w.now jobId w.jobs }

def World.markQueued (w : World) (jobId : Uuid) : World :=
  { w with jobs := BengaliTts.markQueued jobId w.jobs }

def World.markCompleted (w : World) (jobId : Uuid) (key : String) : World :=
  { w with jobs := BengaliTts.markCompleted w.now jobId key w.jobs }

def World.markFailed (w : World) (jobId : Uuid) (code message : String) : World :=
  { w with jobs := BengaliTts.markFailed w.now jobId code message w.jobs }

/-- `put_object`. -/
def World.uploadWav (w : World) (key : String) (data : Bytes) : World :=
  { w with bucket := Function.update w.bucket key (some data) }

/-- The engine returned a recording. -/
def World.recordSynthesis (w : World) (text : String) (wav : Bytes) : World :=
  { w with synthesized := (text, wav) :: w.synthesized }

/-- The error message of a timeout. -/
def Deps.timeoutMessage (d : Deps) : String :=
  "Synthesis exceeded the " ++ d.timeoutText ++ " second limit"

end Statements

/-- The status write of `except TimeoutError`. -/
def recordTimeout (d : Deps) (w : World) (job : QueueJob) : World :=
  w.markFailed job.jobId "TIMEOUT" d.timeoutMessage

/-- The status write of `except Exception`. -/
def recordFailure (w : World) (job : QueueJob) : World :=
  if job.finalAttempt then
    w.markFailed job.jobId "INTERNAL" "Synthesis failed"
  else
    w.markQueued job.jobId

/-- A call that still has statements to run. -/
def CallPc.running : CallPc → Bool
  | .returned _ => false
  | .raised _ => false
  | .listened => false
  | .crashed => false
  | _ => true

/-- One atomic step of a call. -/
def Call.act (d : Deps) (w : World) (c : Call) (e : CallEvent) : Option (World × Call) :=
  match c.pc, e with
  | .entered, .fetchJob =>
      match BengaliTts.fetchJob w.jobs c.job.jobId with
      | none =>
          some (w, { c with pc := .returned .skippedMissing })
      | some row =>
          if row.status.terminal then
            some (w, { c with pc := .returned (.skipped row.status) })
          else
            some (w, { c with pc := .fetched row })
  | .entered, .fetchJobRaises =>
      some (w, { c with pc := .raised false })
  | .fetched row, .markActive =>
      some (w.markActive c.job.jobId, { c with pc := .activated row })
  | .fetched _, .markActiveRaises tookEffect =>
      some (afterRaise tookEffect (w.markActive c.job.jobId) w,
        { c with pc := .raised false })
  | .activated row, .synthesize =>
      some (w, { c with pc := .synthesizing row })
  | .synthesizing row, .synthesizeReturns wav =>
      some (w.recordSynthesis row.inputText wav, { c with pc := .synthesized row wav })
  | .synthesizing row, .synthesizeRaises exc =>
      some (w, { c with pc := exceptClause row exc })
  | .synthesizing row, .timeoutExpires =>
      some (w, { c with pc := .timedOut row })
  | .synthesized row wav, .uploadWav =>
      some (w.uploadWav (BengaliTts.audioKey row.userId c.job.jobId) wav,
        { c with pc := .uploaded row (BengaliTts.audioKey row.userId c.job.jobId) })
  | .synthesized row wav, .uploadWavRaises exc tookEffect =>
      some
        (afterRaise tookEffect
          (w.uploadWav (BengaliTts.audioKey row.userId c.job.jobId) wav) w,
        { c with pc := exceptClause row exc })
  | .uploaded row key, .markCompleted =>
      some (w.markCompleted c.job.jobId key, { c with pc := .recorded row key })
  | .uploaded row key, .markCompletedRaises exc tookEffect =>
      some (afterRaise tookEffect (w.markCompleted c.job.jobId key) w,
        { c with pc := exceptClause row exc })
  | .recorded _ key, .finish =>
      some (w, { c with pc := .returned (.audioKey key) })
  | .timedOut _, .record =>
      some (recordTimeout d w c.job, { c with pc := .raised true })
  | .timedOut _, .recordRaises tookEffect =>
      some (afterRaise tookEffect (recordTimeout d w c.job) w, { c with pc := .raised false })
  | .failing _ unrecoverable, .record =>
      some (recordFailure w c.job, { c with pc := .raised unrecoverable })
  | .failing _ _, .recordRaises tookEffect =>
      some (afterRaise tookEffect (recordFailure w c.job) w, { c with pc := .raised false })
  | .notified, .fetchJob =>
      match BengaliTts.fetchJob w.jobs c.job.jobId with
      | none =>
          some (w, { c with pc := .listened })
      | some row =>
          if row.status.terminal then
            some (w, { c with pc := .listened })
          else
            some (w, { c with pc := .bypassing row })
  | .notified, .fetchJobRaises =>
      some (w, { c with pc := .listened })
  | .bypassing _, .record =>
      some (w.markFailed c.job.jobId "INTERNAL" "Synthesis failed", { c with pc := .listened })
  | .bypassing _, .recordRaises tookEffect =>
      some
        (afterRaise tookEffect (w.markFailed c.job.jobId "INTERNAL" "Synthesis failed") w,
        { c with pc := .listened })
  | pc, .crash =>
      if pc.running then
        some (w, { c with pc := .crashed })
      else
        none
  | _, _ => none

/-- A status write made by a call, with what it does to a row. -/
inductive CallWrite (d : Deps) (w : World) (job : QueueJob) :
    CallPc → (Job → Job) → Prop
  | active (row : JobRow) :
      CallWrite d w job (.fetched row) (setActive w.now)
  | completed (row : JobRow) (key : String) :
      CallWrite d w job (.uploaded row key) (setCompleted w.now key)
  | timedOut (row : JobRow) :
      CallWrite d w job (.timedOut row) (setFailed w.now "TIMEOUT" d.timeoutMessage)
  | failed (row : JobRow) (unrecoverable : Bool) (final : job.finalAttempt = true) :
      CallWrite d w job (.failing row unrecoverable)
        (setFailed w.now "INTERNAL" "Synthesis failed")
  | queued (row : JobRow) (unrecoverable : Bool) (notFinal : job.finalAttempt = false) :
      CallWrite d w job (.failing row unrecoverable) setQueued
  | bypassed (row : JobRow) :
      CallWrite d w job (.bypassing row) (setFailed w.now "INTERNAL" "Synthesis failed")

/-- Where a call goes after its status write took effect, by whether the
statement returned. -/
inductive AfterWrite (job : QueueJob) : CallPc → CallEvent → CallPc → Prop
  | active (row : JobRow) :
      AfterWrite job (.fetched row) .markActive (.activated row)
  | activeRaises (row : JobRow) :
      AfterWrite job (.fetched row) (.markActiveRaises true) (.raised false)
  | completed (row : JobRow) (key : String) :
      AfterWrite job (.uploaded row key) .markCompleted (.recorded row key)
  | completedRaises (row : JobRow) (key : String) (exc : ExcClass) :
      AfterWrite job (.uploaded row key) (.markCompletedRaises exc true)
        (exceptClause row exc)
  | timedOut (row : JobRow) :
      AfterWrite job (.timedOut row) .record (.raised true)
  | timedOutRaises (row : JobRow) :
      AfterWrite job (.timedOut row) (.recordRaises true) (.raised false)
  | failing (row : JobRow) (unrecoverable : Bool) :
      AfterWrite job (.failing row unrecoverable) .record (.raised unrecoverable)
  | failingRaises (row : JobRow) (unrecoverable : Bool) :
      AfterWrite job (.failing row unrecoverable) (.recordRaises true) (.raised false)
  | bypassing (row : JobRow) :
      AfterWrite job (.bypassing row) .record .listened
  | bypassingRaises (row : JobRow) :
      AfterWrite job (.bypassing row) (.recordRaises true) .listened

/-- The steps of a call that leave every store as it is. -/
inductive QuietStep (w : World) (job : QueueJob) : CallPc → CallEvent → CallPc → Prop
  | missing (h : BengaliTts.fetchJob w.jobs job.jobId = none) :
      QuietStep w job .entered .fetchJob (.returned .skippedMissing)
  | skip {row : JobRow} (h : BengaliTts.fetchJob w.jobs job.jobId = some row)
      (ht : row.status.terminal = true) :
      QuietStep w job .entered .fetchJob (.returned (.skipped row.status))
  | fetch {row : JobRow} (h : BengaliTts.fetchJob w.jobs job.jobId = some row)
      (ht : row.status.terminal = false) :
      QuietStep w job .entered .fetchJob (.fetched row)
  | fetchRaises :
      QuietStep w job .entered .fetchJobRaises (.raised false)
  | activeRaises (row : JobRow) :
      QuietStep w job (.fetched row) (.markActiveRaises false) (.raised false)
  | synthesize (row : JobRow) :
      QuietStep w job (.activated row) .synthesize (.synthesizing row)
  | synthesizeRaises (row : JobRow) (exc : ExcClass) :
      QuietStep w job (.synthesizing row) (.synthesizeRaises exc) (exceptClause row exc)
  | timeoutExpires (row : JobRow) :
      QuietStep w job (.synthesizing row) .timeoutExpires (.timedOut row)
  | uploadRaises (row : JobRow) (wav : Bytes) (exc : ExcClass) :
      QuietStep w job (.synthesized row wav) (.uploadWavRaises exc false)
        (exceptClause row exc)
  | completedRaises (row : JobRow) (key : String) (exc : ExcClass) :
      QuietStep w job (.uploaded row key) (.markCompletedRaises exc false)
        (exceptClause row exc)
  | finish (row : JobRow) (key : String) :
      QuietStep w job (.recorded row key) .finish (.returned (.audioKey key))
  | timedOutRaises (row : JobRow) :
      QuietStep w job (.timedOut row) (.recordRaises false) (.raised false)
  | failingRaises (row : JobRow) (unrecoverable : Bool) :
      QuietStep w job (.failing row unrecoverable) (.recordRaises false) (.raised false)
  | listenerSkips
      (h : ∀ row, BengaliTts.fetchJob w.jobs job.jobId = some row →
        row.status.terminal = true) :
      QuietStep w job .notified .fetchJob .listened
  | listenerFetches {row : JobRow}
      (h : BengaliTts.fetchJob w.jobs job.jobId = some row)
      (ht : row.status.terminal = false) :
      QuietStep w job .notified .fetchJob (.bypassing row)
  | listenerFetchRaises :
      QuietStep w job .notified .fetchJobRaises .listened
  | bypassingRaises (row : JobRow) :
      QuietStep w job (.bypassing row) (.recordRaises false) .listened
  | crash {pc : CallPc} (h : pc.running = true) :
      QuietStep w job pc .crash .crashed

/-- Everything one step of a call can do: nothing to the stores, a status write,
a recording from the engine, or an upload. -/
inductive CallStep (d : Deps) (w : World) (job : QueueJob) :
    CallPc → CallEvent → World → CallPc → Prop
  | quiet {pc pc' : CallPc} {e : CallEvent}
      (h : QuietStep w job pc e pc') :
      CallStep d w job pc e w pc'
  | write {pc pc' : CallPc} {e : CallEvent} {f : Job → Job}
      (hf : CallWrite d w job pc f)
      (h : AfterWrite job pc e pc') :
      CallStep d w job pc e { w with jobs := guardedUpdate job.jobId f w.jobs } pc'
  | synthesizeReturns (row : JobRow) (wav : Bytes) :
      CallStep d w job (.synthesizing row) (.synthesizeReturns wav)
        (w.recordSynthesis row.inputText wav) (.synthesized row wav)
  | uploadWav (row : JobRow) (wav : Bytes) :
      CallStep d w job (.synthesized row wav) .uploadWav
        (w.uploadWav (BengaliTts.audioKey row.userId job.jobId) wav)
        (.uploaded row (BengaliTts.audioKey row.userId job.jobId))
  | uploadWavRaises (row : JobRow) (wav : Bytes) (exc : ExcClass) :
      CallStep d w job (.synthesized row wav) (.uploadWavRaises exc true)
        (w.uploadWav (BengaliTts.audioKey row.userId job.jobId) wav)
        (exceptClause row exc)

theorem CallWrite.statusWrite
    {d : Deps} {w : World} {job : QueueJob} {pc : CallPc} {f : Job → Job}
    (h : CallWrite d w job pc f) :
    StatusWrite w.now job.jobId f := by
  cases h with
  | active => exact .active
  | completed row key => exact .completed key
  | timedOut => exact .failed _ _
  | failed => exact .failed _ _
  | queued => exact .queued
  | bypassed => exact .failed _ _

/-- A raising status write either took effect or left the store alone. -/
theorem callStep_of_raise
    {d : Deps} {w done : World} {job : QueueJob} {pc pc' : CallPc}
    {e : Bool → CallEvent} {f : Job → Job} {tookEffect : Bool}
    (hdone : done = { w with jobs := guardedUpdate job.jobId f w.jobs })
    (hf : CallWrite d w job pc f)
    (hafter : AfterWrite job pc (e true) pc')
    (hquiet : QuietStep w job pc (e false) pc') :
    CallStep d w job pc (e tookEffect) (afterRaise tookEffect done w) pc' := by
  cases tookEffect with
  | false => exact .quiet hquiet
  | true =>
      subst hdone
      exact .write hf hafter

/-- The write of `except Exception`, by whether the attempt is the last one. -/
theorem recordFailure_eq
    (d : Deps) (w : World) (job : QueueJob) (row : JobRow) (unrecoverable : Bool) :
    ∃ f, CallWrite d w job (.failing row unrecoverable) f ∧
      recordFailure w job = { w with jobs := guardedUpdate job.jobId f w.jobs } := by
  by_cases hfinal : job.finalAttempt = true
  · exact ⟨_, .failed row unrecoverable hfinal,
      by simp [recordFailure, hfinal, World.markFailed, BengaliTts.markFailed]⟩
  · have hnot : job.finalAttempt = false := by simpa using hfinal
    exact ⟨_, .queued row unrecoverable hnot,
      by simp [recordFailure, hnot, World.markQueued, BengaliTts.markQueued]⟩

/-- **Inversion.**  A step of a call is one of `CallStep`; it never changes the
job that the queue delivered. -/
theorem callStep_of_act
    {d : Deps} {w w' : World} {c c' : Call} {e : CallEvent}
    (h : c.act d w e = some (w', c')) :
    c'.job = c.job ∧ CallStep d w c.job c.pc e w' c'.pc := by
  obtain ⟨job, pc⟩ := c
  unfold Call.act at h
  dsimp only at h ⊢
  split at h
  case h_1 =>
      split at h
      · next hf =>
          cases h
          exact ⟨rfl, .quiet (.missing hf)⟩
      · next row hf =>
          split at h
          · next ht =>
              cases h
              exact ⟨rfl, .quiet (.skip hf ht)⟩
          · next ht =>
              cases h
              exact ⟨rfl, .quiet (.fetch hf (by simpa using ht))⟩
  case h_2 =>
      cases h
      exact ⟨rfl, .quiet .fetchRaises⟩
  case h_3 row =>
      cases h
      exact ⟨rfl, .write (.active row) (.active row)⟩
  case h_4 row tookEffect =>
      cases h
      exact ⟨rfl, callStep_of_raise rfl (.active row) (.activeRaises row) (.activeRaises row)⟩
  case h_5 row =>
      cases h
      exact ⟨rfl, .quiet (.synthesize row)⟩
  case h_6 row wav =>
      cases h
      exact ⟨rfl, .synthesizeReturns row wav⟩
  case h_7 row exc =>
      cases h
      exact ⟨rfl, .quiet (.synthesizeRaises row exc)⟩
  case h_8 row =>
      cases h
      exact ⟨rfl, .quiet (.timeoutExpires row)⟩
  case h_9 row wav =>
      cases h
      exact ⟨rfl, .uploadWav row wav⟩
  case h_10 row wav exc tookEffect =>
      cases h
      refine ⟨rfl, ?_⟩
      cases tookEffect with
      | false => exact .quiet (.uploadRaises row wav exc)
      | true => exact .uploadWavRaises row wav exc
  case h_11 row key =>
      cases h
      exact ⟨rfl, .write (.completed row key) (.completed row key)⟩
  case h_12 row key exc tookEffect =>
      cases h
      exact ⟨rfl, callStep_of_raise (e := fun b => .markCompletedRaises exc b) rfl (.completed row key)
        (.completedRaises row key exc) (.completedRaises row key exc)⟩
  case h_13 row key =>
      cases h
      exact ⟨rfl, .quiet (.finish row key)⟩
  case h_14 row =>
      cases h
      exact ⟨rfl, .write (.timedOut row) (.timedOut row)⟩
  case h_15 row tookEffect =>
      cases h
      exact ⟨rfl, callStep_of_raise rfl (.timedOut row) (.timedOutRaises row)
        (.timedOutRaises row)⟩
  case h_16 row unrecoverable =>
      cases h
      obtain ⟨f, hf, hw⟩ := recordFailure_eq d w job row unrecoverable
      rw [hw]
      exact ⟨rfl, .write hf (.failing row unrecoverable)⟩
  case h_17 row unrecoverable tookEffect =>
      cases h
      obtain ⟨f, hf, hw⟩ := recordFailure_eq d w job row unrecoverable
      exact ⟨rfl, callStep_of_raise hw hf (.failingRaises row unrecoverable)
        (.failingRaises row unrecoverable)⟩
  case h_18 =>
      split at h
      · next hf =>
          cases h
          exact ⟨rfl, .quiet (.listenerSkips (by simp [hf]))⟩
      · next row hf =>
          split at h
          · next ht =>
              cases h
              exact ⟨rfl, .quiet (.listenerSkips (by simp [hf, ht]))⟩
          · next ht =>
              cases h
              exact ⟨rfl, .quiet (.listenerFetches hf (by simpa using ht))⟩
  case h_19 =>
      cases h
      exact ⟨rfl, .quiet .listenerFetchRaises⟩
  case h_20 row =>
      cases h
      exact ⟨rfl, .write (.bypassed row) (.bypassing row)⟩
  case h_21 row tookEffect =>
      cases h
      exact ⟨rfl, callStep_of_raise rfl (.bypassed row) (.bypassingRaises row)
        (.bypassingRaises row)⟩
  case h_22 =>
      split at h
      · next hr =>
          cases h
          exact ⟨rfl, .quiet (.crash hr)⟩
      · cases h
  case h_23 =>
      cases h

end BengaliTts
