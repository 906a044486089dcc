import BengaliTts.WorkerThreads
import BengaliTts.RetryProtocol

/-!
# What the code TIMEOUT says

`process` recognises an expired time limit by the class of the exception: `wait_for`
raises `TimeoutError`.  The same clause catches a `TimeoutError` that the engine, the
upload or the database raises on its own, since the timeouts of sockets and of the
operating system are of that class.  The time limit runs from the call of `wait_for`,
also while the call waits for a thread of the executor, and a thread that was given up
occupies its place until its function returns.

The worker process of this module has a clock.  The executor keeps no call waiting while
one of its threads is free: time does not pass before the thread has started.  A history
lists, for each delivery that an exception out of the `try` ended, where the exception
came from, the clause it went through and what became of the job.

Main results:
* `timeout_means_overrun`: in the runs in which only the time limit raises a
  `TimeoutError`, it expires only for jobs that found a free thread, nothing but an
  `Exception` ends a last attempt, no `UnrecoverableError` ends an earlier one and the
  write of a last attempt's failure takes effect, TIMEOUT says that the job's own
  synthesis ran for the limit, and every other exception is retried or recorded as
  INTERNAL;
* `timeout_without_overrun`: the two ways in which TIMEOUT says something else.
-/

namespace BengaliTts

open Lib

section Worker

/-- The `except` clauses of `process`. -/
inductive Clause where
  /-- `except TimeoutError`. -/
  | timeoutError
  /-- `except Exception`. -/
  | exception
deriving DecidableEq

/-- Where an exception out of the `try` comes from. -/
inductive Cause where
  /-- The time limit expired; the synthesis of the job had run so long, if it ran. -/
  | deadline (ran : Option Nat)
  /-- The engine, the upload or `mark_completed` raised. -/
  | raised (exc : ExcClass)
deriving DecidableEq

/-- A delivery that an exception out of the `try` ended: the clause that caught it, if
one did, where it came from, the row before and after the status write of the clause,
or just as an exception that no clause catches leaves it, and what the queue made of
the entry. -/
structure Ended where
  job : QueueJob
  clause : Option Clause
  cause : Cause
  before : Option Job
  after : Option Job
  phase : EntryPhase

/-- A call of `wait_for`. -/
structure WaitFor where
  calledAt : Nat
  /-- Whether a thread of the executor was free at the call. -/
  threadFree : Bool
  /-- When the executor started the synthesis. -/
  startedAt : Option Nat

/-- A worker process with its clock. -/
structure TimedWorker where
  worker : WorkerProcess
  clock : Nat
  /-- The last call of `wait_for`. -/
  wait : WaitFor
  /-- The exception out of the `try` that the current call is about. -/
  cause : Option Cause
  /-- History. -/
  ended : List Ended

inductive TimedEvent where
  | tick (n : Nat)
  | worker (e : WorkerEvent)

/-- How long the synthesis of the current call has run, if it runs. -/
def TimedWorker.running (s : TimedWorker) : Option Nat :=
  s.worker.thread.bind fun _ => s.wait.startedAt.map fun start => s.clock - start

/-- The `except` clause that a call is in. -/
def CallPc.clause? : CallPc → Option Clause
  | .timedOut _ => some .timeoutError
  | .failing _ _ => some .exception
  | _ => none

/-- The class of the exception that a call inside the `try` raises. -/
def CallEvent.raised? : CallEvent → Option ExcClass
  | .synthesizeRaises exc => some exc
  | .uploadWavRaises exc _ => some exc
  | .markCompletedRaises exc _ => some exc
  | _ => none

/-- Where the exception that the current call is about comes from, after an event. -/
def TimedWorker.causeOf (s : TimedWorker) : WorkerEvent → Option Cause
  | .deliver _ => none
  | .call .timeoutExpires => some (.deadline s.running)
  | .call e => (e.raised?.map .raised).or s.cause
  | _ => s.cause

/-- The last call of `wait_for`, after an event. -/
def TimedWorker.waitOf (poolSize : Nat) (s : TimedWorker) : WorkerEvent → WaitFor
  | .call .synthesize => ⟨s.clock, decide (s.worker.left.length < poolSize), none⟩
  | .threadStarts => { s.wait with startedAt := some s.clock }
  | _ => s.wait

/-- The timer of `wait_for` fires at its time or later. -/
def TimedWorker.timerAllows (limit : Nat) (s : TimedWorker) : WorkerEvent → Bool
  | .call .timeoutExpires => decide (s.wait.calledAt + limit ≤ s.clock)
  | _ => true

/-- The entry of the history that a statement adds, if an exception out of the `try`
leaves `process` there. -/
def TimedWorker.endedBy (s : TimedWorker) (e : WorkerEvent) (next : WorkerProcess) :
    Option Ended :=
  match e, s.worker.current, s.causeOf e, next.current with
  | .call _, some c, some cause, some ⟨_, .raised unrecoverable⟩ =>
      some
        { job := c.job
          clause := c.pc.clause?
          cause := cause
          before := (if c.pc.clause? = none then next.world else s.worker.world).rowOf c.job.jobId
          after := next.world.rowOf c.job.jobId
          phase := settle c.job.jobId c.job.attempts c.job.attemptsMade (.raised unrecoverable) }
  | _, _, _, _ => none

/-- A worker process after an event, with its times and its history. -/
def TimedWorker.note (poolSize : Nat) (s : TimedWorker) (e : WorkerEvent)
    (next : WorkerProcess) : TimedWorker where
  worker := next
  clock := s.clock
  wait := s.waitOf poolSize e
  cause := s.causeOf e
  ended := s.ended ++ (s.endedBy e next).toList

/-- A synthesis is called, and a thread of the executor is free for it. -/
def WorkerProcess.startsAtOnce (poolSize : Nat) (s : WorkerProcess) : Bool :=
  match s.current with
  | some ⟨_, .synthesizing _⟩ => s.thread.isNone && decide (s.left.length < poolSize)
  | _ => false

/-- One step of a worker process with the given time limit. -/
def TimedWorker.step (d : Deps) (poolSize limit : Nat) (s : TimedWorker) :
    TimedEvent → Option TimedWorker
  | .tick n =>
      if s.worker.startsAtOnce poolSize then
        none
      else
        some { s with clock := s.clock + n }
  | .worker e =>
      if s.timerAllows limit e then
        (s.worker.step d poolSize e).map (s.note poolSize e)
      else
        none

def timedMachine (d : Deps) (poolSize limit : Nat) : Machine TimedWorker TimedEvent where
  step := TimedWorker.step d poolSize limit

/-- A worker process that has not been handed a job. -/
def TimedWorker.start (w : World) : TimedWorker :=
  ⟨WorkerProcess.start w, 0, ⟨0, false, none⟩, none, []⟩

end Worker

section Statements

/--
TIMEOUT is said of a synthesis that ran for the limit, and an exception of the engine,
the upload or `mark_completed` is retried while attempts remain and recorded as INTERNAL
otherwise, unless the row was finished before.
-/
structure Ended.Truthful (limit : Nat) (x : Ended) : Prop where
  timeout : x.clause = some .timeoutError → ∃ ran, x.cause = .deadline (some ran) ∧ limit ≤ ran
  retried : ∀ exc, x.cause = .raised exc → x.job.attemptsMade + 1 < x.job.attempts →
    x.phase = .waiting (x.job.attemptsMade + 1)
  internal : ∀ exc, x.cause = .raised exc → x.job.attempts ≤ x.job.attemptsMade + 1 →
    ∀ r, x.before = some r → r.status.terminal = false →
      ∃ r', x.after = some r' ∧ r'.status = .failed ∧ r'.errorCode = some "INTERNAL"

/-- An exception out of the `try` that is no `TimeoutError`, and on the last attempt of a
job whose row is unfinished an `Exception`. -/
def TimedWorker.Catches (s : TimedWorker) (exc : ExcClass) (finishes : Bool) : Prop :=
  exc ≠ .timeoutError ∧
    (exc = .baseException → ∀ c, s.worker.current = some c →
      c.job.attempts ≤ c.job.attemptsMade + 1 →
        finishes = true ∨ s.worker.world.rowFinished c.job.jobId = true)

/--
No call inside the `try` raises a `TimeoutError` of its own, or on a last attempt what is
no `Exception`; the time limit is positive, and expires only for a job for which a thread
of the executor was free when `wait_for` was called; an `UnrecoverableError` is not
raised again while attempts remain; and the status write of a last attempt's failure does
not raise without effect while the row is unfinished.
-/
def OnlyLimitTimesOut (limit : Nat) (s : TimedWorker) : TimedEvent → Prop
  | .worker (.call (.synthesizeRaises exc)) => s.Catches exc false
  | .worker (.call (.uploadWavRaises exc _)) => s.Catches exc false
  | .worker (.call (.markCompletedRaises exc tookEffect)) => s.Catches exc tookEffect
  | .worker (.call .timeoutExpires) => 0 < limit ∧ s.wait.threadFree = true
  | .worker (.call .record) =>
      ∀ job row, s.worker.current = some ⟨job, .failing row true⟩ →
        job.attempts ≤ job.attemptsMade + 1
  | .worker (.call (.recordRaises tookEffect)) =>
      ∀ job row unrecoverable,
        s.worker.current = some ⟨job, .failing row unrecoverable⟩ →
          job.attempts ≤ job.attemptsMade + 1 →
            tookEffect = true ∨ s.worker.world.rowFinished job.jobId = true
  | _ => True

end Statements

section Calls

variable {d : Deps} {w w' : World} {job : QueueJob} {pc pc' : CallPc} {e : CallEvent}

/-- What a statement of a call is for the exceptions out of the `try`. -/
inductive Passage : CallPc → CallEvent → CallPc → Prop
  /-- A statement outside the clauses that raises none of them. -/
  | within {pc pc' : CallPc} {e : CallEvent}
      (hrunning : pc.running = true)
      (hpc : pc.clause? = none)
      (he : e.raised? = none)
      (hexpires : e ≠ .timeoutExpires)
      (hpc' : pc'.clause? = none)
      (hraised : pc' ≠ .raised true) :
      Passage pc e pc'
  | expires (row : JobRow) :
      Passage (.synthesizing row) .timeoutExpires (.timedOut row)
  | raises {pc : CallPc} {e : CallEvent} {exc : ExcClass} (row : JobRow)
      (hpc : pc.clause? = none)
      (he : e.raised? = some exc) :
      Passage pc e (exceptClause row exc)
  | timedOut (row : JobRow) :
      Passage (.timedOut row) .record (.raised true)
  | failing (row : JobRow) (unrecoverable : Bool) :
      Passage (.failing row unrecoverable) .record (.raised unrecoverable)
  | recordRaises {pc : CallPc} {clause : Clause} (tookEffect : Bool)
      (hpc : pc.clause? = some clause) :
      Passage pc (.recordRaises tookEffect) (.raised false)
  | crash {pc : CallPc} {clause : Clause}
      (hpc : pc.clause? = some clause) :
      Passage pc .crash .crashed

theorem passage_of_callStep
    (hs : CallStep d w job pc e w' pc') :
    Passage pc e pc' := by
  cases hs with
  | quiet hq =>
      cases hq
      case timeoutExpires row => exact .expires row
      case synthesizeRaises row exc => exact .raises row rfl rfl
      case uploadRaises row wav exc => exact .raises row rfl rfl
      case completedRaises row key exc => exact .raises row rfl rfl
      case timedOutRaises row => exact .recordRaises false rfl
      case failingRaises row unrecoverable => exact .recordRaises false rfl
      case crash hrunning =>
        cases hclause : pc.clause? with
        | none => exact .within hrunning hclause rfl (by simp) rfl (by simp)
        | some clause => exact .crash hclause
      all_goals exact .within rfl rfl rfl (by simp) rfl (by simp)
  | write hf hafter =>
      cases hafter
      case completedRaises row key exc => exact .raises row rfl rfl
      case timedOut row => exact .timedOut row
      case timedOutRaises row => exact .recordRaises true rfl
      case failing row unrecoverable => exact .failing row unrecoverable
      case failingRaises row unrecoverable => exact .recordRaises true rfl
      all_goals exact .within rfl rfl rfl (by simp) rfl (by simp)
  | synthesizeReturns => exact .within rfl rfl rfl (by simp) rfl (by simp)
  | uploadWav => exact .within rfl rfl rfl (by simp) rfl (by simp)
  | uploadWavRaises row wav exc => exact .raises row rfl rfl

/-- Only the call of `wait_for` leads to where the synthesis runs. -/
theorem synthesize_of_callStep
    {row : JobRow}
    (hs : CallStep d w job pc e w' (.synthesizing row)) :
    e = .synthesize := by
  generalize hpc' : CallPc.synthesizing row = pc' at hs
  cases passage_of_callStep hs with
  | raises _ _ _ =>
      rename_i exc _ _ _
      cases exc <;> cases hpc'
  | within =>
      cases hs with
      | quiet hq => cases hq <;> first | rfl | cases hpc' | contradiction
      | write hf hafter => cases hafter <;> first | cases hpc' | contradiction
      | synthesizeReturns => cases hpc'
      | uploadWav => cases hpc'
      | uploadWavRaises => contradiction
  | _ => cases hpc'

/-- The clause `except Exception` records the failure of a last attempt as INTERNAL. -/
theorem internal_of_record
    {row : JobRow} {unrecoverable : Bool} {r : Job}
    (hs : CallStep d w job (.failing row unrecoverable) e w' pc')
    (hraises : e ≠ .recordRaises false)
    (hcrash : e ≠ .crash)
    (hlast : job.attempts ≤ job.attemptsMade + 1)
    (hr : w.rowOf job.jobId = some r)
    (hopen : r.status.terminal = false) :
    ∃ r', w'.rowOf job.jobId = some r' ∧ r'.status = .failed ∧
      r'.errorCode = some "INTERNAL" := by
  cases hs with
  | quiet hq =>
      cases hq with
      | failingRaises => exact absurd rfl hraises
      | crash => exact absurd rfl hcrash
  | write hf hafter =>
      cases hf with
      | failed => exact ⟨_, rowOf_write (.failed _ _) hr hopen, rfl, rfl⟩
      | queued _ _ hnot => exact absurd hlast (of_decide_eq_false hnot)

end Calls

section Steps

variable {d : Deps} {poolSize limit : Nat} {s t : TimedWorker}

/-- What every such run keeps. -/
structure TimedOk (poolSize limit : Nat) (s : TimedWorker) : Prop where
  /-- A thread runs for the synthesis of the current call only. -/
  thread : s.worker.thread.isSome = true →
    ∃ job row, s.worker.current = some ⟨job, .synthesizing row⟩
  /-- A synthesis for which a thread was free starts at its call. -/
  started : ∀ job row, s.worker.current = some ⟨job, .synthesizing row⟩ →
    s.wait.threadFree = true →
      (s.worker.startsAtOnce poolSize = true ∧ s.clock = s.wait.calledAt) ∨
        (s.worker.thread.isSome = true ∧ s.wait.startedAt = some s.wait.calledAt)
  /-- Outside the clauses a call that goes on is about no exception. -/
  within : ∀ c, s.worker.current = some c → c.pc.running = true → c.pc.clause? = none →
    s.cause = none
  timedOut : ∀ job row, s.worker.current = some ⟨job, .timedOut row⟩ →
    ∃ ran, s.cause = some (.deadline (some ran)) ∧ limit ≤ ran
  failing : ∀ job row unrecoverable,
    s.worker.current = some ⟨job, .failing row unrecoverable⟩ →
      ∃ exc, s.cause = some (.raised exc) ∧
        (unrecoverable = true → exc = .unrecoverableError)
  /-- An `UnrecoverableError` is the one of the time limit or was raised inside the
  `try`. -/
  unrecoverable : ∀ job, s.worker.current = some ⟨job, .raised true⟩ →
    ∃ x, s.ended.getLast? = some x ∧ x.job = job ∧
      (x.clause = some .timeoutError ∨ x.cause = .raised .unrecoverableError)
  ended : ∀ x, x ∈ s.ended → x.Truthful limit

theorem startsAtOnce_iff
    {u : WorkerProcess} {job : QueueJob} {row : JobRow}
    (h : u.current = some ⟨job, .synthesizing row⟩) :
    u.startsAtOnce poolSize = true ↔ u.thread = none ∧ u.left.length < poolSize := by
  unfold WorkerProcess.startsAtOnce
  rw [h]
  simp

/-- A thread that was free at the call has run for the limit when it expires. -/
theorem running_of_expired
    {job : QueueJob} {row : JobRow}
    (hok : TimedOk poolSize limit s)
    (hcurrent : s.worker.current = some ⟨job, .synthesizing row⟩)
    (hready : s.timerAllows limit (.call .timeoutExpires) = true)
    (hG : OnlyLimitTimesOut limit s (.worker (.call .timeoutExpires))) :
    ∃ ran, s.running = some ran ∧ limit ≤ ran := by
  obtain ⟨hpositive, hfree⟩ := hG
  have hdeadline : s.wait.calledAt + limit ≤ s.clock := of_decide_eq_true hready
  rcases hok.started job row hcurrent hfree with ⟨_, hnow⟩ | ⟨hthread, hstart⟩
  · omega
  · obtain ⟨text, htext⟩ := Option.isSome_iff_exists.mp hthread
    refine ⟨s.clock - s.wait.calledAt, ?_, by omega⟩
    rw [TimedWorker.running, htext, hstart]
    rfl

theorem causeOf_of_raised
    {e : CallEvent} {exc : ExcClass}
    (h : e.raised? = some exc) :
    s.causeOf (.call e) = some (.raised exc) := by
  cases e <;> cases h <;> rfl

theorem causeOf_of_quiet
    {e : CallEvent}
    (h : e.raised? = none)
    (hexpires : e ≠ .timeoutExpires) :
    s.causeOf (.call e) = s.cause := by
  cases e <;> first | exact absurd rfl hexpires | rfl | cases h

/-- What a call inside the `try` raises is no `TimeoutError`, and on the last attempt an
`Exception` unless the row is finished afterwards. -/
theorem catches_of_raised
    {e : CallEvent} {exc : ExcClass} {job : QueueJob} {pc pc' : CallPc} {w' : World}
    (hG : OnlyLimitTimesOut limit s (.worker (.call e)))
    (hcurrent : s.worker.current = some ⟨job, pc⟩)
    (hs : CallStep d s.worker.world job pc e w' pc')
    (h : e.raised? = some exc) :
    exc ≠ .timeoutError ∧
      (exc = .baseException → job.attempts ≤ job.attemptsMade + 1 →
        w'.rowFinished job.jobId = true) := by
  have hkeep := rowFinished_of_callStep hs
  cases e <;> cases h
  case synthesizeRaises =>
    exact ⟨hG.1, fun hbase hlast => hkeep ((hG.2 hbase _ hcurrent hlast).resolve_left (by simp))⟩
  case uploadWavRaises =>
    exact ⟨hG.1, fun hbase hlast => hkeep ((hG.2 hbase _ hcurrent hlast).resolve_left (by simp))⟩
  case markCompletedRaises tookEffect =>
    refine ⟨hG.1, fun hbase hlast => ?_⟩
    rcases hG.2 hbase _ hcurrent hlast with rfl | hfinished
    · cases hs with
      | quiet hq => cases hq
      | write hf hafter =>
          cases hf <;> cases hafter
          exact rowFinished_of_ends (.completed _) fun _ => rfl
    · exact hkeep hfinished

/-- What a statement of the current call means for the process. -/
theorem after_eq
    {u v : WorkerProcess} {e : CallEvent} {next : World × Call}
    (h : u.after e next = some v) :
    v.world = next.1 ∧ v.current = some next.2 ∧
      (v.thread = none ∨ v.thread = u.thread ∧ e ≠ .timeoutExpires ∧ e ≠ .crash ∧
        (∀ wav, e ≠ .synthesizeReturns wav) ∧ ∀ exc, e ≠ .synthesizeRaises exc) ∧
      (e = .synthesize → v.left = u.left) := by
  unfold WorkerProcess.after at h
  split at h
  · split at h
    · cases h
      exact ⟨rfl, rfl, Or.inl rfl, fun _ => rfl⟩
    · cases h
  · cases h
    exact ⟨rfl, rfl, Or.inl rfl, fun _ => rfl⟩
  · cases h
    exact ⟨rfl, rfl, Or.inl rfl, fun he => by cases he⟩
  · cases h
    exact ⟨rfl, rfl, Or.inl rfl, fun he => by cases he⟩
  · next hreturns hraises hexpires hcrash =>
      cases h
      exact ⟨rfl, rfl, Or.inr ⟨rfl, hexpires, hcrash, hreturns, hraises⟩, fun _ => rfl⟩

/-- After a statement of the current call no thread runs for it. -/
theorem thread_of_call
    {job : QueueJob} {pc pc' : CallPc} {w' : World} {e : CallEvent} {v : WorkerProcess}
    (hok : TimedOk poolSize limit s)
    (hcurrent : s.worker.current = some ⟨job, pc⟩)
    (hs : CallStep d s.worker.world job pc e w' pc')
    (hafter : s.worker.after e (w', ⟨job, pc'⟩) = some v) :
    v.thread = none := by
  rcases (after_eq hafter).2.2.1 with hnone | ⟨hsame, hexpires, hcrash, hreturns, hraises⟩
  · exact hnone
  · rw [hsame]
    by_contra hsome
    obtain ⟨job', row, hsynth⟩ := hok.thread (Option.isSome_iff_ne_none.mpr hsome)
    cases hcurrent.symm.trans hsynth
    cases hs with
    | quiet hq =>
        cases hq with
        | synthesizeRaises => exact hraises _ rfl
        | timeoutExpires => exact hexpires rfl
        | crash => exact hcrash rfl
    | write hf => cases hf
    | synthesizeReturns => exact hreturns _ rfl

/-- The entry that a statement of the current call adds. -/
theorem mem_endedBy
    {job : QueueJob} {pc pc' : CallPc} {e : CallEvent} {next : WorkerProcess} {x : Ended}
    (hcurrent : s.worker.current = some ⟨job, pc⟩)
    (hnext : next.current = some ⟨job, pc'⟩) :
    s.endedBy (.call e) next = some x ↔
      ∃ cause unrecoverable, s.causeOf (.call e) = some cause ∧ pc' = .raised unrecoverable ∧
        x = ⟨job, pc.clause?, cause,
          (if pc.clause? = none then next.world else s.worker.world).rowOf job.jobId,
          next.world.rowOf job.jobId,
          settle job.jobId job.attempts job.attemptsMade (.raised unrecoverable)⟩ := by
  unfold TimedWorker.endedBy
  rw [hcurrent, hnext]
  cases hcause : s.causeOf (.call e) with
  | none => simp
  | some cause =>
      by_cases hraised : ∃ unrecoverable, pc' = .raised unrecoverable
      · obtain ⟨unrecoverable, rfl⟩ := hraised
        simp [eq_comm]
      · cases pc' <;> simp_all

theorem retried_of_raised
    {jobId : Uuid} {attempts attemptsMade : Nat}
    (hmore : attemptsMade + 1 < attempts) :
    settle jobId attempts attemptsMade (.raised false) = .waiting (attemptsMade + 1) := by
  simp [settle, hmore]

/-- A finished row leaves nothing to be recorded. -/
theorem not_open_of_finished
    {w : World} {jobId : Uuid} {r : Job}
    (h : w.rowFinished jobId = true)
    (hr : w.rowOf jobId = some r) :
    r.status.terminal ≠ false := by
  rw [rowFinished_iff.mp h r hr]
  simp

/-- An exception that no clause catches leaves the truth. -/
theorem truthful_of_uncaught
    {job : QueueJob} {pc : CallPc} {w : World} {before after : Option Job} {exc : ExcClass}
    (hpc : pc.clause? = none)
    (hbefore : before = w.rowOf job.jobId)
    (hfinished : job.attempts ≤ job.attemptsMade + 1 → w.rowFinished job.jobId = true) :
    Ended.Truthful limit
      ⟨job, pc.clause?, .raised exc, before, after,
        settle job.jobId job.attempts job.attemptsMade (.raised false)⟩ where
  timeout h := by
    rw [hpc] at h
    cases h
  retried _ _ hmore := retried_of_raised hmore
  internal _ _ hlast r hr hopen :=
    absurd hopen (not_open_of_finished (hfinished hlast) (hbefore.symm.trans hr))

/-- The clause `except TimeoutError` is left with the truth. -/
theorem truthful_of_timedOut
    {job : QueueJob} {row : JobRow} {before after : Option Job} {phase : EntryPhase}
    {cause : Cause}
    (hok : TimedOk poolSize limit s)
    (hcurrent : s.worker.current = some ⟨job, .timedOut row⟩)
    (hcause : s.cause = some cause) :
    Ended.Truthful limit ⟨job, some .timeoutError, cause, before, after, phase⟩ := by
  obtain ⟨ran, hran, hle⟩ := hok.timedOut job row hcurrent
  cases hcause.symm.trans hran
  exact ⟨fun _ => ⟨ran, rfl, hle⟩, by simp, by simp⟩

/-- An exception out of the `try` leaves `process` with the truth. -/
theorem truthful_of_leaves
    {job : QueueJob} {pc pc' : CallPc} {w' : World} {e : CallEvent} {next : WorkerProcess}
    {x : Ended}
    (hok : TimedOk poolSize limit s)
    (hG : OnlyLimitTimesOut limit s (.worker (.call e)))
    (hcurrent : s.worker.current = some ⟨job, pc⟩)
    (hs : CallStep d s.worker.world job pc e w' pc')
    (hworld : next.world = w')
    (hnext : next.current = some ⟨job, pc'⟩)
    (hx : s.endedBy (.call e) next = some x) :
    x.Truthful limit := by
  obtain ⟨cause, unrecoverable, hcause, hpc', rfl⟩ := (mem_endedBy hcurrent hnext).mp hx
  rw [hworld]
  cases passage_of_callStep hs with
  | within hrunning hpc he hexpires =>
      rw [causeOf_of_quiet he hexpires, hok.within _ hcurrent hrunning hpc] at hcause
      cases hcause
  | expires row => cases hpc'
  | raises row hpc he =>
      obtain ⟨hbase, rfl⟩ := baseException_of_raised hpc'.symm
      rw [causeOf_of_raised he] at hcause
      cases hcause
      exact truthful_of_uncaught hpc (by rw [if_pos hpc])
        ((catches_of_raised hG hcurrent hs he).2 hbase)
  | timedOut row => exact truthful_of_timedOut hok hcurrent hcause
  | failing row =>
      cases hpc'
      obtain ⟨exc, hexc, _⟩ := hok.failing job row unrecoverable hcurrent
      refine ⟨by simp [CallPc.clause?], fun _ _ hmore => ?_, fun _ _ hlast r hr hopen => ?_⟩
      · cases unrecoverable with
        | false => exact retried_of_raised hmore
        | true => exact absurd (hG job row hcurrent) (Nat.not_le_of_gt hmore)
      · exact internal_of_record hs (by simp) (by simp) hlast hr hopen
  | recordRaises tookEffect hpc =>
      cases hpc'
      cases pc with
      | timedOut row => exact truthful_of_timedOut hok hcurrent hcause
      | failing row unrecoverable =>
          refine ⟨by simp [CallPc.clause?], fun _ _ hmore => retried_of_raised hmore,
            fun _ _ hlast r hr hopen => ?_⟩
          rcases hG job row unrecoverable hcurrent hlast with rfl | hfinished
          · exact internal_of_record hs (by simp) (by simp) hlast hr hopen
          · exact absurd hopen (not_open_of_finished hfinished hr)
      | _ => cases hpc
  | crash hpc => cases hpc'

/-- What an exception out of the `try` leads to, and where it came from. -/
theorem cause_of_callStep
    {job : QueueJob} {pc pc' : CallPc} {w' : World} {e : CallEvent}
    (hok : TimedOk poolSize limit s)
    (hready : s.timerAllows limit (.call e) = true)
    (hG : OnlyLimitTimesOut limit s (.worker (.call e)))
    (hcurrent : s.worker.current = some ⟨job, pc⟩)
    (hs : CallStep d s.worker.world job pc e w' pc') :
    (pc'.running = true → pc'.clause? = none → s.causeOf (.call e) = none) ∧
      (∀ row, pc' = .timedOut row →
        ∃ ran, s.causeOf (.call e) = some (.deadline (some ran)) ∧ limit ≤ ran) ∧
      ∀ row unrecoverable, pc' = .failing row unrecoverable →
        ∃ exc, s.causeOf (.call e) = some (.raised exc) ∧
          (unrecoverable = true → exc = .unrecoverableError) := by
  cases passage_of_callStep hs with
  | within hrunning hpc he hexpires hclause =>
      rw [causeOf_of_quiet he hexpires]
      refine ⟨fun _ _ => hok.within _ hcurrent hrunning hpc, ?_, ?_⟩
      · rintro row rfl
        cases hclause
      · rintro row unrecoverable rfl
        cases hclause
  | expires row =>
      obtain ⟨ran, hran, hle⟩ := running_of_expired hok hcurrent hready hG
      refine ⟨by simp [CallPc.clause?], fun _ _ => ⟨ran, ?_, hle⟩, by simp⟩
      rw [← hran]
      rfl
  | @raises _ _ exc row hpc he =>
      have hne := (catches_of_raised hG hcurrent hs he).1
      rw [causeOf_of_raised he]
      cases exc <;> simp_all [exceptClause, CallPc.clause?, CallPc.running]
  | timedOut row => exact ⟨by simp [CallPc.running], by simp, by simp⟩
  | failing row => exact ⟨by simp [CallPc.running], by simp, by simp⟩
  | recordRaises => exact ⟨by simp [CallPc.running], by simp, by simp⟩
  | crash => exact ⟨by simp [CallPc.running], by simp, by simp⟩

/-- An `UnrecoverableError` leaves an entry that says where it comes from. -/
theorem ended_of_unrecoverable
    {job : QueueJob} {pc : CallPc} {w' : World} {e : CallEvent} {next : WorkerProcess}
    (hok : TimedOk poolSize limit s)
    (hcurrent : s.worker.current = some ⟨job, pc⟩)
    (hnext : next.current = some ⟨job, .raised true⟩)
    (hs : CallStep d s.worker.world job pc e w' (.raised true)) :
    ∃ x, s.endedBy (.call e) next = some x ∧ x.job = job ∧
      (x.clause = some .timeoutError ∨ x.cause = .raised .unrecoverableError) := by
  generalize hpc' : CallPc.raised true = pc' at hs
  cases passage_of_callStep hs with
  | within _ _ _ _ _ hraised => exact absurd hpc'.symm hraised
  | expires row => cases hpc'
  | raises row hpc he => cases (baseException_of_raised hpc').2
  | timedOut row =>
      obtain ⟨ran, hcause, _⟩ := hok.timedOut job row hcurrent
      exact ⟨_, (mem_endedBy hcurrent hnext).mpr ⟨_, _, hcause, rfl, rfl⟩, rfl, Or.inl rfl⟩
  | failing row unrecoverable =>
      cases hpc'
      obtain ⟨exc, hcause, hexc⟩ := hok.failing job row true hcurrent
      exact ⟨_, (mem_endedBy hcurrent hnext).mpr ⟨_, _, hcause, rfl, rfl⟩, rfl,
        Or.inr (congrArg Cause.raised (hexc rfl))⟩
  | recordRaises => cases hpc'
  | crash => cases hpc'

/-- A worker process that differs in its stores only. -/
theorem timedOk_of_same
    (hok : TimedOk poolSize limit s)
    (hcurrent : t.worker.current = s.worker.current)
    (hthread : t.worker.thread = s.worker.thread)
    (hleft : t.worker.left.length ≤ s.worker.left.length)
    (hrest : t.clock = s.clock ∧ t.wait = s.wait ∧ t.cause = s.cause ∧ t.ended = s.ended) :
    TimedOk poolSize limit t := by
  obtain ⟨hclock, hwait, hcause, hended⟩ := hrest
  refine ⟨?_, ?_, ?_, ?_, ?_, ?_, ?_⟩
  · rw [hthread, hcurrent]
    exact hok.thread
  · intro job row hj hfree
    rw [hwait] at hfree
    rw [hthread, hclock, hwait]
    rcases hok.started job row (hcurrent.symm.trans hj) hfree with ⟨hstarts, hnow⟩ | hstarted
    · have hroom := (startsAtOnce_iff (hcurrent.symm.trans hj)).mp hstarts
      exact Or.inl ⟨(startsAtOnce_iff hj).mpr ⟨hthread.trans hroom.1, hleft.trans_lt hroom.2⟩,
        hnow⟩
    · exact Or.inr hstarted
  · rw [hcurrent, hcause]
    exact hok.within
  · rw [hcurrent, hcause]
    exact hok.timedOut
  · rw [hcurrent, hcause]
    exact hok.failing
  · rw [hcurrent, hended]
    exact hok.unrecoverable
  · rw [hended]
    exact hok.ended

theorem timedOk_of_deliver
    {job : QueueJob} {next : WorkerProcess}
    (hok : TimedOk poolSize limit s)
    (hs : s.worker.step d poolSize (.deliver job) = some next) :
    TimedOk poolSize limit (s.note poolSize (.deliver job) next) := by
  simp only [WorkerProcess.step] at hs
  split at hs
  · next hidle =>
      cases hs
      refine ⟨?_, ?_, ?_, ?_, ?_, ?_, ?_⟩
      · intro hsome
        obtain ⟨job', row, hsynth⟩ := hok.thread hsome
        simp [WorkerProcess.idle, hsynth, CallPc.running] at hidle
      · intro j row hj
        cases hj
      · intro c hc
        cases hc
        exact fun _ _ => rfl
      · intro j row hj
        cases hj
      · intro j row unrecoverable hj
        cases hj
      · intro j hj
        cases hj
      · intro x hx
        rcases List.mem_append.mp hx with hx | hx
        · exact hok.ended x hx
        · cases hx
  · cases hs

theorem timedOk_of_threadStarts
    {next : WorkerProcess}
    (hok : TimedOk poolSize limit s)
    (hs : s.worker.step d poolSize .threadStarts = some next) :
    TimedOk poolSize limit (s.note poolSize .threadStarts next) := by
  have hended : (s.note poolSize .threadStarts next).ended = s.ended := List.append_nil _
  obtain ⟨job, row, hsynth, hnone, _, rfl⟩ := threadStarts_of_step hs
  refine ⟨fun _ => ⟨job, row, hsynth⟩, ?_, hok.within, hok.timedOut, hok.failing, ?_, ?_⟩
  · intro j r hj hfree
    rcases hok.started j r hj hfree with ⟨_, hnow⟩ | ⟨hthread, _⟩
    · exact Or.inr ⟨rfl, congrArg some hnow⟩
    · rw [hnone] at hthread
      cases hthread
  · rw [hended]
    exact hok.unrecoverable
  · rw [hended]
    exact hok.ended

theorem timedOk_of_threadEnds
    {k : Nat} {next : WorkerProcess}
    (hok : TimedOk poolSize limit s)
    (hs : s.worker.step d poolSize (.threadEnds k) = some next) :
    TimedOk poolSize limit (s.note poolSize (.threadEnds k) next) := by
  simp only [WorkerProcess.step] at hs
  split at hs
  · cases hs
    exact timedOk_of_same hok rfl rfl (List.length_eraseIdx_le _ _)
      ⟨rfl, rfl, rfl, List.append_nil _⟩
  · cases hs

theorem timedOk_of_call
    {e : CallEvent} {next : WorkerProcess}
    (hok : TimedOk poolSize limit s)
    (hready : s.timerAllows limit (.call e) = true)
    (hG : OnlyLimitTimesOut limit s (.worker (.call e)))
    (hs : s.worker.step d poolSize (.call e) = some next) :
    TimedOk poolSize limit (s.note poolSize (.call e) next) := by
  simp only [WorkerProcess.step] at hs
  split at hs
  · cases hs
  · next c hcurrent =>
      obtain ⟨⟨w', c'⟩, hact, hafter⟩ := Option.bind_eq_some_iff.mp hs
      obtain ⟨hjob, hstep⟩ := callStep_of_act hact
      obtain ⟨job, pc⟩ := c
      obtain ⟨job', pc'⟩ := c'
      cases hjob
      obtain ⟨hworld, hnext, _, hleft⟩ := after_eq hafter
      have hthread := thread_of_call hok hcurrent hstep hafter
      obtain ⟨hwithin, htimedOut, hfailing⟩ :=
        cause_of_callStep hok hready hG hcurrent hstep
      refine ⟨?_, ?_, ?_, ?_, ?_, ?_, ?_⟩
      · intro hsome
        rw [show (s.note poolSize (.call e) next).worker.thread = none from hthread] at hsome
        cases hsome
      · intro j row hj hfree
        cases hnext.symm.trans hj
        cases synthesize_of_callStep hstep
        refine Or.inl ⟨(startsAtOnce_iff hnext).mpr ⟨hthread, ?_⟩, rfl⟩
        rw [hleft rfl]
        exact of_decide_eq_true hfree
      · intro c hc
        cases hnext.symm.trans hc
        exact hwithin
      · intro j row hj
        cases hnext.symm.trans hj
        exact htimedOut row rfl
      · intro j row unrecoverable hj
        cases hnext.symm.trans hj
        exact hfailing row unrecoverable rfl
      · intro j hj
        cases hnext.symm.trans hj
        obtain ⟨x, hx, hxjob, hwhy⟩ := ended_of_unrecoverable hok hcurrent hnext hstep
        exact ⟨x, by simp [TimedWorker.note, hx], hxjob, hwhy⟩
      · intro x hx
        rcases List.mem_append.mp hx with hx | hx
        · exact hok.ended x hx
        · exact truthful_of_leaves hok hG hcurrent hstep hworld hnext (Option.mem_toList.mp hx)

theorem timedOk_of_step
    {e : TimedEvent}
    (hok : TimedOk poolSize limit s)
    (hG : OnlyLimitTimesOut limit s e)
    (hs : (timedMachine d poolSize limit).step s e = some t) :
    TimedOk poolSize limit t := by
  cases e with
  | tick n =>
      simp only [timedMachine, TimedWorker.step] at hs
      split at hs
      · cases hs
      · next hwaits =>
          cases hs
          refine ⟨hok.thread, ?_, hok.within, hok.timedOut, hok.failing, hok.unrecoverable,
            hok.ended⟩
          intro job row hcurrent hfree
          rcases hok.started job row hcurrent hfree with ⟨hstarts, _⟩ | hstarted
          · exact absurd hstarts hwaits
          · exact Or.inr hstarted
  | worker e =>
      simp only [timedMachine, TimedWorker.step] at hs
      split at hs
      · next hready =>
          obtain ⟨next, hnext, rfl⟩ := Option.map_eq_some_iff.mp hs
          cases e with
          | call e => exact timedOk_of_call hok hready hG hnext
          | deliver job => exact timedOk_of_deliver hok hnext
          | threadStarts => exact timedOk_of_threadStarts hok hnext
          | threadEnds k => exact timedOk_of_threadEnds hok hnext
          | elsewhere w =>
              cases hnext
              exact timedOk_of_same hok rfl rfl le_rfl ⟨rfl, rfl, rfl, List.append_nil _⟩
      · cases hs

end Steps

section Results

variable {d : Deps} {poolSize limit : Nat} {w : World} {s : TimedWorker} {es : List TimedEvent}

theorem timedOk_of_run
    (hrun : Machine.Run (timedMachine d poolSize limit) (OnlyLimitTimesOut limit)
      (TimedWorker.start w) es s) :
    TimedOk poolSize limit s := by
  refine Machine.run_invariant (fun _ _ _ hok hG hs => timedOk_of_step hok hG hs) hrun ?_
  refine ⟨?_, ?_, ?_, ?_, ?_, ?_, ?_⟩
  · intro hsome
    cases hsome
  · intro job row hcurrent
    cases hcurrent
  · intro c hcurrent
    cases hcurrent
  · intro job row hcurrent
    cases hcurrent
  · intro job row unrecoverable hcurrent
    cases hcurrent
  · intro job hcurrent
    cases hcurrent
  · intro x hx
    cases hx

/--
**TIMEOUT means an overrun**, in every run of a worker process whose steps meet
`OnlyLimitTimesOut`: an `UnrecoverableError` leaves `process` only through the clause
that records TIMEOUT, or where a call inside the `try` raised one; that clause is left
only by jobs whose own synthesis had been running for the limit; and every exception of
the engine, the upload or `mark_completed` is retried while attempts remain and recorded
as INTERNAL otherwise.
-/
theorem timeout_means_overrun
    (hrun : Machine.Run (timedMachine d poolSize limit) (OnlyLimitTimesOut limit)
      (TimedWorker.start w) es s) :
    (∀ job, s.worker.current = some ⟨job, .raised true⟩ →
        ∃ x, s.ended.getLast? = some x ∧ x.job = job ∧
          (x.clause = some .timeoutError ∨ x.cause = .raised .unrecoverableError)) ∧
      ∀ x, x ∈ s.ended → x.Truthful limit := by
  have hok := timedOk_of_run hrun
  exact ⟨hok.unrecoverable, hok.ended⟩

/-- The attempt that the queue makes of a job, up to the call of `wait_for`. -/
def untilSynthesize (job : QueueJob) : List TimedEvent :=
  [WorkerEvent.deliver job, .call .fetchJob, .call .markActive, .call .synthesize].map .worker

/-- A job whose synthesis runs into the limit of 300. -/
def overrun : List TimedEvent :=
  untilSynthesize ⟨sampleJob, 0, 2, false⟩ ++
    [.worker .threadStarts, .tick 300, .worker (.call .timeoutExpires), .worker (.call .record)]

/-- An overrun, and a job whose engine raises an `UnrecoverableError` on the last attempt. -/
def overrunThenRaise : List TimedEvent :=
  overrun ++ untilSynthesize ⟨otherJob, 1, 2, false⟩ ++
    [.worker .threadStarts, .worker (.call (.synthesizeRaises .unrecoverableError)),
      .worker (.call .record)]

/-- A check of `OnlyLimitTimesOut` for runs in which every failure is on the last attempt
and every status write returns. -/
def onlyLimitTimesOut (limit : Nat) (s : TimedWorker) : TimedEvent → Bool
  | .worker (.call .timeoutExpires) => decide (0 < limit) && s.wait.threadFree
  | .worker (.call .record) => s.worker.current.all fun c =>
      decide (c.pc.clause? = some .timeoutError) ||
        decide (c.job.attempts ≤ c.job.attemptsMade + 1)
  | .worker (.call (.recordRaises _)) => false
  | .worker (.call e) => e.raised?.all fun exc =>
      decide (exc ≠ .timeoutError) && decide (exc ≠ .baseException)
  | _ => true

theorem catches_of_check
    {exc : ExcClass} {finishes : Bool}
    (h : (decide (exc ≠ .timeoutError) && decide (exc ≠ .baseException)) = true) :
    s.Catches exc finishes := by
  obtain ⟨htimeout, hbase⟩ := (Bool.and_eq_true _ _).mp h
  exact ⟨of_decide_eq_true htimeout, fun he => absurd he (of_decide_eq_true hbase)⟩

theorem onlyLimitTimesOut_of_check
    {e : TimedEvent}
    (h : onlyLimitTimesOut limit s e = true) :
    OnlyLimitTimesOut limit s e := by
  cases e with
  | tick => trivial
  | worker e =>
      cases e with
      | call e =>
          cases e
          case timeoutExpires =>
            obtain ⟨hlimit, hfree⟩ := (Bool.and_eq_true _ _).mp h
            exact ⟨of_decide_eq_true hlimit, hfree⟩
          case record =>
            intro job row hcurrent
            simpa [onlyLimitTimesOut, hcurrent, CallPc.clause?] using h
          case synthesizeRaises => exact catches_of_check h
          case uploadWavRaises => exact catches_of_check h
          case markCompletedRaises => exact catches_of_check h
          case recordRaises => cases h
          all_goals trivial
      | _ => trivial

/-- The overrun is told as one, and the exception of the last attempt as INTERNAL. -/
theorem timeout_means_overrun_once :
    ∃ s : TimedWorker,
      Machine.Run (timedMachine sampleDeps 4 300) (OnlyLimitTimesOut 300)
          (TimedWorker.start twoJobs) overrunThenRaise s ∧
        s.worker.current = some ⟨⟨otherJob, 1, 2, false⟩, .raised true⟩ ∧
          s.ended.map (fun x => (x.clause, x.cause)) =
            [(some .timeoutError, .deadline (some 300)),
              (some .exception, .raised .unrecoverableError)] ∧
            ((∀ job, s.worker.current = some ⟨job, .raised true⟩ →
                ∃ x, s.ended.getLast? = some x ∧ x.job = job ∧
                  (x.clause = some .timeoutError ∨ x.cause = .raised .unrecoverableError)) ∧
              ∀ x, x ∈ s.ended → x.Truthful 300) := by
  have hexec : ((timedMachine sampleDeps 4 300).exec (onlyLimitTimesOut 300)
      (TimedWorker.start twoJobs) overrunThenRaise).any (fun s =>
        decide (s.worker.current = some ⟨⟨otherJob, 1, 2, false⟩, .raised true⟩) &&
          decide (s.ended.map (fun x => (x.clause, x.cause)) =
            [(some .timeoutError, .deadline (some 300)),
              (some .exception, .raised .unrecoverableError)])) = true := by
    decide +kernel
  obtain ⟨s, hrun, hs⟩ :=
    Machine.exists_run_of_exec (fun _ _ => onlyLimitTimesOut_of_check) hexec
  obtain ⟨hcurrent, hended⟩ := (Bool.and_eq_true _ _).mp hs
  exact ⟨s, hrun, of_decide_eq_true hcurrent, of_decide_eq_true hended,
    timeout_means_overrun hrun⟩

/-- The engine returns at once and the upload raises a `TimeoutError`: TIMEOUT, and no
retry although an attempt is left. -/
def uploadTimesOut : List TimedEvent :=
  untilSynthesize ⟨sampleJob, 0, 2, false⟩ ++
    [.worker .threadStarts, .worker (.call (.synthesizeReturns [82])),
      .worker (.call (.uploadWavRaises .timeoutError false)), .worker (.call .record)]

/-- One thread, which an overrun still occupies: the limit of the next job expires
before its synthesis starts. -/
def waitsForThread : List TimedEvent :=
  overrun ++ untilSynthesize ⟨otherJob, 0, 2, false⟩ ++
    [.tick 300, .worker (.call .timeoutExpires), .worker (.call .record)]

/-- The job has ended in the clause of the time limit, FAILED with TIMEOUT. -/
def saysTimeout (jobId : Uuid) (cause : Cause) (s : TimedWorker) : Bool :=
  s.ended.any fun x => decide (x.job.jobId = jobId) &&
    decide (x.clause = some .timeoutError) && decide (x.cause = cause) &&
      x.after.any fun r => decide (r.errorCode = some "TIMEOUT")

/-- TIMEOUT without retry for a synthesis that took no time, and for one that never ran. -/
theorem timeout_without_overrun :
    (∃ s : TimedWorker,
      Machine.Run (timedMachine sampleDeps 4 300) Machine.anyStep (TimedWorker.start twoJobs)
          uploadTimesOut s ∧
        saysTimeout sampleJob (.raised .timeoutError) s = true ∧
          s.worker.current = some ⟨⟨sampleJob, 0, 2, false⟩, .raised true⟩) ∧
      ∃ s : TimedWorker,
        Machine.Run (timedMachine sampleDeps 1 300) Machine.anyStep (TimedWorker.start twoJobs)
            waitsForThread s ∧
          saysTimeout otherJob (.deadline none) s = true ∧
            s.worker.current = some ⟨⟨otherJob, 0, 2, false⟩, .raised true⟩ := by
  have hupload : ((timedMachine sampleDeps 4 300).exec (fun _ _ => true)
      (TimedWorker.start twoJobs) uploadTimesOut).any
      (fun s => saysTimeout sampleJob (.raised .timeoutError) s &&
        decide (s.worker.current = some ⟨⟨sampleJob, 0, 2, false⟩, .raised true⟩)) = true := by
    decide +kernel
  have hwait : ((timedMachine sampleDeps 1 300).exec (fun _ _ => true)
      (TimedWorker.start twoJobs) waitsForThread).any
      (fun s => saysTimeout otherJob (.deadline none) s &&
        decide (s.worker.current = some ⟨⟨otherJob, 0, 2, false⟩, .raised true⟩)) = true := by
    decide +kernel
  obtain ⟨s, hrun, hs⟩ := Machine.exists_anyRun_of_exec hupload
  obtain ⟨hverdict, hcurrent⟩ := (Bool.and_eq_true _ _).mp hs
  obtain ⟨t, hrun', ht⟩ := Machine.exists_anyRun_of_exec hwait
  obtain ⟨hverdict', hcurrent'⟩ := (Bool.and_eq_true _ _).mp ht
  exact ⟨⟨s, hrun, hverdict, of_decide_eq_true hcurrent⟩,
    t, hrun', hverdict', of_decide_eq_true hcurrent'⟩

end Results

end BengaliTts
