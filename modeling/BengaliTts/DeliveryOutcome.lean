import BengaliTts.RowConsistency

/-!
# The life of a queue entry

The queue delivers an entry to `process` again and again.  A delivery that
returns completes the entry.  An exception counts as one failed attempt: the
entry waits for the next one while `attemptsMade + 1 < attempts` and the
exception is not an `UnrecoverableError`, and fails for good otherwise.  A
worker that dies leaves its entry stalled; a stalled entry waits again, or, past
the stall limit, the queue fails it without running the processor.  When an
entry has failed the listener `record_bypassed_failure` runs.  (The queue also
emits `failed` for an attempt that will be retried; the listener returns at its
first line then.)

Meanwhile the rest of the system works on the same stores, also another worker
that was taken for dead.  It may do anything but make the finished row of a
committed job unfinished (`rowFinished_of_step`).

Main result:
* `failed_entry_recorded`: the row of an entry that failed for good is finished
  exactly when no statement of `process` raised, on the attempt after which the
  queue gives up, while the row was unfinished, and left it so.  Of the engine, the
  upload and `mark_completed` that speaks only of the classes that `process` does
  not retry, `UnrecoverableError` and the ones beside `Exception`.
-/

namespace BengaliTts

open Lib

section Entry

/-- Where a queue entry stands. -/
inductive EntryPhase where
  /-- In the queue for its next attempt. -/
  | waiting (attemptsMade : Nat)
  /-- A delivery runs, or died. -/
  | active (attemptsMade : Nat) (pc : CallPc)
  | completed
  /-- Failed for good; the listener stands at `pc`. -/
  | failed (attemptsMade : Nat) (deferredFailure : Bool) (pc : CallPc)

/-- The stores and one entry of the queue. -/
structure EntryState where
  world : World
  phase : EntryPhase

inductive EntryEvent where
  /-- The queue hands the job to `process`. -/
  | deliver
  /-- A statement of the delivery. -/
  | call (e : CallEvent)
  /-- The entry of a dead worker is put back. -/
  | recoverStalled
  /-- The entry of a dead worker is failed during its next fetch. -/
  | exceedStallLimit
  /-- A statement of the listener. -/
  | listen (e : CallEvent)
  /-- The rest of the system changes the stores. -/
  | others (w : World)

/-- The statement raises, or the worker dies in it. -/
def CallEvent.fails : CallEvent → Bool
  | .fetchJobRaises => true
  | .markActiveRaises _ => true
  | .synthesizeRaises _ => true
  | .timeoutExpires => true
  | .uploadWavRaises _ _ => true
  | .markCompletedRaises _ _ => true
  | .recordRaises _ => true
  | .crash => true
  | _ => false

/-- The job as the queue hands it over. -/
def queueJob (jobId : Uuid) (attempts attemptsMade : Nat) (deferredFailure : Bool) :
    QueueJob where
  jobId := jobId
  attemptsMade := attemptsMade
  attempts := attempts
  deferredFailure := deferredFailure

/-- What the queue makes of an entry when its delivery has got to `pc`. -/
def settle (jobId : Uuid) (attempts attemptsMade : Nat) (pc : CallPc) : EntryPhase :=
  match pc with
  | .returned _ => .completed
  | .raised unrecoverable =>
      if attemptsMade + 1 < attempts ∧ unrecoverable = false then
        .waiting (attemptsMade + 1)
      else
        .failed attemptsMade false
          (Call.recordBypassedFailure (queueJob jobId attempts attemptsMade false)).pc
  | pc => .active attemptsMade pc

/-- The job's row, if it exists, is terminal. -/
def World.rowFinished (w : World) (jobId : Uuid) : Bool :=
  (BengaliTts.fetchJob w.jobs jobId).all fun row => row.status.terminal

/-- The entry failed for good and the listener is done. -/
def EntryState.over (s : EntryState) : Bool :=
  match s.phase with
  | .failed _ _ .listened => true
  | _ => false

/-- One step of an entry. The listener's own database calls succeed. -/
def EntryState.step (d : Deps) (jobId : Uuid) (attempts : Nat) (s : EntryState) :
    EntryEvent → Option EntryState
  | .deliver =>
      match s.phase with
      | .waiting k =>
          some { s with phase := .active k (Call.process (queueJob jobId attempts k false)).pc }
      | _ => none
  | .call e =>
      match s.phase with
      | .active k pc =>
          (Call.act d s.world ⟨queueJob jobId attempts k false, pc⟩ e).map fun next =>
            ⟨next.1, settle jobId attempts k next.2.pc⟩
      | _ => none
  | .recoverStalled =>
      match s.phase with
      | .active k .crashed => some { s with phase := .waiting k }
      | _ => none
  | .exceedStallLimit =>
      match s.phase with
      | .active k .crashed =>
          some { s with
            phase := .failed k true
              (Call.recordBypassedFailure (queueJob jobId attempts k true)).pc }
      | _ => none
  | .listen e =>
      match s.phase with
      | .failed k deferred pc =>
          if e.fails then
            none
          else
            (Call.act d s.world ⟨queueJob jobId attempts k deferred, pc⟩ e).map fun next =>
              ⟨next.1, .failed k deferred next.2.pc⟩
      | _ => none
  | .others w =>
      if s.over = false ∧ (s.world.rowFinished jobId = true → w.rowFinished jobId = true) then
        some { s with world := w }
      else
        none

def entryMachine (d : Deps) (jobId : Uuid) (attempts : Nat) :
    Machine EntryState EntryEvent where
  step := EntryState.step d jobId attempts

/-- The life of an entry from its first wait on, in stores of any content. -/
abbrev EntryRun (d : Deps) (jobId : Uuid) (attempts : Nat)
    (G : EntryState → EntryEvent → Prop) (w : World)
    (es : List EntryEvent) (s : EntryState) : Prop :=
  Machine.Run (entryMachine d jobId attempts) G ⟨w, .waiting 0⟩ es s

/-- The statements of `process` whose exception leaves the row as it is, or
active. -/
def CallEvent.losesFailure : CallEvent → Bool
  | .fetchJobRaises => true
  | .markActiveRaises _ => true
  | .synthesizeRaises .baseException => true
  | .uploadWavRaises .baseException _ => true
  | .markCompletedRaises .baseException false => true
  | .recordRaises false => true
  | _ => false

/-- The `mark_queued` for an `UnrecoverableError`, after which no attempt comes. -/
def CallPc.queuesInVain : CallPc → CallEvent → Bool
  | .failing _ true, .record => true
  | _, _ => false

/-- While the row is unfinished: on the last attempt no statement that loses its
failure raises, which of the engine, the upload and `mark_completed` is only the one
that raises what is no `Exception`; and no attempt before it queues the row for an
`UnrecoverableError`. -/
def RecordsFailure (jobId : Uuid) (attempts : Nat) (s : EntryState) :
    EntryEvent → Prop
  | .call e =>
      ∀ k pc, s.phase = .active k pc →
        (if k + 1 < attempts then pc.queuesInVain e else e.losesFailure) = true →
          s.world.rowFinished jobId = true
  | _ => True

/-- What a step of an entry is. -/
inductive EntryStep (d : Deps) (jobId : Uuid) (attempts : Nat) :
    EntryState → EntryEvent → EntryState → Prop
  | deliver (w : World) (k : Nat) :
      EntryStep d jobId attempts ⟨w, .waiting k⟩ .deliver ⟨w, .active k .entered⟩
  | call {w w' : World} {k : Nat} {pc pc' : CallPc} {e : CallEvent}
      (hstep : CallStep d w (queueJob jobId attempts k false) pc e w' pc') :
      EntryStep d jobId attempts ⟨w, .active k pc⟩ (.call e)
        ⟨w', settle jobId attempts k pc'⟩
  | recoverStalled (w : World) (k : Nat) :
      EntryStep d jobId attempts ⟨w, .active k .crashed⟩ .recoverStalled ⟨w, .waiting k⟩
  | exceedStallLimit (w : World) (k : Nat) :
      EntryStep d jobId attempts ⟨w, .active k .crashed⟩ .exceedStallLimit
        ⟨w, .failed k true .notified⟩
  | listen {w w' : World} {k : Nat} {deferred : Bool} {pc pc' : CallPc} {e : CallEvent}
      (he : e.fails = false)
      (hstep : CallStep d w (queueJob jobId attempts k deferred) pc e w' pc') :
      EntryStep d jobId attempts ⟨w, .failed k deferred pc⟩ (.listen e)
        ⟨w', .failed k deferred pc'⟩
  | others {s : EntryState} {w : World}
      (hover : s.over = false)
      (hkeep : s.world.rowFinished jobId = true → w.rowFinished jobId = true) :
      EntryStep d jobId attempts s (.others w) ⟨w, s.phase⟩

/-- **Inversion.**  A step of an entry is one of `EntryStep`. -/
theorem entryStep_of_step
    {d : Deps} {jobId : Uuid} {attempts : Nat} {s t : EntryState} {e : EntryEvent}
    (h : (entryMachine d jobId attempts).step s e = some t) :
    EntryStep d jobId attempts s e t := by
  obtain ⟨w, phase⟩ := s
  simp only [entryMachine, EntryState.step] at h
  split at h
  · split at h
    · next k =>
        cases h
        exact .deliver w k
    · cases h
  · next e =>
      split at h
      · next k pc =>
          obtain ⟨⟨w', c'⟩, hact, hnext⟩ := Option.map_eq_some_iff.mp h
          cases hnext
          exact .call (callStep_of_act hact).2
      · cases h
  · split at h
    · next k =>
        cases h
        exact .recoverStalled w k
    · cases h
  · split at h
    · next k =>
        cases h
        exact .exceedStallLimit w k
    · cases h
  · next e =>
      split at h
      · next k deferred pc =>
          split at h
          · cases h
          · next he =>
              obtain ⟨⟨w', c'⟩, hact, hnext⟩ := Option.map_eq_some_iff.mp h
              cases hnext
              exact .listen (by simpa using he) (callStep_of_act hact).2
      · cases h
  · next w' =>
      split at h
      · next hc =>
          cases h
          exact .others hc.1 hc.2
      · cases h

end Entry

section Rows

variable {d : Deps} {w w' : World} {jobId : Uuid}

theorem rowFinished_iff :
    w.rowFinished jobId = true ↔
      ∀ r, (w.jobs.find? fun r => decide (r.id = jobId)) = some r →
        r.status.terminal = true := by
  unfold World.rowFinished BengaliTts.fetchJob
  rw [Option.all_map, Option.all_eq_true]
  exact Iff.rfl

/-- The row of a job after a status write. -/
theorem find?_guardedUpdate
    {now : Nat} {f : Job → Job}
    (hf : StatusWrite now jobId f)
    (jobs : List Job) :
    ((guardedUpdate jobId f jobs).find? fun r => decide (r.id = jobId)) =
      (jobs.find? fun r => decide (r.id = jobId)).map fun r =>
        if notTerminal jobId r then f r else r := by
  have hid : ∀ r : Job, (if notTerminal jobId r then f r else r).id = r.id := by
    intro r
    split
    · exact (hf.sameSubmission r).id.symm
    · rfl
  unfold guardedUpdate updateWhere
  rw [List.find?_map]
  simp only [Function.comp_def, hid]

/-- After a status write the row is finished if it was, or if the write ends it. -/
theorem rowFinished_guardedUpdate
    {now : Nat} {f : Job → Job}
    (hf : StatusWrite now jobId f) :
    World.rowFinished { w with jobs := guardedUpdate jobId f w.jobs } jobId = true ↔
      ∀ r, (w.jobs.find? fun r => decide (r.id = jobId)) = some r →
        r.status.terminal = false → (f r).status.terminal = true := by
  rw [rowFinished_iff]
  dsimp only
  rw [find?_guardedUpdate hf]
  constructor
  · intro h r hr hterm
    have hid : r.id = jobId := by simpa using List.find?_some hr
    have hguard : notTerminal jobId r = true := by simp [notTerminal, hid, hterm]
    have hnew := h (f r) (by simp [hr, hguard])
    exact hnew
  · intro h q hq
    obtain ⟨r, hr, rfl⟩ := Option.map_eq_some_iff.mp hq
    split
    · next hguard =>
        have hterm : r.status.terminal = false := by
          simpa using ((Bool.and_eq_true _ _).mp hguard).2
        exact h r hr hterm
    · next hguard =>
        have hid : r.id = jobId := by simpa using List.find?_some hr
        simpa [notTerminal, hid] using hguard

/-- No status write makes a finished row unfinished. -/
theorem rowFinished_keep
    {now : Nat} {f : Job → Job}
    (hf : StatusWrite now jobId f)
    (h : w.rowFinished jobId = true) :
    World.rowFinished { w with jobs := guardedUpdate jobId f w.jobs } jobId = true := by
  rw [rowFinished_guardedUpdate hf]
  intro r hr hterm
  simp [rowFinished_iff.mp h r hr] at hterm

/-- A write of a terminal status finishes the row. -/
theorem rowFinished_of_ends
    {now : Nat} {f : Job → Job}
    (hf : StatusWrite now jobId f)
    (hends : ∀ r, (f r).status.terminal = true) :
    World.rowFinished { w with jobs := guardedUpdate jobId f w.jobs } jobId = true :=
  (rowFinished_guardedUpdate hf).mpr fun r _ _ => hends r

/-- A write of a status that is not terminal finishes no row. -/
theorem rowFinished_of_continues
    {now : Nat} {f : Job → Job}
    (hf : StatusWrite now jobId f)
    (hcontinues : ∀ r, (f r).status.terminal = false)
    (h : World.rowFinished { w with jobs := guardedUpdate jobId f w.jobs } jobId = true) :
    w.rowFinished jobId = true := by
  rw [rowFinished_iff]
  intro r hr
  cases hterm : r.status.terminal with
  | true => rfl
  | false =>
      have hnew := (rowFinished_guardedUpdate hf).mp h r hr hterm
      rw [hcontinues r] at hnew
      cases hnew

/-- In the service the finished row of a committed job stays finished, whatever
process or environment takes the next step. -/
theorem rowFinished_of_step
    {s t : Service} {e : ServiceEvent}
    (hok : ServiceOk d s)
    (hcommitted : jobId ∈ s.world.everCommitted)
    (hs : (service d).machine.step s e = some t)
    (h : s.world.rowFinished jobId = true) :
    t.world.rowFinished jobId = true := by
  have hset : RowsSettled jobId (fun q => q.status.terminal = true) s.world := by
    refine ⟨hcommitted, ?_⟩
    intro q hq hid
    exact rowFinished_iff.mp h q
      ((find?_eq_some_iff_of_unique hok.1.rowsUnique).mpr ⟨hq, hid⟩)
  have hnext := rowsSettled_of_step (fun _ hq => hq) hok hs hset
  rw [rowFinished_iff]
  intro r hr
  exact hnext.2 r (List.mem_of_find?_eq_some hr) (by simpa using List.find?_some hr)

end Rows

section Deliveries

variable {d : Deps} {w w' : World} {job : QueueJob} {pc pc' : CallPc} {e : CallEvent}

/-- A place of the listener. -/
def CallPc.ofListener : CallPc → Bool
  | .notified => true
  | .bypassing _ => true
  | .listened => true
  | _ => false

theorem exceptClause_ofListener
    (row : JobRow) (exc : ExcClass) :
    (exceptClause row exc).ofListener = false := by
  cases exc <;> rfl

/-- Only what is no `Exception` passes both clauses. -/
theorem baseException_of_raised
    {row : JobRow} {exc : ExcClass} {unrecoverable : Bool}
    (h : CallPc.raised unrecoverable = exceptClause row exc) :
    exc = .baseException ∧ unrecoverable = false := by
  cases exc <;> cases h
  exact ⟨rfl, rfl⟩

/-- A delivery never turns into a call of the listener. -/
theorem ofListener_of_callStep
    (hs : CallStep d w job pc e w' pc')
    (hpc : pc.ofListener = false) :
    pc'.ofListener = false := by
  cases hs with
  | quiet hq =>
      cases hq
      case synthesizeRaises => exact exceptClause_ofListener _ _
      case uploadRaises => exact exceptClause_ofListener _ _
      case completedRaises => exact exceptClause_ofListener _ _
      all_goals first | rfl | cases hpc
  | write _ hafter =>
      cases hafter
      case completedRaises => exact exceptClause_ofListener _ _
      all_goals first | rfl | cases hpc
  | synthesizeReturns => rfl
  | uploadWav => rfl
  | uploadWavRaises => exact exceptClause_ofListener _ _

/-- No statement of a call makes the finished row of its job unfinished. -/
theorem rowFinished_of_callStep
    (hs : CallStep d w job pc e w' pc')
    (h : w.rowFinished job.jobId = true) :
    w'.rowFinished job.jobId = true := by
  cases hs with
  | quiet => exact h
  | write hf => exact rowFinished_keep hf.statusWrite h
  | synthesizeReturns => exact h
  | uploadWav => exact h
  | uploadWavRaises => exact h

/--
An exception that leaves `process` has either lost its failure, or the row is
finished, or the attempt was not the last one; if it forbids a retry then, the row
was queued in vain.
-/
theorem raised_cases
    {unrecoverable : Bool}
    (hs : CallStep d w job pc e w' (.raised unrecoverable)) :
    (e.losesFailure = true ∧ unrecoverable = false) ∨
      w'.rowFinished job.jobId = true ∨
        (job.finalAttempt = false ∧ (unrecoverable = true → pc.queuesInVain e = true)) := by
  generalize hpc' : CallPc.raised unrecoverable = pc' at hs
  cases hs with
  | quiet hq =>
      cases hq
      case synthesizeRaises row exc =>
        obtain ⟨rfl, hu⟩ := baseException_of_raised hpc'
        exact Or.inl ⟨rfl, hu⟩
      case uploadRaises row wav exc =>
        obtain ⟨rfl, hu⟩ := baseException_of_raised hpc'
        exact Or.inl ⟨rfl, hu⟩
      case completedRaises row key exc =>
        obtain ⟨rfl, hu⟩ := baseException_of_raised hpc'
        exact Or.inl ⟨rfl, hu⟩
      all_goals
        cases hpc'
      all_goals exact Or.inl ⟨rfl, rfl⟩
  | write hf hafter =>
      cases hf with
      | active =>
          cases hafter <;> cases hpc'
          exact Or.inl ⟨rfl, rfl⟩
      | completed => exact Or.inr (Or.inl (rowFinished_of_ends (.completed _) fun _ => rfl))
      | timedOut => exact Or.inr (Or.inl (rowFinished_of_ends (.failed _ _) fun _ => rfl))
      | failed => exact Or.inr (Or.inl (rowFinished_of_ends (.failed _ _) fun _ => rfl))
      | queued row unrecoverable hnot =>
          refine Or.inr (Or.inr ⟨hnot, ?_⟩)
          intro hu
          cases hafter with
          | failing =>
              cases hpc'
              rw [hu]
              rfl
          | failingRaises =>
              cases hpc'
              cases hu
      | bypassed => cases hafter <;> cases hpc'
  | synthesizeReturns => cases hpc'
  | uploadWav => cases hpc'
  | uploadWavRaises row wav exc =>
      obtain ⟨rfl, hu⟩ := baseException_of_raised hpc'
      exact Or.inl ⟨rfl, hu⟩

/-- A statement that loses its failure ends the delivery and finishes no row. -/
theorem raised_of_losesFailure
    (hs : CallStep d w job pc e w' pc')
    (he : e.losesFailure = true)
    (hpc : pc.ofListener = false) :
    pc' = .raised false ∧
      (w'.rowFinished job.jobId = true → w.rowFinished job.jobId = true) := by
  cases hs with
  | quiet hq =>
      cases hq
      case fetchRaises => exact ⟨rfl, id⟩
      case activeRaises => exact ⟨rfl, id⟩
      case timedOutRaises => exact ⟨rfl, id⟩
      case failingRaises => exact ⟨rfl, id⟩
      case listenerFetchRaises => cases hpc
      case bypassingRaises => cases hpc
      case synthesizeRaises row exc =>
        cases exc <;> cases he
        exact ⟨rfl, id⟩
      case uploadRaises row wav exc =>
        cases exc <;> cases he
        exact ⟨rfl, id⟩
      case completedRaises row key exc =>
        cases exc <;> cases he
        exact ⟨rfl, id⟩
      all_goals cases he
  | write hf hafter =>
      cases hafter
      case activeRaises =>
        cases hf
        exact ⟨rfl, rowFinished_of_continues .active fun _ => rfl⟩
      case completedRaises row key exc => cases exc <;> cases he
      all_goals cases he
  | synthesizeReturns => cases he
  | uploadWav => cases he
  | uploadWavRaises row wav exc =>
      cases exc <;> cases he
      exact ⟨rfl, id⟩

theorem failing_of_queuesInVain
    (h : pc.queuesInVain e = true) :
    ∃ row, pc = .failing row true ∧ e = .record := by
  unfold CallPc.queuesInVain at h
  split at h
  · next row => exact ⟨row, rfl, rfl⟩
  · cases h

/-- A row queued in vain is left unfinished by a delivery that forbids a retry. -/
theorem raised_of_queuesInVain
    (hs : CallStep d w job pc e w' pc')
    (hvain : pc.queuesInVain e = true)
    (hnot : job.finalAttempt = false) :
    pc' = .raised true ∧
      (w'.rowFinished job.jobId = true → w.rowFinished job.jobId = true) := by
  obtain ⟨row, rfl, rfl⟩ := failing_of_queuesInVain hvain
  cases hs with
  | quiet hq => cases hq
  | write hf hafter =>
      cases hafter
      cases hf with
      | failed _ _ final =>
          rw [hnot] at final
          cases final
      | queued =>
          have hwrite : StatusWrite w.now job.jobId setQueued := .queued
          exact ⟨rfl, rowFinished_of_continues hwrite fun _ => rfl⟩

/-- A listener whose statements succeed ends with the row finished. -/
theorem rowFinished_of_listened
    (hs : CallStep d w job pc e w' .listened)
    (he : e.fails = false) :
    w'.rowFinished job.jobId = true := by
  generalize hpc' : CallPc.listened = pc' at hs
  cases hs with
  | quiet hq =>
      cases hq
      case listenerSkips h =>
        unfold World.rowFinished
        rw [Option.all_eq_true]
        exact h
      case synthesizeRaises row exc => cases exc <;> cases hpc'
      case uploadRaises row wav exc => cases exc <;> cases hpc'
      case completedRaises row key exc => cases exc <;> cases hpc'
      case listenerFetchRaises => cases he
      case bypassingRaises => cases he
      all_goals cases hpc'
  | write hf hafter =>
      cases hf with
      | bypassed => exact rowFinished_of_ends (.failed _ _) fun _ => rfl
      | completed =>
          cases hafter with
          | completed => cases hpc'
          | completedRaises row key exc => cases he
      | _ => cases hafter <;> cases hpc'
  | synthesizeReturns => cases hpc'
  | uploadWav => cases hpc'
  | uploadWavRaises row wav exc => cases he

end Deliveries

section Lives

variable {d : Deps} {jobId : Uuid} {attempts : Nat} {s t : EntryState} {e : EntryEvent}

/-- A delivery fails its entry only by an exception, and only if no attempt is
left or no retry is allowed. -/
theorem raised_of_settle
    {k k' : Nat} {pc pc' : CallPc} {deferred : Bool}
    (h : settle jobId attempts k pc = .failed k' deferred pc') :
    ∃ unrecoverable, pc = .raised unrecoverable ∧
      (unrecoverable = false → attempts ≤ k + 1) := by
  cases pc with
  | raised unrecoverable =>
      refine ⟨unrecoverable, rfl, ?_⟩
      intro hu
      by_cases hk : k + 1 < attempts
      · simp [settle, hk, hu] at h
      · omega
  | _ => cases h

/-- An exception on the last attempt, or one that forbids a retry, fails the entry,
and the listener returns at once. -/
theorem over_of_settle
    {w : World} {k : Nat} {unrecoverable : Bool}
    (hlast : k + 1 < attempts → unrecoverable = true) :
    EntryState.over ⟨w, settle jobId attempts k (.raised unrecoverable)⟩ = true := by
  have hk : ¬ (k + 1 < attempts ∧ unrecoverable = false) := by
    rintro ⟨hleft, hu⟩
    rw [hlast hleft] at hu
    cases hu
  simp only [settle, if_neg hk]
  rfl

theorem failed_of_over
    (h : s.over = true) :
    ∃ k deferred, s.phase = .failed k deferred .listened := by
  unfold EntryState.over at h
  split at h
  · next k deferred hphase => exact ⟨k, deferred, hphase⟩
  · cases h

/-- The life of an entry ends when the listener is done. -/
theorem not_over_of_step
    (hs : EntryStep d jobId attempts s e t) :
    s.over = false := by
  cases hs with
  | deliver => rfl
  | call => rfl
  | recoverStalled => rfl
  | exceedStallLimit => rfl
  | @listen w w' k deferred pc pc' e he hstep =>
      cases pc with
      | listened =>
          cases hstep with
          | quiet hq =>
              cases hq with
              | crash hrunning => cases hrunning
          | write hf => cases hf
      | _ => rfl
  | others hover => exact hover

/-- In a running delivery no statement of the listener is next. -/
def ListenerApart (s : EntryState) : Prop :=
  ∀ k pc, s.phase = .active k pc → pc.ofListener = false

theorem active_of_settle
    {k k' : Nat} {pc pc' : CallPc}
    (h : settle jobId attempts k pc = .active k' pc') :
    pc' = pc := by
  cases pc with
  | raised unrecoverable =>
      unfold settle at h
      dsimp only at h
      split at h <;> cases h
  | returned => cases h
  | _ =>
      cases h
      rfl

theorem listenerApart_of_step
    (hs : EntryStep d jobId attempts s e t)
    (h : ListenerApart s) :
    ListenerApart t := by
  intro k pc hphase
  cases hs with
  | deliver =>
      cases hphase
      rfl
  | call hstep =>
      rw [active_of_settle hphase]
      exact ofListener_of_callStep hstep (h _ _ rfl)
  | recoverStalled => cases hphase
  | exceedStallLimit => cases hphase
  | listen => cases hphase
  | others => exact h k pc hphase

/-- What the guard keeps: an entry that is over has a finished row. -/
def Recorded (jobId : Uuid) (s : EntryState) : Prop :=
  s.over = true → s.world.rowFinished jobId = true

theorem recorded_of_step
    (hs : EntryStep d jobId attempts s e t)
    (hG : RecordsFailure jobId attempts s e) :
    Recorded jobId t := by
  intro hover
  cases hs with
  | deliver => cases hover
  | @call w w' k pc pc' e hstep =>
      obtain ⟨k', deferred, hphase⟩ := failed_of_over hover
      obtain ⟨unrecoverable, rfl, hlast⟩ := raised_of_settle hphase
      have hkeep : w.rowFinished jobId = true → w'.rowFinished jobId = true :=
        fun hbefore => rowFinished_of_callStep hstep hbefore
      rcases raised_cases hstep with ⟨hloses, hu⟩ | hdone | ⟨hnot, hvain⟩
      · refine hkeep (hG k pc rfl ?_)
        rw [if_neg (Nat.not_lt.mpr (hlast hu))]
        exact hloses
      · exact hdone
      · have hleft : k + 1 < attempts := by
          simpa [QueueJob.finalAttempt, queueJob] using hnot
        cases unrecoverable with
        | false => exact absurd (hlast rfl) (Nat.not_le.mpr hleft)
        | true =>
            refine hkeep (hG k pc rfl ?_)
            rw [if_pos hleft]
            exact hvain rfl
  | recoverStalled => cases hover
  | exceedStallLimit => cases hover
  | listen he hstep =>
      obtain ⟨k', deferred, hphase⟩ := failed_of_over hover
      cases hphase
      exact rowFinished_of_listened hstep he
  | others hnot =>
      have hsame : s.over = true := hover
      rw [hnot] at hsame
      cases hsame

/-- A step against the guard ends the life of the entry with its row unfinished. -/
theorem lost_of_step
    (hs : EntryStep d jobId attempts s e t)
    (hG : ¬ RecordsFailure jobId attempts s e)
    (hapart : ListenerApart s) :
    t.over = true ∧ t.world.rowFinished jobId = false := by
  cases hs with
  | @call w w' k pc pc' e hstep =>
      have hex : (if k + 1 < attempts then pc.queuesInVain e else e.losesFailure) = true ∧
          w.rowFinished jobId = false := by
        by_contra hnone
        apply hG
        intro k' pc'' hphase hloses
        cases hphase
        by_contra hfinished
        exact hnone ⟨hloses, by simpa using hfinished⟩
      obtain ⟨hloses, hunfinished⟩ := hex
      have hends : ∃ unrecoverable, pc' = .raised unrecoverable ∧
          (k + 1 < attempts → unrecoverable = true) ∧
          (w'.rowFinished jobId = true → w.rowFinished jobId = true) := by
        split at hloses
        · next hleft =>
            obtain ⟨hpc', hback⟩ := raised_of_queuesInVain hstep hloses
              (by simpa [QueueJob.finalAttempt, queueJob] using hleft)
            exact ⟨true, hpc', fun _ => rfl, hback⟩
        · next hlast =>
            obtain ⟨hpc', hback⟩ := raised_of_losesFailure hstep hloses (hapart _ _ rfl)
            exact ⟨false, hpc', fun hleft => absurd hleft hlast, hback⟩
      obtain ⟨unrecoverable, rfl, hlast, hback⟩ := hends
      refine ⟨over_of_settle hlast, ?_⟩
      by_contra hfinished
      rw [hback (by simpa using hfinished)] at hunfinished
      cases hunfinished
  | _ => exact absurd trivial hG

/-- A life either loses no failure or is over with the row unfinished. -/
theorem records_or_lost
    {w : World} {es : List EntryEvent}
    (hrun : EntryRun d jobId attempts Machine.anyStep w es s) :
    ListenerApart s ∧
      (EntryRun d jobId attempts (RecordsFailure jobId attempts) w es s ∨
        (s.over = true ∧ s.world.rowFinished jobId = false)) := by
  induction hrun with
  | nil =>
      refine ⟨?_, Or.inl (Machine.Run.nil _)⟩
      intro k pc hphase
      cases hphase
  | @snoc s t es e _ _ hstep ih =>
      have hs := entryStep_of_step hstep
      obtain ⟨hapart, ih⟩ := ih
      refine ⟨listenerApart_of_step hs hapart, ?_⟩
      rcases ih with hrun | ⟨hover, _⟩
      · by_cases hG : RecordsFailure jobId attempts s e
        · exact Or.inl (Machine.Run.snoc hrun hG hstep)
        · exact Or.inr (lost_of_step hs hG hapart)
      · rw [not_over_of_step hs] at hover
        cases hover

theorem recorded_of_run
    {w : World} {es : List EntryEvent}
    (hrun : EntryRun d jobId attempts (RecordsFailure jobId attempts) w es s) :
    Recorded jobId s := by
  refine Machine.run_invariant ?_ hrun ?_
  · intro t e u _ hG hs
    exact recorded_of_step (entryStep_of_step hs) hG
  · intro hover
    cases hover

/--
**Failed entries are recorded.**  In every life of a queue entry, with any
number of attempts and over stores of any content, when the entry has failed for
good and the listener is done, the job's row, if it exists, is terminal exactly
if every step met `RecordsFailure`.
-/
theorem failed_entry_recorded
    {w : World} {es : List EntryEvent}
    (hrun : EntryRun d jobId attempts Machine.anyStep w es s)
    (hover : s.over = true) :
    (∀ row, BengaliTts.fetchJob s.world.jobs jobId = some row → row.status.terminal = true) ↔
      EntryRun d jobId attempts (RecordsFailure jobId attempts) w es s := by
  constructor
  · intro hrows
    rcases (records_or_lost hrun).2 with hguarded | ⟨_, hunfinished⟩
    · exact hguarded
    · have hfinished : s.world.rowFinished jobId = true := by
        unfold World.rowFinished
        rw [Option.all_eq_true]
        exact hrows
      rw [hunfinished] at hfinished
      cases hfinished
  · intro hguarded row hrow
    have hfinished := recorded_of_run hguarded hover
    unfold World.rowFinished at hfinished
    rw [Option.all_eq_true] at hfinished
    exact hfinished row hrow

/-- Stores with one queued job. -/
def oneQueued : World :=
  { World.empty with jobs := [newJob sampleJob sampleUser "ক" none 0] }

/-- A delivery in which the engine raises and the failure is recorded. -/
def engineFails : List EntryEvent :=
  .deliver :: [CallEvent.fetchJob, .markActive, .synthesize, .synthesizeRaises .other,
    .record].map .call

/-- No step loses a failure or queues a row in vain. -/
def losesNothing (s : EntryState) : EntryEvent → Bool
  | .call e =>
      match s.phase with
      | .active _ pc => !e.losesFailure && !pc.queuesInVain e
      | _ => true
  | _ => true

theorem recordsFailure_of_losesNothing
    {s : EntryState} {e : EntryEvent}
    (h : losesNothing s e = true) :
    RecordsFailure jobId attempts s e := by
  cases e with
  | call e =>
      intro k pc hphase hloses
      obtain ⟨hkept, hqueued⟩ : e.losesFailure = false ∧ pc.queuesInVain e = false := by
        simpa [losesNothing, hphase] using h
      split at hloses
      · rw [hqueued] at hloses
        cases hloses
      · rw [hkept] at hloses
        cases hloses
  | _ => trivial

/-- The engine fails on both attempts; the second one marks the row FAILED. -/
theorem failed_entry_recorded_twice :
    ∃ (es : List EntryEvent) (s : EntryState),
      EntryRun sampleDeps sampleJob 2 Machine.anyStep oneQueued es s ∧ s.over = true ∧
        ∀ row, BengaliTts.fetchJob s.world.jobs sampleJob = some row →
          row.status.terminal = true := by
  have hexec : ((entryMachine sampleDeps sampleJob 2).exec losesNothing ⟨oneQueued, .waiting 0⟩
      (engineFails ++ engineFails)).any EntryState.over = true := by
    decide +kernel
  obtain ⟨s, hguarded, hover⟩ := Machine.exists_run_of_exec
    (G := RecordsFailure sampleJob 2) (fun _ _ => recordsFailure_of_losesNothing) hexec
  have hrun := Machine.run_weaken (H := Machine.anyStep) (fun _ _ _ => trivial) hguarded
  exact ⟨_, s, hrun, hover, (failed_entry_recorded hrun hover).mpr hguarded⟩

/-- The engine fails once, and the second delivery cannot read the row: the entry
is gone for good and the row is queued for ever. -/
theorem failed_entry_unrecorded :
    ∃ (es : List EntryEvent) (s : EntryState) (row : JobRow),
      EntryRun sampleDeps sampleJob 2 Machine.anyStep oneQueued es s ∧ s.over = true ∧
        BengaliTts.fetchJob s.world.jobs sampleJob = some row ∧ row.status = .queued := by
  have hexec : ((entryMachine sampleDeps sampleJob 2).exec (fun _ _ => true)
      ⟨oneQueued, .waiting 0⟩ (engineFails ++ [.deliver, .call .fetchJobRaises])).any
      (fun s => s.over && (BengaliTts.fetchJob s.world.jobs sampleJob).any
        fun row => decide (row.status = .queued)) = true := by
    decide +kernel
  obtain ⟨s, hrun, hs⟩ := Machine.exists_anyRun_of_exec hexec
  obtain ⟨hover, hrow⟩ := (Bool.and_eq_true _ _).mp hs
  obtain ⟨row, hrow, hqueued⟩ := (Option.any_eq_true _ _).mp hrow
  exact ⟨_, s, row, hrun, hover, hrow, of_decide_eq_true hqueued⟩

end Lives

end BengaliTts
