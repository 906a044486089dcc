import BengaliTts.JobReads
import BengaliTts.Processor

/-!
# The threads of one worker process

The queue hands a worker process one job after another (concurrency 1).  The
synthesis of a job runs in a thread of the default executor, and `wait_for` gives
it up when the time limit expires: a call that waits for a thread is cancelled, but
one that runs cannot be stopped and runs on until its function returns.  By then
the queue may have handed out the next job.

Main results:
* `one_synthesis_iff`: in every state of a run at most one synthesis runs, exactly
  if none is started while one that was given up still runs;
* `synthesizing_le_poolSize`: never do more run than the executor has threads.
-/

namespace BengaliTts

open Lib

section Worker

/-- A worker process. -/
structure WorkerProcess where
  world : World
  /-- The call of `process` that was started last. -/
  current : Option Call
  /-- The text that the thread of this call synthesizes, once the executor has started it. -/
  thread : Option String
  /-- The texts of calls that were given up while their thread ran, and still runs. -/
  left : List String

inductive WorkerEvent where
  /-- The queue hands out the next job. -/
  | deliver (job : QueueJob)
  /-- The next statement of the current call. -/
  | call (e : CallEvent)
  /-- The executor starts the synthesis of the current call in a thread. -/
  | threadStarts
  /-- The function of a thread that was given up returns or raises. -/
  | threadEnds (k : Nat)
  /-- The rest of the system changes the stores. -/
  | elsewhere (w : World)

/-- The process waits for a job: the last call returned or raised. -/
def WorkerProcess.idle (s : WorkerProcess) : Bool :=
  match s.current with
  | none => true
  | some c => !c.pc.running && decide (c.pc ≠ .crashed)

/-- What a statement of the current call means for the threads. -/
def WorkerProcess.after (s : WorkerProcess) (e : CallEvent) (next : World × Call) :
    Option WorkerProcess :=
  match e with
  | .synthesizeReturns _ =>
      if s.thread.isSome then
        some ⟨next.1, some next.2, none, s.left⟩
      else
        none
  | .synthesizeRaises _ => some ⟨next.1, some next.2, none, s.left⟩
  | .timeoutExpires => some ⟨next.1, some next.2, none, s.thread.toList ++ s.left⟩
  | .crash => some ⟨next.1, some next.2, none, []⟩
  | _ => some ⟨next.1, some next.2, s.thread, s.left⟩

/-- One step of a worker process whose executor has `poolSize` threads. -/
def WorkerProcess.step (d : Deps) (poolSize : Nat) (s : WorkerProcess) :
    WorkerEvent → Option WorkerProcess
  | .deliver job =>
      if s.idle then some { s with current := some (Call.process job) } else none
  | .call e =>
      match s.current with
      | none => none
      | some c => (c.act d s.world e).bind (s.after e)
  | .threadStarts =>
      match s.current with
      | some ⟨_, .synthesizing row⟩ =>
          if s.thread = none ∧ s.left.length < poolSize then
            some { s with thread := some row.inputText }
          else
            none
      | _ => none
  | .threadEnds k =>
      if k < s.left.length then some { s with left := s.left.eraseIdx k } else none
  | .elsewhere w => some { s with world := w }

def workerMachine (d : Deps) (poolSize : Nat) : Machine WorkerProcess WorkerEvent where
  step := WorkerProcess.step d poolSize

def WorkerProcess.start (w : World) : WorkerProcess :=
  ⟨w, none, none, []⟩

end Worker

section Statements

/-- The number of calls of `engine.synthesize` that run. -/
def WorkerProcess.synthesizing (s : WorkerProcess) : Nat :=
  s.left.length + s.thread.toList.length

/-- A synthesis starts only when none that was given up still runs. -/
def StartsAlone (s : WorkerProcess) : WorkerEvent → Prop
  | .threadStarts => s.left = []
  | _ => True

end Statements

section Steps

variable {d : Deps} {poolSize : Nat} {s t : WorkerProcess}

theorem synthesizing_after
    {e : CallEvent} {next : World × Call}
    (h : s.after e next = some t) :
    t.synthesizing ≤ s.synthesizing := by
  unfold WorkerProcess.after at h
  split at h
  · split at h
    · cases h
      simp [WorkerProcess.synthesizing]
    · cases h
  · cases h
    simp [WorkerProcess.synthesizing]
  · cases h
    simp [WorkerProcess.synthesizing, Nat.add_comm]
  · cases h
    simp [WorkerProcess.synthesizing]
  · cases h
    exact le_rfl

/-- A thread is started for a synthesis that waits for one, if one is free. -/
theorem threadStarts_of_step
    (hs : s.step d poolSize .threadStarts = some t) :
    ∃ job row, s.current = some ⟨job, .synthesizing row⟩ ∧ s.thread = none ∧
      s.left.length < poolSize ∧ t = { s with thread := some row.inputText } := by
  simp only [WorkerProcess.step] at hs
  split at hs
  · next job row hsynth =>
      split at hs
      · next hroom =>
          cases hs
          exact ⟨job, row, hsynth, hroom.1, hroom.2, rfl⟩
      · cases hs
  · cases hs

/-- Only the start of a thread makes one more synthesis run. -/
theorem synthesizing_of_step
    {e : WorkerEvent}
    (hs : (workerMachine d poolSize).step s e = some t) :
    (e = .threadStarts ∧ s.left.length < poolSize ∧ t.synthesizing = s.left.length + 1) ∨
      (e ≠ .threadStarts ∧ t.synthesizing ≤ s.synthesizing) := by
  cases e with
  | deliver job =>
      simp only [workerMachine, WorkerProcess.step] at hs
      split at hs
      · cases hs
        exact Or.inr ⟨by simp, le_rfl⟩
      · cases hs
  | call e =>
      simp only [workerMachine, WorkerProcess.step] at hs
      split at hs
      · cases hs
      · obtain ⟨next, _, hafter⟩ := Option.bind_eq_some_iff.mp hs
        exact Or.inr ⟨by simp, synthesizing_after hafter⟩
  | threadStarts =>
      have hstart : s.step d poolSize .threadStarts = some t := hs
      obtain ⟨_, _, _, _, hroom, rfl⟩ := threadStarts_of_step hstart
      exact Or.inl ⟨rfl, hroom, rfl⟩
  | threadEnds k =>
      simp only [workerMachine, WorkerProcess.step] at hs
      split at hs
      · next hk =>
          cases hs
          refine Or.inr ⟨by simp, ?_⟩
          simp only [WorkerProcess.synthesizing, List.length_eraseIdx_of_lt hk]
          omega
      · cases hs
  | elsewhere w =>
      cases hs
      exact Or.inr ⟨by simp, le_rfl⟩

end Steps

section Results

variable {d : Deps} {poolSize : Nat} {w : World} {s : WorkerProcess} {es : List WorkerEvent}

/-- Never do more calls run than the executor has threads. -/
theorem synthesizing_le_poolSize
    (hrun : Machine.Run (workerMachine d poolSize) Machine.anyStep (WorkerProcess.start w) es s) :
    s.synthesizing ≤ poolSize := by
  refine Machine.run_invariant (I := fun u => u.synthesizing ≤ poolSize) ?_ hrun (Nat.zero_le _)
  intro u e v hI _ hs
  rcases synthesizing_of_step hs with ⟨_, hroom, hmore⟩ | ⟨_, hle⟩
  · omega
  · omega

theorem one_synthesis_of_startsAlone
    (hrun : Machine.Run (workerMachine d poolSize) StartsAlone (WorkerProcess.start w) es s) :
    s.synthesizing ≤ 1 := by
  refine Machine.run_invariant (I := fun u => u.synthesizing ≤ 1) ?_ hrun (Nat.zero_le _)
  intro u e v hI halone hs
  rcases synthesizing_of_step hs with ⟨rfl, _, hmore⟩ | ⟨_, hle⟩
  · have hnone : u.left = [] := halone
    rw [hmore, hnone]
    rfl
  · omega

/--
**One text at a time.**  For every worker process, whatever jobs it is handed one
after another, whether their syntheses return, raise or run on, and whenever their
time limits expire: in every state of a run at most one call of `engine.synthesize`
runs, exactly if no synthesis is started while one that was given up still runs.
-/
theorem one_synthesis_iff
    (hrun : Machine.Run (workerMachine d poolSize) Machine.anyStep (WorkerProcess.start w) es s) :
    (∀ before after u, es = before ++ after →
        Machine.Run (workerMachine d poolSize) Machine.anyStep (WorkerProcess.start w) before u →
          u.synthesizing ≤ 1) ↔
      Machine.Run (workerMachine d poolSize) StartsAlone (WorkerProcess.start w) es s := by
  constructor
  · intro hone
    induction hrun with
    | nil => exact .nil _
    | @snoc t u es e hbefore _ hstep ih =>
        have halone := ih (fun before after v hes hv =>
          hone before (after ++ [e]) v (by rw [hes, List.append_assoc]) hv)
        refine .snoc halone ?_ hstep
        -- The state after the step is one of the run.
        have hlast := hone (es ++ [e]) [] u (by simp) (.snoc hbefore trivial hstep)
        cases e with
        | threadStarts =>
            rcases synthesizing_of_step hstep with ⟨_, _, hmore⟩ | ⟨hne, _⟩
            · exact List.length_eq_zero_iff.mp (by omega)
            · exact absurd rfl hne
        | _ => trivial
  · rintro halone before after u rfl hu
    obtain ⟨v, hv, _⟩ := Machine.run_split halone
    cases Machine.run_unique hu hv
    exact one_synthesis_of_startsAlone hv

/-- The attempt that the queue makes of a job. -/
def onlyAttempt (jobId : Uuid) : WorkerEvent :=
  .deliver ⟨jobId, 0, 1, false⟩

/-- From the lookup of a job to the start of its synthesis. -/
def startSynthesis : List WorkerEvent :=
  [.call .fetchJob, .call .markActive, .call .synthesize, .threadStarts]

/-- A synthesis that runs into the time limit, and the next job. -/
def jobAfterTimeout (between : List WorkerEvent) : List WorkerEvent :=
  onlyAttempt sampleJob :: startSynthesis ++ [.call .timeoutExpires, .call .record] ++ between ++
    onlyAttempt otherJob :: startSynthesis

/-- A check of `StartsAlone`. -/
def startsAlone (s : WorkerProcess) : WorkerEvent → Bool
  | .threadStarts => decide (s.left = [])
  | _ => true

theorem startsAlone_of_check
    {s : WorkerProcess} {e : WorkerEvent}
    (h : startsAlone s e = true) :
    StartsAlone s e := by
  cases e with
  | threadStarts =>
      have hnone : s.left = [] := of_decide_eq_true h
      exact hnone
  | _ => trivial

/-- The thread that was given up ends before the next synthesis starts. -/
theorem one_synthesis_after_timeout :
    ∃ (es : List WorkerEvent) (s : WorkerProcess),
      Machine.Run (workerMachine sampleDeps 4) Machine.anyStep (WorkerProcess.start twoJobs) es s ∧
        s.synthesizing = 1 ∧
          ∀ before after u, es = before ++ after →
            Machine.Run (workerMachine sampleDeps 4) Machine.anyStep
              (WorkerProcess.start twoJobs) before u →
                u.synthesizing ≤ 1 := by
  have hexec : ((workerMachine sampleDeps 4).exec startsAlone (WorkerProcess.start twoJobs)
      (jobAfterTimeout [.threadEnds 0])).any (fun s => decide (s.synthesizing = 1)) = true := by
    decide +kernel
  obtain ⟨s, halone, hs⟩ := Machine.exists_run_of_exec (fun _ _ => startsAlone_of_check) hexec
  have hrun := Machine.run_weaken (fun _ _ _ => trivial) halone
  exact ⟨_, s, hrun, of_decide_eq_true hs, (one_synthesis_iff hrun).mpr halone⟩

/-- A synthesis runs into the time limit; the queue hands out the next job, whose
synthesis runs beside the one that was given up. -/
theorem two_syntheses :
    ∃ (es : List WorkerEvent) (s : WorkerProcess),
      Machine.Run (workerMachine sampleDeps 4) Machine.anyStep (WorkerProcess.start twoJobs) es s ∧
        s.synthesizing = 2 := by
  have hexec : ((workerMachine sampleDeps 4).exec (fun _ _ => true)
      (WorkerProcess.start twoJobs) (jobAfterTimeout [])).any
      (fun s => decide (s.synthesizing = 2)) = true := by
    decide +kernel
  obtain ⟨s, hrun, hs⟩ := Machine.exists_anyRun_of_exec hexec
  exact ⟨_, s, hrun, of_decide_eq_true hs⟩

end Results

end BengaliTts
