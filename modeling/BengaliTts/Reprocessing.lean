import BengaliTts.RowConsistency

/-!
# Finished jobs and late calls

`process` looks at the status once, when it fetches the row; the synthesis and
the upload come later and look at nothing.  So a call that has read an
unfinished row is *at work* until its upload is over, and whether it disturbs a
finished job depends on when the other calls for that job make the row terminal.

Main results:
* `finished_never_reworked`: in the runs in which no status write finishes a job
  while another call for it is at work, no call starts a synthesis or an upload
  for a finished job, and its recording stays as it is;
* `returned_key_verdict`: when a call returns the key of its recording, the row
  is completed with that key, unless it had failed before the call wrote it.
-/

namespace BengaliTts

open Lib

section Statements

/-- The call has read an unfinished row and may still start a synthesis or an
upload. -/
def CallPc.atWork : CallPc → Bool
  | .fetched _ => true
  | .activated _ => true
  | .synthesizing _ => true
  | .synthesized _ _ => true
  | _ => false

/-- The statement starts a synthesis or an upload. -/
def CallEvent.works : CallEvent → Bool
  | .synthesize => true
  | .uploadWav => true
  | .uploadWavRaises _ _ => true
  | _ => false

/-- A call for job `jobId` starts a synthesis or an upload. -/
def WorksOn (jobId : Uuid) (s : Service) : ServiceEvent → Prop
  | .act i (.call e) =>
      e.works = true ∧ ∃ c, s.procs[i]? = some (.call c) ∧ c.job.jobId = jobId
  | _ => False

/-- The statement is a status write that makes an unfinished row terminal. -/
def Call.finishes (c : Call) (e : CallEvent) : Bool :=
  match c.pc, e with
  | .uploaded _ _, .markCompleted => true
  | .uploaded _ _, .markCompletedRaises _ tookEffect => tookEffect
  | .timedOut _, .record => true
  | .timedOut _, .recordRaises tookEffect => tookEffect
  | .failing _ _, .record => c.job.finalAttempt
  | .failing _ _, .recordRaises tookEffect => tookEffect && c.job.finalAttempt
  | .bypassing _, .record => true
  | .bypassing _, .recordRaises tookEffect => tookEffect
  | _, _ => false

/-- The job has a row that is not terminal. -/
def Unfinished (w : World) (jobId : Uuid) : Prop :=
  ∃ r, r ∈ w.jobs ∧ r.id = jobId ∧ r.status.terminal = false

/-- No status write finishes a job while another call for it is at work. -/
def FinishesUndisturbed (s : Service) : ServiceEvent → Prop
  | .act i (.call e) =>
      ∀ c, s.procs[i]? = some (.call c) → c.finishes e = true →
        Unfinished s.world c.job.jobId →
          ∀ (k : Nat) (a : Call), k ≠ i → s.procs[k]? = some (.call a) → a.job.jobId = c.job.jobId →
            a.pc.atWork = false
  | _ => True

end Statements

section Working

variable {d : Deps} {w w' : World}

/-- While a call is at work the row of its job is not terminal. -/
def Working (w : World) (c : Call) : Prop :=
  c.pc.atWork = true → ∀ r, r ∈ w.jobs → r.id = c.job.jobId → r.status.terminal = false

theorem exceptClause_not_atWork
    (row : JobRow) (exc : ExcClass) :
    (exceptClause row exc).atWork = false := by
  cases exc <;> rfl

/-- A write that leaves a terminal row is one of those that finish a job. -/
theorem finishes_of_callWrite
    {job : QueueJob} {pc pc' : CallPc} {e : CallEvent} {f : Job → Job} {r : Job}
    (hf : CallWrite d w job pc f)
    (hafter : AfterWrite job pc e pc')
    (ht : (f r).status.terminal = true) :
    Call.finishes ⟨job, pc⟩ e = true := by
  cases hf with
  | active => cases ht
  | completed => cases hafter <;> rfl
  | timedOut => cases hafter <;> rfl
  | failed row _ hfinal => cases hafter <;> simp [Call.finishes, hfinal]
  | queued row hnot => simp [setQueued, JobStatus.terminal] at ht
  | bypassed => cases hafter <;> rfl

/-- A call starts to work on a row that it found unfinished. -/
theorem notTerminal_of_fetchJob
    {jobId : Uuid} {row : JobRow}
    (hw : WorldOk w)
    (hf : fetchJob w.jobs jobId = some row)
    (ht : row.status.terminal = false)
    (r : Job)
    (hr : r ∈ w.jobs)
    (hid : r.id = jobId) :
    r.status.terminal = false := by
  obtain ⟨q, hq, rfl⟩ := Option.map_eq_some_iff.mp hf
  obtain ⟨hmem, hqid⟩ := (find?_eq_some_iff_of_unique hw.rowsUnique).mp hq
  have heq := eq_of_uniqueKey hw.rowsUnique hr hmem (hid.trans hqid.symm)
  subst heq
  exact ht

/-- A call at work came there by `fetch_job`, or was at work before. -/
theorem atWork_before
    {job : QueueJob} {pc pc' : CallPc} {e : CallEvent}
    (hs : CallStep d w job pc e w' pc')
    (hwork : pc'.atWork = true) :
    pc.atWork = true ∨
      ∃ row, fetchJob w.jobs job.jobId = some row ∧ row.status.terminal = false := by
  have hclause : ∀ row exc, (exceptClause row exc).atWork ≠ true := by
    intro row exc
    simp [exceptClause_not_atWork]
  cases hs with
  | quiet hq =>
      cases hq
      case fetch hf ht => exact Or.inr ⟨_, hf, ht⟩
      case synthesize => exact Or.inl rfl
      case synthesizeRaises => exact absurd hwork (hclause _ _)
      case uploadRaises => exact absurd hwork (hclause _ _)
      case completedRaises => exact absurd hwork (hclause _ _)
      all_goals cases hwork
  | write _ hafter =>
      cases hafter
      case active => exact Or.inl rfl
      case completedRaises => exact absurd hwork (hclause _ _)
      all_goals cases hwork
  | synthesizeReturns => exact Or.inl rfl
  | uploadWav => cases hwork
  | uploadWavRaises => exact absurd hwork (hclause _ _)

/-- Only a call at work starts a synthesis or an upload. -/
theorem atWork_of_works
    {job : QueueJob} {pc pc' : CallPc} {e : CallEvent}
    (hs : CallStep d w job pc e w' pc')
    (hworks : e.works = true) :
    pc.atWork = true := by
  cases hs with
  | quiet hq =>
      cases hq
      case synthesize => rfl
      case uploadRaises => rfl
      all_goals cases hworks
  | write _ hafter => cases hafter <;> cases hworks
  | synthesizeReturns => cases hworks
  | uploadWav => rfl
  | uploadWavRaises => rfl

/-- The one status write after which a call is still at work is `mark_active`. -/
theorem setActive_of_atWork
    {job : QueueJob} {pc pc' : CallPc} {e : CallEvent} {f : Job → Job}
    (hf : CallWrite d w job pc f)
    (hafter : AfterWrite job pc e pc')
    (hwork : pc'.atWork = true) :
    f = setActive w.now := by
  cases hafter
  case active =>
      cases hf
      rfl
  case completedRaises row key exc =>
      rw [exceptClause_not_atWork] at hwork
      cases hwork
  all_goals cases hwork

/-- The step of a call keeps its row unfinished while the call is at work. -/
theorem working_of_callStep
    {c c' : Call} {e : CallEvent}
    (hjob : c'.job = c.job)
    (hs : CallStep d w c.job c.pc e w' c'.pc)
    (hw : WorldOk w)
    (h : Working w c) :
    Working w' c' := by
  intro hwork r hr hid
  rw [hjob] at hid
  have hold : ∀ q, q ∈ w.jobs → q.id = c.job.jobId → q.status.terminal = false := by
    intro q hq hqid
    rcases atWork_before hs hwork with hbefore | ⟨row, hf, ht⟩
    · exact h hbefore q hq hqid
    · exact notTerminal_of_fetchJob hw hf ht q hq hqid
  generalize hpc : c.pc = pc, hpc' : c'.pc = pc' at hs
  cases hs with
  | quiet => exact hold r hr hid
  | write hf hafter =>
      have hactive := setActive_of_atWork hf hafter (hpc' ▸ hwork)
      subst hactive
      rcases mem_guardedUpdate.mp hr with ⟨q, _, _, _, rfl⟩ | ⟨hr, hterm⟩
      · rfl
      · exact absurd (hterm hid) (by simp [hold r hr hid])
  | synthesizeReturns => exact hold r hr hid
  | uploadWav => exact hold r hr hid
  | uploadWavRaises => exact hold r hr hid

/-- A row a submission brings into the table is not terminal. -/
theorem notTerminal_of_insertedBy
    {h : Handler} {r : Job}
    (hby : InsertedBy d h r) :
    r.status.terminal = false := by
  obtain ⟨_, _, _, _, _, _, rfl⟩ := hby
  rfl

def WorkingOf (w : World) : Proc → Prop
  | .handler _ => True
  | .call c => Working w c

theorem working_boot
    (w : World) (job : QueueJob) :
    Working w (Call.process job) ∧ Working w (Call.recordBypassedFailure job) := by
  constructor
  · intro hwork
    cases hwork
  · intro hwork
    unfold Call.recordBypassedFailure at hwork
    split at hwork <;> cases hwork

/-- The proof outline for calls at work. -/
def workingOutline (d : Deps) :
    Outline (service d) FinishesUndisturbed (ServiceOk d) where
  inv := fun _ => True
  assert := fun _ w p => WorkingOf w p
  spawn := by
    intro g r _ _
    cases r with
    | submit r => trivial
    | deliver job => exact (working_boot _ job).1
    | failedEvent job => exact (working_boot _ job).2
  act := by
    intro g i a p p' w hK _ hann hp hact
    refine ⟨trivial, ?_⟩
    have hold := hann.2 i p hp
    cases procStep_of_act hact with
    | handler => trivial
    | call hjob hs => exact working_of_callStep hjob hs hK.1 hold
  frame := by
    intro g i j a p p' q w hK hG hann hp hact hij hq
    cases q with
    | handler h => trivial
    | call c =>
        have hold : Working g.world c := hann.2 j _ hq
        intro hwork r hr hid
        cases procStep_of_act hact with
        | handler hs =>
            have hf := handlerFrame_of_handlerStep hs rfl (hK.2 i _ hp)
            rcases hf.rows r hr with hr | ⟨hby, _⟩
            · exact hold hwork r hr hid
            · exact notTerminal_of_insertedBy hby
        | @call b b' _ _ _ hs =>
            generalize hpc : b.pc = pc, b'.pc = pc' at hs
            cases hs with
            | quiet => exact hold hwork r hr hid
            | write hf hafter =>
                rcases mem_guardedUpdate.mp hr with ⟨q, hq', hqid, hqt, rfl⟩ | ⟨hr, _⟩
                · by_contra hne
                  have hfin := finishes_of_callWrite hf hafter (by simpa using hne)
                  have hqc : c.job.jobId = b.job.jobId := by
                    rw [← hid, ← hqid]
                    exact (hf.statusWrite.sameSubmission q).id.symm
                  have hidle := hG b hp (by rw [← hpc] at hfin; exact hfin) ⟨q, hq', hqid, hqt⟩
                    j c hij.symm hq hqc
                  simp [hwork] at hidle
                · exact hold hwork r hr hid
            | synthesizeReturns => exact hold hwork r hr hid
            | uploadWav => exact hold hwork r hr hid
            | uploadWavRaises => exact hold hwork r hr hid
  env := by
    intro g b w _ _ hann henv
    refine ⟨trivial, ?_⟩
    intro j q hq
    have hold := hann.2 j q hq
    cases b <;> cases henv <;> cases q <;> exact hold

end Working

section Closed

variable {d : Deps} {jobId : Uuid}

/-- A finished job: its row is terminal or gone for good, and no call is at work
on it. -/
structure Closed (jobId : Uuid) (s : Service) : Prop where
  settled : RowsSettled jobId (fun q => q.status.terminal = true) s.world
  idle : ∀ (i : Nat) (c : Call), s.procs[i]? = some (.call c) → c.job.jobId = jobId →
    c.pc.atWork = false

/-- In a guarded run every terminal row is that of a closed job. -/
theorem closed_of_run
    {s : Service} {es : List ServiceEvent} {r : Job}
    (h : ServiceRun d FinishesUndisturbed es s)
    (hr : r ∈ s.world.jobs)
    (ht : r.status.terminal = true) :
    Closed r.id s := by
  have hok := serviceOk_of_run h
  have hwork := (workingOutline d).run (fun _ _ hrun => serviceOk_of_run hrun)
    ⟨trivial, by simp [Service.initial]⟩ h
  constructor
  · refine ⟨hok.1.rowsCommitted r hr, ?_⟩
    intro q hq hid
    rw [eq_of_uniqueKey hok.1.rowsUnique hq hr hid]
    exact ht
  · intro i c hc hid
    by_contra hne
    have hrow := hwork.2 i _ hc (by simpa using hne) r hr hid.symm
    simp [ht] at hrow

/-- A closed job stays closed, under no condition on the step: whoever fetches
its row from now on finds it terminal or missing. -/
theorem closed_of_step
    {s t : Service} {e : ServiceEvent}
    (hok : ServiceOk d s)
    (hs : (service d).machine.step s e = some t)
    (h : Closed jobId s) :
    Closed jobId t := by
  refine ⟨rowsSettled_of_step (fun _ hq => hq) hok hs h.settled, ?_⟩
  intro i a ha hid
  cases serviceStep_of_step hs with
  | spawn r =>
      rcases getElem?_spawn ha with ha | ⟨_, hboot⟩
      · exact h.idle i a ha hid
      · cases r with
        | submit r => cases hboot
        | deliver job =>
            cases hboot
            rfl
        | failedEvent job =>
            cases hboot
            unfold Call.recordBypassedFailure
            split <;> rfl
  | handler =>
      rcases getElem?_set_cases ha with ⟨_, heq⟩ | ⟨_, ha⟩
      · cases heq
      · exact h.idle i a ha hid
  | @call k c c' _ w hp hjob hstep =>
      rcases getElem?_set_cases ha with ⟨rfl, heq⟩ | ⟨_, ha⟩
      · cases heq
        by_contra hne
        rw [hjob] at hid
        rcases atWork_before hstep (by simpa using hne) with hbefore | ⟨row, hf, hrow⟩
        · simp [h.idle k c hp hid] at hbefore
        · obtain ⟨q, hq, rfl⟩ := Option.map_eq_some_iff.mp hf
          obtain ⟨hmem, hqid⟩ := (find?_eq_some_iff_of_unique hok.1.rowsUnique).mp hq
          have hterm := h.settled.2 q hmem (hqid.trans hid)
          simp [Job.toJobRow, hterm] at hrow
      · exact h.idle i a ha hid
  | env => exact h.idle i a ha hid

/-- Nobody starts a synthesis or an upload for a closed job. -/
theorem not_worksOn_of_closed
    {s t : Service} {e : ServiceEvent}
    (hs : (service d).machine.step s e = some t)
    (h : Closed jobId s) :
    ¬ WorksOn jobId s e := by
  intro hwork
  cases serviceStep_of_step hs with
  | spawn => exact hwork
  | handler => exact hwork
  | @call i c c' _ _ hp _ hstep =>
      obtain ⟨hworks, a, ha, hid⟩ := hwork
      cases hp.symm.trans ha
      have hidle := h.idle i c hp hid
      simp [atWork_of_works hstep hworks] at hidle
  | env => exact hwork

/-- The recording of a closed job stays as it is. -/
theorem bucket_of_closed
    {s t : Service} {e : ServiceEvent}
    (userId : Uuid)
    (hok : ServiceOk d s)
    (hs : (service d).machine.step s e = some t)
    (h : Closed jobId s) :
    t.world.bucket (audioKey userId jobId) = s.world.bucket (audioKey userId jobId) := by
  have hidle := not_worksOn_of_closed hs h
  cases serviceStep_of_step hs with
  | spawn => rfl
  | handler hp hstep => exact congrFun (handlerFrame_of_handlerStep hstep rfl (hok.2 _ _ hp)).bucket _
  | @call i c c' _ _ hp _ hstep =>
      have hother : ∀ {e : CallEvent} (row : JobRow), e.works = true →
          (¬ WorksOn jobId s (.act i (.call e))) →
            audioKey userId jobId ≠ audioKey row.userId c.job.jobId := by
        intro e row hworks hnot hkey
        exact hnot ⟨hworks, c, hp, (audioKey_injective hkey).2.symm⟩
      generalize c.pc = pc, c'.pc = pc' at hstep
      cases hstep with
      | quiet => rfl
      | write => rfl
      | synthesizeReturns => rfl
      | uploadWav row wav =>
          exact Function.update_of_ne (hother row rfl hidle) _ _
      | uploadWavRaises row wav =>
          exact Function.update_of_ne (hother row rfl hidle) _ _
  | @env b _ henv =>
      cases b <;> cases henv <;> rfl

/--
**A finished job is not worked on again**, in the runs in which no status write
finishes a job while another call for it is at work: whatever happens after a
row is terminal, no call starts a synthesis or an upload for its job, and the
object that the row names keeps its bytes.
-/
theorem finished_never_reworked
    {s : Service} {es : List ServiceEvent}
    (h : ServiceRun d FinishesUndisturbed es s)
    (r : Job)
    (hr : r ∈ s.world.jobs)
    (ht : r.status.terminal = true)
    {fs : List ServiceEvent} {t : Service}
    (hfs : Machine.Run (service d).machine Machine.anyStep s fs t) :
    (∀ e u, (service d).machine.step t e = some u → ¬ WorksOn r.id t e) ∧
      (∀ key, r.audioKey = some key → t.world.bucket key = s.world.bucket key) := by
  have hany := Machine.run_weaken (H := Machine.anyStep) (fun _ _ _ => trivial) h
  have hok : ∀ gs u, Machine.Run (service d).machine Machine.anyStep s gs u → ServiceOk d u :=
    fun gs u hgs => serviceOk_of_run (Machine.run_append hany hgs)
  have hclosed : ∀ gs u, Machine.Run (service d).machine Machine.anyStep s gs u →
      Closed r.id u ∧ u.world.bucket (audioKey r.userId r.id) =
        s.world.bucket (audioKey r.userId r.id) := by
    intro gs u hgs
    refine Machine.run_invariant_of_known (K := ServiceOk d)
      (I := fun u => Closed r.id u ∧ u.world.bucket (audioKey r.userId r.id) =
        s.world.bucket (audioKey r.userId r.id))
      hok ?_ hgs ⟨closed_of_run h hr ht, rfl⟩
    intro v e x hv _ hI _ hs
    exact ⟨closed_of_step hv hs hI.1, (bucket_of_closed r.userId hv hs hI.1).trans hI.2⟩
  obtain ⟨hc, hbytes⟩ := hclosed fs t hfs
  refine ⟨fun e u hs => not_worksOn_of_closed hs hc, ?_⟩
  intro key hkey
  have hrow := (rowInv_of_run h r hr).consistent
  cases hstatus : r.status with
  | completed =>
      rw [(hrow.completed hstatus).key, Option.some.injEq] at hkey
      subst hkey
      exact hbytes
  | failed => simp [(hrow.failed hstatus).noKey] at hkey
  | queued => simp [hstatus, JobStatus.terminal] at ht
  | active => simp [hstatus, JobStatus.terminal] at ht

/-- No call but the one that acts is at work. -/
def othersIdle (s : Service) : ServiceEvent → Bool
  | .act i (.call _) =>
      (s.procs.eraseIdx i).all fun p =>
        match p with
        | .handler _ => true
        | .call a => !a.pc.atWork
  | _ => true

theorem finishesUndisturbed_of_othersIdle
    {s : Service} {e : ServiceEvent}
    (h : othersIdle s e = true) :
    FinishesUndisturbed s e := by
  cases e with
  | spawn => trivial
  | env => trivial
  | act i a =>
      cases a with
      | handler => trivial
      | call e =>
          intro c _ _ _ k a hki ha _
          have hmem : Proc.call a ∈ s.procs.eraseIdx i :=
            List.mem_eraseIdx_iff_getElem?.mpr ⟨k, hki, ha⟩
          simpa using List.all_eq_true.mp h _ hmem

/-- Two deliveries of one job, the second after the first is over. -/
def redelivered : List ServiceEvent :=
  sampleSubmission none ::
    (handlerEvents 0 (insertEvents sampleJob ++ enqueueEvents) ++
      .spawn (.deliver sampleDelivery) ::
        (callEvents 1 [.fetchJob, .markActive, .synthesize, .synthesizeReturns [82],
          .uploadWav, .markCompleted] ++
          .spawn (.deliver sampleDelivery) :: callEvents 2 [.fetchJob]))

theorem finished_never_reworked_redelivery :
    ∃ (s : Service) (r : Job),
      ServiceRun sampleDeps FinishesUndisturbed redelivered s ∧
      r ∈ s.world.jobs ∧ r.status = .completed ∧
      ∀ fs t, Machine.Run (service sampleDeps).machine Machine.anyStep s fs t →
        ∀ e u, (service sampleDeps).machine.step t e = some u → ¬ WorksOn r.id t e := by
  have hexec : ((service sampleDeps).machine.exec othersIdle Service.initial redelivered).any
      (fun s => s.world.jobs.any fun r => decide (r.status = .completed)) = true := by
    decide +kernel
  obtain ⟨s, hrun, hs⟩ := Machine.exists_run_of_exec
    (fun _ _ => finishesUndisturbed_of_othersIdle) hexec
  obtain ⟨r, hr, hstatus⟩ := List.any_eq_true.mp hs
  have hcompleted : r.status = .completed := by simpa using hstatus
  refine ⟨s, r, hrun, hr, hcompleted, ?_⟩
  intro fs t hfs
  exact (finished_never_reworked hrun r hr (by rw [hcompleted]; rfl) hfs).1

/-- Two overlapping deliveries of one job: the second one uploads its own
recording after the first one has completed the row. -/
theorem finished_reworked :
    ∃ (es fs : List ServiceEvent) (s t : Service) (r : Job),
      ServiceRun sampleDeps Machine.anyStep es s ∧
        r ∈ s.world.jobs ∧ r.status = .completed ∧
          Machine.Run (service sampleDeps).machine Machine.anyStep s fs t ∧
            t.world.bucket (audioKey r.userId r.id) ≠
              s.world.bucket (audioKey r.userId r.id) := by
  have hexec : ((service sampleDeps).machine.exec (fun _ _ => true) Service.initial
      (sampleSubmission none ::
        (handlerEvents 0 (insertEvents sampleJob ++ enqueueEvents) ++
          .spawn (.deliver sampleDelivery) :: .spawn (.deliver sampleDelivery) ::
            (callEvents 1 [.fetchJob, .markActive, .synthesize, .synthesizeReturns [1]] ++
              callEvents 2 [.fetchJob, .markActive, .synthesize, .synthesizeReturns [2]] ++
                callEvents 1 [.uploadWav, .markCompleted])))).any
      (fun s => s.world.jobs.any fun r => decide (r.status = .completed) &&
        ((service sampleDeps).machine.exec (fun _ _ => true) s
          (callEvents 2 [.uploadWav])).any fun t =>
            decide (t.world.bucket (audioKey r.userId r.id) ≠
              s.world.bucket (audioKey r.userId r.id))) = true := by
    decide +kernel
  obtain ⟨s, hrun, hs⟩ := Machine.exists_anyRun_of_exec hexec
  obtain ⟨r, hr, hrt⟩ := List.any_eq_true.mp hs
  obtain ⟨hstatus, hnext⟩ := (Bool.and_eq_true _ _).mp hrt
  obtain ⟨t, hfs, ht⟩ := Machine.exists_anyRun_of_exec hnext
  exact ⟨_, _, s, t, r, hrun, hr, by simpa using hstatus, hfs, by simpa using ht⟩

end Closed

section Verdict

variable {d : Deps} {w w' : World}

/-- The key that a call returns or is about to return. -/
def CallPc.verdict? : CallPc → Option String
  | .recorded _ key => some key
  | .returned (.audioKey key) => some key
  | _ => none

theorem exceptClause_verdict?
    (row : JobRow) (exc : ExcClass) :
    (exceptClause row exc).verdict? = none := by
  cases exc <;> rfl

/-- A call gets to return a key by `mark_completed` only. -/
theorem verdict_before
    {job : QueueJob} {pc pc' : CallPc} {e : CallEvent} {key : String}
    (hs : CallStep d w job pc e w' pc')
    (hv : pc'.verdict? = some key) :
    pc.verdict? = some key ∨
      (e = .markCompleted ∧ (∃ row, pc = .uploaded row key) ∧
        w'.jobs = guardedUpdate job.jobId (setCompleted w.now key) w.jobs) := by
  have hclause : ∀ row exc, (exceptClause row exc).verdict? ≠ some key := by
    intro row exc
    simp [exceptClause_verdict?]
  cases hs with
  | quiet hq =>
      cases hq
      case finish => exact Or.inl hv
      case synthesizeRaises => exact absurd hv (hclause _ _)
      case uploadRaises => exact absurd hv (hclause _ _)
      case completedRaises => exact absurd hv (hclause _ _)
      all_goals cases hv
  | write hf hafter =>
      cases hafter
      case completed row key =>
          cases hf
          cases hv
          exact Or.inr ⟨rfl, ⟨row, rfl⟩, rfl⟩
      case completedRaises => exact absurd hv (hclause _ _)
      all_goals cases hv
  | synthesizeReturns => cases hv
  | uploadWav => cases hv
  | uploadWavRaises => exact absurd hv (hclause _ _)

/-- Call `i` works on job `jobId` and returns `key`, or is about to. -/
def Returns (i : Nat) (jobId : Uuid) (key : String) (s : Service) : Prop :=
  ∃ c, s.procs[i]? = some (.call c) ∧ c.job.jobId = jobId ∧ c.pc.verdict? = some key

theorem verdict_boot
    (r : Request) (c : Call)
    (h : Proc.call c = r.boot) :
    c.pc.verdict? = none := by
  cases r with
  | submit r => cases h
  | deliver job =>
      cases h
      rfl
  | failedEvent job =>
      cases h
      unfold Call.recordBypassedFailure
      split <;> rfl

/-- The step that makes a call return its key is its `mark_completed`. -/
theorem returns_step
    {s t : Service} {e : ServiceEvent} {i : Nat} {jobId : Uuid} {key : String}
    (hs : (service d).machine.step s e = some t)
    (hbefore : ¬ Returns i jobId key s)
    (hafter : Returns i jobId key t) :
    e = .act i (.call .markCompleted) ∧
      (∃ c row, s.procs[i]? = some (.call c) ∧ c.job.jobId = jobId ∧
        c.pc = .uploaded row key) ∧
      t.world.everCommitted = s.world.everCommitted ∧
      t.world.jobs = guardedUpdate jobId (setCompleted s.world.now key) s.world.jobs := by
  obtain ⟨a, ha, hid, hv⟩ := hafter
  cases serviceStep_of_step hs with
  | spawn r =>
      rcases getElem?_spawn ha with ha | ⟨_, hboot⟩
      · exact absurd ⟨a, ha, hid, hv⟩ hbefore
      · simp [verdict_boot r a hboot] at hv
  | handler =>
      rcases getElem?_set_cases ha with ⟨_, heq⟩ | ⟨_, ha⟩
      · cases heq
      · exact absurd ⟨a, ha, hid, hv⟩ hbefore
  | @call k c c' _ w hp hjob hstep =>
      rcases getElem?_set_cases ha with ⟨rfl, heq⟩ | ⟨_, ha⟩
      · cases heq
        rw [hjob] at hid
        rcases verdict_before hstep hv with hold | ⟨rfl, ⟨row, hpc⟩, hjobs⟩
        · exact absurd ⟨c, hp, hid, hold⟩ hbefore
        · exact ⟨rfl, ⟨c, row, hp, hid, hpc⟩, (callFrame_of_callStep hstep).committed,
            hid ▸ hjobs⟩
      · exact absurd ⟨a, ha, hid, hv⟩ hbefore
  | env => exact absurd ⟨a, ha, hid, hv⟩ hbefore

/-- After `mark_completed` the row of the job is the one it completed, or one
that was terminal before. -/
theorem terminal_after_markCompleted
    {now : Nat} {jobId : Uuid} {key : String} {jobs : List Job} {q : Job}
    (hq : q ∈ guardedUpdate jobId (setCompleted now key) jobs)
    (hid : q.id = jobId) :
    (q.status = .completed ∧ q.audioKey = some key) ∨
      (q ∈ jobs ∧ q.status.terminal = true) := by
  rcases mem_guardedUpdate.mp hq with ⟨p, _, _, _, rfl⟩ | ⟨hq, hterm⟩
  · exact Or.inl ⟨rfl, rfl⟩
  · exact Or.inr ⟨hq, hterm hid⟩

/--
**The verdict of a call and the row.**  When a call returns the key of its
recording, the row of its job, if it still stands, is completed with that key,
or it is a failed row that stood there before this call's `mark_completed`.
-/
theorem returned_key_verdict
    {s : Service} {es : List ServiceEvent}
    (h : ServiceRun d Machine.anyStep es s)
    {i : Nat} {c : Call} {key : String}
    (hc : s.procs[i]? = some (.call c))
    (hpc : c.pc = .returned (.audioKey key))
    (r : Job)
    (hr : r ∈ s.world.jobs)
    (hid : r.id = c.job.jobId) :
    (r.status = .completed ∧ r.audioKey = some key) ∨
      (r.status = .failed ∧
        ∃ u v, Machine.Through (service d).machine Machine.anyStep Service.initial es s
          u (.act i (.call .markCompleted)) v ∧ r ∈ u.world.jobs) := by
  have hends : Returns i c.job.jobId key s := ⟨c, hc, rfl, by rw [hpc]; rfl⟩
  have hstarts : ¬ Returns i c.job.jobId key Service.initial := by
    rintro ⟨a, ha, _⟩
    simp [Service.initial] at ha
  obtain ⟨u, e, v, hthrough, hu, hv⟩ := Machine.run_enters h hstarts hends
  have hsplit := hthrough
  obtain ⟨before, after, rfl, hbefore, _, hstep, hafter⟩ := hsplit
  obtain ⟨rfl, ⟨a, row, ha, haid, hapc⟩, hcommitted, hjobs⟩ := returns_step hstep hu hv
  have huok := serviceOk_of_run hbefore
  have haok : CallOk u.world a := huok.2 i _ ha
  have hread : a.pc.row? = some row := by rw [hapc]; rfl
  have hvrun := Machine.Run.snoc hbefore trivial hstep
  -- the row seen at the end is one that stood right after `mark_completed`
  have hsettled : RowsSettled c.job.jobId
      (fun q => q ∈ v.world.jobs ∧ q.status.terminal = true) v.world := by
    constructor
    · obtain ⟨hrowid, hmem, _⟩ := haok.row row hread
      rw [hcommitted, ← haid, ← hrowid]
      exact hmem
    · intro q hq hqid
      refine ⟨hq, ?_⟩
      rcases terminal_after_markCompleted (hjobs ▸ hq) hqid with ⟨hdone, _⟩ | ⟨_, hterm⟩
      · rw [hdone]
        rfl
      · exact hterm
  have hrv := (rowsSettled_of_run (fun _ hq => hq.2) hvrun hsettled hafter).2 r hr hid
  rcases terminal_after_markCompleted (hjobs ▸ hrv.1) hid with hdone | ⟨hru, hterm⟩
  · exact Or.inl hdone
  · cases hstatus : r.status with
    | completed =>
        left
        refine ⟨rfl, ?_⟩
        have hrow := ((rowInv_of_run hbefore r hru).consistent.completed hstatus).key
        have hkey := haok.key row key (by rw [hapc]; rfl)
        have huser := userId_of_read huok.1 haok hread hru (hid.trans haid.symm)
        rw [hrow, hkey, huser, hid, haid]
    | failed => exact Or.inr ⟨rfl, u, v, hthrough, hru⟩
    | queued => simp [hstatus, JobStatus.terminal] at hterm
    | active => simp [hstatus, JobStatus.terminal] at hterm

/-- The second process is a call that returned its key, with such a row of its job. -/
def returnsKey (p : Job → Bool) (s : Service) : Bool :=
  match (s.procs[1]? : Option Proc) with
  | some (.call c) =>
      decide (c.pc = .returned (.audioKey (audioKey sampleUser sampleJob))) &&
        s.world.jobs.any fun r => decide (r.id = c.job.jobId) && p r
  | _ => false

theorem exists_of_returnsKey
    {p : Job → Bool} {s : Service}
    (h : returnsKey p s = true) :
    ∃ (c : Call) (r : Job), s.procs[1]? = some (.call c) ∧
      c.pc = .returned (.audioKey (audioKey sampleUser sampleJob)) ∧
        r ∈ s.world.jobs ∧ r.id = c.job.jobId ∧ p r = true := by
  unfold returnsKey at h
  split at h
  · next c hc =>
      obtain ⟨hpc, hrow⟩ := (Bool.and_eq_true _ _).mp h
      obtain ⟨r, hr, hp⟩ := List.any_eq_true.mp hrow
      obtain ⟨hid, hp⟩ := (Bool.and_eq_true _ _).mp hp
      exact ⟨c, r, hc, of_decide_eq_true hpc, hr, of_decide_eq_true hid, hp⟩
  · cases h

/-- A call that returns its key after completing the row. -/
def completedAndReturned : List ServiceEvent :=
  sampleSubmission none ::
    (handlerEvents 0 (insertEvents sampleJob ++ enqueueEvents) ++
      .spawn (.deliver sampleDelivery) ::
        callEvents 1 [.fetchJob, .markActive, .synthesize, .synthesizeReturns [82],
          .uploadWav, .markCompleted, .finish])

theorem returned_key_verdict_completed :
    ∃ (s : Service) (c : Call) (r : Job),
      ServiceRun sampleDeps Machine.anyStep completedAndReturned s ∧
        s.procs[1]? = some (.call c) ∧ r ∈ s.world.jobs ∧ r.id = c.job.jobId ∧
        ((r.status = .completed ∧ r.audioKey = some (audioKey sampleUser sampleJob)) ∨
          (r.status = .failed ∧ ∃ u v,
            Machine.Through (service sampleDeps).machine Machine.anyStep Service.initial
              completedAndReturned s u (.act 1 (.call .markCompleted)) v ∧
                r ∈ u.world.jobs)) := by
  have hexec : ((service sampleDeps).machine.exec (fun _ _ => true) Service.initial
      completedAndReturned).any (returnsKey fun _ => true) = true := by
    decide +kernel
  obtain ⟨s, hrun, hs⟩ := Machine.exists_anyRun_of_exec hexec
  obtain ⟨c, r, hc, hpc, hr, hid, _⟩ := exists_of_returnsKey hs
  exact ⟨s, c, r, hrun, hc, hr, hid, returned_key_verdict hrun hc hpc r hr hid⟩

/-- The listener fails the row of a job that the queue gave up on while the
first call for it still runs; that call returns its key all the same. -/
theorem returned_key_of_failed_row :
    ∃ (es : List ServiceEvent) (s : Service) (c : Call) (r : Job),
      ServiceRun sampleDeps Machine.anyStep es s ∧ s.procs[1]? = some (.call c) ∧
        c.pc = .returned (.audioKey (audioKey sampleUser sampleJob)) ∧
          r ∈ s.world.jobs ∧ r.id = c.job.jobId ∧ r.status = .failed ∧ r.audioKey = none := by
  have hexec : ((service sampleDeps).machine.exec (fun _ _ => true) Service.initial
      (sampleSubmission none ::
        (handlerEvents 0 (insertEvents sampleJob ++ enqueueEvents) ++
          .spawn (.deliver sampleDelivery) ::
            (callEvents 1 [.fetchJob, .markActive, .synthesize, .synthesizeReturns [82],
              .uploadWav] ++
              .spawn (.failedEvent { sampleDelivery with deferredFailure := true }) ::
                (callEvents 2 [.fetchJob, .record] ++
                  callEvents 1 [.markCompleted, .finish]))))).any
      (returnsKey fun r => decide (r.status = .failed ∧ r.audioKey = none)) = true := by
    decide +kernel
  obtain ⟨s, hrun, hs⟩ := Machine.exists_anyRun_of_exec hexec
  obtain ⟨c, r, hc, hpc, hr, hid, hrow⟩ := exists_of_returnsKey hs
  exact ⟨_, s, c, r, hrun, hc, hpc, hr, hid, of_decide_eq_true hrow⟩

end Verdict

end BengaliTts
