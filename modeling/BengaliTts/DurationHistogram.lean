import BengaliTts.Lib.Watermark
import BengaliTts.RowConsistency

/-!
# The duration histogram

`tts_job_duration_seconds` is filled when `/metrics` is scraped.  Every scrape asks
for the rows whose `completed_at` is later than `observedUpTo`, observes each of them
and raises `observedUpTo` to the latest `completed_at` it met.  The variable is shared
by the scrapes of the process; a scrape reads it before its query and raises it after.

The rows of the table are written meanwhile.  `completed_at` is the time at which the
statement began, so a row may become visible after another one with a later time, and
different rows may carry the same time.

Main results:
* `tableWrite_of_step`: the jobs table of the service moves by these writes;
* `durations_observed_once`: every job is observed exactly once, if it finishes after
  all that was observed or read, and no batch is observed behind `observedUpTo`.
-/

namespace BengaliTts

open Lib

section Table

/-- The jobs table with its primary key; only terminal rows have a `completed_at`. -/
structure JobsTable where
  rows : List Job
  ids : UniqueKey Job.id rows
  completed : ∀ r, r ∈ rows → r.completedAt.isSome = true → r.status.terminal = true

def JobsTable.empty : JobsTable where
  rows := []
  ids := List.nodup_nil
  completed := by simp

/-- The statements that write the jobs table, each with its `now()`. -/
inductive TableWrite where
  | create (id userId : Uuid) (inputText : String) (idempotencyKey : Option String)
      (createdAt : Nat)
  | markActive (now : Nat) (jobId : Uuid)
  | markQueued (jobId : Uuid)
  | markCompleted (now : Nat) (jobId : Uuid) (audioKey : String)
  | markFailed (now : Nat) (jobId : Uuid) (code message : String)

/-- The job that the write would finish, and its `completed_at`. -/
def TableWrite.finishes? : TableWrite → Option (Uuid × Nat)
  | .markCompleted now jobId _ => some (jobId, now)
  | .markFailed now jobId _ _ => some (jobId, now)
  | _ => none

def JobsTable.insert (t : JobsTable) (row : Job)
    (hnew : ∀ q, q ∈ t.rows → q.id ≠ row.id) (hnone : row.completedAt = none) :
    JobsTable where
  rows := row :: t.rows
  ids := uniqueKey_cons hnew t.ids
  completed := by
    intro r hr hcompleted
    rcases List.mem_cons.mp hr with rfl | hr
    · simp [hnone] at hcompleted
    · exact t.completed r hr hcompleted

theorem JobsTable.completedAt_eq_none
    {t : JobsTable} {r : Job}
    (hr : r ∈ t.rows)
    (hpending : r.status.terminal = false) :
    r.completedAt = none := by
  cases hcompleted : r.completedAt with
  | none => rfl
  | some c =>
      have hterminal := t.completed r hr (by rw [hcompleted]; rfl)
      rw [hpending] at hterminal
      cases hterminal

def JobsTable.update (t : JobsTable) {now : Nat} {jobId : Uuid} {f : Job → Job}
    (hf : StatusWrite now jobId f) : JobsTable where
  rows := guardedUpdate jobId f t.rows
  ids := uniqueKey_updateWhere (fun r => (hf.sameSubmission r).id.symm) t.ids
  completed := by
    intro r' hr' hcompleted
    rcases mem_guardedUpdate.mp hr' with ⟨r, hr, _, hpending, rfl⟩ | ⟨hr', _⟩
    · have hnone := JobsTable.completedAt_eq_none hr hpending
      cases hf with
      | active => simp [setActive, hnone] at hcompleted
      | queued => simp [setQueued, hnone] at hcompleted
      | completed => rfl
      | failed => rfl
    · exact t.completed r' hr' hcompleted

def JobsTable.write (t : JobsTable) : TableWrite → Option JobsTable
  | .create id userId inputText idempotencyKey createdAt =>
      if hnew : ∀ q, q ∈ t.rows → q.id ≠ id then
        some (t.insert (newJob id userId inputText idempotencyKey createdAt) hnew rfl)
      else
        none
  | .markActive now jobId => some (t.update (.active : StatusWrite now jobId _))
  | .markQueued jobId => some (t.update (.queued : StatusWrite 0 jobId _))
  | .markCompleted now jobId audioKey =>
      some (t.update (.completed audioKey : StatusWrite now jobId _))
  | .markFailed now jobId code message =>
      some (t.update (.failed code message : StatusWrite now jobId _))

end Table

section Service

variable {d : Deps} {s u : Service} {G : Service → ServiceEvent → Prop}
  {es : List ServiceEvent}

/-- The jobs table after a run of the service. -/
def ServiceRun.table (hrun : ServiceRun d G es s) : JobsTable where
  rows := s.world.jobs
  ids := (serviceOk_of_run hrun).1.rowsUnique
  completed := by
    intro r hr hcompleted
    by_contra hpending
    have hunfinished := unfinished_of_notTerminal (rowInv_of_run hrun r hr).consistent
      (by simpa using hpending)
    simp [hunfinished.notCompleted] at hcompleted

/-- Every status write of the worker is one of the statements. -/
theorem write_of_statusWrite
    {t : JobsTable} {now : Nat} {jobId : Uuid} {f : Job → Job}
    (hf : StatusWrite now jobId f) :
    ∃ b t', t.write b = some t' ∧ t'.rows = guardedUpdate jobId f t.rows := by
  cases hf with
  | active => exact ⟨.markActive now jobId, _, rfl, rfl⟩
  | queued => exact ⟨.markQueued jobId, _, rfl, rfl⟩
  | completed audioKey => exact ⟨.markCompleted now jobId audioKey, _, rfl, rfl⟩
  | failed code message => exact ⟨.markFailed now jobId code message, _, rfl, rfl⟩

/-- A committed row is a new one with the column defaults. -/
theorem write_of_commit
    {t : JobsTable} {h : Handler} {row : Job}
    (hby : InsertedBy d h row)
    (hnew : ∀ q, q ∈ t.rows → q.id ≠ row.id) :
    ∃ b t', t.write b = some t' ∧ t'.rows = row :: t.rows := by
  obtain ⟨text, id, createdAt, _, _, _, rfl⟩ := hby
  refine ⟨.create id h.user (toColumn text) h.key createdAt, _, dif_pos hnew, rfl⟩

/-- **Simulation.**  The jobs table of the service moves by the statements, apart from
the DELETE of a submission whose `queue.add` raised. -/
theorem tableWrite_of_step
    {e : ServiceEvent}
    (hrun : ServiceRun d G es s)
    (hs : (service d).machine.step s e = some u) :
    u.world.jobs = s.world.jobs ∨
      (∃ b t, (ServiceRun.table hrun).write b = some t ∧ t.rows = u.world.jobs) ∨
        ∃ jobId, DeletesJob jobId s e := by
  have hok : ServiceOk d s := serviceOk_of_run hrun
  cases serviceStep_of_step hs with
  | spawn => exact Or.inl rfl
  | @handler i h h' e w hp hstep =>
      have hhandler : HandlerOk d i s.world h := hok.2 i _ hp
      have hcommit : ∀ row, h.pc = .inserted row →
          ∃ b t, (ServiceRun.table hrun).write b = some t ∧ t.rows = row :: s.world.jobs := by
        intro row hpc
        obtain ⟨_, hby, hfresh⟩ := hhandler.staged row hpc
        have hnew : ∀ q, q ∈ s.world.jobs → q.id ≠ row.id := by
          intro q hq hid
          exact hfresh (hid ▸ hok.1.rowsCommitted q hq)
        exact write_of_commit (t := ServiceRun.table hrun) hby hnew
      generalize hpc : h.pc = pc at hstep
      cases hstep with
      | commit row => exact Or.inr (Or.inl (hcommit row hpc))
      | commitReplyLost row => exact Or.inr (Or.inl (hcommit row hpc))
      | deleteRow job hjob he =>
          right
          right
          exact ⟨job.id, he, h, job, hp, hjob, rfl⟩
      | _ => exact Or.inl rfl
  | @call i c c' e w hp hjob hstep =>
      generalize c.pc = pc, c'.pc = pc' at hstep
      cases hstep with
      | write hf =>
          right
          left
          exact write_of_statusWrite (t := ServiceRun.table hrun) hf.statusWrite
      | _ => exact Or.inl rfl
  | @env b w henv =>
      cases b <;> cases henv <;> exact Or.inl rfl

end Service

section Scrapes

/-- What a scrape selects of a row; the id is a history that no code reads. -/
structure DurationRow where
  id : Uuid
  status : JobStatus
  startedAt : Option Nat
  completedAt : Option Nat
deriving DecidableEq

def Job.toDurationRow (r : Job) : DurationRow :=
  ⟨r.id, r.status, r.startedAt, r.completedAt⟩

/-- What `observe` is called with: the label and the duration, here in milliseconds.
The id is a history as well. -/
structure Observation where
  jobId : Uuid
  status : JobStatus
  duration : Int
deriving DecidableEq

/-- `findMany` of `collect`. -/
def findDurations (rows : List Job) (observedUpTo : Nat) : List DurationRow :=
  (rows.map Job.toDurationRow).filter fun r =>
    r.completedAt.any (fun completedAt => decide (completedAt > observedUpTo)) &&
      r.startedAt.isSome

/-- The jobs table and the variables of `createMetrics`. -/
structure MetricsWorld where
  jobs : JobsTable
  observedUpTo : Nat
  /-- The calls of `observe`. -/
  histogram : List Observation

/-- The body of the loop of `collect`. -/
def observeRow (w : MetricsWorld) (row : DurationRow) : MetricsWorld :=
  match row.startedAt, row.completedAt with
  | some startedAt, some completedAt =>
      { w with
        histogram := w.histogram ++ [⟨row.id, row.status, (completedAt : Int) - startedAt⟩]
        observedUpTo := if completedAt > w.observedUpTo then completedAt else w.observedUpTo }
  | _, _ => w

/-- Where a scrape stands. -/
inductive ScrapePc where
  /-- The request arrived; `collect` is next. -/
  | begun
  /-- The query is under way, for rows later than this. -/
  | querying (observedUpTo : Nat)
  /-- The query was answered by these rows; the loop is next. -/
  | queried (rows : List DurationRow)
  | finished
  /-- The query raised. -/
  | failed
deriving DecidableEq

inductive ScrapeEvent where
  | collect
  | findMany
  | queryRaises
  | observe

/-- One atomic step of a scrape. -/
def ScrapePc.act (w : MetricsWorld) : ScrapePc → ScrapeEvent → Option (MetricsWorld × ScrapePc)
  | .begun, .collect => some (w, .querying w.observedUpTo)
  | .querying observedUpTo, .findMany =>
      some (w, .queried (findDurations w.jobs.rows observedUpTo))
  | .querying _, .queryRaises => some (w, .failed)
  | .queried _, .queryRaises => some (w, .failed)
  | .queried rows, .observe => some (rows.foldl observeRow w, .finished)
  | _, _ => none

/-- The scrapes of one gateway process, while the table is written. -/
def metricsProcess : Program MetricsWorld ScrapePc Unit ScrapeEvent TableWrite where
  boot := fun _ => .begun
  act := fun _ w pc e => pc.act w e
  env := fun w b => (w.jobs.write b).map fun jobs => { w with jobs := jobs }

abbrev MetricsProcess := Pool MetricsWorld ScrapePc
abbrev MetricsEvent := PoolEvent Unit ScrapeEvent TableWrite

/-- `createMetrics` at the time `now`. -/
def createMetrics (jobs : JobsTable) (now : Nat) : MetricsProcess :=
  ⟨⟨jobs, now, []⟩, []⟩

/-- How often `observe` was called for a job. -/
def timesObserved (s : MetricsProcess) (jobId : Uuid) : Nat :=
  (s.world.histogram.map Observation.jobId).count jobId

end Scrapes

section Rows

variable {t t' : JobsTable} {b : TableWrite} {x : DurationRow}

/-- The watermark's stamp of a row. -/
def DurationRow.stamp (x : DurationRow) : Nat :=
  x.completedAt.getD 0

/-- What `observe` is called with for a row. -/
def DurationRow.observation (x : DurationRow) : Observation :=
  ⟨x.id, x.status, (x.completedAt.getD 0 : Int) - (x.startedAt.getD 0 : Int)⟩

/-- The row has both times. -/
def DurationRow.timed (x : DurationRow) : Bool :=
  x.completedAt.isSome && x.startedAt.isSome

/-- The rows that the histogram is about. -/
def finishedRows (rows : List Job) : List DurationRow :=
  (rows.map Job.toDurationRow).filter DurationRow.timed

theorem mem_finishedRows
    {rows : List Job} :
    x ∈ finishedRows rows ↔ ∃ r, r ∈ rows ∧ r.toDurationRow = x ∧ x.timed = true := by
  unfold finishedRows
  rw [List.mem_filter, List.mem_map]
  constructor
  · rintro ⟨⟨r, hr, hx⟩, htimed⟩
    exact ⟨r, hr, hx, htimed⟩
  · rintro ⟨r, hr, hx, htimed⟩
    exact ⟨⟨r, hr, hx⟩, htimed⟩

/-- The query reads the finished rows that are later than `observedUpTo`. -/
theorem findDurations_eq
    (rows : List Job) (observedUpTo : Nat) :
    findDurations rows observedUpTo =
      (finishedRows rows).filter fun x => decide (observedUpTo < x.stamp) := by
  unfold findDurations finishedRows
  rw [List.filter_filter]
  refine List.filter_congr ?_
  intro x _
  cases hc : x.completedAt <;> simp [DurationRow.stamp, DurationRow.timed, hc]

theorem uniqueKey_finishedRows
    (t : JobsTable) :
    UniqueKey DurationRow.id (finishedRows t.rows) := by
  have hids : UniqueKey DurationRow.id (t.rows.map Job.toDurationRow) := by
    unfold UniqueKey
    rw [List.map_map]
    exact t.ids
  exact hids.sublist (List.filter_sublist.map _)

theorem nodup_finishedRows
    (t : JobsTable) :
    (finishedRows t.rows).Nodup :=
  List.Nodup.of_map _ (uniqueKey_finishedRows t)

/-- A write creates a row or is one of the guarded updates. -/
theorem rows_of_write
    (h : t.write b = some t') :
    (∃ row, row.completedAt = none ∧ t'.rows = row :: t.rows) ∨
      ∃ now jobId f, StatusWrite now jobId f ∧ t'.rows = guardedUpdate jobId f t.rows ∧
        ∀ r, r.completedAt = none → (f r).completedAt.isSome = true →
          b.finishes? = some (jobId, now) ∧ (f r).completedAt = some now ∧
            (f r).startedAt = r.startedAt := by
  cases b with
  | create id userId inputText idempotencyKey createdAt =>
      simp only [JobsTable.write] at h
      split at h
      · cases h
        exact Or.inl ⟨_, rfl, rfl⟩
      · cases h
  | markActive now jobId =>
      cases h
      refine Or.inr ⟨now, jobId, _, .active, rfl, ?_⟩
      intro r hnone hsome
      simp [setActive, hnone] at hsome
  | markQueued jobId =>
      cases h
      refine Or.inr ⟨0, jobId, _, .queued, rfl, ?_⟩
      intro r hnone hsome
      simp [setQueued, hnone] at hsome
  | markCompleted now jobId audioKey =>
      cases h
      exact Or.inr ⟨now, jobId, _, .completed audioKey, rfl, fun _ _ _ => ⟨rfl, rfl, rfl⟩⟩
  | markFailed now jobId code message =>
      cases h
      exact Or.inr ⟨now, jobId, _, .failed code message, rfl, fun _ _ _ => ⟨rfl, rfl, rfl⟩⟩

/-- A finished row stays as it is. -/
theorem mem_finishedRows_of_write
    (h : t.write b = some t')
    (hx : x ∈ finishedRows t.rows) :
    x ∈ finishedRows t'.rows := by
  obtain ⟨r, hr, rfl, htimed⟩ := mem_finishedRows.mp hx
  refine mem_finishedRows.mpr ⟨r, ?_, rfl, htimed⟩
  rcases rows_of_write h with ⟨row, _, hrows⟩ | ⟨now, jobId, f, hf, hrows, _⟩
  · rw [hrows]
    exact List.mem_cons_of_mem _ hr
  · rw [hrows]
    refine mem_guardedUpdate_of_terminal hr (t.completed r hr ?_)
    simp only [DurationRow.timed, Bool.and_eq_true] at htimed
    exact htimed.1

/-- The write finishes a job that was started, at the time `c`. -/
def JobsTable.FinishesAt (t : JobsTable) (b : TableWrite) (c : Nat) : Prop :=
  ∃ r, r ∈ t.rows ∧ b.finishes? = some (r.id, c) ∧ r.status.terminal = false ∧
    r.startedAt.isSome = true

/-- A row that is finished after a write was finished before it, or is the one that
the write finishes. -/
theorem finishedRows_of_write
    (h : t.write b = some t')
    (hx : x ∈ finishedRows t'.rows) :
    x ∈ finishedRows t.rows ∨ t.FinishesAt b x.stamp := by
  obtain ⟨r', hr', rfl, htimed⟩ := mem_finishedRows.mp hx
  have htimes := htimed
  simp only [DurationRow.timed, Job.toDurationRow, Bool.and_eq_true] at htimes
  rcases rows_of_write h with ⟨row, hnone, hrows⟩ | ⟨now, jobId, f, hf, hrows, hfinish⟩
  · rw [hrows] at hr'
    rcases List.mem_cons.mp hr' with rfl | hr
    · simp [hnone] at htimes
    · exact Or.inl (mem_finishedRows.mpr ⟨r', hr, rfl, htimed⟩)
  · rw [hrows] at hr'
    rcases mem_guardedUpdate.mp hr' with ⟨r, hr, hid, hpending, rfl⟩ | ⟨hr, _⟩
    · right
      obtain ⟨hwrite, hstamp, hstarted⟩ :=
        hfinish r (JobsTable.completedAt_eq_none hr hpending) htimes.1
      refine ⟨r, hr, ?_, hpending, hstarted ▸ htimes.2⟩
      rw [hwrite, hid]
      simp [DurationRow.stamp, Job.toDurationRow, hstamp]
    · exact Or.inl (mem_finishedRows.mpr ⟨r', hr, rfl, htimed⟩)

end Rows

section Observing

variable {start : Nat} {w w' : MetricsWorld} {pc pc' : ScrapePc} {e : ScrapeEvent}

/-- The loop of `collect` observes every row and raises the watermark. -/
theorem foldl_observeRow
    {rows : List DurationRow}
    (htimed : ∀ x, x ∈ rows → x.timed = true)
    (w : MetricsWorld) :
    rows.foldl observeRow w =
      { w with
        histogram := w.histogram ++ rows.map DurationRow.observation
        observedUpTo := raise DurationRow.stamp w.observedUpTo rows } := by
  induction rows generalizing w with
  | nil => simp [raise]
  | cons x xs ih =>
      have hrow : observeRow w x =
          { w with
            histogram := w.histogram ++ [x.observation]
            observedUpTo := max w.observedUpTo x.stamp } := by
        have hx := htimed x List.mem_cons_self
        simp only [DurationRow.timed, Bool.and_eq_true, Option.isSome_iff_exists] at hx
        obtain ⟨⟨completedAt, hc⟩, ⟨startedAt, hs⟩⟩ := hx
        simp only [observeRow, hc, hs, DurationRow.observation, DurationRow.stamp,
          Option.getD_some, MetricsWorld.mk.injEq, true_and, and_true]
        split <;> omega
      rw [List.foldl_cons, hrow, ih (fun y hy => htimed y (List.mem_cons_of_mem _ hy))]
      simp [raise]

/-- What a step of a scrape is. -/
inductive ScrapeStep (w : MetricsWorld) :
    ScrapePc → ScrapeEvent → MetricsWorld → ScrapePc → Prop
  | collect : ScrapeStep w .begun .collect w (.querying w.observedUpTo)
  | findMany (observedUpTo : Nat) :
      ScrapeStep w (.querying observedUpTo) .findMany w
        (.queried (findDurations w.jobs.rows observedUpTo))
  | queryRaises (pc : ScrapePc) : ScrapeStep w pc .queryRaises w .failed
  | observe (rows : List DurationRow) :
      ScrapeStep w (.queried rows) .observe (rows.foldl observeRow w) .finished

theorem scrapeStep_of_act
    (h : pc.act w e = some (w', pc')) :
    ScrapeStep w pc e w' pc' := by
  unfold ScrapePc.act at h
  split at h
  · cases h
    exact .collect
  · cases h
    exact .findMany _
  · cases h
    exact .queryRaises _
  · cases h
    exact .queryRaises _
  · cases h
    exact .observe _
  · cases h

/-- Jobs finish after all that was observed or read, and no batch is observed that
reaches back to the watermark. -/
def AfterWatermark (start : Nat) (s : MetricsProcess) : MetricsEvent → Prop
  | .env b =>
      ∀ c, s.world.jobs.FinishesAt b c → start < c →
        s.world.observedUpTo < c ∧
          ∀ rows, ScrapePc.queried rows ∈ s.procs → ∀ x, x ∈ rows → x.stamp < c
  | .act i .observe =>
      ∀ rows, s.procs[i]? = some (.queried rows) →
        ∀ x, x ∈ rows → s.world.observedUpTo < x.stamp
  | _ => True

/-- The observed rows are consumed up to the watermark. -/
def ObservedUpTo (start : Nat) (w : MetricsWorld) (observed : List DurationRow) : Prop :=
  w.histogram = observed.map DurationRow.observation ∧
    Consumed DurationRow.stamp start w.observedUpTo (finishedRows w.jobs.rows) observed

/-- What a scrape knows of the watermark and of the rows it read. -/
def ScrapeOk (start : Nat) (w : MetricsWorld) : ScrapePc → Prop
  | .querying observedUpTo => start ≤ observedUpTo ∧ observedUpTo ≤ w.observedUpTo
  | .queried rows =>
      ∃ since, start ≤ since ∧ since ≤ w.observedUpTo ∧
        Batch DurationRow.stamp since (finishedRows w.jobs.rows) rows
  | _ => True

/-- A scrape is not disturbed by a raised watermark. -/
theorem scrapeOk_raise
    (hjobs : w'.jobs = w.jobs)
    (hle : w.observedUpTo ≤ w'.observedUpTo)
    (hok : ScrapeOk start w pc) :
    ScrapeOk start w' pc := by
  cases pc with
  | querying observedUpTo => exact ⟨hok.1, hok.2.trans hle⟩
  | queried rows =>
      obtain ⟨since, hstart, hsince, hbatch⟩ := hok
      exact ⟨since, hstart, hsince.trans hle, hjobs ▸ hbatch⟩
  | _ => trivial

/-- What the loop of a scrape does, given what the scrape knows of its rows. -/
theorem observe_eq
    {rows : List DurationRow}
    (hok : ScrapeOk start w (.queried rows)) :
    rows.foldl observeRow w =
      { w with
        histogram := w.histogram ++ rows.map DurationRow.observation
        observedUpTo := raise DurationRow.stamp w.observedUpTo rows } := by
  obtain ⟨since, _, _, hbatch⟩ := hok
  refine foldl_observeRow ?_ w
  intro x hx
  obtain ⟨_, _, _, htimed⟩ := mem_finishedRows.mp (hbatch.taken x hx)
  exact htimed

theorem scrape_step_keeps
    {observed : List DurationRow}
    (hs : ScrapeStep w pc e w' pc')
    (hobserved : ObservedUpTo start w observed)
    (hok : ScrapeOk start w pc)
    (hafter : ∀ rows, pc = .queried rows → e = .observe →
      ∀ x, x ∈ rows → w.observedUpTo < x.stamp) :
    (∃ observed', ObservedUpTo start w' observed') ∧ ScrapeOk start w' pc' := by
  cases hs with
  | collect => exact ⟨⟨_, hobserved⟩, hobserved.2.start_le, le_rfl⟩
  | findMany observedUpTo =>
      refine ⟨⟨_, hobserved⟩, observedUpTo, hok.1, hok.2, ?_⟩
      rw [findDurations_eq]
      exact Batch.read (nodup_finishedRows w.jobs) observedUpTo
  | queryRaises => exact ⟨⟨_, hobserved⟩, trivial⟩
  | observe rows =>
      rw [observe_eq hok]
      obtain ⟨since, _, hsince, hbatch⟩ := hok
      refine ⟨⟨observed ++ rows, ?_, ?_⟩, trivial⟩
      · rw [List.map_append, ← hobserved.1]
      · exact hobserved.2.consume hbatch hsince (hafter rows rfl rfl)

/-- The proof outline of a metrics process. -/
def durationOutline (start : Nat) :
    Outline metricsProcess (AfterWatermark start) (fun _ => True) where
  inv := fun w => ∃ observed, ObservedUpTo start w observed
  assert := fun _ w pc => ScrapeOk start w pc
  spawn := fun _ _ _ _ => trivial
  act := by
    intro s i e pc pc' w _ hafter hann hp hact
    obtain ⟨observed, hobserved⟩ := hann.1
    refine scrape_step_keeps (scrapeStep_of_act hact) hobserved (hann.2 i pc hp) ?_
    rintro rows rfl rfl
    exact hafter rows hp
  frame := by
    intro s i j e pc pc' q w _ _ hann hp hact _ hq
    have hqok := hann.2 j q hq
    cases scrapeStep_of_act hact with
    | observe rows =>
        rw [observe_eq (hann.2 i _ hp)]
        exact scrapeOk_raise (w := s.world) rfl (le_raise _ _) hqok
    | _ => exact hqok
  env := by
    intro s b w _ hafter hann henv
    obtain ⟨jobs, hwrite, rfl⟩ := Option.map_eq_some_iff.mp henv
    have hold := fun x => mem_finishedRows_of_write (x := x) hwrite
    obtain ⟨observed, hhistogram, hconsumed⟩ := hann.1
    constructor
    · refine ⟨observed, hhistogram, hconsumed.publish hold ?_⟩
      intro x hx
      rcases finishedRows_of_write hwrite hx with hwas | hfinishes
      · exact Or.inl hwas
      · exact Or.inr fun hlater => (hafter _ hfinishes hlater).1
    · intro j q hq
      have hqok := hann.2 j q hq
      cases q with
      | queried rows =>
          obtain ⟨since, hstart, hsince, hbatch⟩ := hqok
          refine ⟨since, hstart, hsince, hbatch.publish hstart hold ?_⟩
          intro x hx
          rcases finishedRows_of_write hwrite hx with hwas | hfinishes
          · exact Or.inl hwas
          · exact Or.inr fun hlater =>
              (hafter _ hfinishes hlater).2 rows (List.mem_of_getElem? hq)
      | _ => exact hqok

end Observing

section Results

variable {start : Nat} {table : JobsTable} {s : MetricsProcess} {es : List MetricsEvent}
  {x : DurationRow}

/-- What every run keeps of the process. -/
abbrev MetricsOk (start : Nat) (s : MetricsProcess) : Prop :=
  Annotated (fun w => ∃ observed, ObservedUpTo start w observed)
    (fun _ w pc => ScrapeOk start w pc) s

theorem metricsOk_of_run
    (hrun : Machine.Run metricsProcess.machine (AfterWatermark start)
      (createMetrics table start) es s) :
    MetricsOk start s := by
  refine (durationOutline start).run (fun _ _ _ => trivial) ?_ hrun
  exact ⟨⟨[], rfl, .nil⟩, by simp [createMetrics]⟩

/-- No row is observed twice. -/
theorem timesObserved_le_one
    (hrun : Machine.Run metricsProcess.machine (AfterWatermark start)
      (createMetrics table start) es s)
    (jobId : Uuid) :
    timesObserved s jobId ≤ 1 := by
  obtain ⟨observed, hhistogram, hconsumed⟩ := (metricsOk_of_run hrun).1
  have hids : (observed.map DurationRow.id).Nodup := by
    refine List.Nodup.map_on ?_ hconsumed.nodup
    intro x hx y hy hid
    exact eq_of_uniqueKey (uniqueKey_finishedRows s.world.jobs) (hconsumed.upTo x hx).1
      (hconsumed.upTo y hy).1 hid
  unfold timesObserved
  rw [hhistogram, List.map_map]
  exact List.nodup_iff_count_le_one.mp hids jobId

/-- What a scrape that began after row `x` became visible still has to do for it. -/
def AwaitsRow (x : DurationRow) (w : MetricsWorld) : ScrapePc → Prop
  | .querying observedUpTo => observedUpTo < x.stamp ∨ x.observation ∈ w.histogram
  | .queried rows => x ∈ rows ∨ x.observation ∈ w.histogram
  | .finished => x.observation ∈ w.histogram
  | _ => True

theorem awaitsRow_mono
    {w w' : MetricsWorld} {pc : ScrapePc}
    (hmono : ∀ o, o ∈ w.histogram → o ∈ w'.histogram)
    (h : AwaitsRow x w pc) :
    AwaitsRow x w' pc := by
  cases pc with
  | querying observedUpTo => exact h.imp_right (hmono _)
  | queried rows => exact h.imp_right (hmono _)
  | finished => exact hmono _ h
  | _ => trivial

/-- A scrape leaves the table alone, and observations stay. -/
theorem histogram_of_scrapeStep
    {w w' : MetricsWorld} {pc pc' : ScrapePc} {e : ScrapeEvent}
    (hs : ScrapeStep w pc e w' pc')
    (hok : ScrapeOk start w pc) :
    w'.jobs = w.jobs ∧ ∀ o, o ∈ w.histogram → o ∈ w'.histogram := by
  cases hs with
  | observe rows =>
      rw [observe_eq hok]
      exact ⟨rfl, fun _ ho => List.mem_append_left _ ho⟩
  | _ => exact ⟨rfl, fun _ ho => ho⟩

/-- A scrape loses no row on its way. -/
theorem awaitsRow_of_scrapeStep
    {w w' : MetricsWorld} {pc pc' : ScrapePc} {e : ScrapeEvent} {observed : List DurationRow}
    (hs : ScrapeStep w pc e w' pc')
    (hobserved : ObservedUpTo start w observed)
    (hok : ScrapeOk start w pc)
    (hx : x ∈ finishedRows w.jobs.rows)
    (hlater : start < x.stamp)
    (h : AwaitsRow x w pc) :
    AwaitsRow x w' pc' := by
  cases hs with
  | collect =>
      rcases Nat.lt_or_ge w.observedUpTo x.stamp with hnew | hle
      · exact Or.inl hnew
      · right
        rw [hobserved.1]
        exact List.mem_map_of_mem (hobserved.2.all x hx hlater hle)
  | findMany observedUpTo =>
      refine h.imp_left ?_
      intro hnew
      rw [findDurations_eq]
      exact List.mem_filter.mpr ⟨hx, decide_eq_true hnew⟩
  | queryRaises => trivial
  | observe rows =>
      rw [observe_eq hok]
      rcases h with hread | hdone
      · exact List.mem_append_right _ (List.mem_map_of_mem hread)
      · exact List.mem_append_left _ hdone

/-- Row `x` is visible, and scrape `k` will observe it or find it observed. -/
def Awaiting (x : DurationRow) (k : Nat) (s : MetricsProcess) : Prop :=
  x ∈ finishedRows s.world.jobs.rows ∧
    ∀ pc, s.procs[k]? = some pc → AwaitsRow x s.world pc

theorem awaiting_of_step
    {t : MetricsProcess} {k : Nat} {e : MetricsEvent}
    (hok : MetricsOk start s)
    (hlater : start < x.stamp)
    (hs : metricsProcess.machine.step s e = some t)
    (h : Awaiting x k s) :
    Awaiting x k t := by
  obtain ⟨hrow, hawaits⟩ := h
  cases Program.step_of_machine hs with
  | spawn =>
      refine ⟨hrow, ?_⟩
      intro pc hpc
      rcases getElem?_spawn hpc with hpc | ⟨_, rfl⟩
      · exact hawaits pc hpc
      · trivial
  | @act i e pc pc' w hp hact =>
      obtain ⟨observed, hobserved⟩ := hok.1
      have hstep := scrapeStep_of_act hact
      obtain ⟨hjobs, hmono⟩ := histogram_of_scrapeStep hstep (hok.2 i pc hp)
      refine ⟨hjobs ▸ hrow, ?_⟩
      intro q hq
      rcases getElem?_set_cases hq with ⟨rfl, rfl⟩ | ⟨_, hq⟩
      · exact awaitsRow_of_scrapeStep hstep hobserved (hok.2 _ pc hp) hrow hlater
          (hawaits pc hp)
      · exact awaitsRow_mono hmono (hawaits q hq)
  | env henv =>
      obtain ⟨jobs, hwrite, rfl⟩ := Option.map_eq_some_iff.mp henv
      exact ⟨mem_finishedRows_of_write hwrite hrow, fun pc hpc =>
        awaitsRow_mono (w := s.world) (fun _ ho => ho) (hawaits pc hpc)⟩

/-- A scrape that began after row `x` became visible and has finished has observed
it, or found it observed. -/
theorem observed_of_finished
    {u : MetricsProcess} {before after : List MetricsEvent}
    (hbefore : Machine.Run metricsProcess.machine (AfterWatermark start)
      (createMetrics table start) before u)
    (hafter : Machine.Run metricsProcess.machine (AfterWatermark start)
      ⟨u.world, u.procs ++ [.begun]⟩ after s)
    (hx : x ∈ finishedRows u.world.jobs.rows)
    (hlater : start < x.stamp)
    (hfinished : s.procs[u.procs.length]? = some .finished) :
    x.observation ∈ s.world.histogram := by
  have hspawn : Machine.Run metricsProcess.machine (AfterWatermark start) u [.spawn ()]
      ⟨u.world, u.procs ++ [.begun]⟩ :=
    Machine.run_single trivial rfl
  have hbegun : Awaiting x u.procs.length ⟨u.world, u.procs ++ [.begun]⟩ := by
    refine ⟨hx, ?_⟩
    intro pc hpc
    simp only [List.getElem?_concat_length, Option.some.injEq] at hpc
    subst hpc
    trivial
  have hawaiting : Awaiting x u.procs.length s := by
    refine Machine.run_invariant_of_known (K := MetricsOk start) ?_ ?_ hafter hbegun
    · intro fs v hv
      exact metricsOk_of_run (Machine.run_append (Machine.run_append hbefore hspawn) hv)
    · intro v e v' hok _ h _ hs
      exact awaiting_of_step hok hlater hs h
  exact hawaiting.2 _ hfinished

/--
**Durations.**  For any writes of the jobs table, with times in any order, and any
scrapes of one gateway process, overlapping or not: if jobs finish after all that was
observed or read, and no batch that reaches back to the watermark is observed, then
no job is observed twice, and every job that was started and finished after the
process started has been observed once when a scrape has finished that began after
its row was visible.
-/
theorem durations_observed_once
    (hrun : Machine.Run metricsProcess.machine (AfterWatermark start)
      (createMetrics table start) es s) :
    (∀ jobId, timesObserved s jobId ≤ 1) ∧
      ∀ (before after : List MetricsEvent) (u : MetricsProcess) (r : Job) (completedAt : Nat),
        es = before ++ .spawn () :: after →
        Machine.Run metricsProcess.machine Machine.anyStep (createMetrics table start)
          before u →
        r ∈ u.world.jobs.rows →
        r.startedAt.isSome = true →
        r.completedAt = some completedAt →
        start < completedAt →
        s.procs[u.procs.length]? = some .finished →
        timesObserved s r.id = 1 := by
  refine ⟨timesObserved_le_one hrun, ?_⟩
  rintro before after u r completedAt rfl hany hr hstarted hcompleted hlater hfinished
  obtain ⟨u', hbefore, hrest⟩ := Machine.run_split hrun
  cases Machine.run_unique hany hbefore
  obtain ⟨v, _, hspawn, hafter⟩ := Machine.run_cons hrest
  cases hspawn
  have hx : r.toDurationRow ∈ finishedRows u.world.jobs.rows :=
    mem_finishedRows.mpr ⟨r, hr, rfl, by
      simp [DurationRow.timed, Job.toDurationRow, hcompleted, hstarted]⟩
  have hmem := observed_of_finished hbefore hafter hx
    (by simpa [DurationRow.stamp, Job.toDurationRow, hcompleted] using hlater) hfinished
  have hpos : 0 < timesObserved s r.id :=
    List.count_pos_iff.mpr (List.mem_map.mpr ⟨_, hmem, rfl⟩)
  exact Nat.le_antisymm (timesObserved_le_one hrun r.id) hpos

/-- A job that is started and finishes at the time `completedAt`. -/
def finishJob (id : Uuid) (completedAt : Nat) : List MetricsEvent :=
  [.env (.create id sampleUser "ক" none 0), .env (.markActive 5 id),
    .env (.markCompleted completedAt id (audioKey sampleUser id))]

/-- From the request to the end of the scrape. -/
def scrape (i : Nat) : List MetricsEvent :=
  [.act i .collect, .act i .findMany, .act i .observe]

/-- The process, started at time 1, has a job `id` that finished at time 10. -/
def hasFinished (id : Uuid) (s : MetricsProcess) : Bool :=
  s.world.jobs.rows.any fun r =>
    decide (r.id = id ∧ r.startedAt.isSome = true ∧ r.completedAt = some 10)

theorem of_hasFinished
    {id : Uuid}
    (h : hasFinished id s = true) :
    ∃ r, r ∈ s.world.jobs.rows ∧ r.id = id ∧ r.startedAt.isSome = true ∧
      r.completedAt = some 10 := by
  obtain ⟨r, hr, hprop⟩ := List.any_eq_true.mp h
  obtain ⟨hid, hstarted, hcompleted⟩ := of_decide_eq_true hprop
  exact ⟨r, hr, hid, hstarted, hcompleted⟩

/-- A check of `AfterWatermark` for runs in which no job finishes while a scrape runs. -/
def afterWatermark (s : MetricsProcess) : MetricsEvent → Bool
  | .env b => b.finishes?.all (fun f => decide (s.world.observedUpTo < f.2)) &&
      decide (s.procs = [])
  | .act i .observe =>
      match s.procs[i]? with
      | some (.queried rows) => rows.all fun x => decide (s.world.observedUpTo < x.stamp)
      | _ => true
  | _ => true

theorem afterWatermark_of_check
    {start : Nat} {s : MetricsProcess} {e : MetricsEvent}
    (h : afterWatermark s e = true) :
    AfterWatermark start s e := by
  unfold AfterWatermark
  split
  · next b =>
      rintro c ⟨r, _, hwrite, _⟩ _
      simp only [afterWatermark, hwrite, Option.all_some, Bool.and_eq_true,
        decide_eq_true_eq] at h
      exact ⟨h.1, by simp [h.2]⟩
  · next i =>
      intro rows hp x hx
      simp only [afterWatermark, hp, List.all_eq_true, decide_eq_true_eq] at h
      exact h x hx
  · trivial

/-- One job and one scrape after it. -/
theorem durations_observed_once_one :
    ∃ (es : List MetricsEvent) (s : MetricsProcess),
      Machine.Run metricsProcess.machine (AfterWatermark 1) (createMetrics .empty 1) es s ∧
        timesObserved s sampleJob = 1 := by
  have hbefore : (metricsProcess.machine.exec (fun _ _ => true) (createMetrics .empty 1)
      (finishJob sampleJob 10)).any
      (fun u => hasFinished sampleJob u && decide (u.procs.length = 0)) = true := by
    decide +kernel
  obtain ⟨u, hu, hrow⟩ := Machine.exists_anyRun_of_exec hbefore
  have hexec : (metricsProcess.machine.exec afterWatermark (createMetrics .empty 1)
      (finishJob sampleJob 10 ++ .spawn () :: scrape 0)).any
      (fun s => decide (s.procs[0]? = some .finished)) = true := by
    decide +kernel
  obtain ⟨s, hrun, hfinished⟩ := Machine.exists_run_of_exec (G := AfterWatermark 1)
    (fun _ _ => afterWatermark_of_check) hexec
  rw [Bool.and_eq_true, decide_eq_true_eq] at hrow
  obtain ⟨r, hr, hid, hstarted, hcompleted⟩ := of_hasFinished hrow.1
  refine ⟨_, s, hrun, ?_⟩
  rw [← hid]
  refine (durations_observed_once hrun).2 _ _ u r 10 rfl hu hr hstarted hcompleted (by decide) ?_
  rw [hrow.2]
  exact of_decide_eq_true hfinished

/-- Two scrapes read the same watermark. -/
theorem job_observed_twice :
    ∃ (es : List MetricsEvent) (s : MetricsProcess),
      Machine.Run metricsProcess.machine Machine.anyStep (createMetrics .empty 1) es s ∧
        timesObserved s sampleJob = 2 := by
  have hexec : (metricsProcess.machine.exec (fun _ _ => true) (createMetrics .empty 1)
      (finishJob sampleJob 10 ++ [.spawn (), .spawn (), .act 0 .collect, .act 1 .collect,
        .act 0 .findMany, .act 1 .findMany, .act 0 .observe, .act 1 .observe])).any
      (fun s => decide (timesObserved s sampleJob = 2)) = true := by
    decide +kernel
  obtain ⟨s, hrun, hs⟩ := Machine.exists_anyRun_of_exec hexec
  exact ⟨_, s, hrun, of_decide_eq_true hs⟩

/-- A second job finishes in the millisecond that was the latest observed one; a scrape
that begins after that does not see it. -/
theorem job_not_observed :
    ∃ (before after : List MetricsEvent) (u s : MetricsProcess) (r : Job),
      Machine.Run metricsProcess.machine Machine.anyStep (createMetrics .empty 1) before u ∧
        r ∈ u.world.jobs.rows ∧ r.startedAt.isSome = true ∧ r.completedAt = some 10 ∧
        Machine.Run metricsProcess.machine Machine.anyStep u (.spawn () :: after) s ∧
        s.procs[u.procs.length]? = some .finished ∧ timesObserved s r.id = 0 := by
  have hbefore : (metricsProcess.machine.exec (fun _ _ => true) (createMetrics .empty 1)
      (finishJob sampleJob 10 ++ .spawn () :: scrape 0 ++ finishJob otherJob 10)).any
      (fun u => hasFinished otherJob u && decide (u.procs.length = 1)) = true := by
    decide +kernel
  obtain ⟨u, hu, hrow⟩ := Machine.exists_anyRun_of_exec hbefore
  have hexec : (metricsProcess.machine.exec (fun _ _ => true) (createMetrics .empty 1)
      ((finishJob sampleJob 10 ++ .spawn () :: scrape 0 ++ finishJob otherJob 10) ++
        .spawn () :: scrape 1)).any
      (fun s => decide (s.procs[1]? = some .finished ∧ timesObserved s otherJob = 0)) =
        true := by
    decide +kernel
  obtain ⟨s, hrun, hs⟩ := Machine.exists_anyRun_of_exec hexec
  obtain ⟨u', hu', hafter⟩ := Machine.run_split hrun
  cases Machine.run_unique hu hu'
  rw [Bool.and_eq_true, decide_eq_true_eq] at hrow
  obtain ⟨r, hr, hid, hstarted, hcompleted⟩ := of_hasFinished hrow.1
  obtain ⟨hfinished, hnone⟩ := of_decide_eq_true hs
  exact ⟨_, _, u, s, r, hu, hr, hstarted, hcompleted, hafter, hrow.2 ▸ hfinished,
    hid ▸ hnone⟩

end Results

end BengaliTts
