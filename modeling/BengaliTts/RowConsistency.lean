import BengaliTts.Service

/-!
# Rows, recordings and terminal statuses

A row of the jobs table says what a client may rely on: a completed job has a
recording of its own text in the bucket, a failed one an error, an unfinished
one neither.  Workers write rows and objects in separate steps, any step may
raise with or without effect, calls for the same job overlap, and a worker may
die between any two of its steps.

The invariant relates each call to the stores: a call past `mark_active` knows
that its row was started or is settled, one that has a recording in hand got it
from the engine for its own text, and one past the upload finds at its key a
recording of its own text, possibly that of another call for the same job.

Main result:
* `rows_consistent`: the columns of every row agree with its status, and a
  terminal row is never rewritten.
-/

namespace BengaliTts

open Lib

section Statements

/-- The bucket holds at `key` a recording that the engine returned for `text`. -/
def HoldsRecording (w : World) (key text : String) : Prop :=
  ∃ bytes, w.bucket key = some bytes ∧ (text, bytes) ∈ w.synthesized

/-- What the columns of a completed row say. -/
structure CompletedRow (w : World) (r : Job) : Prop where
  key : r.audioKey = some (audioKey r.userId r.id)
  recording : HoldsRecording w (audioKey r.userId r.id) r.inputText
  noErrorCode : r.errorCode = none
  noErrorMessage : r.errorMessage = none
  times : ∃ started completed, r.startedAt = some started ∧
    r.completedAt = some completed ∧ started ≤ completed

/-- What the columns of a failed row say. -/
structure FailedRow (r : Job) : Prop where
  code : r.errorCode = some "TIMEOUT" ∨ r.errorCode = some "INTERNAL"
  message : r.errorMessage.isSome = true
  completedAt : r.completedAt.isSome = true
  noKey : r.audioKey = none

/-- What the columns of an unfinished row say. -/
structure UnfinishedRow (r : Job) : Prop where
  noKey : r.audioKey = none
  noErrorCode : r.errorCode = none
  notCompleted : r.completedAt = none

/-- The columns of a row agree with its status. -/
structure RowConsistent (w : World) (r : Job) : Prop where
  completed : r.status = .completed → CompletedRow w r
  failed : r.status = .failed → FailedRow r
  unfinished : r.status = .queued ∨ r.status = .active → UnfinishedRow r
  active : r.status = .active → r.startedAt.isSome = true

/-- The event is a DELETE of job `jobId` that takes effect. -/
def DeletesJob (jobId : Uuid) (s : Service) : ServiceEvent → Prop
  | .act i (.handler e) =>
      (e = .deleteRow ∨ e = .deleteRowRaises true) ∧
        ∃ h job, s.procs[i]? = some (.handler h) ∧ h.job = some job ∧ job.id = jobId
  | _ => False

end Statements

section RowInvariant

/-- Past `mark_active` and before the status write that ends the attempt. -/
def CallPc.pastActive : CallPc → Bool
  | .activated _ => true
  | .synthesizing _ => true
  | .synthesized _ _ => true
  | .uploaded _ _ => true
  | _ => false

/-- `RowConsistent` with what an unfinished row needs in addition to stay so. -/
structure RowInv (w : World) (r : Job) : Prop where
  consistent : RowConsistent w r
  noErrorMessage : r.status.terminal = false → r.errorMessage = none
  startedBefore : r.status.terminal = false → ∀ t, r.startedAt = some t → t ≤ w.now

/-- The row of the job, if there is one, was started or is settled. -/
def StartedOrSettled (w : World) (jobId : Uuid) : Prop :=
  ∀ r, r ∈ w.jobs → r.id = jobId → r.status.terminal = true ∨ r.startedAt.isSome = true

/-- What a call knows about its row and about the recording it works on. -/
structure CallProgress (w : World) (c : Call) : Prop where
  started : c.pc.pastActive = true → StartedOrSettled w c.job.jobId
  heard : ∀ row wav, c.pc = .synthesized row wav → (row.inputText, wav) ∈ w.synthesized
  uploaded : ∀ row key, c.pc.key? = some (row, key) → HoldsRecording w key row.inputText

/-- `text` is the text that job `jobId` was submitted with. -/
def TextOf (w : World) (jobId : Uuid) (text : String) : Prop :=
  ∃ i b, (i, b) ∈ w.born ∧ b.id = jobId ∧ b.inputText = text

/-- A job has one text. -/
theorem textOf_unique
    {w : World} {jobId : Uuid} {text₁ text₂ : String}
    (hw : WorldOk w)
    (h₁ : TextOf w jobId text₁)
    (h₂ : TextOf w jobId text₂) :
    text₁ = text₂ := by
  obtain ⟨i₁, b₁, hb₁, hid₁, rfl⟩ := h₁
  obtain ⟨i₂, b₂, hb₂, hid₂, rfl⟩ := h₂
  have heq := eq_of_uniqueKey hw.bornUnique hb₁ hb₂ (hid₁.trans hid₂.symm)
  rw [(Prod.mk.inj heq).2]

theorem textOf_row
    {w : World} {r : Job}
    (hw : WorldOk w)
    (hr : r ∈ w.jobs) :
    TextOf w r.id r.inputText := by
  obtain ⟨i, b, hb, hsame⟩ := hw.rowsBorn r hr
  exact ⟨i, b, hb, hsame.id, hsame.inputText⟩

theorem textOf_read
    {w : World} {c : Call} {row : JobRow}
    (hok : CallOk w c)
    (hrow : c.pc.row? = some row) :
    TextOf w c.job.jobId row.inputText := by
  obtain ⟨hid, _, i, b, hb, hbid, _, htext⟩ := hok.row row hrow
  exact ⟨i, b, hb, hbid.trans hid, htext⟩

/-- The row of a call's job belongs to the user the call has read. -/
theorem userId_of_read
    {w : World} {c : Call} {row : JobRow} {r : Job}
    (hw : WorldOk w)
    (hok : CallOk w c)
    (hrow : c.pc.row? = some row)
    (hr : r ∈ w.jobs)
    (hid : r.id = c.job.jobId) :
    r.userId = row.userId := by
  obtain ⟨hrid, _, i, b, hb, hbid, huser, _⟩ := hok.row row hrow
  obtain ⟨j, b', hb', hsame⟩ := hw.rowsBorn r hr
  have heq := eq_of_uniqueKey hw.bornUnique hb hb'
    (hbid.trans (hrid.trans (hid.symm.trans hsame.id.symm)))
  rw [← hsame.userId, ← (Prod.mk.inj heq).2, huser]

end RowInvariant

theorem row?_of_key?
    {pc : CallPc} {row : JobRow} {key : String}
    (h : pc.key? = some (row, key)) :
    pc.row? = some row := by
  cases pc <;> simp_all [CallPc.key?, CallPc.row?]

theorem row?_of_pastActive
    {pc : CallPc}
    (h : pc.pastActive = true) :
    ∃ row, pc.row? = some row := by
  cases pc <;> simp_all [CallPc.pastActive, CallPc.row?]

section Recordings

variable {d : Deps} {w w' : World}

/-- An upload of a recording of `text'` keeps the recording of `text` at every
key that does not belong to another text. -/
theorem holdsRecording_uploadWav
    {key key' text text' : String} {wav : Bytes}
    (h : HoldsRecording w key text)
    (hsyn : (text', wav) ∈ w.synthesized)
    (hsame : key = key' → text' = text) :
    HoldsRecording (w.uploadWav key' wav) key text := by
  by_cases hkey : key = key'
  · subst hkey
    have htext := hsame rfl
    subst htext
    exact ⟨wav, by simp [World.uploadWav], hsyn⟩
  · obtain ⟨bytes, hbytes, hmem⟩ := h
    exact ⟨bytes, by simpa [World.uploadWav, Function.update_of_ne hkey] using hbytes, hmem⟩

/-- No step of a call destroys the recording of a job: uploads to its key are
uploads of calls for the same job, hence of recordings of the same text. -/
theorem holdsRecording_of_callStep
    {c : Call} {pc pc' : CallPc} {e : CallEvent} {userId jobId : Uuid} {text : String}
    (hs : CallStep d w c.job pc e w' pc')
    (hpc : c.pc = pc)
    (hw : WorldOk w)
    (hok : CallOk w c)
    (hprog : CallProgress w c)
    (htext : TextOf w jobId text)
    (h : HoldsRecording w (audioKey userId jobId) text) :
    HoldsRecording w' (audioKey userId jobId) text := by
  have hupload : ∀ row wav, pc = .synthesized row wav →
      HoldsRecording (w.uploadWav (audioKey row.userId c.job.jobId) wav)
        (audioKey userId jobId) text := by
    intro row wav hpc'
    refine holdsRecording_uploadWav h (hprog.heard row wav (hpc.trans hpc')) ?_
    intro hkey
    have hjob := (audioKey_injective hkey).2
    subst hjob
    exact textOf_unique hw (textOf_read hok (by rw [hpc, hpc']; rfl)) htext
  cases hs with
  | quiet => exact h
  | write => exact h
  | synthesizeReturns row wav =>
      obtain ⟨bytes, hbytes, hmem⟩ := h
      exact ⟨bytes, hbytes, List.mem_cons_of_mem _ hmem⟩
  | uploadWav row wav => exact hupload row wav rfl
  | uploadWavRaises row wav => exact hupload row wav rfl

end Recordings

section Rows

variable {d : Deps} {w w' : World}

theorem rowConsistent_of_terminal_eq
    {r : Job}
    (h : RowConsistent w r)
    (hrec : HoldsRecording w (audioKey r.userId r.id) r.inputText →
      HoldsRecording w' (audioKey r.userId r.id) r.inputText) :
    RowConsistent w' r where
  completed := by
    intro hs
    have hc := h.completed hs
    exact ⟨hc.key, hrec hc.recording, hc.noErrorCode, hc.noErrorMessage, hc.times⟩
  failed := h.failed
  unfinished := h.unfinished
  active := h.active

/-- An untouched row stays as it should be while the clock runs and the
recordings are kept. -/
theorem rowInv_congr
    {r : Job}
    (h : RowInv w r)
    (hnow : w.now ≤ w'.now)
    (hrec : HoldsRecording w (audioKey r.userId r.id) r.inputText →
      HoldsRecording w' (audioKey r.userId r.id) r.inputText) :
    RowInv w' r where
  consistent := rowConsistent_of_terminal_eq h.consistent hrec
  noErrorMessage := h.noErrorMessage
  startedBefore := fun ht t hst => (h.startedBefore ht t hst).trans hnow

theorem unfinished_of_notTerminal
    {r : Job}
    (h : RowConsistent w r)
    (ht : r.status.terminal = false) :
    UnfinishedRow r := by
  apply h.unfinished
  cases hs : r.status with
  | queued => exact Or.inl rfl
  | active => exact Or.inr rfl
  | completed => simp [hs, JobStatus.terminal] at ht
  | failed => simp [hs, JobStatus.terminal] at ht

/-- The row a submission inserts. -/
theorem rowInv_inserted
    {h : Handler} {r : Job}
    (hby : InsertedBy d h r) :
    RowInv w r := by
  obtain ⟨text, id, createdAt, _, _, _, rfl⟩ := hby
  constructor
  · constructor
    · intro hs
      cases hs
    · intro hs
      cases hs
    · intro _
      exact ⟨rfl, rfl, rfl⟩
    · intro hs
      cases hs
  · intro _
    rfl
  · intro _ t hst
    cases hst

theorem rowInv_setActive
    {r : Job}
    (h : RowInv w r)
    (ht : r.status.terminal = false) :
    RowInv w (setActive w.now r) := by
  have hun := unfinished_of_notTerminal h.consistent ht
  constructor
  · constructor
    · intro hs
      cases hs
    · intro hs
      cases hs
    · intro _
      exact ⟨hun.noKey, hun.noErrorCode, hun.notCompleted⟩
    · intro _
      rfl
  · intro _
    exact h.noErrorMessage ht
  · intro _ t hst
    cases hst
    exact le_rfl

theorem rowInv_setQueued
    {r : Job}
    (h : RowInv w r)
    (ht : r.status.terminal = false) :
    RowInv w (setQueued r) := by
  have hun := unfinished_of_notTerminal h.consistent ht
  constructor
  · constructor
    · intro hs
      cases hs
    · intro hs
      cases hs
    · intro _
      exact ⟨hun.noKey, hun.noErrorCode, hun.notCompleted⟩
    · intro hs
      cases hs
  · intro _
    exact h.noErrorMessage ht
  · intro _ t hst
    exact h.startedBefore ht t hst

theorem rowInv_setFailed
    {r : Job} {code message : String}
    (h : RowInv w r)
    (ht : r.status.terminal = false)
    (hcode : code = "TIMEOUT" ∨ code = "INTERNAL") :
    RowInv w (setFailed w.now code message r) := by
  have hun := unfinished_of_notTerminal h.consistent ht
  constructor
  · constructor
    · intro hs
      cases hs
    · intro _
      refine ⟨?_, rfl, rfl, hun.noKey⟩
      rcases hcode with rfl | rfl
      · exact Or.inl rfl
      · exact Or.inr rfl
    · intro hs
      rcases hs with hs | hs <;> cases hs
    · intro hs
      cases hs
  · intro hterm
    cases hterm
  · intro hterm
    cases hterm

theorem rowInv_setCompleted
    {r : Job} {key : String}
    (h : RowInv w r)
    (ht : r.status.terminal = false)
    (hstarted : r.startedAt.isSome = true)
    (hkey : key = audioKey r.userId r.id)
    (hrec : HoldsRecording w key r.inputText) :
    RowInv w (setCompleted w.now key r) := by
  have hun := unfinished_of_notTerminal h.consistent ht
  obtain ⟨started, hst⟩ := Option.isSome_iff_exists.mp hstarted
  subst hkey
  constructor
  · constructor
    · intro _
      exact ⟨rfl, hrec, hun.noErrorCode, h.noErrorMessage ht, started, w.now, hst, rfl,
        h.startedBefore ht started hst⟩
    · intro hs
      cases hs
    · intro hs
      rcases hs with hs | hs <;> cases hs
    · intro hs
      cases hs
  · intro hterm
    cases hterm
  · intro hterm
    cases hterm

/-- A status write of a call turns the row of its job into one that is again as
it should be. -/
theorem rowInv_of_callWrite
    {c : Call} {pc : CallPc} {f : Job → Job} {r : Job}
    (hf : CallWrite d w c.job pc f)
    (hpc : c.pc = pc)
    (hw : WorldOk w)
    (hok : CallOk w c)
    (hprog : CallProgress w c)
    (hr : r ∈ w.jobs)
    (hid : r.id = c.job.jobId)
    (ht : r.status.terminal = false)
    (h : RowInv w r) :
    RowInv w (f r) := by
  cases hf with
  | active => exact rowInv_setActive h ht
  | completed row key =>
      have hread : c.pc.row? = some row := by rw [hpc]; rfl
      have hkey : c.pc.key? = some (row, key) := by rw [hpc]; rfl
      have htext : r.inputText = row.inputText :=
        textOf_unique hw (hid ▸ textOf_row hw hr) (textOf_read hok hread)
      have huser : r.userId = row.userId := userId_of_read hw hok hread hr hid
      have hstarted : r.startedAt.isSome = true := by
        rcases hprog.started (by rw [hpc]; rfl) r hr hid with hterm | hstarted
        · simp [ht] at hterm
        · exact hstarted
      refine rowInv_setCompleted h ht hstarted ?_ ?_
      · rw [huser, hid]
        exact hok.key row key hkey
      · rw [htext]
        exact hprog.uploaded row key hkey
  | timedOut => exact rowInv_setFailed h ht (Or.inl rfl)
  | failed => exact rowInv_setFailed h ht (Or.inr rfl)
  | queued => exact rowInv_setQueued h ht
  | bypassed => exact rowInv_setFailed h ht (Or.inr rfl)

end Rows

section Progress

variable {d : Deps} {w w' : World}

theorem startedOrSettled_guardedUpdate
    {jobId jobId' : Uuid} {f : Job → Job}
    (hf : StatusWrite w.now jobId' f)
    (h : StartedOrSettled w jobId) :
    StartedOrSettled { w with jobs := guardedUpdate jobId' f w.jobs } jobId := by
  intro r hr hid
  rcases mem_guardedUpdate.mp hr with ⟨q, hq, _, hqt, rfl⟩ | ⟨hr, _⟩
  · have hqid : q.id = jobId := (hf.sameSubmission q).id.trans hid
    have hqst : q.startedAt.isSome = true := by
      rcases h q hq hqid with hterm | hst
      · simp [hqt] at hterm
      · exact hst
    cases hf with
    | active => exact Or.inr rfl
    | queued => exact Or.inr hqst
    | completed => exact Or.inl rfl
    | failed => exact Or.inl rfl
  · exact h r hr hid

theorem startedOrSettled_setActive
    (w : World) (jobId : Uuid) :
    StartedOrSettled { w with jobs := guardedUpdate jobId (setActive w.now) w.jobs } jobId := by
  intro r hr hid
  rcases mem_guardedUpdate.mp hr with ⟨q, _, _, _, rfl⟩ | ⟨_, hterm⟩
  · exact Or.inr rfl
  · exact Or.inl (hterm hid)

/-- No step of a call makes a started job unstarted. -/
theorem startedOrSettled_of_callStep
    {job : QueueJob} {pc pc' : CallPc} {e : CallEvent} {jobId : Uuid}
    (hs : CallStep d w job pc e w' pc')
    (h : StartedOrSettled w jobId) :
    StartedOrSettled w' jobId := by
  cases hs with
  | quiet => exact h
  | write hf => exact startedOrSettled_guardedUpdate hf.statusWrite h
  | synthesizeReturns => exact h
  | uploadWav => exact h
  | uploadWavRaises => exact h

theorem exceptClause_not_pastActive
    (row : JobRow) (exc : ExcClass) :
    (exceptClause row exc).pastActive = false := by
  cases exc <;> rfl

/-- A call gets past `mark_active` by `mark_active` only. -/
theorem started_after_callStep
    {job : QueueJob} {pc pc' : CallPc} {e : CallEvent}
    (hs : CallStep d w job pc e w' pc')
    (hpast : pc'.pastActive = true)
    (h : pc.pastActive = true → StartedOrSettled w job.jobId) :
    StartedOrSettled w' job.jobId := by
  have hclause : ∀ row exc, (exceptClause row exc).pastActive ≠ true := by
    intro row exc
    simp [exceptClause_not_pastActive]
  cases hs with
  | quiet hq =>
      cases hq
      case synthesize => exact h rfl
      case synthesizeRaises => exact absurd hpast (hclause _ _)
      case uploadRaises => exact absurd hpast (hclause _ _)
      case completedRaises => exact absurd hpast (hclause _ _)
      all_goals cases hpast
  | write hf hafter =>
      cases hafter
      case active =>
          cases hf
          exact startedOrSettled_setActive w job.jobId
      case completedRaises => exact absurd hpast (hclause _ _)
      all_goals cases hpast
  | synthesizeReturns => exact h rfl
  | uploadWav => exact h rfl
  | uploadWavRaises => exact absurd hpast (hclause _ _)

/-- The step of a call keeps what that call knows. -/
theorem callProgress_of_callStep
    {c c' : Call} {e : CallEvent}
    (hjob : c'.job = c.job)
    (hs : CallStep d w c.job c.pc e w' c'.pc)
    (hprog : CallProgress w c) :
    CallProgress w' c' := by
  obtain ⟨job, pc⟩ := c
  obtain ⟨job', pc'⟩ := c'
  dsimp only at hjob hs
  subst hjob
  have hclause : ∀ row exc row' key, (exceptClause row exc).key? ≠ some (row', key) := by
    intro row exc row' key
    simp [exceptClause_key?]
  constructor
  · intro hpast
    exact started_after_callStep hs hpast hprog.started
  · intro row wav hpc'
    dsimp only at hpc'
    have hraise : ∀ row' exc, exceptClause row' exc ≠ .synthesized row wav := by
      intro row' exc
      cases exc <;> simp [exceptClause]
    cases hs with
    | quiet hq =>
        cases hq
        case synthesizeRaises => exact absurd hpc' (hraise _ _)
        case uploadRaises => exact absurd hpc' (hraise _ _)
        case completedRaises => exact absurd hpc' (hraise _ _)
        all_goals cases hpc'
    | write _ hafter =>
        cases hafter
        case completedRaises => exact absurd hpc' (hraise _ _)
        all_goals cases hpc'
    | synthesizeReturns =>
        cases hpc'
        exact List.mem_cons_self
    | uploadWav => cases hpc'
    | uploadWavRaises => exact absurd hpc' (hraise _ _)
  · intro row key hkey
    dsimp only at hkey
    cases hs with
    | quiet hq =>
        cases hq
        case synthesizeRaises => exact absurd hkey (hclause _ _ _ _)
        case uploadRaises => exact absurd hkey (hclause _ _ _ _)
        case completedRaises => exact absurd hkey (hclause _ _ _ _)
        all_goals cases hkey
    | write _ hafter =>
        cases hafter
        case completed row' key' => exact hprog.uploaded row key hkey
        case completedRaises => exact absurd hkey (hclause _ _ _ _)
        all_goals cases hkey
    | synthesizeReturns => cases hkey
    | uploadWav row' wav =>
        cases hkey
        exact ⟨wav, by simp [World.uploadWav], hprog.heard row wav rfl⟩
    | uploadWavRaises => exact absurd hkey (hclause _ _ _ _)

/-- The step of another call keeps what a call knows. -/
theorem callProgress_frame_call
    {a c : Call} {pc pc' : CallPc} {e : CallEvent}
    (hs : CallStep d w a.job pc e w' pc')
    (hpc : a.pc = pc)
    (hw : WorldOk w)
    (haok : CallOk w a)
    (haprog : CallProgress w a)
    (hok : CallOk w c)
    (hprog : CallProgress w c) :
    CallProgress w' c where
  started := fun hpast => startedOrSettled_of_callStep hs (hprog.started hpast)
  heard := by
    intro row wav hc
    have hmem := hprog.heard row wav hc
    cases hs with
    | synthesizeReturns => exact List.mem_cons_of_mem _ hmem
    | quiet => exact hmem
    | write => exact hmem
    | uploadWav => exact hmem
    | uploadWavRaises => exact hmem
  uploaded := by
    intro row key hkey
    have hkeyeq := hok.key row key hkey
    subst hkeyeq
    exact holdsRecording_of_callStep hs hpc hw haok haprog
      (textOf_read hok (row?_of_key? hkey)) (hprog.uploaded row _ hkey)

/-- The step of a submission keeps what a call knows: the row a submission
brings into the table is new, hence not the row of a running call. -/
theorem callProgress_frame_handler
    {h : Handler} {c : Call}
    (hf : HandlerFrame d h w w')
    (hok : CallOk w c)
    (hprog : CallProgress w c) :
    CallProgress w' c where
  started := by
    intro hpast r hr hid
    rcases hf.rows r hr with hold | ⟨_, hnew⟩
    · exact hprog.started hpast r hold hid
    · obtain ⟨row, hrow⟩ := row?_of_pastActive hpast
      obtain ⟨hrid, hmem, _⟩ := hok.row row hrow
      exact absurd (hid ▸ hrid ▸ hmem) hnew
  heard := by
    intro row wav hc
    rw [hf.synthesized]
    exact hprog.heard row wav hc
  uploaded := by
    intro row key hkey
    obtain ⟨bytes, hbytes, hmem⟩ := hprog.uploaded row key hkey
    exact ⟨bytes, hf.bucket ▸ hbytes, hf.synthesized ▸ hmem⟩

end Progress

section Runs

variable {d : Deps}

/-- What a process knows about rows and recordings. -/
def ProgressOf (w : World) : Proc → Prop
  | .handler _ => True
  | .call c => CallProgress w c

theorem callProgress_boot
    (w : World) (job : QueueJob) :
    CallProgress w (Call.process job) ∧ CallProgress w (Call.recordBypassedFailure job) := by
  refine ⟨⟨?_, ?_, ?_⟩, ⟨?_, ?_, ?_⟩⟩
  · simp [Call.process, CallPc.pastActive]
  · simp [Call.process]
  · simp [Call.process, CallPc.key?]
  · unfold Call.recordBypassedFailure
    split <;> simp [CallPc.pastActive]
  · intro row wav
    unfold Call.recordBypassedFailure
    split <;> simp
  · intro row key
    unfold Call.recordBypassedFailure
    split <;> simp [CallPc.key?]

theorem rowInv_of_callStep
    {w w' : World} {c : Call} {pc pc' : CallPc} {e : CallEvent}
    (hs : CallStep d w c.job pc e w' pc')
    (hpc : c.pc = pc)
    (hw : WorldOk w)
    (hok : CallOk w c)
    (hprog : CallProgress w c)
    (hrows : ∀ r, r ∈ w.jobs → RowInv w r) :
    ∀ r, r ∈ w'.jobs → RowInv w' r := by
  have hkeep : ∀ r, r ∈ w.jobs → w.now ≤ w'.now → RowInv w' r := by
    intro r hr hnow
    exact rowInv_congr (hrows r hr) hnow
      (holdsRecording_of_callStep hs hpc hw hok hprog (textOf_row hw hr))
  cases hs with
  | quiet => exact hrows
  | write hf =>
      intro r hr
      rcases mem_guardedUpdate.mp hr with ⟨q, hq, hid, hqt, rfl⟩ | ⟨hr, _⟩
      · have hinv := rowInv_of_callWrite hf hpc hw hok hprog hq hid hqt (hrows q hq)
        exact rowInv_congr hinv le_rfl id
      · exact hkeep r hr le_rfl
  | synthesizeReturns => exact fun r hr => hkeep r hr le_rfl
  | uploadWav => exact fun r hr => hkeep r hr le_rfl
  | uploadWavRaises => exact fun r hr => hkeep r hr le_rfl

/-- The proof outline for rows and recordings. -/
def rowsOutline (d : Deps) (G : Service → ServiceEvent → Prop) :
    Outline (service d) G (ServiceOk d) where
  inv := fun w => ∀ r, r ∈ w.jobs → RowInv w r
  assert := fun _ w p => ProgressOf w p
  spawn := by
    intro g r _ _
    cases r with
    | submit r => trivial
    | deliver job => exact (callProgress_boot _ job).1
    | failedEvent job => exact (callProgress_boot _ job).2
  act := by
    intro g i a p p' w hK _ hann hp hact
    have hpok := hK.2 i p hp
    have hprog := hann.2 i p hp
    cases procStep_of_act hact with
    | handler hs =>
        have hf := handlerFrame_of_handlerStep hs rfl hpok
        refine ⟨?_, trivial⟩
        intro r hr
        rcases hf.rows r hr with hold | ⟨hby, _⟩
        · refine rowInv_congr (hann.1 r hold) hf.now.ge ?_
          rintro ⟨bytes, hbytes, hmem⟩
          exact ⟨bytes, hf.bucket ▸ hbytes, hf.synthesized ▸ hmem⟩
        · exact rowInv_inserted hby
    | call hjob hs =>
        exact ⟨rowInv_of_callStep hs rfl hK.1 hpok hprog hann.1,
          callProgress_of_callStep hjob hs hprog⟩
  frame := by
    intro g i j a p p' q w hK _ hann hp hact _ hq
    have hpok := hK.2 i p hp
    have hqok := hK.2 j q hq
    have hqprog := hann.2 j q hq
    cases q with
    | handler h => trivial
    | call c =>
        cases procStep_of_act hact with
        | handler hs =>
            exact callProgress_frame_handler (handlerFrame_of_handlerStep hs rfl hpok) hqok hqprog
        | call _ hs =>
            exact callProgress_frame_call hs rfl hK.1 hpok (hann.2 i _ hp) hqok hqprog
  env := by
    intro g b w _ _ hann henv
    have hprog : ∀ (j : Nat) (q : Proc), g.procs[j]? = some q → ProgressOf w q := by
      intro j q hq
      have hqprog := hann.2 j q hq
      cases q with
      | handler h => trivial
      | call c => cases b <;> cases henv <;> exact ⟨hqprog.started, hqprog.heard, hqprog.uploaded⟩
    refine ⟨?_, hprog⟩
    cases b <;> cases henv
    · exact fun r hr => rowInv_congr (hann.1 r hr) (Nat.le_add_right _ _) id
    · exact fun r hr => rowInv_congr (hann.1 r hr) le_rfl id

theorem rowsOutline_initial
    (G : Service → ServiceEvent → Prop) :
    Annotated (rowsOutline d G).inv (rowsOutline d G).assert Service.initial := by
  refine ⟨?_, by simp [Service.initial]⟩
  intro r hr
  cases hr

theorem rowInv_of_run
    {G : Service → ServiceEvent → Prop} {es : List ServiceEvent} {s : Service}
    (h : ServiceRun d G es s) :
    ∀ r, r ∈ s.world.jobs → RowInv s.world r :=
  ((rowsOutline d G).run (fun _ _ hr => serviceOk_of_run hr) (rowsOutline_initial G) h).1

end Runs

section Settled

variable {d : Deps} {w w' : World} {r : Job} {jobId : Uuid} {P : Job → Prop}

/-- The job was committed, and every row that stands under its id meets `P`. -/
def RowsSettled (jobId : Uuid) (P : Job → Prop) (w : World) : Prop :=
  jobId ∈ w.everCommitted ∧ ∀ q, q ∈ w.jobs → q.id = jobId → P q

/-- No status write touches a row of which only terminal versions are left. -/
theorem rowsSettled_of_callStep
    {job : QueueJob} {pc pc' : CallPc} {e : CallEvent}
    (hP : ∀ q, P q → q.status.terminal = true)
    (hs : CallStep d w job pc e w' pc')
    (h : RowsSettled jobId P w) :
    RowsSettled jobId P w' := by
  cases hs with
  | quiet => exact h
  | write hf =>
      refine ⟨h.1, ?_⟩
      intro q hq hid
      rcases mem_guardedUpdate.mp hq with ⟨p, hp, _, hpt, rfl⟩ | ⟨hq, _⟩
      · have hterm := hP p (h.2 p hp ((hf.statusWrite.sameSubmission p).id.trans hid))
        simp [hpt] at hterm
      · exact h.2 q hq hid
  | synthesizeReturns => exact h
  | uploadWav => exact h
  | uploadWavRaises => exact h

theorem rowsSettled_of_handlerStep
    {i : Nat} {h h' : Handler} {pc : HandlerPc} {e : HandlerEvent}
    (hs : HandlerStep d i w h pc e w' h')
    (hpc : h.pc = pc)
    (hok : HandlerOk d i w h)
    (hset : RowsSettled jobId P w) :
    RowsSettled jobId P w' := by
  have hf := handlerFrame_of_handlerStep hs hpc hok
  refine ⟨(undisturbed_of_handlerStep hs hpc hok (Nat.ne_add_one i)).committed _ hset.1, ?_⟩
  intro q hq hid
  rcases hf.rows q hq with hold | ⟨_, hnew⟩
  · exact hset.2 q hold hid
  · exact absurd (hid ▸ hset.1) hnew

theorem rowsSettled_of_step
    {s t : Service} {e : ServiceEvent}
    (hP : ∀ q, P q → q.status.terminal = true)
    (hok : ServiceOk d s)
    (hs : (service d).machine.step s e = some t)
    (h : RowsSettled jobId P s.world) :
    RowsSettled jobId P t.world := by
  cases serviceStep_of_step hs with
  | spawn => exact h
  | handler hp hstep => exact rowsSettled_of_handlerStep hstep rfl (hok.2 _ _ hp) h
  | call _ _ hstep => exact rowsSettled_of_callStep hP hstep h
  | @env b _ henv =>
      cases b <;> cases henv <;> exact h

/-- Terminal rows are never rewritten, whatever happens next. -/
theorem rowsSettled_of_run
    {s t : Service} {es fs : List ServiceEvent}
    (hP : ∀ q, P q → q.status.terminal = true)
    (h : ServiceRun d Machine.anyStep es s)
    (hset : RowsSettled jobId P s.world)
    (hfs : Machine.Run (service d).machine Machine.anyStep s fs t) :
    RowsSettled jobId P t.world := by
  refine Machine.run_invariant_of_known (K := ServiceOk d)
    (I := fun u => RowsSettled jobId P u.world) ?_ ?_ hfs hset
  · intro gs u hgs
    exact serviceOk_of_run (Machine.run_append h hgs)
  · intro u e v hu _ hI _ hs
    exact rowsSettled_of_step hP hu hs hI

/-- Of a committed job without a row every row is whatever one likes. -/
theorem rowsSettled_of_noRow
    (hid : jobId ∈ w.everCommitted)
    (hno : ¬ ∃ q, q ∈ w.jobs ∧ q.id = jobId) :
    RowsSettled jobId P w :=
  ⟨hid, fun q hq hqid => absurd ⟨q, hq, hqid⟩ hno⟩

/-- A job that has no row any more does not get one again. -/
theorem hadRow_of_step
    {s t : Service} {e : ServiceEvent}
    (hok : ServiceOk d s)
    (hs : (service d).machine.step s e = some t)
    (hid : jobId ∈ s.world.everCommitted)
    (h : ∃ q, q ∈ t.world.jobs ∧ q.id = jobId) :
    ∃ q, q ∈ s.world.jobs ∧ q.id = jobId := by
  by_contra hno
  obtain ⟨q, hq, hqid⟩ := h
  exact (rowsSettled_of_step (P := fun _ => False) (fun _ hfalse => hfalse.elim) hok hs
    (rowsSettled_of_noRow hid hno)).2 q hq hqid

/-- A row that is there at the end of a run and was committed before was there in
between. -/
theorem hadRow_of_run
    {s t : Service} {es fs : List ServiceEvent}
    (h : ServiceRun d Machine.anyStep es s)
    (hfs : Machine.Run (service d).machine Machine.anyStep s fs t)
    (hid : jobId ∈ s.world.everCommitted)
    (hrow : ∃ q, q ∈ t.world.jobs ∧ q.id = jobId) :
    ∃ q, q ∈ s.world.jobs ∧ q.id = jobId := by
  by_contra hno
  obtain ⟨q, hq, hqid⟩ := hrow
  exact (rowsSettled_of_run (P := fun _ => False) (fun _ hfalse => hfalse.elim) h
    (rowsSettled_of_noRow hid hno) hfs).2 q hq hqid

/-- A terminal row stays in the table until it is deleted. -/
theorem mem_jobs_of_step
    {s t : Service} {e : ServiceEvent}
    (ht : r.status.terminal = true)
    (hs : (service d).machine.step s e = some t)
    (hdel : ¬ DeletesJob r.id s e)
    (h : r ∈ s.world.jobs) :
    r ∈ t.world.jobs := by
  cases serviceStep_of_step hs with
  | spawn => exact h
  | @handler i hd _ _ _ hp hstep =>
      generalize hd.pc = pc at hstep
      cases hstep with
      | move => exact h
      | lock => exact h
      | insert => exact h
      | commit => exact List.mem_cons_of_mem _ h
      | commitReplyLost => exact List.mem_cons_of_mem _ h
      | rollback => exact h
      | callAdd => exact h
      | addTakesEffect => exact h
      | deleteRow job hjob he =>
          refine mem_deleteWhere.mpr ⟨h, ?_⟩
          have hne : r.id ≠ job.id := by
            intro hid
            exact hdel ⟨he, _, job, hp, hjob, hid.symm⟩
          simp [hne]
      | stop => exact h
  | @call _ c c' _ _ _ _ hstep =>
      generalize c.pc = pc, c'.pc = pc' at hstep
      cases hstep with
      | quiet => exact h
      | write => exact mem_guardedUpdate_of_terminal h ht
      | synthesizeReturns => exact h
      | uploadWav => exact h
      | uploadWavRaises => exact h
  | @env b _ henv =>
      cases b <;> cases henv <;> exact h

/-- The only row under the id of a row is that row. -/
theorem rowsSettled_self
    (hw : WorldOk w)
    (hr : r ∈ w.jobs) :
    RowsSettled r.id (fun q => q = r) w := by
  refine ⟨hw.rowsCommitted r hr, ?_⟩
  intro q hq hid
  exact eq_of_uniqueKey hw.rowsUnique hq hr hid

/--
**Rows and recordings agree.**  In every state of every run the columns of every
row agree with its status, and the recording a completed row names is in the
bucket.  A terminal row is never rewritten in any continuation of the run, and
it stays in the table while nobody deletes it.
-/
theorem rows_consistent
    {s : Service} {es : List ServiceEvent}
    (h : ServiceRun d Machine.anyStep es s)
    (r : Job)
    (hr : r ∈ s.world.jobs) :
    RowConsistent s.world r ∧
      (r.status.terminal = true →
        (∀ fs t, Machine.Run (service d).machine Machine.anyStep s fs t →
          ∀ q, q ∈ t.world.jobs → q.id = r.id → q = r) ∧
        (∀ fs t, Machine.Run (service d).machine (fun u e => ¬ DeletesJob r.id u e) s fs t →
          r ∈ t.world.jobs)) := by
  refine ⟨(rowInv_of_run h r hr).consistent, ?_⟩
  intro ht
  constructor
  · intro fs t hfs
    have hself := rowsSettled_self (serviceOk_of_run h).1 hr
    exact (rowsSettled_of_run (by rintro q rfl; exact ht) h hself hfs).2
  · intro fs t hfs
    exact Machine.run_invariant
      (I := fun u => r ∈ u.world.jobs)
      (fun _ _ _ hI hdel hs => mem_jobs_of_step ht hs hdel hI) hfs hr

/-- A completed row of a real run. -/
theorem rows_consistent_completed :
    ∃ (es : List ServiceEvent) (s : Service) (r : Job),
      ServiceRun sampleDeps Machine.anyStep es s ∧
      r ∈ s.world.jobs ∧ r.status = .completed ∧ RowConsistent s.world r := by
  have hexec : ((service sampleDeps).machine.exec (fun _ _ => true) Service.initial
      (sampleSubmission none ::
        (handlerEvents 0 (insertEvents sampleJob ++ enqueueEvents) ++
          .spawn (.deliver sampleDelivery) ::
            callEvents 1 [.fetchJob, .markActive, .synthesize, .synthesizeReturns [82],
              .uploadWav, .markCompleted, .finish]))).any
      (fun s => s.world.jobs.any fun r => decide (r.status = .completed)) = true := by
    decide +kernel
  obtain ⟨s, hrun, hs⟩ := Machine.exists_anyRun_of_exec hexec
  obtain ⟨r, hr, hstatus⟩ := List.any_eq_true.mp hs
  exact ⟨_, s, r, hrun, hr, by simpa using hstatus, (rows_consistent hrun r hr).1⟩

end Settled

end BengaliTts
