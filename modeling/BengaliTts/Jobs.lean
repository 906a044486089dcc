import BengaliTts.Lib.RowTable
import Mathlib.Tactic.Basic

/-!
# The jobs table

One row per submitted job.  The gateway inserts and deletes rows; the worker
moves them through their lifecycle by the four guarded updates of its database
module.  Each of them carries the same guard, so a terminal row is never
rewritten (`guardedUpdate`); the four are that update with their own columns.

The object key of a finished recording is made of the owner's and the job's id
(`audioKey`).  Ids are UUIDs, so different jobs have different keys.
-/

namespace BengaliTts

open Lib

/-- The characters of a UUID in canonical form. -/
def isUuidChar (c : Char) : Bool :=
  c.isDigit || ('a' ≤ c && c ≤ 'f') || ('A' ≤ c && c ≤ 'F') || c = '-'

/-- A UUID in its canonical 36 character form. -/
structure Uuid where
  text : String
  canonical : text.toList.length = 36 ∧ text.toList.all isUuidChar = true

@[ext] theorem Uuid.ext {a b : Uuid} (h : a.text = b.text) : a = b := by
  cases a
  cases b
  cases h
  rfl

instance : DecidableEq Uuid := fun a b =>
  if h : a.text = b.text then
    isTrue (Uuid.ext h)
  else
    isFalse fun he => h (congrArg Uuid.text he)

inductive JobStatus where
  | queued
  | active
  | completed
  | failed
deriving DecidableEq, Repr

/-- `TERMINAL_STATUSES`: the statuses that are never left. -/
def JobStatus.terminal : JobStatus → Bool
  | .queued => false
  | .active => false
  | .completed => true
  | .failed => true

/-- A row of the jobs table. Times are milliseconds of the database clock. -/
structure Job where
  id : Uuid
  userId : Uuid
  status : JobStatus
  inputText : String
  idempotencyKey : Option String
  audioKey : Option String
  errorCode : Option String
  errorMessage : Option String
  createdAt : Nat
  startedAt : Option Nat
  completedAt : Option Nat
deriving DecidableEq

/-- A row as an INSERT leaves it: the column defaults and the given columns. -/
def newJob
    (id userId : Uuid) (inputText : String) (idempotencyKey : Option String)
    (createdAt : Nat) : Job where
  id := id
  userId := userId
  status := .queued
  inputText := inputText
  idempotencyKey := idempotencyKey
  audioKey := none
  errorCode := none
  errorMessage := none
  createdAt := createdAt
  startedAt := none
  completedAt := none

/-- The columns that an INSERT sets and no later statement changes. -/
structure SameSubmission (b r : Job) : Prop where
  id : b.id = r.id
  userId : b.userId = r.userId
  inputText : b.inputText = r.inputText
  idempotencyKey : b.idempotencyKey = r.idempotencyKey
  createdAt : b.createdAt = r.createdAt

theorem SameSubmission.refl (r : Job) : SameSubmission r r :=
  ⟨rfl, rfl, rfl, rfl, rfl⟩

theorem SameSubmission.symm
    {a b : Job}
    (h : SameSubmission a b) :
    SameSubmission b a :=
  ⟨h.id.symm, h.userId.symm, h.inputText.symm, h.idempotencyKey.symm, h.createdAt.symm⟩

theorem SameSubmission.trans
    {a b c : Job}
    (h₁ : SameSubmission a b)
    (h₂ : SameSubmission b c) :
    SameSubmission a c :=
  ⟨h₁.id.trans h₂.id, h₁.userId.trans h₂.userId, h₁.inputText.trans h₂.inputText,
    h₁.idempotencyKey.trans h₂.idempotencyKey, h₁.createdAt.trans h₂.createdAt⟩

section Worker

/-- What the worker reads of a row. -/
structure JobRow where
  id : Uuid
  userId : Uuid
  inputText : String
  status : JobStatus
deriving DecidableEq

def Job.toJobRow (r : Job) : JobRow :=
  ⟨r.id, r.userId, r.inputText, r.status⟩

/-- The row of a job id, if the table has one. -/
def fetchJob (jobs : List Job) (jobId : Uuid) : Option JobRow :=
  (jobs.find? fun r => decide (r.id = jobId)).map Job.toJobRow

/-- `WHERE id = %s AND status NOT IN ('COMPLETED', 'FAILED')`. -/
def notTerminal (jobId : Uuid) (r : Job) : Bool :=
  decide (r.id = jobId) && !r.status.terminal

/-- An update under the guard that every status writer carries. -/
def guardedUpdate (jobId : Uuid) (f : Job → Job) (jobs : List Job) : List Job :=
  updateWhere (notTerminal jobId) f jobs

/-- `SET status = 'ACTIVE', started_at = now()`. -/
def setActive (now : Nat) (r : Job) : Job :=
  { r with status := .active, startedAt := some now }

/-- `SET status = 'QUEUED'`. -/
def setQueued (r : Job) : Job :=
  { r with status := .queued }

/-- `SET status = 'COMPLETED', audio_key = %s, completed_at = now()`. -/
def setCompleted (now : Nat) (audioKey : String) (r : Job) : Job :=
  { r with status := .completed, audioKey := some audioKey, completedAt := some now }

/-- `SET status = 'FAILED', error_code = %s, error_message = %s, completed_at = now()`. -/
def setFailed (now : Nat) (code message : String) (r : Job) : Job :=
  { r with
    status := .failed
    errorCode := some code
    errorMessage := some message
    completedAt := some now }

def markActive (now : Nat) (jobId : Uuid) (jobs : List Job) : List Job :=
  guardedUpdate jobId (setActive now) jobs

def markQueued (jobId : Uuid) (jobs : List Job) : List Job :=
  guardedUpdate jobId setQueued jobs

def markCompleted (now : Nat) (jobId : Uuid) (audioKey : String) (jobs : List Job) :
    List Job :=
  guardedUpdate jobId (setCompleted now audioKey) jobs

def markFailed (now : Nat) (jobId : Uuid) (code message : String) (jobs : List Job) :
    List Job :=
  guardedUpdate jobId (setFailed now code message) jobs

/--
What one status write does to the table.  Every writer of the worker is one of
these, so a fact about every status write is proved once, over this type.
-/
inductive StatusWrite (now : Nat) (jobId : Uuid) : (Job → Job) → Prop
  | active : StatusWrite now jobId (setActive now)
  | queued : StatusWrite now jobId setQueued
  | completed (audioKey : String) : StatusWrite now jobId (setCompleted now audioKey)
  | failed (code message : String) : StatusWrite now jobId (setFailed now code message)

theorem StatusWrite.sameSubmission
    {now : Nat} {jobId : Uuid} {f : Job → Job}
    (h : StatusWrite now jobId f)
    (r : Job) :
    SameSubmission r (f r) := by
  cases h <;> exact ⟨rfl, rfl, rfl, rfl, rfl⟩

theorem mem_guardedUpdate
    {jobId : Uuid} {f : Job → Job} {jobs : List Job} {r : Job} :
    r ∈ guardedUpdate jobId f jobs ↔
      (∃ q, q ∈ jobs ∧ q.id = jobId ∧ q.status.terminal = false ∧ f q = r) ∨
        (r ∈ jobs ∧ (r.id = jobId → r.status.terminal = true)) := by
  unfold guardedUpdate
  rw [mem_updateWhere]
  simp [notTerminal, and_assoc]

/-- A terminal row survives every status write. -/
theorem mem_guardedUpdate_of_terminal
    {jobId : Uuid} {f : Job → Job} {jobs : List Job} {r : Job}
    (hr : r ∈ jobs)
    (ht : r.status.terminal = true) :
    r ∈ guardedUpdate jobId f jobs :=
  mem_guardedUpdate.mpr (Or.inr ⟨hr, fun _ => ht⟩)

end Worker

section AudioKey

/-- The object key of a job's recording, namespaced by owner. -/
def audioKey (userId jobId : Uuid) : String :=
  "audio/" ++ userId.text ++ "/" ++ jobId.text ++ ".wav"

/-- Object keys of different jobs are different. -/
theorem audioKey_injective
    {u₁ u₂ j₁ j₂ : Uuid}
    (h : audioKey u₁ j₁ = audioKey u₂ j₂) :
    u₁ = u₂ ∧ j₁ = j₂ := by
  have hl := congrArg String.toList h
  simp only [audioKey, String.toList_append, List.append_assoc,
    List.append_cancel_left_eq] at hl
  obtain ⟨hu, htail⟩ := List.append_inj hl (u₁.canonical.1.trans u₂.canonical.1.symm)
  rw [List.append_cancel_left_eq] at htail
  have hj := (List.append_inj htail (j₁.canonical.1.trans j₂.canonical.1.symm)).1
  exact ⟨Uuid.ext (String.toList_inj.mp hu), Uuid.ext (String.toList_inj.mp hj)⟩

end AudioKey

/-- The statuses `QUEUED` and `ACTIVE` of the pending count are the ones that
are not terminal. -/
def isPending (userId : Uuid) (r : Job) : Bool :=
  decide (r.userId = userId) && (decide (r.status = .queued) || decide (r.status = .active))

/-- The gateway's count of a user's unfinished jobs. -/
def pendingCount (jobs : List Job) (userId : Uuid) : Nat :=
  jobs.countP (isPending userId)

theorem isPending_eq
    (userId : Uuid) (r : Job) :
    isPending userId r = (decide (r.userId = userId) && !r.status.terminal) := by
  unfold isPending
  cases hs : r.status <;> simp [JobStatus.terminal]

/-- No status write makes more jobs of a user pending. -/
theorem pendingCount_guardedUpdate_le
    {now : Nat} {jobId : Uuid} {f : Job → Job}
    (hf : StatusWrite now jobId f)
    (jobs : List Job) (userId : Uuid) :
    pendingCount (guardedUpdate jobId f jobs) userId ≤ pendingCount jobs userId := by
  apply countP_updateWhere_le
  intro r hr hpend
  have huser : (f r).userId = r.userId := (hf.sameSubmission r).userId.symm
  simp only [notTerminal, Bool.and_eq_true, decide_eq_true_eq] at hr
  simp only [isPending_eq, Bool.and_eq_true, decide_eq_true_eq] at hpend ⊢
  exact ⟨huser ▸ hpend.1, hr.2⟩

end BengaliTts
