import BengaliTts.Answers
import BengaliTts.PendingCap

/-!
# The job board

What the submissions and the workers are for, without awaits, locks, a queue or lost
replies.  The board holds the jobs; a submission is one atomic decision on it: it is
accepted as a new job, answered from the job that carries its key, or refused because its
user has too many unfinished jobs.  A worker changes the status of a job that is not
finished, and an accepted submission may be withdrawn.

The board remembers what was decided of whom.

Main results:
* `boardOk_of_run`: ids and keys are told apart, no user is over the cap, and nobody is
  decided twice;
* `verdicts_kept_of_run`: no decision is ever taken back.
-/

namespace BengaliTts

open Lib

section Board

/-- What is decided of a submission. -/
inductive Verdict where
  | accepted (job : Job)
  /-- The user's job with the key of the submission, as it was found. -/
  | replayed (job : Job)
  | capReached
deriving DecidableEq

/-- What a worker makes of a job. -/
inductive StatusChange where
  | active (now : Nat)
  | queued
  | completed (now : Nat) (audioKey : String)
  | failed (now : Nat) (code message : String)

def StatusChange.apply : StatusChange → Job → Job
  | .active now => setActive now
  | .queued => setQueued
  | .completed now audioKey => setCompleted now audioKey
  | .failed now code message => setFailed now code message

structure Board where
  jobs : List Job
  /-- The decisions, the latest one first. -/
  verdicts : List (Nat × Verdict)

def Board.empty : Board :=
  ⟨[], []⟩

/-- What was decided of submission `i`. -/
def Board.verdict? (b : Board) (i : Nat) : Option Verdict :=
  (b.verdicts.find? fun v => decide (v.1 = i)).map Prod.snd

def Board.record (b : Board) (i : Nat) (v : Verdict) : Board :=
  { b with verdicts := (i, v) :: b.verdicts }

inductive BoardEvent where
  | accept (i : Nat) (job : Job)
  | replay (i : Nat) (user : Uuid) (key : String)
  | refuse (i : Nat) (user : Uuid)
  | withdraw (i : Nat)
  | change (id : Uuid) (c : StatusChange)

/-- The job is new, its user has not used its key, and has room for it. -/
def Board.Admits (cap : Nat) (b : Board) (job : Job) : Prop :=
  (∀ r, r ∈ b.jobs → r.id ≠ job.id) ∧ violatesUnique b.jobs job = false ∧
    pendingCount b.jobs job.userId < cap

instance (cap : Nat) (b : Board) (job : Job) : Decidable (b.Admits cap job) :=
  inferInstanceAs (Decidable (_ ∧ _ ∧ _))

/-- One atomic operation on the board. -/
def Board.step (cap : Nat) (b : Board) : BoardEvent → Option Board
  | .accept i job =>
      if b.verdict? i = none ∧ b.Admits cap job then
        some { b.record i (.accepted job) with jobs := job :: b.jobs }
      else
        none
  | .replay i user key =>
      if b.verdict? i = none then
        (findByKey b.jobs user key).map fun job => b.record i (.replayed job)
      else
        none
  | .refuse i user =>
      if b.verdict? i = none ∧ cap ≤ pendingCount b.jobs user then
        some (b.record i .capReached)
      else
        none
  | .withdraw i =>
      match b.verdict? i with
      | some (.accepted job) =>
          some { b with jobs := deleteWhere (fun r => decide (r.id = job.id)) b.jobs }
      | _ => none
  | .change id c => some { b with jobs := guardedUpdate id c.apply b.jobs }

def board (cap : Nat) : Machine Board BoardEvent where
  step := Board.step cap

/-- Jobs of one user carry different keys. -/
def KeysTold (jobs : List Job) : Prop :=
  ∀ r₁ r₂ k, r₁ ∈ jobs → r₂ ∈ jobs → r₁.userId = r₂.userId →
    r₁.idempotencyKey = some k → r₂.idempotencyKey = some k → r₁ = r₂

/-- What holds of the board at any time. -/
structure BoardOk (cap : Nat) (b : Board) : Prop where
  idsUnique : UniqueKey Job.id b.jobs
  keysTold : KeysTold b.jobs
  capKept : ∀ user, pendingCount b.jobs user ≤ cap
  decidedOnce : UniqueKey Prod.fst b.verdicts

end Board

section Verdicts

variable {b : Board} {i j : Nat} {v : Verdict}

@[simp] theorem verdict?_empty
    (i : Nat) :
    Board.empty.verdict? i = none :=
  rfl

@[simp] theorem jobs_record
    (b : Board) (i : Nat) (v : Verdict) :
    (b.record i v).jobs = b.jobs :=
  rfl

theorem verdict?_record
    (b : Board) (i : Nat) (v : Verdict) (j : Nat) :
    (b.record i v).verdict? j = if i = j then some v else b.verdict? j := by
  by_cases hij : i = j
  · simp [Board.verdict?, Board.record, hij]
  · simp [Board.verdict?, Board.record, hij]

/-- The jobs of a board make no difference to its verdicts. -/
@[simp] theorem verdict?_jobs
    (b : Board) (jobs : List Job) (i : Nat) :
    ({ b with jobs := jobs } : Board).verdict? i = b.verdict? i :=
  rfl

theorem decidedOnce_record
    (h : UniqueKey Prod.fst b.verdicts)
    (hnone : b.verdict? i = none) :
    UniqueKey Prod.fst (b.record i v).verdicts := by
  refine uniqueKey_cons ?_ h
  intro w hw heq
  rw [Board.verdict?, Option.map_eq_none_iff, List.find?_eq_none] at hnone
  exact hnone w hw (decide_eq_true heq)

end Verdicts

section Invariant

variable {cap : Nat} {b c : Board} {e : BoardEvent}

theorem StatusChange.statusWrite
    (change : StatusChange) (id : Uuid) :
    ∃ now, StatusWrite now id change.apply := by
  cases change with
  | active now => exact ⟨now, .active⟩
  | queued => exact ⟨0, .queued⟩
  | completed now audioKey => exact ⟨now, .completed audioKey⟩
  | failed now code message => exact ⟨now, .failed code message⟩

theorem keysTold_of_sub
    {jobs jobs' : List Job}
    (h : KeysTold jobs)
    (hrows : ∀ r', r' ∈ jobs' → ∃ r, r ∈ jobs ∧ SameSubmission r r')
    (hunique : UniqueKey Job.id jobs') :
    KeysTold jobs' := by
  have hpairs : PairUnique { World.empty with jobs := jobs } := h
  have hpairs' : PairUnique { World.empty with jobs := jobs' } :=
    pairUnique_of_sub hpairs hrows hunique
  exact hpairs'

theorem keysTold_cons
    {jobs : List Job} {job : Job}
    (h : KeysTold jobs)
    (hnew : violatesUnique jobs job = false) :
    KeysTold (job :: jobs) := by
  have hother : ∀ r k, r ∈ jobs → r.userId = job.userId → job.idempotencyKey = some k →
      r.idempotencyKey ≠ some k :=
    fun r k hr huser hk => key_ne_of_not_violatesUnique hnew hk hr huser
  intro r₁ r₂ k hr₁ hr₂ huser hk₁ hk₂
  rcases List.mem_cons.mp hr₁ with he₁ | hold₁
  · rcases List.mem_cons.mp hr₂ with he₂ | hold₂
    · exact he₁.trans he₂.symm
    · subst he₁
      exact absurd hk₂ (hother r₂ k hold₂ huser.symm hk₁)
  · rcases List.mem_cons.mp hr₂ with he₂ | hold₂
    · subst he₂
      exact absurd hk₁ (hother r₁ k hold₁ huser hk₂)
    · exact h r₁ r₂ k hold₁ hold₂ huser hk₁ hk₂

/-- Every operation keeps the board in order. -/
theorem boardOk_of_step
    (h : BoardOk cap b)
    (hs : (board cap).step b e = some c) :
    BoardOk cap c := by
  cases e with
  | accept i job =>
      simp only [board, Board.step] at hs
      split at hs
      · next hadmits =>
          cases hs
          obtain ⟨hnone, hid, hkey, hroom⟩ := hadmits
          refine ⟨uniqueKey_cons hid h.idsUnique, keysTold_cons h.keysTold hkey, ?_,
            decidedOnce_record h.decidedOnce hnone⟩
          intro user
          by_cases huser : job.userId = user
          · subst huser
            exact (pendingCount_cons job b.jobs _).trans hroom
          · exact (pendingCount_cons_of_ne b.jobs huser).le.trans (h.capKept user)
      · cases hs
  | replay i user key =>
      simp only [board, Board.step] at hs
      split at hs
      · next hnone =>
          obtain ⟨job, _, rfl⟩ := Option.map_eq_some_iff.mp hs
          exact ⟨h.idsUnique, h.keysTold, h.capKept, decidedOnce_record h.decidedOnce hnone⟩
      · cases hs
  | refuse i user =>
      simp only [board, Board.step] at hs
      split at hs
      · next hrefused =>
          cases hs
          exact ⟨h.idsUnique, h.keysTold, h.capKept, decidedOnce_record h.decidedOnce hrefused.1⟩
      · cases hs
  | withdraw i =>
      simp only [board, Board.step] at hs
      split at hs
      · next job _ =>
          cases hs
          have hunique := uniqueKey_deleteWhere (p := fun r => decide (r.id = job.id)) h.idsUnique
          refine ⟨hunique, keysTold_of_sub h.keysTold (fun r hr => ⟨r, ?_, .refl r⟩) hunique,
            fun user => (countP_deleteWhere_le _ _ b.jobs).trans (h.capKept user), h.decidedOnce⟩
          exact (mem_deleteWhere.mp hr).1
      · cases hs
  | change id change =>
      cases hs
      obtain ⟨now, hwrite⟩ := change.statusWrite id
      have hunique : UniqueKey Job.id (guardedUpdate id change.apply b.jobs) :=
        uniqueKey_updateWhere (fun r => (hwrite.sameSubmission r).id.symm) h.idsUnique
      exact ⟨hunique,
        keysTold_of_sub h.keysTold (fun r hr => exists_of_mem_guardedUpdate hwrite hr) hunique,
        fun user => (pendingCount_guardedUpdate_le hwrite b.jobs user).trans (h.capKept user),
        h.decidedOnce⟩

/-- **The board** is in order at any time. -/
theorem boardOk_of_run
    {es : List BoardEvent}
    (hrun : Machine.Run (board cap) Machine.anyStep Board.empty es b) :
    BoardOk cap b := by
  refine Machine.run_invariant (fun _ _ _ h _ hs => boardOk_of_step h hs) hrun ?_
  refine ⟨List.nodup_nil, ?_, fun _ => Nat.zero_le _, List.nodup_nil⟩
  intro r₁ r₂ k hr₁
  cases hr₁

/-- No decision is ever taken back. -/
theorem verdicts_kept_of_step
    (hs : (board cap).step b e = some c) :
    b.verdicts <:+ c.verdicts := by
  cases e with
  | accept i job =>
      simp only [board, Board.step] at hs
      split at hs
      · cases hs
        exact List.suffix_cons _ _
      · cases hs
  | replay i user key =>
      simp only [board, Board.step] at hs
      split at hs
      · obtain ⟨job, _, rfl⟩ := Option.map_eq_some_iff.mp hs
        exact List.suffix_cons _ _
      · cases hs
  | refuse i user =>
      simp only [board, Board.step] at hs
      split at hs
      · cases hs
        exact List.suffix_cons _ _
      · cases hs
  | withdraw i =>
      simp only [board, Board.step] at hs
      split at hs
      · cases hs
        exact List.suffix_rfl
      · cases hs
  | change id change =>
      cases hs
      exact List.suffix_rfl

theorem verdicts_kept_of_run
    {es : List BoardEvent}
    (hrun : Machine.Run (board cap) Machine.anyStep b es c) :
    b.verdicts <:+ c.verdicts := by
  refine Machine.run_relates (R := fun b c : Board => b.verdicts <:+ c.verdicts)
    (fun _ => List.suffix_rfl) (fun _ _ _ h₁ h₂ => h₁.trans h₂) ?_ hrun
  exact fun _ _ _ _ hs => verdicts_kept_of_step hs

end Invariant

end BengaliTts
