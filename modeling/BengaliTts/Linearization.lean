import BengaliTts.JobBoard

/-!
# Submissions are atomic decisions

A submission takes many awaits, under a lock for some of them and beside others for the
rest, and its gateway may stop at any of them.  What its client is answered is nevertheless
an atomic decision on the job board: at one moment between its arrival and its answer the
decision was right, and everything that was decided was decided in one order.

The moment is the lookup for a retry that is answered from an earlier job, the count for a
refusal by the cap, and the COMMIT for everything that is accepted.  Between its count and
its COMMIT a submission holds the user's lock, which is why the board still has room then.

Main result:
* `submissions_linearize`: every run of the service is simulated by the board, and every
  answer that says anything about jobs is the decision of the board.
-/

namespace BengaliTts

open Lib

section Statements

/-- Refusals and failures that say nothing about jobs. -/
def Thrown.offBoard : Thrown → Bool
  | .domain (.rateLimited _) => true
  | .domain (.validationFailed _ _) => true
  | .domain .textEmpty => true
  | .domain (.textTooLong _ _) => true
  | .domain (.textNotBengali _ _) => true
  | .domain .queueFull => true
  | .uniqueViolation => true
  | .fault => true
  | _ => false

/-- The row is the user's, with the key of the submission. -/
def Handler.SharesKey (h : Handler) (row : Job) : Prop :=
  row.userId = h.user ∧ ∃ key, h.key = some key ∧ row.idempotencyKey = some key

/-- An answer and the decision behind it. -/
inductive Justified (d : Deps) (h : Handler) : Option Verdict → SubmitResponse → Prop
  | accepted {job : Job} (hby : InsertedBy d h job) :
      Justified d h (some (.accepted job)) (.success 202 (submissionBody d job))
  /-- The job could not be handed to the queue, and its client is told of a failure. -/
  | failed {job : Job} (hby : InsertedBy d h job) :
      Justified d h (some (.accepted job)) (errorHandler .fault)
  | replayed {job : Job} (hshares : h.SharesKey job) :
      Justified d h (some (.replayed job)) (respondForIdempotentRetry d job h.body)
  | capReached :
      Justified d h (some .capReached) (errorHandler (.domain .pendingCapExceeded))
  | undecided {thrown : Thrown} (hoff : thrown.offBoard = true) :
      Justified d h none (errorHandler thrown)

/-- Where a submission stands, and what was decided of it. -/
def Handler.Fits (d : Deps) (h : Handler) (v : Option Verdict) : Prop :=
  match h.pc with
  | .replayFound row => v = some (.replayed row) ∧ h.SharesKey row
  | .fallbackFound row => v = some (.replayed row) ∧ h.SharesKey row
  | .aborting thrown => (thrown = .domain .pendingCapExceeded ∧ v = some .capReached) ∨
      (thrown.offBoard = true ∧ v = none)
  | .committed => ∃ job, h.job = some job ∧ v = some (.accepted job)
  | .adding _ => ∃ job, h.job = some job ∧ v = some (.accepted job)
  | .enqueued => ∃ job, h.job = some job ∧ v = some (.accepted job)
  | .cleanup => ∃ job, h.job = some job ∧ v = some (.accepted job)
  | .answered response => Justified d h v response
  | .stopped => True
  | _ => v = none

/-- The service shows the board: its rows are the jobs, its submissions stand where the
decisions about them put them, and only submissions that arrived were decided. -/
structure Shows (d : Deps) (b : Board) (s : Service) : Prop where
  jobs : b.jobs = s.world.jobs
  fits : ∀ (i : Nat) h, s.procs[i]? = some (.handler h) → h.Fits d (b.verdict? i)
  arrived : ∀ (i : Nat) v, b.verdict? i = some v → ∃ h, s.procs[i]? = some (.handler h)

end Statements

section Submissions

variable {d : Deps} {i : Nat} {w w' : World} {h h' : Handler} {b : Board}

/-- Past the token bucket a submission is refused without a look at the jobs, or goes on. -/
theorem afterToken_offBoard
    (d : Deps) (h : Handler) (allowed retryAfterMs : Nat) :
    (∃ thrown, thrown.offBoard = true ∧
        afterToken d h allowed retryAfterMs = .answered (errorHandler thrown)) ∨
      ∃ text, afterToken d h allowed retryAfterMs = .opening text := by
  unfold afterToken takeRateLimitToken
  by_cases hallowed : allowed ≠ 1
  · rw [if_pos hallowed]
    exact Or.inl ⟨_, rfl, rfl⟩
  · rw [if_neg hallowed]
    cases hbody : submitSchema h.body with
    | error issues =>
        simp only [validate, hbody]
        exact Or.inl ⟨_, rfl, rfl⟩
    | ok text =>
        simp only [validate, hbody]
        unfold validateTtsText
        split_ifs
        · exact Or.inl ⟨_, rfl, rfl⟩
        · exact Or.inl ⟨_, rfl, rfl⟩
        · exact Or.inl ⟨_, rfl, rfl⟩
        · exact Or.inr ⟨text, rfl⟩

/-- A submission that has just arrived was not decided, and says nothing about jobs. -/
theorem fits_start
    (r : SubmitRequest) :
    (Handler.start r).Fits d none := by
  unfold Handler.start
  split
  · next error herror =>
      have hoff : (Thrown.domain error).offBoard = true := by
        unfold readIdempotencyKey at herror
        split at herror
        · cases herror
        · split at herror <;> cases herror
          rfl
        · cases herror
          rfl
      exact Justified.undecided hoff
  · rfl
  · rfl

/-- The board `c` matches submission `i` after its step, and leaves the others alone. -/
structure Matches (d : Deps) (i : Nat) (b : Board) (w : World) (h : Handler) (c : Board) :
    Prop where
  jobs : c.jobs = w.jobs
  fits : h.Fits d (c.verdict? i)
  others : ∀ j, j ≠ i → c.verdict? j = b.verdict? j

/-- Some operations on the board match the step. -/
def Matched (d : Deps) (i : Nat) (b : Board) (w : World) (h : Handler) : Prop :=
  ∃ fs c, Machine.Run (board d.config.TTS_PENDING_CAP) Machine.anyStep b fs c ∧
    Matches d i b w h c

/-- A step that decides nothing and leaves the jobs as they are needs no operation. -/
theorem matched_quietly
    (hjobs : b.jobs = w.jobs)
    (hfits : h.Fits d (b.verdict? i)) :
    Matched d i b w h :=
  ⟨[], b, Machine.Run.nil b, hjobs, hfits, fun _ _ => rfl⟩

/-- A decision of submission `i`. -/
theorem matched_of_record
    {e : BoardEvent} {v : Verdict}
    (hs : (board d.config.TTS_PENDING_CAP).step b e = some (b.record i v))
    (hjobs : b.jobs = w.jobs)
    (hfits : h.Fits d (some v)) :
    Matched d i b w h := by
  refine ⟨[e], _, Machine.run_single trivial hs, hjobs, ?_, ?_⟩
  · rw [verdict?_record, if_pos rfl]
    exact hfits
  · intro j hij
    rw [verdict?_record, if_neg (Ne.symm hij)]

/-- A lookup by key that found a row. -/
theorem replay_of_lookup
    {row : Job}
    (hjobs : b.jobs = w.jobs)
    (hnone : b.verdict? i = none)
    (hrow : h.key.bind (findByKey w.jobs h.user) = some row) :
    h.SharesKey row ∧ ∃ e, (board d.config.TTS_PENDING_CAP).step b e =
      some (b.record i (.replayed row)) := by
  obtain ⟨_, huser, key, hkey, hrowKey⟩ := findByKey_eq_some hrow
  refine ⟨⟨huser, key, hkey, hrowKey⟩, .replay i h.user key, ?_⟩
  rw [hkey, Option.bind_some, ← hjobs] at hrow
  simp only [board, Board.step, hnone, hrow, if_true, Option.map_some]

/-- A step that only moves the program counter. -/
theorem matched_of_move
    {pc pc' : HandlerPc} {e : HandlerEvent}
    (hm : HandlerMove d w h pc e pc')
    (hpc : h.pc = pc)
    (hok : HandlerOk d i w h)
    (hjobs : b.jobs = w.jobs)
    (hfits : h.Fits d (b.verdict? i)) :
    Matched d i b w { h with pc := pc' } := by
  rw [Handler.Fits, hpc] at hfits
  cases hm with
  | replayFound hrow =>
      obtain ⟨hshares, e, hs⟩ := replay_of_lookup (d := d) hjobs hfits hrow
      exact matched_of_record hs hjobs ⟨rfl, hshares⟩
  | replayMissing => exact matched_quietly hjobs hfits
  | answerReplay row =>
      obtain ⟨hv, hshares⟩ := hfits
      refine matched_quietly hjobs ?_
      rw [hv]
      exact Justified.replayed hshares
  | takeToken allowed retryAfterMs =>
      refine matched_quietly hjobs ?_
      rcases afterToken_offBoard d h allowed retryAfterMs with ⟨thrown, hoff, hpc'⟩ | ⟨text, hpc'⟩
      · rw [hpc', hfits]
        exact Justified.undecided hoff
      · rw [hpc']
        exact hfits
  | beginTx => exact matched_quietly hjobs hfits
  | pendingCap text hcap =>
      rw [← hjobs] at hcap
      have hs : (board d.config.TTS_PENDING_CAP).step b (.refuse i h.user) =
          some (b.record i .capReached) :=
        if_pos ⟨hfits, hcap⟩
      exact matched_of_record hs hjobs (Or.inl ⟨rfl, rfl⟩)
  | counted => exact matched_quietly hjobs hfits
  | queueFull => exact matched_quietly hjobs (Or.inr ⟨rfl, hfits⟩)
  | depthChecked => exact matched_quietly hjobs hfits
  | rejectNul => exact matched_quietly hjobs (Or.inr ⟨rfl, hfits⟩)
  | rejectDuplicate => exact matched_quietly hjobs (Or.inr ⟨rfl, hfits⟩)
  | winnerFound hrow =>
      obtain ⟨hshares, e, hs⟩ := replay_of_lookup (d := d) hjobs hfits hrow
      exact matched_of_record hs hjobs ⟨rfl, hshares⟩
  | winnerMissing =>
      refine matched_quietly hjobs ?_
      rw [hfits]
      exact Justified.undecided rfl
  | answerWinner row =>
      obtain ⟨hv, hshares⟩ := hfits
      refine matched_quietly hjobs ?_
      rw [hv]
      exact Justified.replayed hshares
  | addReturns => exact matched_quietly hjobs hfits
  | addRaises => exact matched_quietly hjobs hfits
  | deleteRaises job hjob =>
      obtain ⟨job, hjob, hv⟩ := hfits
      refine matched_quietly hjobs ?_
      rw [hv]
      exact Justified.failed (hok.own job hjob).2.1
  | accept job hjob =>
      obtain ⟨own, hown, hv⟩ := hfits
      cases hown.symm.trans hjob
      refine matched_quietly hjobs ?_
      rw [hv]
      exact Justified.accepted (hok.own job hjob).2.1
  | @fault pc pc' hf =>
      -- Nothing was decided at any await that can fail as a fault of a store.
      have hnone : b.verdict? i = none := by
        cases pc <;> first | exact hfits | cases hf
      refine matched_quietly hjobs ?_
      rcases afterFault_cases hf with rfl | rfl
      · rw [hnone]
        exact Justified.undecided rfl
      · exact Or.inr ⟨rfl, hnone⟩

/-- The COMMIT decides for the row, whether or not its reply arrives. -/
theorem matched_of_commit
    {row : Job} {after : Handler}
    (hpc : h.pc = .inserted row)
    (hw : WorldOk w)
    (hok : HandlerOk d i w h)
    (hroom : HasRoom d w h)
    (hstaged : StagedUnique w h)
    (hjobs : b.jobs = w.jobs)
    (hundecided : b.verdict? i = none)
    (hafter : after.Fits d (some (.accepted row))) :
    Matched d i b ((w.commitRow row).releaseLocks i) after := by
  obtain ⟨_, hby, hnew⟩ := hok.staged row hpc
  have hadmits : b.Admits d.config.TTS_PENDING_CAP row := by
    refine ⟨fun r hr hid => hnew ?_, ?_, ?_⟩
    · rw [← hid]
      exact hw.rowsCommitted r (hjobs ▸ hr)
    · unfold violatesUnique
      cases hkey : row.idempotencyKey with
      | none => rfl
      | some key =>
          have hfree : findByKey b.jobs row.userId key = none := by
            rw [findByKey, List.find?_eq_none]
            intro r hr hshares
            obtain ⟨huser, hrkey⟩ := of_decide_eq_true hshares
            exact hstaged row hpc r key (hjobs ▸ hr) huser hkey hrkey
          simp only [hfree, Option.isSome_none]
    · rw [hjobs, hby.userId]
      exact hroom (by rw [hpc]; rfl)
  have hs : (board d.config.TTS_PENDING_CAP).step b (.accept i row) =
      some { b.record i (.accepted row) with jobs := row :: b.jobs } :=
    if_pos ⟨hundecided, hadmits⟩
  refine ⟨_, _, Machine.run_single trivial hs, congrArg (row :: ·) hjobs, ?_, ?_⟩
  · rw [verdict?_jobs, verdict?_record, if_pos rfl]
    exact hafter
  · intro j hij
    rw [verdict?_jobs, verdict?_record, if_neg (Ne.symm hij)]

/-- A step of a submission. -/
theorem matched_of_handlerStep
    {pc : HandlerPc} {e : HandlerEvent}
    (hs : HandlerStep d i w h pc e w' h')
    (hpc : h.pc = pc)
    (hw : WorldOk w)
    (hok : HandlerOk d i w h)
    (hroom : HasRoom d w h)
    (hstaged : StagedUnique w h)
    (hjobs : b.jobs = w.jobs)
    (hfits : h.Fits d (b.verdict? i)) :
    Matched d i b w' h' := by
  cases hs with
  | move hm => exact matched_of_move hm hpc hok hjobs hfits
  | lock =>
      rw [Handler.Fits, hpc] at hfits
      exact matched_quietly hjobs hfits
  | insert =>
      rw [Handler.Fits, hpc] at hfits
      exact matched_quietly hjobs hfits
  | commit row =>
      rw [Handler.Fits, hpc] at hfits
      exact matched_of_commit hpc hw hok hroom hstaged hjobs hfits ⟨row, rfl, rfl⟩
  | commitReplyLost row =>
      -- The board decides at the COMMIT; the client is told of a fault.
      rw [Handler.Fits, hpc] at hfits
      exact matched_of_commit hpc hw hok hroom hstaged hjobs hfits
        (Justified.failed (hok.staged row hpc).2.1)
  | rollback thrown =>
      rw [Handler.Fits, hpc] at hfits
      refine matched_quietly hjobs ?_
      rcases afterRollback_cases h thrown with ⟨_, rfl, hfallback⟩ | hanswered
      · rw [hfallback]
        rcases hfits with ⟨hthrown, _⟩ | ⟨_, hnone⟩
        · cases hthrown
        · exact hnone
      · rw [hanswered]
        rcases hfits with ⟨rfl, hv⟩ | ⟨hoff, hnone⟩
        · rw [hv]
          exact Justified.capReached
        · rw [hnone]
          exact Justified.undecided hoff
  | callAdd =>
      rw [Handler.Fits, hpc] at hfits
      exact matched_quietly hjobs hfits
  | addTakesEffect =>
      rw [Handler.Fits, hpc] at hfits
      exact matched_quietly hjobs hfits
  | deleteRow job hjob =>
      rw [Handler.Fits, hpc] at hfits
      obtain ⟨own, hown, hv⟩ := hfits
      cases hown.symm.trans hjob
      have hs : (board d.config.TTS_PENDING_CAP).step b (.withdraw i) =
          some { b with jobs := deleteWhere (fun r => decide (r.id = job.id)) b.jobs } := by
        simp only [board, Board.step, hv]
      refine ⟨_, _, Machine.run_single trivial hs, congrArg _ hjobs, ?_, fun _ _ => rfl⟩
      rw [verdict?_jobs, hv]
      exact Justified.failed (hok.own job hjob).2.1
  | stop => exact matched_quietly hjobs trivial

end Submissions

section Runs

variable {d : Deps} {s t : Service} {e : ServiceEvent} {es fs : List ServiceEvent} {b : Board}

/-- What is known of every reachable service. -/
structure ReadyToDecide (d : Deps) (s : Service) : Prop where
  service : ServiceOk d s
  room : ∀ (i : Nat) h, s.procs[i]? = some (.handler h) → HasRoom d s.world h
  staged : ∀ (i : Nat) h, s.procs[i]? = some (.handler h) → StagedUnique s.world h

theorem readyToDecide_of_run
    (hrun : ServiceRun d Machine.anyStep es s) :
    ReadyToDecide d s := by
  have hrooms := (capOutline d Machine.anyStep).run (fun _ _ hr => serviceOk_of_run hr)
    ⟨fun _ => Nat.zero_le _, fun i p hp => by cases hp⟩ hrun
  have hpairs := (pairsOutline d Machine.anyStep).run (fun _ _ hr => serviceOk_of_run hr)
    ⟨fun r₁ _ _ hr₁ => (by cases hr₁), fun i p hp => by cases hp⟩ hrun
  exact ⟨serviceOk_of_run hrun, fun i h hp => hrooms.2 i _ hp, fun i h hp => hpairs.2 i _ hp⟩

/-- The status writes of the worker are changes on the board. -/
theorem exists_change
    {now : Nat} {id : Uuid} {f : Job → Job}
    (h : StatusWrite now id f) :
    ∃ change : StatusChange, change.apply = f := by
  cases h with
  | active => exact ⟨.active now, rfl⟩
  | queued => exact ⟨.queued, rfl⟩
  | completed audioKey => exact ⟨.completed now audioKey, rfl⟩
  | failed code message => exact ⟨.failed now code message, rfl⟩

/-- A step of a call is a change on the board, or leaves the jobs alone. -/
theorem change_of_callStep
    {w w' : World} {job : QueueJob} {pc pc' : CallPc} {e : CallEvent}
    (hs : CallStep d w job pc e w' pc')
    (hjobs : b.jobs = w.jobs) :
    ∃ fs, Machine.Run (board d.config.TTS_PENDING_CAP) Machine.anyStep b fs
      { b with jobs := w'.jobs } := by
  have hsame : Machine.Run (board d.config.TTS_PENDING_CAP) Machine.anyStep b []
      { b with jobs := w.jobs } := by
    rw [← hjobs]
    exact Machine.Run.nil b
  cases hs with
  | write hf =>
      obtain ⟨change, rfl⟩ := exists_change hf.statusWrite
      refine ⟨[.change job.jobId change], Machine.run_single trivial ?_⟩
      rw [← hjobs]
      rfl
  | quiet => exact ⟨[], hsame⟩
  | synthesizeReturns => exact ⟨[], hsame⟩
  | uploadWav => exact ⟨[], hsame⟩
  | uploadWavRaises => exact ⟨[], hsame⟩

/-- Every step of the service is matched on the board. -/
theorem shows_of_step
    (hknown : ReadyToDecide d s)
    (h : Shows d b s)
    (hs : (service d).machine.step s e = some t) :
    ∃ fs c, Machine.Run (board d.config.TTS_PENDING_CAP) Machine.anyStep b fs c ∧
      Shows d c t := by
  cases serviceStep_of_step hs with
  | spawn r =>
      refine ⟨[], b, Machine.Run.nil b, h.jobs, ?_, ?_⟩
      · intro i hd hp
        rcases getElem?_spawn hp with hold | ⟨rfl, hnew⟩
        · exact h.fits i hd hold
        · have hnone : b.verdict? s.procs.length = none := by
            cases hv : b.verdict? s.procs.length with
            | none => rfl
            | some v =>
                obtain ⟨_, hp'⟩ := h.arrived _ v hv
                rw [List.getElem?_eq_none (Nat.le_refl _)] at hp'
                cases hp'
          rw [hnone]
          cases r with
          | submit r =>
              cases hnew
              exact fits_start r
          | deliver job => cases hnew
          | failedEvent job => cases hnew
      · intro i v hv
        obtain ⟨hd, hp⟩ := h.arrived i v hv
        exact ⟨hd, getElem?_spawn_of_some hp⟩
  | @handler i hd hd' _ w hp hstep =>
      obtain ⟨fs, c, hfs, hmatches⟩ := matched_of_handlerStep hstep rfl hknown.service.1
        (hknown.service.2 i _ hp) (hknown.room i hd hp) (hknown.staged i hd hp) h.jobs
        (h.fits i hd hp)
      refine ⟨fs, c, hfs, hmatches.jobs, ?_, ?_⟩
      · intro j k hk
        rcases getElem?_set_cases hk with ⟨rfl, hnew⟩ | ⟨hij, hold⟩
        · cases hnew
          exact hmatches.fits
        · rw [hmatches.others j (Ne.symm hij)]
          exact h.fits j k hold
      · intro j v hv
        by_cases hij : j = i
        · subst hij
          exact ⟨hd', getElem?_set_self_of_some hp⟩
        · rw [hmatches.others j hij] at hv
          obtain ⟨k, hk⟩ := h.arrived j v hv
          refine ⟨k, ?_⟩
          rw [List.getElem?_set_ne (Ne.symm hij)]
          exact hk
  | @call i c c' _ w hp _ hstep =>
      obtain ⟨fs, hfs⟩ := change_of_callStep hstep h.jobs
      refine ⟨fs, _, hfs, rfl, ?_, ?_⟩
      · intro j k hk
        rcases getElem?_set_cases hk with ⟨rfl, hnew⟩ | ⟨_, hold⟩
        · cases hnew
        · exact h.fits j k hold
      · intro j v hv
        obtain ⟨k, hk⟩ := h.arrived j v hv
        refine ⟨k, ?_⟩
        have hij : i ≠ j := by
          rintro rfl
          cases hp.symm.trans hk
        rw [List.getElem?_set_ne hij]
        exact hk
  | @env event w henv =>
      refine ⟨[], b, Machine.Run.nil b, ?_, h.fits, h.arrived⟩
      cases event <;> cases henv <;> exact h.jobs

theorem shows_initial :
    Shows d Board.empty Service.initial := by
  refine ⟨rfl, fun i h hp => ?_, fun i v hv => ?_⟩
  · cases hp
  · cases hv

end Runs

section Results

variable {d : Deps} {s t : Service} {es fs : List ServiceEvent}

/-- From any reachable service that shows a board, the board goes on as the service does. -/
theorem shows_of_continuation
    {b : Board}
    (hrun : ServiceRun d Machine.anyStep es s)
    (hb : Shows d b s)
    (hfs : Machine.Run (service d).machine Machine.anyStep s fs t) :
    ∃ gs c, Machine.Run (board d.config.TTS_PENDING_CAP) Machine.anyStep b gs c ∧
      Shows d c t :=
  Machine.run_simulated (K := ReadyToDecide d)
    (fun _ _ h => readyToDecide_of_run (Machine.run_append hrun h))
    (fun _ _ _ _ hknown hR _ hs => shows_of_step hknown hR hs) hfs hb

/-- What the board says of a service: its jobs are the rows, every answer is justified by
the decision about its submission, and a success is the decision of the board. -/
structure DecidedOn (d : Deps) (b : Board) (s : Service) : Prop where
  ok : BoardOk d.config.TTS_PENDING_CAP b
  jobs : b.jobs = s.world.jobs
  arrived : ∀ (i : Nat) v, b.verdict? i = some v → i < s.procs.length
  justified : ∀ (i : Nat) h response, s.procs[i]? = some (.handler h) →
    h.pc = .answered response → Justified d h (b.verdict? i) response

theorem decidedOn_of_shows
    {b : Board} {gs : List BoardEvent}
    (hgs : Machine.Run (board d.config.TTS_PENDING_CAP) Machine.anyStep Board.empty gs b)
    (h : Shows d b s) :
    DecidedOn d b s := by
  refine ⟨boardOk_of_run hgs, h.jobs, ?_, ?_⟩
  · intro i v hv
    obtain ⟨k, hk⟩ := h.arrived i v hv
    exact (List.getElem?_eq_some_iff.mp hk).1
  · intro i k response hk hpc
    have hfits := h.fits i k hk
    rw [Handler.Fits, hpc] at hfits
    exact hfits

/--
**Linearization.**  For every interleaving of any number of submissions, workers, retries,
failures and stopped gateways there is a run of the board that ends with the rows of the
jobs table and has decided of every submission what it was answered: the rows accepted
with 202 were admitted by the board, with a new key and room under the cap; the retries
were answered from the job that carried the key; and those refused by the cap were refused
when the board was at the cap.  However the service goes on, the board goes on from there,
and takes no decision back, so that a decision falls between the arrival of its submission
and its answer: one that is answered before another arrives is decided before it.
-/
theorem submissions_linearize
    (hrun : ServiceRun d Machine.anyStep es s)
    (hfs : Machine.Run (service d).machine Machine.anyStep s fs t) :
    ∃ gs b hs c, Machine.Run (board d.config.TTS_PENDING_CAP) Machine.anyStep Board.empty gs b ∧
      DecidedOn d b s ∧
        Machine.Run (board d.config.TTS_PENDING_CAP) Machine.anyStep b hs c ∧
          DecidedOn d c t ∧ b.verdicts <:+ c.verdicts := by
  obtain ⟨gs, b, hgs, hb⟩ := shows_of_continuation (Machine.Run.nil _) shows_initial hrun
  obtain ⟨hs, c, hhs, hc⟩ := shows_of_continuation hrun hb hfs
  exact ⟨gs, b, hs, c, hgs, decidedOn_of_shows hgs hb, hhs,
    decidedOn_of_shows (Machine.run_append hgs hhs) hc, verdicts_kept_of_run hhs⟩

end Results

section Samples

/-- A keyed submission whose row is committed and whose entry is in the queue. -/
def keyedCommitted : List ServiceEvent :=
  sampleSubmission (some "k") ::
    handlerEvents 0 (.findReplay :: insertEvents sampleJob ++ [.callAdd, .addTakesEffect])

/-- A retry is answered from its row before `queue.add` reports a failure. -/
def retriedThenFailed : List ServiceEvent :=
  sampleSubmission (some "k") :: handlerEvents 1 [.findReplay, .answerReplay] ++
    handlerEvents 0 [.addRaises, .deleteRow]

/-- The retry is decided after its arrival, though its job is withdrawn afterwards. -/
theorem submissions_linearize_retry :
    ∃ (s t : Service) (b c : Board),
      ServiceRun sampleDeps Machine.anyStep keyedCommitted s ∧
      Machine.Run (service sampleDeps).machine Machine.anyStep s retriedThenFailed t ∧
      DecidedOn sampleDeps b s ∧ DecidedOn sampleDeps c t ∧
      b.verdict? 1 = none ∧ c.jobs = [] ∧ ∃ job, c.verdict? 1 = some (.replayed job) := by
  have hexec : ((service sampleDeps).machine.exec (fun _ _ => true) Service.initial
      keyedCommitted).any
      (fun s => decide (s.procs.length = 1) &&
        ((service sampleDeps).machine.exec (fun _ _ => true) s retriedThenFailed).any fun t =>
          decide (t.world.jobs = [] ∧ answer? t 1 = some (sampleAnswer 200))) = true := by
    decide +kernel
  obtain ⟨s, hrun, hs⟩ := Machine.exists_anyRun_of_exec hexec
  obtain ⟨hprocs, hlater⟩ := (Bool.and_eq_true _ _).mp hs
  obtain ⟨t, hfs, ht⟩ := Machine.exists_anyRun_of_exec hlater
  obtain ⟨hjobs, hanswer⟩ := of_decide_eq_true ht
  obtain ⟨a, ha, hpc⟩ := answered_of_answer? hanswer
  obtain ⟨_, b, _, c, _, hb, _, hc, _⟩ := submissions_linearize hrun hfs
  refine ⟨s, t, b, c, hrun, hfs, hb, hc, ?_, hc.jobs.trans hjobs, ?_⟩
  · cases hv : b.verdict? 1 with
    | none => rfl
    | some v =>
        have hlt := hb.arrived 1 v hv
        rw [of_decide_eq_true hprocs] at hlt
        exact absurd hlt (Nat.lt_irrefl 1)
  · have hjustified := hc.justified 1 a _ ha hpc
    generalize hv : c.verdict? 1 = v, hresponse : sampleAnswer 200 = response at hjustified
    cases hjustified with
    | accepted => simp [sampleAnswer] at hresponse
    | failed => exact absurd hresponse.symm (errorHandler_ne_success _ _ _)
    | @replayed job => exact ⟨job, rfl⟩
    | capReached => exact absurd hresponse.symm (errorHandler_ne_success _ _ _)
    | undecided => exact absurd hresponse.symm (errorHandler_ne_success _ _ _)

end Samples

end BengaliTts
