import BengaliTts.Answers
import BengaliTts.RowConsistency

/-!
# Rows without a queue entry

The row and the queue entry of a submission live in two stores.  The row is
committed first; if `queue.add` fails, the row is deleted again, and an error of
that DELETE is swallowed.  Nobody else repairs anything, so a gateway that stops
between the commit and the enqueue leaves its row behind, and so does a DELETE
that fails, and a COMMIT whose reply is lost: that submission does not know of its
row.

Main result:
* `no_orphan_rows`: in the runs in which none of these happens to a row that matters,
  every queued row has been enqueued or belongs to a running submission, and a
  submission that was answered with an error leaves no row that counts as
  pending or carries a key.
-/

namespace BengaliTts

open Lib

section Statements

/-- The row neither counts against the pending cap nor carries a key. -/
def Harmless (r : Job) : Prop :=
  r.status.terminal = true ∧ r.idempotencyKey = none

/-- A gateway stops only while the row of its submission, if any, has been
enqueued, a cleanup DELETE fails only if the row is gone or harmless, and no COMMIT
takes effect and loses its reply. -/
def LeavesNothing (s : Service) : ServiceEvent → Prop
  | .act _ (.handler .commitReplyLost) => False
  | .act i (.handler .stop) =>
      ∀ h job, s.procs[i]? = some (.handler h) → h.job = some job → job.id ∈ s.world.added
  | .act i (.handler (.deleteRowRaises false)) =>
      ∀ h job, s.procs[i]? = some (.handler h) → h.job = some job →
        ∀ r, r ∈ s.world.jobs → r.id = job.id → Harmless r
  | _ => True

/-- The submission that inserted the row is still running. -/
def HasRunningOwner (s : Service) (id : Uuid) : Prop :=
  ∃ (i : Nat) (h : Handler) (job : Job), s.procs[i]? = some (.handler h) ∧
    h.pc.running = true ∧ h.job = some job ∧ job.id = id

end Statements

section Leftovers

variable {d : Deps} {i : Nat} {w w' : World}

/-- What a submission that is over leaves behind. -/
structure Leftover (w : World) (h : Handler) : Prop where
  stopped : h.pc = .stopped → ∀ job, h.job = some job → job.id ∈ w.added
  answered : ∀ response job, h.pc = .answered response → h.job = some job →
    (∃ status body, response = .success status body) ∨ RowsSettled job.id Harmless w

theorem leftover_of_running
    {h : Handler}
    (hpc : h.pc.running = true) :
    Leftover w h := by
  constructor
  · intro hs
    simp [hs, HandlerPc.running] at hpc
  · intro response job hs
    simp [hs, HandlerPc.running] at hpc

theorem leftover_of_noJob
    {h : Handler}
    (hjob : h.job = none) :
    Leftover w h := by
  constructor
  · intro _ job hj
    rw [hjob] at hj
    cases hj
  · intro _ job _ hj
    rw [hjob] at hj
    cases hj

theorem leftover_of_success
    {h : Handler} {status : Nat} {body : SubmissionBody}
    (hpc : h.pc = .answered (.success status body)) :
    Leftover w h := by
  constructor
  · intro hs
    simp [hs] at hpc
  · intro response job hr _
    rw [hpc] at hr
    cases hr
    exact Or.inl ⟨status, body, rfl⟩

theorem leftover_of_settled
    {h : Handler} {response : SubmitResponse} {job : Job}
    (hpc : h.pc = .answered response)
    (hjob : h.job = some job)
    (hset : RowsSettled job.id Harmless w) :
    Leftover w h := by
  constructor
  · intro hs
    simp [hs] at hpc
  · intro _ job' _ hj
    cases hjob.symm.trans hj
    exact Or.inr hset

theorem leftover_frame
    {h : Handler}
    (hadded : ∀ id, id ∈ w.added → id ∈ w'.added)
    (hset : ∀ id, RowsSettled id Harmless w → RowsSettled id Harmless w')
    (hleft : Leftover w h) :
    Leftover w' h where
  stopped := fun hpc job hj => hadded _ (hleft.stopped hpc job hj)
  answered := fun response job hpc hj => (hleft.answered response job hpc hj).imp_right (hset _)

/-- After the cleanup DELETE no row is left. -/
theorem rowsSettled_deleteJob
    {job : Job} {P : Job → Prop}
    (hmem : job.id ∈ w.everCommitted) :
    RowsSettled job.id P (w.deleteJob job.id) := by
  refine ⟨hmem, ?_⟩
  intro q hq hid
  have hne := (mem_deleteWhere.mp hq).2
  simp [hid] at hne

theorem leftover_of_handlerStep
    {h h' : Handler} {pc : HandlerPc} {e : HandlerEvent}
    (hs : HandlerStep d i w h pc e w' h')
    (hpc : h.pc = pc)
    (hok : HandlerOk d i w h)
    (hreply : e ≠ .commitReplyLost)
    (hstop : e = .stop → ∀ job, h.job = some job → job.id ∈ w.added)
    (hfail : e = .deleteRowRaises false → ∀ job, h.job = some job →
      ∀ r, r ∈ w.jobs → r.id = job.id → Harmless r) :
    Leftover w' h' := by
  have hnone := hok.noJob_at hpc
  cases hs with
  | move hm =>
      cases hm with
      | accept => exact leftover_of_success rfl
      | deleteRaises job hjob =>
          exact leftover_of_settled rfl hjob ⟨(hok.own job hjob).2.2, hfail rfl job hjob⟩
      | addReturns => exact leftover_of_running rfl
      | addRaises => exact leftover_of_running rfl
      | fault hf => exact leftover_of_noJob (hnone (beforeCommit_of_afterFault hf))
      | _ => exact leftover_of_noJob (hnone rfl)
  | rollback => exact leftover_of_noJob (hnone rfl)
  | deleteRow job hjob =>
      exact leftover_of_settled rfl hjob (rowsSettled_deleteJob (hok.own job hjob).2.2)
  | stop =>
      constructor
      · intro _ job hj
        exact hstop rfl job hj
      · intro _ _ hr
        cases hr
  | lock => exact leftover_of_running rfl
  | insert => exact leftover_of_running rfl
  | commit => exact leftover_of_running rfl
  | commitReplyLost => exact absurd rfl hreply
  | callAdd => exact leftover_of_running rfl
  | addTakesEffect => exact leftover_of_running rfl

theorem leftover_start
    (w : World) (r : SubmitRequest) :
    Leftover w (Handler.start r) := by
  unfold Handler.start
  split <;> exact leftover_of_noJob rfl

end Leftovers

section Runs

variable {d : Deps}

def LeftoverOf (w : World) : Proc → Prop
  | .handler h => Leftover w h
  | .call _ => True

/-- The proof outline for what submissions leave behind. -/
def leftoversOutline (d : Deps) :
    Outline (service d) LeavesNothing (ServiceOk d) where
  inv := fun _ => True
  assert := fun _ w p => LeftoverOf w p
  spawn := by
    intro g r _ _
    cases r with
    | submit r => exact leftover_start _ r
    | deliver job => trivial
    | failedEvent job => trivial
  act := by
    intro g i a p p' w hK hG hann hp hact
    refine ⟨trivial, ?_⟩
    cases procStep_of_act hact with
    | handler hs =>
        refine leftover_of_handlerStep hs rfl (hK.2 i _ hp) ?_ ?_ ?_
        · rintro rfl
          exact hG
        · rintro rfl job hj
          exact hG _ job hp hj
        · rintro rfl job hj
          exact hG _ job hp hj
    | call => trivial
  frame := by
    intro g i j a p p' q w hK _ hann hp hact hij hq
    have hleft := hann.2 j q hq
    cases q with
    | call c => trivial
    | handler k =>
        cases procStep_of_act hact with
        | handler hs =>
            have hkeep := keepsOwn_of_handlerStep hs hK.1 (hK.2 i _ hp) hij
            exact leftover_frame hkeep.added
              (fun id hset => rowsSettled_of_handlerStep hs rfl (hK.2 i _ hp) hset) hleft
        | call _ hs =>
            have hkeep : KeepsOwn j g.world w := keepsOwn_of_callStep hs
            exact leftover_frame hkeep.added
              (fun id hset => rowsSettled_of_callStep (fun _ hq => hq.1) hs hset) hleft
  env := by
    intro g b w _ _ hann henv
    refine ⟨trivial, ?_⟩
    intro j q hq
    have hleft := hann.2 j q hq
    cases q with
    | call c => trivial
    | handler k =>
        cases b <;> cases henv <;>
          exact leftover_frame (w := g.world) (fun _ h => h) (fun _ h => h) hleft

theorem leftover_of_run
    {es : List ServiceEvent} {s : Service} {i : Nat} {h : Handler}
    (hrun : ServiceRun d LeavesNothing es s)
    (hh : s.procs[i]? = some (.handler h)) :
    Leftover s.world h :=
  ((leftoversOutline d).run (fun _ _ hr => serviceOk_of_run hr)
    ⟨trivial, by simp [Service.initial]⟩ hrun).2 i _ hh

/-- A queued row was enqueued, or its submission still runs. -/
theorem enqueued_or_running
    {es : List ServiceEvent} {s : Service} {r : Job}
    (hrun : ServiceRun d LeavesNothing es s)
    (hr : r ∈ s.world.jobs)
    (hqueued : r.status = .queued) :
    r.id ∈ s.world.added ∨ HasRunningOwner s r.id := by
  have hok := serviceOk_of_run hrun
  obtain ⟨k, b, hb, hsame⟩ := hok.1.rowsBorn r hr
  have hcommitted : b.id ∈ s.world.everCommitted := by
    rw [hsame.id]
    exact hok.1.rowsCommitted r hr
  obtain ⟨h, hh, hjob⟩ := creatorsKnown_of_run hrun k b hb hcommitted
  have hleft := leftover_of_run hrun hh
  by_cases hrunning : h.pc.running = true
  · exact Or.inr ⟨k, h, b, hh, hrunning, hjob, hsame.id⟩
  · left
    cases hpc : h.pc with
    | answered response =>
        cases (answerOk_of_run hrun hh).answered response hpc with
        | accepted job hj _ _ hadded =>
            cases hj.symm.trans hjob
            exact hsame.id ▸ hadded
        | cleanedUp =>
            rcases hleft.answered _ b hpc hjob with ⟨status, body, hresp⟩ | hset
            · exact absurd hresp (errorHandler_ne_success _ _ _)
            · have hterm := (hset.2 r hr hsame.id.symm).1
              simp [hqueued, JobStatus.terminal] at hterm
        | replayed _ hj =>
            rw [hj] at hjob
            cases hjob
        | refused _ hj =>
            rw [hj] at hjob
            cases hjob
    | stopped => exact hsame.id ▸ hleft.stopped hpc b hjob
    | _ => simp [hpc, HandlerPc.running] at hrunning

/--
**No orphan rows.**  In the runs in which no gateway stops while its committed
row is not enqueued, no cleanup DELETE fails on a row that is pending or
carries a key, and no COMMIT loses its reply: every queued row has been enqueued or
belongs to a submission that still runs, and a row inserted by a submission that was
answered with an error neither counts against the pending cap nor is found by its key.
-/
theorem no_orphan_rows
    {es : List ServiceEvent} {s : Service}
    (hrun : ServiceRun d LeavesNothing es s) :
    (∀ r, r ∈ s.world.jobs → r.status = .queued →
        r.id ∈ s.world.added ∨ HasRunningOwner s r.id) ∧
      (∀ (i : Nat) (h : Handler) (job : Job) (status : Nat) (retryAfter : Option Nat)
        (error : ErrorBody),
        s.procs[i]? = some (.handler h) → h.pc = .answered (.failure status retryAfter error) →
          h.job = some job → ∀ r, r ∈ s.world.jobs → r.id = job.id →
            (∀ user, isPending user r = false) ∧
              ∀ user key, findByKey s.world.jobs user key ≠ some r) := by
  constructor
  · intro r hr hqueued
    exact enqueued_or_running hrun hr hqueued
  · intro i h job status retryAfter error hh hpc hjob r hr hid
    rcases (leftover_of_run hrun hh).answered _ job hpc hjob with ⟨_, _, hresp⟩ | hset
    · cases hresp
    · obtain ⟨hterm, hkey⟩ := hset.2 r hr hid
      refine ⟨fun user => by simp [isPending_eq, hterm], ?_⟩
      intro user key hfind
      have hlookup : (some key).bind (findByKey s.world.jobs user) = some r := hfind
      obtain ⟨_, _, k, _, hk⟩ := findByKey_eq_some hlookup
      rw [hkey] at hk
      cases hk

/-- No submission runs any more. -/
def allOver (s : Service) : Bool :=
  s.procs.all fun p =>
    match p with
    | .handler h => !h.pc.running
    | .call _ => true

theorem not_hasRunningOwner_of_allOver
    {s : Service}
    (h : allOver s = true)
    (id : Uuid) :
    ¬ HasRunningOwner s id := by
  rintro ⟨i, a, job, ha, hrunning, _⟩
  have hover := List.all_eq_true.mp h _ (List.mem_of_getElem? ha)
  simp [hrunning] at hover

/-- No gateway stops, no cleanup fails, and no COMMIT loses its reply. -/
def cleansUp (_ : Service) : ServiceEvent → Bool
  | .act _ (.handler .commitReplyLost) => false
  | .act _ (.handler .stop) => false
  | .act _ (.handler (.deleteRowRaises _)) => false
  | _ => true

theorem leavesNothing_of_cleansUp
    {s : Service} {e : ServiceEvent}
    (h : cleansUp s e = true) :
    LeavesNothing s e := by
  cases e with
  | spawn => trivial
  | env => trivial
  | act i a =>
      cases a with
      | call => trivial
      | handler e => cases e <;> trivial

/-- A submission whose `queue.add` fails and whose row is deleted. -/
theorem no_orphan_rows_cleanup :
    ∃ (es : List ServiceEvent) (s : Service),
      ServiceRun sampleDeps LeavesNothing es s ∧
        answer? s 0 = some (errorHandler .fault) ∧
          ∀ r, r ∈ s.world.jobs → r.status = .queued →
            r.id ∈ s.world.added ∨ HasRunningOwner s r.id := by
  have hexec : ((service sampleDeps).machine.exec cleansUp Service.initial
      (sampleSubmission (some "key") ::
        handlerEvents 0 (.findReplay :: insertEvents sampleJob ++
          [.callAdd, .addRaises, .deleteRow]))).any
      (fun s => decide (answer? s 0 = some (errorHandler .fault))) = true := by
    decide +kernel
  obtain ⟨s, hrun, hs⟩ :=
    Machine.exists_run_of_exec (fun _ _ => leavesNothing_of_cleansUp) hexec
  exact ⟨_, s, hrun, of_decide_eq_true hs, (no_orphan_rows hrun).1⟩

/-- `queue.add` fails and so does the cleanup DELETE: the submission is answered
with an error, and its queued row stays, counted and found by its key. -/
theorem orphan_after_failed_cleanup :
    ∃ (es : List ServiceEvent) (s : Service) (r : Job),
      ServiceRun sampleDeps Machine.anyStep es s ∧
        answer? s 0 = some (errorHandler .fault) ∧
          r ∈ s.world.jobs ∧ r.status = .queued ∧ r.id ∉ s.world.added ∧
            ¬ HasRunningOwner s r.id ∧ isPending sampleUser r = true ∧
              findByKey s.world.jobs sampleUser "key" = some r := by
  have hexec : ((service sampleDeps).machine.exec (fun _ _ => true) Service.initial
      (sampleSubmission (some "key") ::
        handlerEvents 0 (.findReplay :: insertEvents sampleJob ++
          [.callAdd, .addRaises, .deleteRowRaises false]))).any
      (fun s => decide (answer? s 0 = some (errorHandler .fault)) && allOver s &&
        s.world.jobs.any fun r => decide (r.status = .queued ∧ r.id ∉ s.world.added ∧
          isPending sampleUser r = true ∧
            findByKey s.world.jobs sampleUser "key" = some r)) = true := by
    decide +kernel
  obtain ⟨s, hrun, hs⟩ := Machine.exists_anyRun_of_exec hexec
  obtain ⟨hs, hrow⟩ := (Bool.and_eq_true _ _).mp hs
  obtain ⟨hanswer, hover⟩ := (Bool.and_eq_true _ _).mp hs
  obtain ⟨r, hr, hr'⟩ := List.any_eq_true.mp hrow
  obtain ⟨hqueued, hadded, hpending, hfound⟩ := of_decide_eq_true hr'
  exact ⟨_, s, r, hrun, of_decide_eq_true hanswer, hr, hqueued, hadded,
    not_hasRunningOwner_of_allOver hover r.id, hpending, hfound⟩

end Runs

end BengaliTts
