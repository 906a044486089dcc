import BengaliTts.Answers

/-!
# Admission by idempotency key

The replay lookup, the gates, the lock, the unique index, the fallback lookup and
the enqueue are separate steps of every submission, and submissions with the
same key may stand anywhere in this sequence at once.  While no `queue.add`
fails, no row is ever deleted, so the row that a lookup has found is still there
when the answer is read.  A COMMIT whose reply is lost is a failure of the database,
and is left out: its submission is answered with an error and leaves a row behind.

Main result:
* `exactly_once_admission`: one row, one `queue.add` and one 202 for each user
  and key; every other answer is the replay of that row, the conflict with its
  text, or an error of a submission that changed nothing.
-/

namespace BengaliTts

open Lib

section Statements

/-- No `queue.add` fails, and no COMMIT loses its reply. -/
def AddSucceeds (_ : Service) : ServiceEvent → Prop
  | .act _ (.handler e) => e ≠ .addRaises ∧ e ≠ .commitReplyLost
  | _ => True

instance : ∀ (s : Service) (e : ServiceEvent), Decidable (AddSucceeds s e)
  | _, .spawn _ => isTrue trivial
  | _, .act _ (.handler e) => inferInstanceAs (Decidable (e ≠ .addRaises ∧ e ≠ .commitReplyLost))
  | _, .act _ (.call _) => isTrue trivial
  | _, .env _ => isTrue trivial

/-- The row carries this user and this key. -/
def HasPair (user : Uuid) (key : String) (r : Job) : Prop :=
  r.userId = user ∧ r.idempotencyKey = some key

/-- The calls of `queue.add` for the rows of a user and a key. -/
def addCallsFor (w : World) (user : Uuid) (key : String) : List Uuid :=
  w.addCalls.filter fun id =>
    w.jobs.any fun r => decide (r.id = id ∧ r.userId = user ∧ r.idempotencyKey = some key)

/-- The jobs table and the queue are the same. -/
structure Untouched (w w' : World) : Prop where
  jobs : w'.jobs = w.jobs
  queue : w'.queue = w.queue
  calls : w'.addCalls = w.addCalls
  added : w'.added = w.added

/-- The answers that submission `i` can get under a user and a key, after the
run `es` that ends in `s`. -/
inductive AnswerFor (d : Deps) (es : List ServiceEvent) (s : Service)
    (user : Uuid) (key : String) (i : Nat) (h : Handler) : SubmitResponse → Prop
  | accepted (r : Job) (body : SubmissionBody)
      (hr : r ∈ s.world.jobs) (hpair : HasPair user key r) (hid : body.jobId = r.id)
      (hcalled : r.id ∈ s.world.addCalls) :
      AnswerFor d es s user key i h (.success 202 body)
  | replayed (r : Job) (body : SubmissionBody) (text : JsString)
      (hr : r ∈ s.world.jobs) (hpair : HasPair user key r) (hid : body.jobId = r.id)
      (hbody : validate submitSchema h.body = .ok text)
      (htext : text = fromColumn r.inputText) :
      AnswerFor d es s user key i h (.success 200 body)
  | conflict (r : Job) (text : JsString)
      (hr : r ∈ s.world.jobs) (hpair : HasPair user key r)
      (hbody : validate submitSchema h.body = .ok text)
      (htext : text ≠ fromColumn r.inputText) :
      AnswerFor d es s user key i h (errorHandler (.domain .idempotencyConflict))
  | refused (thrown : Thrown) (hne : thrown ≠ .domain .idempotencyConflict)
      (huntouched : ∀ u a v, Machine.Through (service d).machine AddSucceeds
        Service.initial es s u (.act i a) v → Untouched u.world v.world) :
      AnswerFor d es s user key i h (errorHandler thrown)

/-- A user's key admits one job. -/
structure AdmittedOnce (d : Deps) (es : List ServiceEvent) (s : Service)
    (user : Uuid) (key : String) : Prop where
  oneRow : ∀ fs t r r', Machine.Run (service d).machine AddSucceeds s fs t →
    r ∈ s.world.jobs → r' ∈ t.world.jobs → HasPair user key r → HasPair user key r' →
      r.id = r'.id
  oneCall : (addCallsFor s.world user key).length ≤ 1
  callsHaveRows : ∀ id, id ∈ s.world.addCalls → HasRow s.world id
  oneAccepted : ∀ (i j : Nat) (h k : Handler) (body body' : SubmissionBody),
    s.procs[i]? = some (.handler h) → s.procs[j]? = some (.handler k) →
      h.user = user → h.key = some key → k.user = user → k.key = some key →
        h.pc = .answered (.success 202 body) → k.pc = .answered (.success 202 body') → i = j
  answers : ∀ (i : Nat) (h : Handler) (response : SubmitResponse),
    s.procs[i]? = some (.handler h) → h.user = user → h.key = some key →
      h.pc = .answered response → AnswerFor d es s user key i h response

end Statements

section NoDelete

variable {d : Deps} {i : Nat} {w w' : World}

/-- A submission whose row was never given up. -/
structure NeverCleanedUp (d : Deps) (h : Handler) : Prop where
  notCleanup : h.pc ≠ .cleanup
  accepted : ∀ response job, h.pc = .answered response → h.job = some job →
    response = .success 202 (submissionBody d job)

theorem neverCleanedUp_of_pc
    {h : Handler}
    (hpc : h.pc ≠ .cleanup ∧ ∀ response, h.pc ≠ .answered response) :
    NeverCleanedUp d h :=
  ⟨hpc.1, fun response _ hr => absurd hr (hpc.2 response)⟩

theorem neverCleanedUp_of_noJob
    {h : Handler} {response : SubmitResponse}
    (hpc : h.pc = .answered response)
    (hjob : h.job = none) :
    NeverCleanedUp d h := by
  refine ⟨by simp [hpc], ?_⟩
  intro _ job _ hsome
  rw [hjob] at hsome
  cases hsome

theorem neverCleanedUp_of_handlerStep
    {h h' : Handler} {pc : HandlerPc} {e : HandlerEvent}
    (hs : HandlerStep d i w h pc e w' h')
    (hpc : h.pc = pc)
    (hG : e ≠ .addRaises ∧ e ≠ .commitReplyLost)
    (hok : HandlerOk d i w h)
    (hclean : NeverCleanedUp d h) :
    NeverCleanedUp d h' := by
  have hnone := hok.noJob_at hpc
  cases hs with
  | move hm =>
      cases hm with
      | answerReplay => exact neverCleanedUp_of_noJob rfl (hnone rfl)
      | takeToken allowed retryAfterMs =>
          rcases afterToken_cases d h allowed retryAfterMs with ⟨_, _, ha⟩ | ⟨_, ha, _⟩
          · exact neverCleanedUp_of_noJob ha (hnone rfl)
          · exact neverCleanedUp_of_pc (by simp [ha])
      | winnerMissing => exact neverCleanedUp_of_noJob rfl (hnone rfl)
      | answerWinner => exact neverCleanedUp_of_noJob rfl (hnone rfl)
      | addRaises => exact absurd rfl hG.1
      | deleteRaises => exact absurd hpc hclean.notCleanup
      | accept job hjob =>
          refine ⟨by simp, ?_⟩
          intro response job' hr hjob'
          cases hr
          cases hjob.symm.trans hjob'
          rfl
      | fault hf =>
          rcases afterFault_cases hf with rfl | rfl
          · exact neverCleanedUp_of_noJob rfl (hnone (beforeCommit_of_afterFault hf))
          · exact neverCleanedUp_of_pc (by simp)
      | _ => exact neverCleanedUp_of_pc (by simp)
  | rollback thrown =>
      rcases afterRollback_cases h thrown with ⟨_, _, hr⟩ | hr
      · exact neverCleanedUp_of_pc (by simp [hr])
      · exact neverCleanedUp_of_noJob hr (hnone rfl)
  | deleteRow => exact absurd hpc hclean.notCleanup
  | stop => exact neverCleanedUp_of_pc (by simp)
  | lock => exact neverCleanedUp_of_pc (by simp)
  | insert => exact neverCleanedUp_of_pc (by simp)
  | commit => exact neverCleanedUp_of_pc (by simp)
  | commitReplyLost => exact absurd rfl hG.2
  | callAdd => exact neverCleanedUp_of_pc (by simp)
  | addTakesEffect => exact neverCleanedUp_of_pc (by simp)

theorem neverCleanedUp_start
    (r : SubmitRequest) :
    NeverCleanedUp d (Handler.start r) := by
  unfold Handler.start
  split
  · exact neverCleanedUp_of_noJob rfl rfl
  · exact neverCleanedUp_of_pc (by simp)
  · exact neverCleanedUp_of_pc (by simp)

def CleanOf (d : Deps) : Proc → Prop
  | .handler h => NeverCleanedUp d h
  | .call _ => True

/-- The proof outline for runs without a cleanup. -/
def cleanOutline (d : Deps) :
    Outline (service d) AddSucceeds (ServiceOk d) where
  inv := fun _ => True
  assert := fun _ _ p => CleanOf d p
  spawn := by
    intro g r _ _
    cases r with
    | submit r => exact neverCleanedUp_start r
    | deliver job => trivial
    | failedEvent job => trivial
  act := by
    intro g i a p p' w hK hG hann hp hact
    refine ⟨trivial, ?_⟩
    have hpok := hK.2 i p hp
    have hclean := hann.2 i p hp
    cases procStep_of_act hact with
    | handler hs => exact neverCleanedUp_of_handlerStep hs rfl hG hpok hclean
    | call => trivial
  frame := by
    intro g i j a p p' q w _ _ hann _ _ _ hq
    exact hann.2 j q hq
  env := by
    intro g b w _ _ hann _
    exact ⟨trivial, hann.2⟩

theorem neverCleanedUp_of_run
    {es : List ServiceEvent} {s : Service} {h : Handler}
    (hrun : ServiceRun d AddSucceeds es s)
    (hh : s.procs[i]? = some (.handler h)) :
    NeverCleanedUp d h :=
  ((cleanOutline d).run (fun _ _ hr => serviceOk_of_run hr)
    ⟨trivial, by simp [Service.initial]⟩ hrun).2 i _ hh

/-- A step that is no cleanup keeps every committed row. -/
theorem hasRow_of_step
    {s t : Service} {e : ServiceEvent}
    (hclean : ∀ (i : Nat) (h : Handler), s.procs[i]? = some (.handler h) → h.pc ≠ .cleanup)
    (hs : (service d).machine.step s e = some t)
    (h : ∀ id, id ∈ s.world.everCommitted → HasRow s.world id) :
    ∀ id, id ∈ t.world.everCommitted → HasRow t.world id := by
  cases serviceStep_of_step hs with
  | spawn => exact h
  | @handler i a _ _ _ hp hstep =>
      generalize hpc : a.pc = pc at hstep
      have hcommit : ∀ row : Job, ∀ id, id ∈ row.id :: s.world.everCommitted →
          HasRow (s.world.commitRow row) id := by
        intro row id hid
        rcases List.mem_cons.mp hid with rfl | hid
        · exact ⟨row, List.mem_cons_self, rfl⟩
        · obtain ⟨r, hr, hrid⟩ := h id hid
          exact ⟨r, List.mem_cons_of_mem _ hr, hrid⟩
      cases hstep with
      | commit row => exact hcommit row
      | commitReplyLost row => exact hcommit row
      | deleteRow => exact absurd hpc (hclean i a hp)
      | _ => exact h
  | @call _ c c' _ _ _ _ hstep =>
      generalize c.pc = pc, c'.pc = pc' at hstep
      cases hstep with
      | write hf => exact fun id hid => hasRow_guardedUpdate hf.statusWrite (h id hid)
      | _ => exact h
  | @env b _ henv =>
      cases b <;> cases henv <;> exact h

/-- A committed row is never deleted. -/
theorem hasRow_of_committed
    {es : List ServiceEvent} {s : Service}
    (hrun : ServiceRun d AddSucceeds es s) :
    ∀ id, id ∈ s.world.everCommitted → HasRow s.world id := by
  refine Machine.run_invariant_of_known
    (K := fun u => ∀ (i : Nat) (h : Handler), u.procs[i]? = some (.handler h) → h.pc ≠ .cleanup)
    (I := fun u => ∀ id, id ∈ u.world.everCommitted → HasRow u.world id)
    (fun _ _ hu i h hh => (neverCleanedUp_of_run hu hh).notCleanup) ?_ hrun ?_
  · intro u e v hu _ hI _ hs
    exact hasRow_of_step hu hs hI
  · intro id hid
    cases hid

end NoDelete

section Admitted

variable {d : Deps} {i : Nat} {es : List ServiceEvent} {s : Service}

/-- A submission that ends without a row has touched nothing with any step. -/
theorem untouched_of_noJob
    {w w' : World} {h h' : Handler} {pc : HandlerPc} {e : HandlerEvent}
    (hs : HandlerStep d i w h pc e w' h')
    (hjob : h'.job = none) :
    Untouched w w' := by
  cases hs with
  | commit => cases hjob
  | commitReplyLost => cases hjob
  | callAdd _ hj => exact absurd (hjob.symm.trans hj) (by simp)
  | addTakesEffect _ hj => exact absurd (hjob.symm.trans hj) (by simp)
  | deleteRow _ hj => exact absurd (hjob.symm.trans hj) (by simp)
  | move => exact ⟨rfl, rfl, rfl, rfl⟩
  | lock => exact ⟨rfl, rfl, rfl, rfl⟩
  | insert => exact ⟨rfl, rfl, rfl, rfl⟩
  | rollback => exact ⟨rfl, rfl, rfl, rfl⟩
  | stop => exact ⟨rfl, rfl, rfl, rfl⟩

/-- The same over its whole part of a run. -/
theorem untouched_of_run
    {h : Handler} {u v : Service} {a : Action}
    (hh : s.procs[i]? = some (.handler h))
    (hjob : h.job = none)
    (hthrough : Machine.Through (service d).machine AddSucceeds
      Service.initial es s u (.act i a) v) :
    Untouched u.world v.world := by
  obtain ⟨before, after, rfl, hbefore, hG, hstep, hafter⟩ := hthrough
  have hv := Machine.Run.snoc hbefore hG hstep
  cases serviceStep_of_step hstep with
  | @handler _ b b' _ _ hp hs =>
      refine untouched_of_noJob hs ?_
      by_contra hne
      obtain ⟨job, hj⟩ := Option.ne_none_iff_exists'.mp hne
      obtain ⟨h', hh', hj'⟩ := job_of_continuation hv hafter (getElem?_set_self_of_some hp) hj
      cases hh.symm.trans hh'
      rw [hjob] at hj'
      cases hj'
  | call hp =>
      obtain ⟨c, hc⟩ := call_of_continuation hv hafter (getElem?_set_self_of_some hp)
      cases hh.symm.trans hc

/-- The row that a lookup has found still stands, as the row of the pair. -/
theorem row_of_readRow
    {user : Uuid} {key : String} {row : Job}
    (hrun : ServiceRun d AddSucceeds es s)
    (hread : ReadRow s.world user (some key) row) :
    ∃ r, r ∈ s.world.jobs ∧ HasPair user key r ∧ r.id = row.id ∧
      r.inputText = row.inputText := by
  obtain ⟨huser, ⟨k, hk, hrk⟩, hcommitted, j, b, hb, hsame⟩ := hread
  cases hk
  obtain ⟨r, hr, hid⟩ := hasRow_of_committed hrun _ hcommitted
  have hrow := sameSubmission_of_born (serviceOk_of_run hrun).1 hb hsame hr hid.symm
  exact ⟨r, hr, ⟨hrow.userId.symm.trans huser, hrow.idempotencyKey.symm.trans hrk⟩, hid,
    hrow.inputText.symm⟩

/-- The row a submission has committed stands, as the row of its pair. -/
theorem row_of_job
    {h : Handler} {key : String} {job : Job}
    (hrun : ServiceRun d AddSucceeds es s)
    (hh : s.procs[i]? = some (.handler h))
    (hkey : h.key = some key)
    (hjob : h.job = some job) :
    ∃ r, r ∈ s.world.jobs ∧ HasPair h.user key r ∧ r.id = job.id := by
  have hok := serviceOk_of_run hrun
  have hhok : HandlerOk d i s.world h := hok.2 i _ hh
  obtain ⟨hborn, hby, hmem⟩ := hhok.own job hjob
  obtain ⟨r, hr, hid⟩ := hasRow_of_committed hrun _ hmem
  have hrow := sameSubmission_of_born hok.1 hborn (SameSubmission.refl job) hr hid.symm
  exact ⟨r, hr, ⟨hrow.userId.symm.trans hby.userId,
    hrow.idempotencyKey.symm.trans (hby.idempotencyKey.trans hkey)⟩, hid⟩

theorem answerFor_of_run
    {h : Handler} {key : String} {response : SubmitResponse}
    (hrun : ServiceRun d AddSucceeds es s)
    (hh : s.procs[i]? = some (.handler h))
    (hkey : h.key = some key)
    (hpc : h.pc = .answered response) :
    AnswerFor d es s h.user key i h response := by
  have hclean := neverCleanedUp_of_run hrun hh
  cases (answerOk_of_run hrun hh).answered response hpc with
  | accepted job hjob _ hcalled =>
      obtain ⟨r, hr, hpair, hid⟩ := row_of_job hrun hh hkey hjob
      exact .accepted r _ hr hpair hid.symm (hid ▸ hcalled)
  | cleanedUp job hjob =>
      exact absurd (hclean.accepted _ job hpc hjob) (errorHandler_ne_success _ _ _)
  | replayed row hjob hread =>
      obtain ⟨r, hr, hpair, hid, htext⟩ := row_of_readRow hrun (hkey ▸ hread)
      rcases respondForIdempotentRetry_cases d row h.body with
        ⟨error, hv, hresp⟩ | ⟨text, hv, ht, hresp⟩ | ⟨text, hv, ht, hresp⟩
      · rw [hresp]
        refine .refused _ (by simpa using validate_error hv) ?_
        exact fun u a v hthrough => untouched_of_run hh hjob hthrough
      · rw [hresp]
        exact .conflict r text hr hpair hv (htext ▸ ht)
      · rw [hresp]
        exact .replayed r _ text hr hpair hid.symm hv (htext ▸ ht)
  | refused thrown hjob hne =>
      exact .refused thrown hne fun u a v hthrough => untouched_of_run hh hjob hthrough

theorem oneAccepted_of_run
    {j : Nat} {h k : Handler} {body body' : SubmissionBody} {key : String}
    (hrun : ServiceRun d AddSucceeds es s)
    (hh : s.procs[i]? = some (.handler h))
    (hk : s.procs[j]? = some (.handler k))
    (huser : h.user = k.user)
    (hkey : h.key = some key)
    (kkey : k.key = some key)
    (hpc : h.pc = .answered (.success 202 body))
    (kpc : k.pc = .answered (.success 202 body')) :
    i = j := by
  have hjobOf : ∀ {n : Nat} {a : Handler} {b : SubmissionBody},
      s.procs[n]? = some (.handler a) → a.pc = .answered (.success 202 b) →
        ∃ job, a.job = some job := by
    intro n a b ha hapc
    generalize hresp : (Response.success 202 b : SubmitResponse) = response at hapc
    cases (answerOk_of_run hrun ha).answered response hapc with
    | accepted job hjob => exact ⟨job, hjob⟩
    | cleanedUp job hjob => exact ⟨job, hjob⟩
    | replayed row _ _ =>
        rcases respondForIdempotentRetry_cases d row a.body with
          ⟨error, _, hr⟩ | ⟨text, _, _, hr⟩ | ⟨text, _, _, hr⟩
        · exact absurd (hr.symm.trans hresp.symm) (errorHandler_ne_success _ _ _)
        · exact absurd (hr.symm.trans hresp.symm) (errorHandler_ne_success _ _ _)
        · simp [hr] at hresp
    | refused => exact absurd hresp.symm (errorHandler_ne_success _ _ _)
  obtain ⟨job, hjob⟩ := hjobOf hh hpc
  obtain ⟨job', hjob'⟩ := hjobOf hk kpc
  obtain ⟨r, hr, hpair, hid⟩ := row_of_job hrun hh hkey hjob
  obtain ⟨r', hr', hpair', hid'⟩ := row_of_job hrun hk kkey hjob'
  have hrr := pairUnique_of_run hrun r r' key hr hr'
    (hpair.1.trans (huser.trans hpair'.1.symm)) hpair.2 hpair'.2
  have hok := serviceOk_of_run hrun
  have hhok : HandlerOk d i s.world h := hok.2 i _ hh
  have hkok : HandlerOk d j s.world k := hok.2 j _ hk
  by_contra hij
  refine id_ne_of_born hok.1 hij (hhok.own job hjob).1 (hkok.own job' hjob').1 ?_
  rw [← hid, ← hid', hrr]

theorem oneRow_of_run
    {fs : List ServiceEvent} {t : Service} {r r' : Job} {user : Uuid} {key : String}
    (hrun : ServiceRun d AddSucceeds es s)
    (hfs : Machine.Run (service d).machine AddSucceeds s fs t)
    (hr : r ∈ s.world.jobs)
    (hr' : r' ∈ t.world.jobs)
    (hpair : HasPair user key r)
    (hpair' : HasPair user key r') :
    r.id = r'.id := by
  have hok := serviceOk_of_run hrun
  have hrunt := Machine.run_append hrun hfs
  have hgrows := grows_of_run hrun hfs
  obtain ⟨j, b, hb, hsame⟩ := hok.1.rowsBorn r hr
  obtain ⟨q, hq, hid⟩ :=
    hasRow_of_committed hrunt _ (hgrows.committed _ (hok.1.rowsCommitted r hr))
  have hqr := sameSubmission_of_born (serviceOk_of_run hrunt).1 (hgrows.born _ hb) hsame hq
    hid.symm
  have heq := pairUnique_of_run hrunt q r' key hq hr'
    (hqr.userId.symm.trans (hpair.1.trans hpair'.1.symm))
    (hqr.idempotencyKey.symm.trans hpair.2) hpair'.2
  rw [← hid, heq]

theorem oneCall_of_run
    (hrun : ServiceRun d AddSucceeds es s)
    (user : Uuid) (key : String) :
    (addCallsFor s.world user key).length ≤ 1 := by
  have hnodup : (addCallsFor s.world user key).Nodup := (callsOk_of_run hrun).nodup.filter _
  have hsame : ∀ a b, a ∈ addCallsFor s.world user key → b ∈ addCallsFor s.world user key →
      a = b := by
    intro a b ha hb
    simp only [addCallsFor, List.mem_filter, List.any_eq_true, decide_eq_true_eq] at ha hb
    obtain ⟨_, r, hr, rfl, huser, hkey⟩ := ha
    obtain ⟨_, r', hr', rfl, huser', hkey'⟩ := hb
    rw [pairUnique_of_run hrun r r' key hr hr' (huser.trans huser'.symm) hkey hkey']
  cases hl : addCallsFor s.world user key with
  | nil => simp
  | cons a rest =>
      rw [hl] at hnodup hsame
      cases rest with
      | nil => simp
      | cons b rest =>
          have hab := hsame a b (by simp) (by simp)
          simp [hab] at hnodup

/--
**Exactly one admission for each key.**  In the runs in which no `queue.add`
fails and no COMMIT loses its reply, whether or not gateways stop, a user's key
admits one job, whatever the interleaving of the submissions: one row, one call of
`queue.add` and one 202; every other answer under the key replays that row, reports
the conflict with its text, or is an error of a submission that touched neither
table nor queue.  The rows in question are the user's own, so users with equal keys
never meet.
-/
theorem exactly_once_admission
    (hrun : ServiceRun d AddSucceeds es s)
    (user : Uuid) (key : String) :
    AdmittedOnce d es s user key where
  oneRow := fun _ _ _ _ hfs hr hr' hp hp' => oneRow_of_run hrun hfs hr hr' hp hp'
  oneCall := oneCall_of_run hrun user key
  callsHaveRows := fun id hid => hasRow_of_committed hrun id ((callsOk_of_run hrun).committed id hid)
  oneAccepted := by
    intro i j h k body body' hh hk huser hkey kuser kkey hpc kpc
    exact oneAccepted_of_run hrun hh hk (huser.trans kuser.symm) hkey kkey hpc kpc
  answers := by
    intro i h response hh huser hkey hpc
    subst huser
    exact answerFor_of_run hrun hh hkey hpc

/-- A submission that is accepted and a retry that is answered from its row. -/
theorem exactly_once_admission_retry :
    ∃ (es : List ServiceEvent) (s : Service),
      ServiceRun sampleDeps AddSucceeds es s ∧ answer? s 0 = some (sampleAnswer 202) ∧
        answer? s 1 = some (sampleAnswer 200) ∧ AdmittedOnce sampleDeps es s sampleUser "key" := by
  have hexec : ((service sampleDeps).machine.exec (fun s e => decide (AddSucceeds s e))
      Service.initial acceptedAndRetried).any
      (fun s => decide (answer? s 0 = some (sampleAnswer 202)) &&
        decide (answer? s 1 = some (sampleAnswer 200))) = true := by
    decide +kernel
  obtain ⟨s, hrun, hs⟩ := Machine.exists_run_of_exec (G := AddSucceeds)
    (fun _ _ hG => of_decide_eq_true hG) hexec
  obtain ⟨h₀, h₁⟩ := (Bool.and_eq_true _ _).mp hs
  exact ⟨_, s, hrun, of_decide_eq_true h₀, of_decide_eq_true h₁,
    exactly_once_admission hrun sampleUser "key"⟩

end Admitted

end BengaliTts
