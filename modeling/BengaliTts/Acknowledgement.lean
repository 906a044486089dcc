import BengaliTts.Answers

/-!
# What an acknowledged submission can rely on

A row is visible to other submissions from its commit on, but until `queue.add`
has taken effect its own submission may still give it up.  A retry under the
same key that finds the row in this window is answered 200 all the same.

The invariant says that the submission behind every acknowledged job is past
this danger: its row stands, it is not cleaning up, and if it is over, the job
was enqueued.

Main result:
* `acknowledged_jobs_survive`: in the runs in which a lookup that will be
  answered 200 and the failure of the submission it has found do not meet, every
  2xx answer names a job whose row stands for good and is enqueued once its
  submission is over, and a user's key is always answered with the same job.
-/

namespace BengaliTts

open Lib

section Statements

/-- A retry with this body is answered 200 from this row. -/
def WillReplay (body : Option Json) (row : Job) : Prop :=
  ∃ text, validate submitSchema body = .ok text ∧ text = fromColumn row.inputText

/-- Submission `a` names job `id` in a 2xx answer, or has looked its row up to do
so next. -/
def Acknowledges (a : Handler) (id : Uuid) : Prop :=
  (∃ row, a.pc.found? = some row ∧ row.id = id ∧ WillReplay a.body row) ∨
    ∃ status body, a.pc = .answered (.success status body) ∧ body.jobId = id

/-- Somebody acknowledges the job of submission `i`. -/
def OwnJobAcknowledged (s : Service) (i : Nat) : Prop :=
  ∃ (h : Handler) (job : Job) (k : Nat) (a : Handler), s.procs[i]? = some (.handler h) ∧
    h.job = some job ∧ s.procs[k]? = some (.handler a) ∧ Acknowledges a job.id

/-- The submission of every row that submission `i` would now be answered 200
from is neither cleaning up nor over without having enqueued its job. -/
def FindsSafeRow (s : Service) (i : Nat) : Prop :=
  ∀ h row, s.procs[i]? = some (.handler h) →
    h.key.bind (findByKey s.world.jobs h.user) = some row → WillReplay h.body row →
      ∀ (k : Nat) (c : Handler) (job : Job), s.procs[k]? = some (.handler c) →
        c.job = some job → job.id = row.id →
          c.pc ≠ .cleanup ∧ (c.pc.running = false → job.id ∈ s.world.added)

/--
`queue.add` does not fail for an acknowledged job, a gateway does not stop while
its acknowledged job is not enqueued, and no lookup that will be answered 200
finds the row of a submission that fails or has failed to enqueue it.
-/
def NoFailureMeetsReplay (s : Service) : ServiceEvent → Prop
  | .act i (.handler .addRaises) => ¬ OwnJobAcknowledged s i
  | .act i (.handler .stop) =>
      OwnJobAcknowledged s i →
        ∀ h job, s.procs[i]? = some (.handler h) → h.job = some job → job.id ∈ s.world.added
  | .act i (.handler .findReplay) => FindsSafeRow s i
  | .act i (.handler .findWinner) => FindsSafeRow s i
  | _ => True

/-- Job `id` of `user` is safe: its row stands, its submission is known, and if
that is over, the job was enqueued. -/
structure Survives (s : Service) (user id : Uuid) : Prop where
  row : ∃ r, r ∈ s.world.jobs ∧ r.id = id ∧ r.userId = user
  enqueued : ∃ (k : Nat) (c : Handler) (job : Job), s.procs[k]? = some (.handler c) ∧
    c.job = some job ∧ job.id = id ∧ (c.pc.running = false → id ∈ s.world.added)

end Statements

section Steps

variable {d : Deps} {i : Nat} {w w' : World}

/-- Submission `c`, which inserted job `id`, will not give its row up. -/
structure Secure (w : World) (c : Handler) (id : Uuid) : Prop where
  row : HasRow w id
  notCleanup : c.pc ≠ .cleanup
  enqueued : c.pc.running = false → id ∈ w.added

/-- The submission of an acknowledged job moves on without giving its row up. -/
theorem secure_of_own_step
    {h h' : Handler} {pc : HandlerPc} {e : HandlerEvent} {job : Job}
    (hs : HandlerStep d i w h pc e w' h')
    (hpc : h.pc = pc)
    (hok : HandlerOk d i w h)
    (hans : AnswerOk d w h)
    (hjob : h.job = some job)
    (hraise : e ≠ .addRaises)
    (hstop : e = .stop → job.id ∈ w.added)
    (hsec : Secure w h job.id) :
    Secure w' h' job.id := by
  have hpast : pc.beforeCommit = true → False := by
    intro hb
    have hnone := hok.noJob (by rw [hpc]; exact hb)
    rw [hnone] at hjob
    cases hjob
  cases hs with
  | move hm =>
      cases hm with
      | addReturns => exact ⟨hsec.row, by simp, by simp [HandlerPc.running]⟩
      | addRaises => exact absurd rfl hraise
      | deleteRaises => exact absurd hpc hsec.notCleanup
      | accept =>
          exact ⟨hsec.row, by simp, fun _ => hans.effect (Or.inr hpc) job hjob⟩
      | fault hf => exact (hpast (beforeCommit_of_afterFault hf)).elim
      | _ => exact (hpast rfl).elim
  | callAdd => exact ⟨hsec.row, by simp, by simp [HandlerPc.running]⟩
  | addTakesEffect => exact ⟨hsec.row, by simp, by simp [HandlerPc.running]⟩
  | deleteRow => exact absurd hpc hsec.notCleanup
  | stop => exact ⟨hsec.row, by simp, fun _ => hstop rfl⟩
  | _ => exact (hpast rfl).elim

theorem secure_frame
    {c : Handler} {job : Job}
    (hkeep : KeepsOwn i w w')
    (hborn : (i, job) ∈ w.born)
    (hsec : Secure w c job.id) :
    Secure w' c job.id :=
  ⟨hkeep.ownRow job hborn hsec.row, hsec.notCleanup,
    fun hover => hkeep.added _ (hsec.enqueued hover)⟩

/-- A submission comes to acknowledge a job by a lookup or by its own 202. -/
theorem acknowledges_before
    {h h' : Handler} {pc : HandlerPc} {e : HandlerEvent} {id : Uuid}
    (hs : HandlerStep d i w h pc e w' h')
    (hpc : h.pc = pc)
    (hack : Acknowledges h' id) :
    Acknowledges h id ∨
      (∃ row, (e = .findReplay ∨ e = .findWinner) ∧
        h.key.bind (findByKey w.jobs h.user) = some row ∧ row.id = id ∧
          WillReplay h.body row) ∨
      (∃ job, h.job = some job ∧ job.id = id ∧ pc = .enqueued) := by
  have hanswer : ∀ {row : Job}, pc.found? = some row →
      h'.pc = .answered (respondForIdempotentRetry d row h.body) → Acknowledges h id := by
    intro row hfound hpc'
    rcases hack with ⟨row', hfound', _⟩ | ⟨status, body, hans, hid⟩
    · rw [hpc'] at hfound'
      cases hfound'
    · rw [hpc'] at hans
      rcases respondForIdempotentRetry_cases d row h.body with
        ⟨error, _, hr⟩ | ⟨text, _, _, hr⟩ | ⟨text, hv, ht, hr⟩
      · rw [hr] at hans
        exact absurd (HandlerPc.answered.inj hans) (errorHandler_ne_success _ _ _)
      · rw [hr] at hans
        exact absurd (HandlerPc.answered.inj hans) (errorHandler_ne_success _ _ _)
      · rw [hr] at hans
        cases HandlerPc.answered.inj hans
        exact Or.inl ⟨row, by rw [hpc]; exact hfound, hid, text, hv, ht⟩
  have hrefused : ∀ {thrown : Thrown}, h'.pc = .answered (errorHandler thrown) → False := by
    intro thrown hpc'
    rcases hack with ⟨row', hfound', _⟩ | ⟨status, body, hans, _⟩
    · rw [hpc'] at hfound'
      cases hfound'
    · rw [hpc'] at hans
      exact absurd (HandlerPc.answered.inj hans) (errorHandler_ne_success _ _ _)
  have hsilent : h'.pc.found? = none → (∀ response, h'.pc ≠ .answered response) → False := by
    intro hnone hne
    rcases hack with ⟨row', hfound', _⟩ | ⟨status, body, hans, _⟩
    · rw [hnone] at hfound'
      cases hfound'
    · exact hne _ hans
  cases hs with
  | move hm =>
      cases hm with
      | replayFound hrow =>
          rcases hack with ⟨row', hfound', hid, hwill⟩ | ⟨status, body, hans, _⟩
          · cases hfound'
            exact Or.inr (Or.inl ⟨_, Or.inl rfl, hrow, hid, hwill⟩)
          · cases hans
      | winnerFound hrow =>
          rcases hack with ⟨row', hfound', hid, hwill⟩ | ⟨status, body, hans, _⟩
          · cases hfound'
            exact Or.inr (Or.inl ⟨_, Or.inr rfl, hrow, hid, hwill⟩)
          · cases hans
      | answerReplay => exact Or.inl (hanswer rfl rfl)
      | answerWinner => exact Or.inl (hanswer rfl rfl)
      | accept job hjob =>
          rcases hack with ⟨row', hfound', _⟩ | ⟨status, body, hans, hid⟩
          · cases hfound'
          · cases hans
            exact Or.inr (Or.inr ⟨job, hjob, hid, rfl⟩)
      | takeToken allowed retryAfterMs =>
          rcases afterToken_cases d h allowed retryAfterMs with ⟨_, _, ha⟩ | ⟨_, ha, _⟩
          · exact (hrefused ha).elim
          · exact (hsilent (by simp [ha, HandlerPc.found?]) (by simp [ha])).elim
      | winnerMissing => exact (hrefused rfl).elim
      | deleteRaises => exact (hrefused rfl).elim
      | fault hf =>
          rcases afterFault_cases hf with rfl | rfl
          · exact (hrefused rfl).elim
          · exact (hsilent rfl (by simp)).elim
      | _ => exact (hsilent rfl (by simp)).elim
  | rollback thrown =>
      rcases afterRollback_cases h thrown with ⟨_, _, hr⟩ | hr
      · exact (hsilent (by simp [hr, HandlerPc.found?]) (by simp [hr])).elim
      · exact (hrefused hr).elim
  | deleteRow => exact (hrefused rfl).elim
  | commitReplyLost => exact (hrefused rfl).elim
  | _ => exact (hsilent rfl (by simp)).elim

end Steps

section Runs

variable {d : Deps}

/-- The submission behind every acknowledged job will not give its row up. -/
def AllSecure (s : Service) : Prop :=
  ∀ (k : Nat) (a : Handler) (id : Uuid), s.procs[k]? = some (.handler a) → Acknowledges a id →
    ∀ (i : Nat) (c : Handler) (job : Job), s.procs[i]? = some (.handler c) →
      c.job = some job → job.id = id → Secure s.world c id

/-- An acknowledged job was committed before. -/
theorem committed_of_acknowledges
    {w : World} {i : Nat} {a : Handler} {id : Uuid}
    (hok : HandlerOk d i w a)
    (hans : AnswerOk d w a)
    (hack : Acknowledges a id) :
    ∃ k b, (k, b) ∈ w.born ∧ b.id = id ∧ b.userId = a.user ∧ b.idempotencyKey = a.key ∧
      id ∈ w.everCommitted := by
  have hread : ∀ row, ReadRow w a.user a.key row → row.id = id →
      ∃ k b, (k, b) ∈ w.born ∧ b.id = id ∧ b.userId = a.user ∧ b.idempotencyKey = a.key ∧
        id ∈ w.everCommitted := by
    rintro row ⟨huser, ⟨key, hk, hrk⟩, hmem, j, b, hb, hsame⟩ hid
    exact ⟨j, b, hb, hsame.id.trans hid, hsame.userId.trans huser,
      hsame.idempotencyKey.trans (hrk.trans hk.symm), hid ▸ hmem⟩
  rcases hack with ⟨row, hfound, hid, _⟩ | ⟨status, body, hpc, hid⟩
  · exact hread row (hans.found row hfound) hid
  · generalize hresp : (Response.success status body : SubmitResponse) = response at hpc
    cases hans.answered response hpc with
    | accepted job hjob =>
        cases hresp
        obtain ⟨hborn, hby, hmem⟩ := hok.own job hjob
        refine ⟨i, job, hborn, hid, hby.userId, hby.idempotencyKey, ?_⟩
        rw [← hid]
        exact hmem
    | cleanedUp => exact absurd hresp.symm (errorHandler_ne_success _ _ _)
    | replayed row _ hrow =>
        rcases respondForIdempotentRetry_cases d row a.body with
          ⟨error, _, hr⟩ | ⟨text, _, _, hr⟩ | ⟨text, _, _, hr⟩
        · exact absurd (hr.symm.trans hresp.symm) (errorHandler_ne_success _ _ _)
        · exact absurd (hr.symm.trans hresp.symm) (errorHandler_ne_success _ _ _)
        · cases hr.symm.trans hresp.symm
          exact hread row hrow hid
    | refused => exact absurd hresp.symm (errorHandler_ne_success _ _ _)

/-- Two submissions that hold the same job are one. -/
theorem owner_unique
    {s : Service} {i j : Nat} {h k : Handler} {job job' : Job}
    (hok : ServiceOk d s)
    (hh : s.procs[i]? = some (.handler h))
    (hk : s.procs[j]? = some (.handler k))
    (hjob : h.job = some job)
    (kjob : k.job = some job')
    (hid : job.id = job'.id) :
    i = j := by
  have hhok : HandlerOk d i s.world h := hok.2 i _ hh
  have hkok : HandlerOk d j s.world k := hok.2 j _ hk
  by_contra hij
  exact id_ne_of_born hok.1 hij (hhok.own job hjob).1 (hkok.own job' kjob).1 hid

/-- The submission of job `id`, if one holds it, will not give its row up. -/
def SecureAt (s : Service) (id : Uuid) : Prop :=
  ∀ (i : Nat) (c : Handler) (job : Job), s.procs[i]? = some (.handler c) →
    c.job = some job → job.id = id → Secure s.world c id

/-- A step that is not one of the job's submission keeps it secure. -/
theorem secureAt_frame
    {s t : Service} {id : Uuid}
    (hok : ServiceOk d s)
    (hkeep : ∀ (i : Nat) (c : Handler), t.procs[i]? = some (.handler c) →
      KeepsOwn i s.world t.world ∧ s.procs[i]? = some (.handler c))
    (hsec : SecureAt s id) :
    SecureAt t id := by
  intro i c job hc hjob hid
  obtain ⟨hown, hcs⟩ := hkeep i c hc
  have hcok : HandlerOk d i s.world c := hok.2 i _ hcs
  subst hid
  exact secure_frame hown (hcok.own job hjob).1 (hsec i c job hcs hjob rfl)

theorem secureAt_of_handlerStep
    {s : Service} {id : Uuid} {j : Nat} {h h' : Handler} {e : HandlerEvent} {w : World}
    (hok : ServiceOk d s)
    (hans : AnswerOk d s.world h)
    (hp : s.procs[j]? = some (.handler h))
    (hstep : HandlerStep d j s.world h h.pc e w h')
    (hcommitted : id ∈ s.world.everCommitted)
    (hraise : ∀ job, h.job = some job → job.id = id → e ≠ .addRaises)
    (hstop : ∀ job, h.job = some job → job.id = id → e = .stop → job.id ∈ s.world.added)
    (hsec : SecureAt s id) :
    SecureAt ⟨w, s.procs.set j (.handler h')⟩ id := by
  intro i c job hc hjob hid
  have hhok : HandlerOk d j s.world h := hok.2 j _ hp
  rcases getElem?_set_cases hc with ⟨rfl, heq⟩ | ⟨hji, hcs⟩
  · cases heq
    rcases job_of_handlerStep hstep with hsame | ⟨row, hpc, hrow⟩
    · rw [hsame] at hjob
      subst hid
      exact secure_of_own_step hstep rfl hhok hans hjob (hraise job hjob rfl)
        (hstop job hjob rfl) (hsec j h job hp hjob rfl)
    · cases hrow.symm.trans hjob
      exact absurd (hid ▸ hcommitted) (hhok.staged job hpc).2.2
  · have hcok : HandlerOk d i s.world c := hok.2 i _ hcs
    subst hid
    exact secure_frame (keepsOwn_of_handlerStep hstep hok.1 hhok hji) (hcok.own job hjob).1
      (hsec i c job hcs hjob rfl)

/-- A lookup that may be answered 200 finds a secure job. -/
theorem secureAt_of_lookup
    {s : Service} {j : Nat} {h : Handler} {row : Job}
    (hok : ServiceOk d s)
    (hp : s.procs[j]? = some (.handler h))
    (hsafe : FindsSafeRow s j)
    (hrow : h.key.bind (findByKey s.world.jobs h.user) = some row)
    (hwill : WillReplay h.body row) :
    SecureAt s row.id ∧ row.id ∈ s.world.everCommitted := by
  obtain ⟨hmem, _⟩ := findByKey_eq_some hrow
  refine ⟨?_, hok.1.rowsCommitted row hmem⟩
  intro i c job hc hjob hid
  obtain ⟨hpc, hadded⟩ := hsafe h row hp hrow hwill i c job hc hjob hid
  exact ⟨⟨row, hmem, rfl⟩, hpc, fun hover => hid ▸ hadded hover⟩

/-- The job of a submission that has enqueued it is secure. -/
theorem secureAt_of_enqueued
    {s : Service} {j : Nat} {h : Handler} {job : Job}
    (hok : ServiceOk d s)
    (hans : AnswerOk d s.world h)
    (hp : s.procs[j]? = some (.handler h))
    (hjob : h.job = some job)
    (hpc : h.pc = .enqueued) :
    SecureAt s job.id ∧ job.id ∈ s.world.everCommitted := by
  have hhok : HandlerOk d j s.world h := hok.2 j _ hp
  refine ⟨?_, (hhok.own job hjob).2.2⟩
  intro i c job' hc hjob' hid
  have hij := owner_unique hok hc hp hjob' hjob hid
  subst hij
  cases hc.symm.trans hp
  refine ⟨hans.present (by rw [hpc]; rfl) job hjob, by simp [hpc], ?_⟩
  simp [hpc, HandlerPc.running]

/-- A submission that acknowledges its own job was accepted in that step. -/
theorem accept_of_acknowledges
    {i : Nat} {w w' : World} {h h' : Handler} {e : HandlerEvent} {id : Uuid}
    (hstep : HandlerStep d i w h .enqueued e w' h')
    (hack : Acknowledges h' id) :
    e = .accept := by
  cases hstep with
  | move hm =>
      cases hm with
      | accept => rfl
      | fault hf => cases hf
  | stop =>
      rcases hack with ⟨_, hfound, _⟩ | ⟨_, _, hanswered, _⟩
      · cases hfound
      · cases hanswered

/-- Why a job that is acknowledged after a step of submission `h` was secure
before it, and why that step was not the failure of its submission. -/
theorem secureAt_before
    {s : Service} {id : Uuid} {j k : Nat} {h h' a : Handler} {e : HandlerEvent} {w : World}
    (hok : ServiceOk d s)
    (hans : ∀ (i : Nat) (c : Handler), s.procs[i]? = some (.handler c) → AnswerOk d s.world c)
    (hG : NoFailureMeetsReplay s (.act j (.handler e)))
    (hp : s.procs[j]? = some (.handler h))
    (hstep : HandlerStep d j s.world h h.pc e w h')
    (hsecure : AllSecure s)
    (ha : (s.procs.set j (.handler h'))[k]? = some (.handler a))
    (hack : Acknowledges a id) :
    (SecureAt s id ∧ id ∈ s.world.everCommitted) ∧
      ((e ≠ .addRaises ∧ e ≠ .stop) ∨
        ∃ (n : Nat) (b : Handler), s.procs[n]? = some (.handler b) ∧ Acknowledges b id) := by
  have hold : ∀ (n : Nat) (b : Handler), s.procs[n]? = some (.handler b) → Acknowledges b id →
      SecureAt s id ∧ id ∈ s.world.everCommitted := by
    intro n b hb hback
    obtain ⟨_, _, _, _, _, _, hmem⟩ := committed_of_acknowledges (hok.2 n _ hb) (hans n b hb) hback
    exact ⟨hsecure n b id hb hback, hmem⟩
  rcases getElem?_set_cases ha with ⟨rfl, heq⟩ | ⟨_, has⟩
  · cases heq
    rcases acknowledges_before hstep rfl hack with
      hbefore | ⟨row, hlook, hrow, rfl, hwill⟩ | ⟨job, hjob, rfl, hpc⟩
    · exact ⟨hold j h hp hbefore, Or.inr ⟨j, h, hp, hbefore⟩⟩
    · have hsafe : FindsSafeRow s j := by
        rcases hlook with rfl | rfl
        · exact hG
        · exact hG
      refine ⟨secureAt_of_lookup hok hp hsafe hrow hwill, Or.inl ?_⟩
      rcases hlook with rfl | rfl <;> simp
    · refine ⟨secureAt_of_enqueued hok (hans j h hp) hp hjob hpc, Or.inl ?_⟩
      rw [hpc] at hstep
      rw [accept_of_acknowledges hstep hack]
      simp
  · exact ⟨hold k a has hack, Or.inr ⟨k, a, has, hack⟩⟩

theorem allSecure_of_step
    {s t : Service} {e : ServiceEvent}
    (hok : ServiceOk d s)
    (hans : ∀ (i : Nat) (c : Handler), s.procs[i]? = some (.handler c) → AnswerOk d s.world c)
    (hG : NoFailureMeetsReplay s e)
    (hs : (service d).machine.step s e = some t)
    (hsecure : AllSecure s) :
    AllSecure t := by
  cases serviceStep_of_step hs with
  | spawn r =>
      have hstart : ∀ c : Handler, Proc.handler c = r.boot →
          c.job = none ∧ ∀ id, ¬ Acknowledges c id := by
        intro c hc
        cases r with
        | deliver job => cases hc
        | failedEvent job => cases hc
        | submit r =>
            cases hc
            unfold Handler.start Acknowledges
            split <;> simp [HandlerPc.found?, errorHandler]
      intro k a id ha hack i c job hc hjob hid
      rcases getElem?_spawn ha with ha | ⟨_, hboot⟩
      · rcases getElem?_spawn hc with hc | ⟨_, hboot⟩
        · exact hsecure k a id ha hack i c job hc hjob hid
        · rw [(hstart c hboot).1] at hjob
          cases hjob
      · exact absurd hack ((hstart a hboot).2 id)
  | @handler j h h' e w hp hstep =>
      intro k a id ha hack
      obtain ⟨⟨hsec, hmem⟩, hsafe⟩ := secureAt_before hok hans hG hp hstep hsecure ha hack
      refine secureAt_of_handlerStep hok (hans j h hp) hp hstep hmem ?_ ?_ hsec
      · rintro job hjob hid rfl
        rcases hsafe with ⟨hne, _⟩ | ⟨n, b, hb, hback⟩
        · exact hne rfl
        · exact hG ⟨h, job, n, b, hp, hjob, hb, hid ▸ hback⟩
      · rintro job hjob hid rfl
        rcases hsafe with ⟨_, hne⟩ | ⟨n, b, hb, hback⟩
        · exact absurd rfl hne
        · exact hG ⟨h, job, n, b, hp, hjob, hb, hid ▸ hback⟩ h job hp hjob
  | @call j c c' _ w hp _ hstep =>
      have hprocs : ∀ (i : Nat) (b : Handler),
          (s.procs.set j (.call c'))[i]? = some (.handler b) →
            KeepsOwn i s.world w ∧ s.procs[i]? = some (.handler b) := by
        intro i b hb
        rcases getElem?_set_cases hb with ⟨_, heq⟩ | ⟨_, hb⟩
        · cases heq
        · exact ⟨keepsOwn_of_callStep hstep, hb⟩
      intro k a id ha hack
      exact secureAt_frame hok hprocs (hsecure k a id (hprocs k a ha).2 hack)
  | env henv =>
      intro k a id ha hack
      exact secureAt_frame hok (fun _ _ hc => ⟨keepsOwn_of_env henv, hc⟩) (hsecure k a id ha hack)

theorem allSecure_of_run
    {es : List ServiceEvent} {s : Service}
    (hrun : ServiceRun d NoFailureMeetsReplay es s) :
    AllSecure s := by
  refine Machine.run_invariant_of_known
    (K := fun u => ServiceOk d u ∧
      ∀ (i : Nat) (c : Handler), u.procs[i]? = some (.handler c) → AnswerOk d u.world c)
    (fun _ _ hu => ⟨serviceOk_of_run hu, fun _ _ hc => answerOk_of_run hu hc⟩) ?_ hrun ?_
  · intro u e v hu _ hI hG hs
    exact allSecure_of_step hu.1 hu.2 hG hs hI
  · intro k a id ha
    simp [Service.initial] at ha

/-- An answered submission stays as it is. -/
theorem answered_of_continuation
    {G : Service → ServiceEvent → Prop} {s t : Service} {es fs : List ServiceEvent}
    {i : Nat} {h : Handler} {response : SubmitResponse}
    (hrun : ServiceRun d G es s)
    (hfs : Machine.Run (service d).machine G s fs t)
    (hp : s.procs[i]? = some (.handler h))
    (hpc : h.pc = .answered response) :
    t.procs[i]? = some (.handler h) := by
  refine invariant_of_continuation (I := fun u => u.procs[i]? = some (.handler h)) hrun hfs ?_ hp
  intro u e v _ hI _ hs
  rcases handler_after_step hs hI with ⟨_, _, hstep, _⟩ | hsame
  · rw [hpc] at hstep
    exact (no_step_of_answered hstep).elim
  · exact hsame

/-- An answer names a job that is safe in the state in which it stands. -/
theorem survives_of_answered
    {es : List ServiceEvent} {s : Service} {i : Nat} {h : Handler} {status : Nat}
    {body : SubmissionBody}
    (hrun : ServiceRun d NoFailureMeetsReplay es s)
    (hp : s.procs[i]? = some (.handler h))
    (hpc : h.pc = .answered (.success status body)) :
    Survives s h.user body.jobId ∧
      ∃ r, r ∈ s.world.jobs ∧ r.id = body.jobId ∧ r.userId = h.user ∧
        r.idempotencyKey = h.key := by
  have hok := serviceOk_of_run hrun
  have hack : Acknowledges h body.jobId := Or.inr ⟨status, body, hpc, rfl⟩
  obtain ⟨k, b, hb, hbid, huser, hkey, hmem⟩ :=
    committed_of_acknowledges (hok.2 i _ hp) (answerOk_of_run hrun hp) hack
  obtain ⟨c, hc, hjob⟩ := creatorsKnown_of_run hrun k b hb (hbid ▸ hmem)
  have hsec := allSecure_of_run hrun i h body.jobId hp hack k c b hc hjob hbid
  obtain ⟨r, hr, hrid⟩ := hsec.row
  have hbr := sameSubmission_of_born hok.1 hb (SameSubmission.refl b) hr (hbid.trans hrid.symm)
  have hruser := hbr.userId.symm.trans huser
  refine ⟨⟨⟨r, hr, hrid, hruser⟩, k, c, b, hc, hjob, hbid, hsec.enqueued⟩, r, hr, hrid, hruser, ?_⟩
  exact hbr.idempotencyKey.symm.trans hkey

/--
**Acknowledged jobs survive**, in the runs in which the lookup of a retry and the
failure of the submission it has found do not meet.  Whatever happens after a
2xx answer, the row of the job it names stands and belongs to the user, and the
job is enqueued once the submission that inserted it is over.  All 2xx answers
to one user under one key name the same job.
-/
theorem acknowledged_jobs_survive
    {es fs : List ServiceEvent} {s t : Service} {i : Nat} {h : Handler} {status : Nat}
    {body : SubmissionBody}
    (hrun : ServiceRun d NoFailureMeetsReplay es s)
    (hp : s.procs[i]? = some (.handler h))
    (hpc : h.pc = .answered (.success status body))
    (hfs : Machine.Run (service d).machine NoFailureMeetsReplay s fs t) :
    Survives t h.user body.jobId ∧
      ∀ (j : Nat) (k : Handler) (status' : Nat) (body' : SubmissionBody) (key : String),
        t.procs[j]? = some (.handler k) → k.pc = .answered (.success status' body') →
          k.user = h.user → h.key = some key → k.key = some key →
            body'.jobId = body.jobId := by
  have hrunt := Machine.run_append hrun hfs
  have hpt := answered_of_continuation hrun hfs hp hpc
  obtain ⟨hsurvives, r, hr, hrid, huser, hkey⟩ := survives_of_answered hrunt hpt hpc
  refine ⟨hsurvives, ?_⟩
  intro j k status' body' key hk hkpc hkuser hhkey hkkey
  obtain ⟨_, r', hr', hrid', huser', hkey'⟩ := survives_of_answered hrunt hk hkpc
  have hrr := pairUnique_of_run hrunt r r' key hr hr'
    (huser.trans (hkuser.symm.trans huser'.symm)) (hkey.trans hhkey) (hkey'.trans hkkey)
  rw [← hrid, ← hrid', hrr]

/-- No submission is cleaning up or over without having enqueued its job. -/
def nobodyFails (s : Service) : Bool :=
  s.procs.all fun p =>
    match p with
    | .handler c =>
        decide (c.pc ≠ .cleanup) &&
          (c.pc.running || c.job.all fun job => decide (job.id ∈ s.world.added))
    | .call _ => true

theorem findsSafeRow_of_nobodyFails
    {s : Service}
    (h : nobodyFails s = true)
    (i : Nat) :
    FindsSafeRow s i := by
  intro a row _ _ _ k c job hc hjob _
  have hsafe := List.all_eq_true.mp h _ (List.mem_of_getElem? hc)
  simp only [Bool.and_eq_true, decide_eq_true_eq, Bool.or_eq_true, hjob, Option.all_some] at hsafe
  refine ⟨hsafe.1, ?_⟩
  intro hover
  rcases hsafe.2 with hrunning | hadded
  · simp [hover] at hrunning
  · exact hadded

/-- No submission fails, and nobody has failed when a retry looks its key up. -/
def retriesSafely (s : Service) : ServiceEvent → Bool
  | .act _ (.handler .addRaises) => false
  | .act _ (.handler .stop) => false
  | .act _ (.handler .findReplay) => nobodyFails s
  | .act _ (.handler .findWinner) => false
  | _ => true

theorem noFailureMeetsReplay_of_retriesSafely
    {s : Service} {e : ServiceEvent}
    (h : retriesSafely s e = true) :
    NoFailureMeetsReplay s e := by
  cases e with
  | spawn => trivial
  | env => trivial
  | act i a =>
      cases a with
      | call => trivial
      | handler e =>
          cases e
          case findReplay => exact findsSafeRow_of_nobodyFails h i
          all_goals trivial

/-- A submission that is accepted and a retry that is answered from its row. -/
theorem acknowledged_jobs_survive_retry :
    ∃ s : Service, ServiceRun sampleDeps NoFailureMeetsReplay acceptedAndRetried s ∧
      answer? s 0 = some (sampleAnswer 202) ∧
      answer? s 1 = some (sampleAnswer 200) ∧ Survives s sampleUser sampleJob := by
  have hexec : ((service sampleDeps).machine.exec retriesSafely Service.initial
      acceptedAndRetried).any
      (fun s => decide (answer? s 0 = some (sampleAnswer 202)) &&
        decide (answer? s 1 = some (sampleAnswer 200)) &&
          ((place? s 1).any fun h => decide (h.user = sampleUser))) = true := by
    decide +kernel
  obtain ⟨s, hrun, hs⟩ :=
    Machine.exists_run_of_exec (fun _ _ => noFailureMeetsReplay_of_retriesSafely) hexec
  obtain ⟨hs, huser⟩ := (Bool.and_eq_true _ _).mp hs
  obtain ⟨h₀, h₁⟩ := (Bool.and_eq_true _ _).mp hs
  obtain ⟨a, ha, hpc⟩ := answered_of_answer? (of_decide_eq_true h₁)
  obtain ⟨b, hb, hbuser⟩ := (Option.any_eq_true _ _).mp huser
  cases (handler_of_place? hb).symm.trans ha
  have hsurvives := (acknowledged_jobs_survive hrun ha hpc (Machine.Run.nil s)).1
  rw [of_decide_eq_true hbuser] at hsurvives
  exact ⟨s, hrun, of_decide_eq_true h₀, of_decide_eq_true h₁, hsurvives⟩

/-- A retry is answered 200 from the row of a submission that is waiting for
`queue.add`; `queue.add` fails, and the row is deleted. -/
theorem acknowledged_job_deleted :
    ∃ (es fs : List ServiceEvent) (s t : Service),
      ServiceRun sampleDeps Machine.anyStep es s ∧ answer? s 1 = some (sampleAnswer 200) ∧
        Machine.Run (service sampleDeps).machine Machine.anyStep s fs t ∧
          ∀ r, r ∈ t.world.jobs → r.id ≠ sampleJob := by
  have hexec : ((service sampleDeps).machine.exec (fun _ _ => true) Service.initial
      (sampleSubmission (some "key") :: sampleSubmission (some "key") ::
        (handlerEvents 0 (.findReplay :: insertEvents sampleJob ++ [.callAdd]) ++
          handlerEvents 1 [.findReplay, .answerReplay]))).any
      (fun s => decide (answer? s 1 = some (sampleAnswer 200)) &&
        ((service sampleDeps).machine.exec (fun _ _ => true) s
          (handlerEvents 0 [.addRaises, .deleteRow])).any fun t =>
            t.world.jobs.all fun r => decide (r.id ≠ sampleJob)) = true := by
    decide +kernel
  obtain ⟨s, hrun, hs⟩ := Machine.exists_anyRun_of_exec hexec
  obtain ⟨hanswer, hrest⟩ := (Bool.and_eq_true _ _).mp hs
  obtain ⟨t, hfs, ht⟩ := Machine.exists_anyRun_of_exec hrest
  refine ⟨_, _, s, t, hrun, of_decide_eq_true hanswer, hfs, ?_⟩
  intro r hr
  exact of_decide_eq_true (List.all_eq_true.mp ht r hr)

end Runs

end BengaliTts
