import BengaliTts.Service

/-!
# Where the answers come from

Every answer to a submission has one of four origins: the submission's own row
was enqueued (202), its own row was inserted but could not be enqueued (an
error), the row that a lookup found was replayed (200 or the conflict), or the
submission was refused before it committed anything.  `AnswerOrigin` is this
classification, together with what the stores still hold about it.

What holds under every guard:
* `answerOk_of_run`: an answer has one of these origins, and a submission's row
  stands in the table from its commit to its cleanup;
* `callsOk_of_run`: `queue.add` is called at most once for an id, and only for
  committed rows;
* `pairUnique_of_run`: the table never holds two rows of one user with one key.
-/

namespace BengaliTts

open Lib

section Statements

/-- The row that the lookup of a submission found. -/
def HandlerPc.found? : HandlerPc → Option Job
  | .replayFound row => some row
  | .fallbackFound row => some row
  | _ => none

/-- What a lookup by key tells of the row it found. -/
structure ReadRow (w : World) (user : Uuid) (key : Option String) (row : Job) : Prop where
  user : row.userId = user
  key : ∃ k, key = some k ∧ row.idempotencyKey = some k
  committed : row.id ∈ w.everCommitted
  born : ∃ i b, (i, b) ∈ w.born ∧ SameSubmission b row

/-- A job has a row in the table. -/
def HasRow (w : World) (id : Uuid) : Prop :=
  ∃ r, r ∈ w.jobs ∧ r.id = id

/-- Where the answer of submission `h` comes from. -/
inductive AnswerOrigin (d : Deps) (w : World) (h : Handler) : SubmitResponse → Prop
  | accepted (job : Job) (hjob : h.job = some job) (hrow : HasRow w job.id)
      (hcalled : job.id ∈ w.addCalls) (hadded : job.id ∈ w.added) :
      AnswerOrigin d w h (.success 202 (submissionBody d job))
  | cleanedUp (job : Job) (hjob : h.job = some job) :
      AnswerOrigin d w h (errorHandler .fault)
  | replayed (row : Job) (hjob : h.job = none) (hrow : ReadRow w h.user h.key row) :
      AnswerOrigin d w h (respondForIdempotentRetry d row h.body)
  | refused (thrown : Thrown) (hjob : h.job = none)
      (hne : thrown ≠ .domain .idempotencyConflict) :
      AnswerOrigin d w h (errorHandler thrown)

/-- What is known of a submission's lookups, its row and its answer. -/
structure AnswerOk (d : Deps) (w : World) (h : Handler) : Prop where
  found : ∀ row, h.pc.found? = some row → ReadRow w h.user h.key row
  aborting : ∀ thrown, h.pc = .aborting thrown → thrown ≠ .domain .idempotencyConflict
  present : h.pc.afterCommit = true → ∀ job, h.job = some job → HasRow w job.id
  notCalled : h.pc = .committed → ∀ job, h.job = some job → job.id ∉ w.addCalls
  called : h.pc.afterCommit = true → h.pc ≠ .committed →
    ∀ job, h.job = some job → job.id ∈ w.addCalls
  effect : h.pc = .adding true ∨ h.pc = .enqueued →
    ∀ job, h.job = some job → job.id ∈ w.added
  answered : ∀ response, h.pc = .answered response → AnswerOrigin d w h response

/-- `queue.add` is called once for an id, after the row was committed. -/
structure CallsOk (w : World) : Prop where
  nodup : w.addCalls.Nodup
  committed : ∀ id, id ∈ w.addCalls → id ∈ w.everCommitted

end Statements

section Frames

variable {d : Deps} {i : Nat} {w w' : World}

/-- What a step of another process leaves to process `i` in the table and the
queue: its own row, and the calls of `queue.add` for it. -/
structure KeepsOwn (i : Nat) (w w' : World) : Prop where
  born : ∀ b, b ∈ w.born → b ∈ w'.born
  committed : ∀ id, id ∈ w.everCommitted → id ∈ w'.everCommitted
  calls : ∀ id, id ∈ w.addCalls → id ∈ w'.addCalls
  added : ∀ id, id ∈ w.added → id ∈ w'.added
  ownCalls : ∀ row, (i, row) ∈ w.born → row.id ∈ w'.addCalls → row.id ∈ w.addCalls
  ownRow : ∀ row, (i, row) ∈ w.born → HasRow w row.id → HasRow w' row.id

theorem KeepsOwn.of_eq
    (hborn : w'.born = w.born)
    (hcommitted : w'.everCommitted = w.everCommitted)
    (hcalls : w'.addCalls = w.addCalls)
    (hadded : w'.added = w.added)
    (hjobs : w'.jobs = w.jobs) :
    KeepsOwn i w w' where
  born := by simp [hborn]
  committed := by simp [hcommitted]
  calls := by simp [hcalls]
  added := by simp [hadded]
  ownCalls := by simp [hcalls]
  ownRow := by simp [HasRow, hjobs]

theorem ReadRow.mono
    {user : Uuid} {key : Option String} {row : Job}
    (hborn : ∀ b, b ∈ w.born → b ∈ w'.born)
    (hcommitted : ∀ id, id ∈ w.everCommitted → id ∈ w'.everCommitted)
    (hr : ReadRow w user key row) :
    ReadRow w' user key row := by
  obtain ⟨huser, hkey, hcomm, j, b, hb, hsame⟩ := hr
  exact ⟨huser, hkey, hcommitted _ hcomm, j, b, hborn _ hb, hsame⟩

/-- A status write keeps every job's row. -/
theorem hasRow_guardedUpdate
    {now : Nat} {jobId id : Uuid} {f : Job → Job}
    (hf : StatusWrite now jobId f)
    (h : HasRow w id) :
    HasRow { w with jobs := guardedUpdate jobId f w.jobs } id := by
  obtain ⟨r, hr, hid⟩ := h
  by_cases hguard : r.id = jobId ∧ r.status.terminal = false
  · refine ⟨f r, mem_guardedUpdate.mpr (Or.inl ⟨r, hr, hguard.1, hguard.2, rfl⟩), ?_⟩
    rw [← (hf.sameSubmission r).id]
    exact hid
  · refine ⟨r, mem_guardedUpdate.mpr (Or.inr ⟨hr, ?_⟩), hid⟩
    intro hrid
    simpa [hrid] using hguard

theorem keepsOwn_of_callStep
    {job : QueueJob} {pc pc' : CallPc} {e : CallEvent}
    (hs : CallStep d w job pc e w' pc') :
    KeepsOwn i w w' := by
  cases hs with
  | quiet => exact .of_eq rfl rfl rfl rfl rfl
  | write hf =>
      refine ⟨fun _ h => h, fun _ h => h, fun _ h => h, fun _ h => h, fun _ _ h => h, ?_⟩
      intro row _ hrow
      exact hasRow_guardedUpdate hf.statusWrite hrow
  | synthesizeReturns => exact .of_eq rfl rfl rfl rfl rfl
  | uploadWav => exact .of_eq rfl rfl rfl rfl rfl
  | uploadWavRaises => exact .of_eq rfl rfl rfl rfl rfl

/-- Rows inserted by different submissions have different ids. -/
theorem id_ne_of_born
    {i j : Nat} {b r : Job}
    (hw : WorldOk w)
    (hij : i ≠ j)
    (hb : (i, b) ∈ w.born)
    (hr : (j, r) ∈ w.born) :
    b.id ≠ r.id := by
  intro hid
  have heq := eq_of_uniqueKey hw.bornUnique hb hr hid
  exact hij (Prod.mk.inj heq).1

theorem keepsOwn_of_commit
    {j : Nat} (i : Nat) (row : Job) :
    KeepsOwn j w ((w.commitRow row).releaseLocks i) := by
  refine ⟨fun _ h => h, ?_, fun _ h => h, fun _ h => h, fun _ _ h => h, ?_⟩
  · exact fun id hid => List.mem_cons_of_mem _ hid
  · rintro r _ ⟨q, hq, hid⟩
    exact ⟨q, List.mem_cons_of_mem _ hq, hid⟩

theorem keepsOwn_of_handlerStep
    {j : Nat} {h h' : Handler} {pc : HandlerPc} {e : HandlerEvent}
    (hs : HandlerStep d i w h pc e w' h')
    (hw : WorldOk w)
    (hok : HandlerOk d i w h)
    (hij : i ≠ j) :
    KeepsOwn j w w' := by
  cases hs with
  | move => exact .of_eq rfl rfl rfl rfl rfl
  | lock => exact .of_eq rfl rfl rfl rfl rfl
  | insert =>
      refine ⟨?_, fun _ h => h, fun _ h => h, fun _ h => h, fun _ _ h => h, fun _ _ h => h⟩
      exact fun b hb => List.mem_cons_of_mem _ hb
  | commit row => exact keepsOwn_of_commit i row
  | commitReplyLost row => exact keepsOwn_of_commit i row
  | rollback => exact .of_eq rfl rfl rfl rfl rfl
  | callAdd job hjob =>
      refine ⟨fun _ h => h, fun _ h => h, ?_, fun _ h => h, ?_, fun _ _ h => h⟩
      · exact fun id hid => List.mem_cons_of_mem _ hid
      · intro r hr hmem
        rcases List.mem_cons.mp hmem with hid | hmem
        · exact absurd hid.symm (id_ne_of_born hw hij (hok.own job hjob).1 hr)
        · exact hmem
  | addTakesEffect =>
      refine ⟨fun _ h => h, fun _ h => h, fun _ h => h, ?_, fun _ _ h => h, fun _ _ h => h⟩
      exact fun id hid => List.mem_cons_of_mem _ hid
  | deleteRow job hjob =>
      refine ⟨fun _ h => h, fun _ h => h, fun _ h => h, fun _ h => h, fun _ _ h => h, ?_⟩
      rintro r hr ⟨q, hq, hid⟩
      have hne := id_ne_of_born hw hij (hok.own job hjob).1 hr
      refine ⟨q, mem_deleteWhere.mpr ⟨hq, ?_⟩, hid⟩
      simpa [hid] using hne.symm
  | stop => exact .of_eq rfl rfl rfl rfl rfl

theorem keepsOwn_of_env
    {b : EnvEvent}
    (h : w.env b = some w') :
    KeepsOwn i w w' := by
  cases b <;> cases h <;> exact .of_eq rfl rfl rfl rfl rfl

/-- The step of another process keeps what is known of a submission. -/
theorem answerOk_frame
    {h : Handler}
    (hf : KeepsOwn i w w')
    (hok : HandlerOk d i w h)
    (hans : AnswerOk d w h) :
    AnswerOk d w' h where
  found := fun row hrow => (hans.found row hrow).mono hf.born hf.committed
  aborting := hans.aborting
  present := fun ha job hj => hf.ownRow job (hok.own job hj).1 (hans.present ha job hj)
  notCalled := fun hpc job hj hmem =>
    hans.notCalled hpc job hj (hf.ownCalls job (hok.own job hj).1 hmem)
  called := fun ha hpc job hj => hf.calls _ (hans.called ha hpc job hj)
  effect := fun hpc job hj => hf.added _ (hans.effect hpc job hj)
  answered := by
    intro response hpc
    cases hans.answered response hpc with
    | accepted job hj hrow hcalled hadded =>
        exact .accepted job hj (hf.ownRow job (hok.own job hj).1 hrow) (hf.calls _ hcalled)
          (hf.added _ hadded)
    | cleanedUp job hj => exact .cleanedUp job hj
    | replayed row hj hrow => exact .replayed row hj (hrow.mono hf.born hf.committed)
    | refused thrown hj hne => exact .refused thrown hj hne

end Frames

section Steps

variable {d : Deps} {i : Nat} {w w' : World}

/-- The places about which there is nothing to know yet. -/
def HandlerPc.plain : HandlerPc → Bool
  | .replayFound _ => false
  | .fallbackFound _ => false
  | .aborting _ => false
  | .committed => false
  | .adding _ => false
  | .enqueued => false
  | .cleanup => false
  | .answered _ => false
  | _ => true

theorem answerOk_of_plain
    {h : Handler}
    (hpc : h.pc.plain = true) :
    AnswerOk d w h := by
  obtain ⟨user, key, body, job, pc⟩ := h
  cases pc <;> simp [HandlerPc.plain] at hpc
  all_goals constructor <;> simp [HandlerPc.found?, HandlerPc.afterCommit]

theorem answerOk_of_aborting
    {h : Handler} {thrown : Thrown}
    (hpc : h.pc = .aborting thrown)
    (hne : thrown ≠ .domain .idempotencyConflict) :
    AnswerOk d w h := by
  constructor <;> simp [hpc, HandlerPc.found?, HandlerPc.afterCommit]
  exact hne

theorem answerOk_of_found
    {h : Handler} {row : Job}
    (hpc : h.pc = .replayFound row ∨ h.pc = .fallbackFound row)
    (hrow : ReadRow w h.user h.key row) :
    AnswerOk d w h := by
  rcases hpc with hpc | hpc
  · constructor <;> simp [hpc, HandlerPc.found?, HandlerPc.afterCommit]
    exact hrow
  · constructor <;> simp [hpc, HandlerPc.found?, HandlerPc.afterCommit]
    exact hrow

theorem answerOk_of_answered
    {h : Handler} {response : SubmitResponse}
    (hpc : h.pc = .answered response)
    (horigin : AnswerOrigin d w h response) :
    AnswerOk d w h := by
  constructor <;> simp [hpc, HandlerPc.found?, HandlerPc.afterCommit]
  exact horigin

/-- What a lookup by key tells of the row it finds. -/
theorem readRow_of_lookup
    {user : Uuid} {key : Option String} {row : Job}
    (hw : WorldOk w)
    (hrow : key.bind (findByKey w.jobs user) = some row) :
    ReadRow w user key row := by
  obtain ⟨hmem, huser, k, hk, hrk⟩ := findByKey_eq_some hrow
  exact ⟨huser, ⟨k, hk, hrk⟩, hw.rowsCommitted row hmem, hw.rowsBorn row hmem⟩

theorem answerOk_of_afterFault
    {h : Handler} {pc pc' : HandlerPc}
    (hf : afterFault pc = some pc')
    (hpc : h.pc = pc)
    (hok : HandlerOk d i w h) :
    AnswerOk d w { h with pc := pc' } := by
  have hnone := hok.noJob_at hpc (beforeCommit_of_afterFault hf)
  rcases afterFault_cases hf with rfl | rfl
  · exact answerOk_of_answered rfl (.refused _ hnone (by simp))
  · exact answerOk_of_aborting rfl (by simp)

theorem answerOk_of_move
    {h : Handler} {pc pc' : HandlerPc} {e : HandlerEvent}
    (hm : HandlerMove d w h pc e pc')
    (hpc : h.pc = pc)
    (hw : WorldOk w)
    (hok : HandlerOk d i w h)
    (hans : AnswerOk d w h) :
    AnswerOk d w { h with pc := pc' } := by
  have hnone := hok.noJob_at hpc
  cases hm with
  | replayFound hrow => exact answerOk_of_found (Or.inl rfl) (readRow_of_lookup hw hrow)
  | replayMissing => exact answerOk_of_plain rfl
  | answerReplay row =>
      have hread := hans.found row (by rw [hpc]; rfl)
      exact answerOk_of_answered rfl (.replayed row (hnone rfl) hread)
  | takeToken allowed retryAfterMs =>
      rcases afterToken_cases d h allowed retryAfterMs with
        ⟨error, hne, ha⟩ | ⟨text, ha, _⟩
      · rw [ha]
        exact answerOk_of_answered rfl (.refused _ (hnone rfl) (by simpa using hne))
      · rw [ha]
        exact answerOk_of_plain rfl
  | beginTx => exact answerOk_of_plain rfl
  | pendingCap => exact answerOk_of_aborting rfl (by simp)
  | counted => exact answerOk_of_plain rfl
  | queueFull => exact answerOk_of_aborting rfl (by simp)
  | depthChecked => exact answerOk_of_plain rfl
  | rejectNul => exact answerOk_of_aborting rfl (by simp)
  | rejectDuplicate => exact answerOk_of_aborting rfl (by simp)
  | winnerFound hrow => exact answerOk_of_found (Or.inr rfl) (readRow_of_lookup hw hrow)
  | winnerMissing => exact answerOk_of_answered rfl (.refused _ (hnone rfl) (by simp))
  | answerWinner row =>
      have hread := hans.found row (by rw [hpc]; rfl)
      exact answerOk_of_answered rfl (.replayed row (hnone rfl) hread)
  | addReturns =>
      have hafter : h.pc.afterCommit = true := by rw [hpc]; rfl
      have hcalled := hans.called hafter (by simp [hpc])
      have hadded := hans.effect (Or.inl hpc)
      constructor <;> simp [HandlerPc.found?, HandlerPc.afterCommit]
      · exact hans.present hafter
      · exact hcalled
      · exact hadded
  | addRaises tookEffect =>
      have hafter : h.pc.afterCommit = true := by rw [hpc]; rfl
      have hcalled := hans.called hafter (by simp [hpc])
      constructor <;> simp [HandlerPc.found?, HandlerPc.afterCommit]
      · exact hans.present hafter
      · exact hcalled
  | deleteRaises job hjob => exact answerOk_of_answered rfl (.cleanedUp job hjob)
  | accept job hjob =>
      have hafter : h.pc.afterCommit = true := by rw [hpc]; rfl
      exact answerOk_of_answered rfl (.accepted job hjob (hans.present hafter job hjob)
        (hans.called hafter (by simp [hpc]) job hjob) (hans.effect (Or.inr hpc) job hjob))
  | fault hf => exact answerOk_of_afterFault hf hpc hok

/-- The step of a submission keeps what is known of it. -/
theorem answerOk_of_handlerStep
    {h h' : Handler} {pc : HandlerPc} {e : HandlerEvent}
    (hs : HandlerStep d i w h pc e w' h')
    (hpc : h.pc = pc)
    (hw : WorldOk w)
    (hcalls : CallsOk w)
    (hok : HandlerOk d i w h)
    (hans : AnswerOk d w h) :
    AnswerOk d w' h' := by
  cases hs with
  | move hm => exact answerOk_of_move hm hpc hw hok hans
  | lock => exact answerOk_of_plain rfl
  | insert => exact answerOk_of_plain rfl
  | commit row =>
      have hnew := (hok.staged row hpc).2.2
      constructor <;> simp [HandlerPc.found?, HandlerPc.afterCommit]
      · exact ⟨row, List.mem_cons_self, rfl⟩
      · exact fun hmem => hnew (hcalls.committed _ hmem)
  | commitReplyLost row => exact answerOk_of_answered rfl (.cleanedUp row rfl)
  | rollback thrown =>
      have hjob : h.job = none := hok.noJob (by rw [hpc]; rfl)
      rcases afterRollback_cases h thrown with ⟨_, _, hr⟩ | hr
      · rw [hr]
        exact answerOk_of_plain rfl
      · rw [hr]
        exact answerOk_of_answered rfl (.refused _ hjob (hans.aborting thrown hpc))
  | callAdd job hjob =>
      have hrow := hans.present (by rw [hpc]; rfl) job hjob
      constructor <;> simp [HandlerPc.found?, HandlerPc.afterCommit, hjob, World.callAdd]
      exact hrow
  | addTakesEffect job hjob =>
      have hafter : h.pc.afterCommit = true := by rw [hpc]; rfl
      have hrow := hans.present hafter job hjob
      have hcalled := hans.called hafter (by simp [hpc]) job hjob
      constructor <;> simp [HandlerPc.found?, HandlerPc.afterCommit, hjob, World.addEntry]
      · exact hrow
      · exact hcalled
  | deleteRow job hjob =>
      exact answerOk_of_answered rfl (.cleanedUp job hjob)
  | stop => exact answerOk_of_plain rfl

theorem callsOk_of_handlerStep
    {h h' : Handler} {pc : HandlerPc} {e : HandlerEvent}
    (hs : HandlerStep d i w h pc e w' h')
    (hpc : h.pc = pc)
    (hok : HandlerOk d i w h)
    (hans : AnswerOk d w h)
    (hcalls : CallsOk w) :
    CallsOk w' := by
  cases hs with
  | commit row =>
      exact ⟨hcalls.nodup, fun id hid => List.mem_cons_of_mem _ (hcalls.committed id hid)⟩
  | commitReplyLost row =>
      exact ⟨hcalls.nodup, fun id hid => List.mem_cons_of_mem _ (hcalls.committed id hid)⟩
  | callAdd job hjob =>
      refine ⟨List.nodup_cons.mpr ⟨hans.notCalled hpc job hjob, hcalls.nodup⟩, ?_⟩
      intro id hid
      rcases List.mem_cons.mp hid with rfl | hid
      · exact (hok.own job hjob).2.2
      · exact hcalls.committed id hid
  | move => exact hcalls
  | lock => exact ⟨hcalls.nodup, hcalls.committed⟩
  | insert => exact ⟨hcalls.nodup, hcalls.committed⟩
  | rollback => exact ⟨hcalls.nodup, hcalls.committed⟩
  | addTakesEffect => exact ⟨hcalls.nodup, hcalls.committed⟩
  | deleteRow => exact ⟨hcalls.nodup, hcalls.committed⟩
  | stop => exact ⟨hcalls.nodup, hcalls.committed⟩

end Steps

section Runs

variable {d : Deps}

/-- What is known of the answer of a process; calls of the worker give none. -/
def AnswerOf (d : Deps) (w : World) : Proc → Prop
  | .handler h => AnswerOk d w h
  | .call _ => True

/-- A submission that was refused at once carries no key. -/
theorem answerOk_start
    (w : World) (r : SubmitRequest) :
    AnswerOk d w (Handler.start r) := by
  unfold Handler.start
  split
  · next error herror =>
      refine answerOk_of_answered rfl (.refused _ rfl ?_)
      cases hr : r.idempotencyKey with
      | none => simp [hr, readIdempotencyKey] at herror
      | some value =>
          cases value with
          | single raw =>
              simp only [hr, readIdempotencyKey] at herror
              split at herror <;> cases herror
              simp
          | many values =>
              simp only [hr, readIdempotencyKey] at herror
              cases herror
              simp
  · exact answerOk_of_plain rfl
  · exact answerOk_of_plain rfl

/-- The proof outline for answers and calls of `queue.add`. -/
def answersOutline (d : Deps) (G : Service → ServiceEvent → Prop) :
    Outline (service d) G (ServiceOk d) where
  inv := CallsOk
  assert := fun _ w p => AnswerOf d w p
  spawn := by
    intro g r _ _
    cases r with
    | submit r => exact answerOk_start _ r
    | deliver job => trivial
    | failedEvent job => trivial
  act := by
    intro g i a p p' w hK _ hann hp hact
    have hpok := hK.2 i p hp
    have hans := hann.2 i p hp
    cases procStep_of_act hact with
    | handler hs =>
        exact ⟨callsOk_of_handlerStep hs rfl hpok hans hann.1,
          answerOk_of_handlerStep hs rfl hK.1 hann.1 hpok hans⟩
    | @call c c' e _ _ hs =>
        refine ⟨?_, trivial⟩
        generalize c.pc = pc, c'.pc = pc' at hs
        cases hs <;> exact ⟨hann.1.nodup, hann.1.committed⟩
  frame := by
    intro g i j a p p' q w hK _ hann hp hact hij hq
    have hqok := hK.2 j q hq
    have hans := hann.2 j q hq
    cases q with
    | call c => trivial
    | handler k =>
        cases procStep_of_act hact with
        | handler hs =>
            exact answerOk_frame (keepsOwn_of_handlerStep hs hK.1 (hK.2 i _ hp) hij) hqok hans
        | call _ hs => exact answerOk_frame (keepsOwn_of_callStep hs) hqok hans
  env := by
    intro g b w hK _ hann henv
    constructor
    · cases b <;> cases henv <;> exact ⟨hann.1.nodup, hann.1.committed⟩
    · intro j q hq
      have hqok := hK.2 j q hq
      have hans := hann.2 j q hq
      cases q with
      | call c => trivial
      | handler k => exact answerOk_frame (keepsOwn_of_env henv) hqok hans

theorem answersOutline_of_run
    {G : Service → ServiceEvent → Prop} {es : List ServiceEvent} {s : Service}
    (h : ServiceRun d G es s) :
    Annotated CallsOk (fun _ w p => AnswerOf d w p) s :=
  (answersOutline d G).run (fun _ _ hr => serviceOk_of_run hr)
    ⟨⟨by simp [Service.initial, World.empty], by simp [Service.initial, World.empty]⟩,
      by simp [Service.initial]⟩ h

/-- **The origin of answers**, in every run. -/
theorem answerOk_of_run
    {G : Service → ServiceEvent → Prop} {es : List ServiceEvent} {s : Service}
    {i : Nat} {h : Handler}
    (hrun : ServiceRun d G es s)
    (hh : s.procs[i]? = some (.handler h)) :
    AnswerOk d s.world h :=
  (answersOutline_of_run hrun).2 i _ hh

/-- An accepted submission names its own job, whose row stands. -/
theorem job_of_accepted
    {i : Nat} {a : Handler} {answer : SubmissionBody}
    (hrun : ServiceRun d G es s)
    (hp : s.procs[i]? = some (.handler a))
    (hpc : a.pc = .answered (.success 202 answer)) :
    ∃ job, a.job = some job ∧ answer.jobId = job.id ∧ HasRow s.world job.id := by
  generalize hresponse : (Response.success 202 answer : SubmitResponse) = response at hpc
  cases (answerOk_of_run hrun hp).answered response hpc with
  | accepted job hjob hrow =>
      cases hresponse
      exact ⟨job, hjob, rfl, hrow⟩
  | cleanedUp => cases hresponse
  | replayed row =>
      rcases respondForIdempotentRetry_cases d row a.body with
        ⟨error, _, heq⟩ | ⟨_, _, _, heq⟩ | ⟨_, _, _, heq⟩
      · rw [heq] at hresponse
        exact absurd hresponse.symm (errorHandler_ne_success _ _ _)
      · rw [heq] at hresponse
        exact absurd hresponse.symm (errorHandler_ne_success _ _ _)
      · rw [heq] at hresponse
        cases hresponse
  | refused thrown => exact absurd hresponse.symm (errorHandler_ne_success thrown 202 answer)

theorem callsOk_of_run
    {G : Service → ServiceEvent → Prop} {es : List ServiceEvent} {s : Service}
    (hrun : ServiceRun d G es s) :
    CallsOk s.world :=
  (answersOutline_of_run hrun).1

end Runs

section Pairs

variable {d : Deps} {i : Nat} {w w' : World}

/-- No two rows of one user carry the same key. -/
def PairUnique (w : World) : Prop :=
  ∀ r₁ r₂ k, r₁ ∈ w.jobs → r₂ ∈ w.jobs → r₁.userId = r₂.userId →
    r₁.idempotencyKey = some k → r₂.idempotencyKey = some k → r₁ = r₂

/-- No row of the user carries the key of an inserted row. -/
def StagedUnique (w : World) (h : Handler) : Prop :=
  ∀ row, h.pc = .inserted row →
    ∀ r k, r ∈ w.jobs → r.userId = row.userId → row.idempotencyKey = some k →
      r.idempotencyKey ≠ some k

theorem pairUnique_of_sub
    (h : PairUnique w)
    (hrows : ∀ r', r' ∈ w'.jobs → ∃ r, r ∈ w.jobs ∧ SameSubmission r r')
    (hunique : UniqueKey Job.id w'.jobs) :
    PairUnique w' := by
  intro r₁ r₂ k hr₁ hr₂ huser hk₁ hk₂
  obtain ⟨q₁, hq₁, hs₁⟩ := hrows r₁ hr₁
  obtain ⟨q₂, hq₂, hs₂⟩ := hrows r₂ hr₂
  have heq := h q₁ q₂ k hq₁ hq₂ (hs₁.userId.trans (huser.trans hs₂.userId.symm))
    (hs₁.idempotencyKey.trans hk₁) (hs₂.idempotencyKey.trans hk₂)
  subst heq
  exact eq_of_uniqueKey hunique hr₁ hr₂ (hs₁.id.symm.trans hs₂.id)

/-- The lookup by key finds the row that carries it. -/
theorem findByKey_of_mem
    {w : World} {user : Uuid} {key : String} {r : Job}
    (hunique : PairUnique w)
    (hr : r ∈ w.jobs)
    (huser : r.userId = user)
    (hkey : r.idempotencyKey = some key) :
    findByKey w.jobs user key = some r := by
  cases hfind : findByKey w.jobs user key with
  | none => exact absurd hkey (findByKey_eq_none hfind hr huser)
  | some row =>
      have hlookup : (some key).bind (findByKey w.jobs user) = some row := hfind
      obtain ⟨hrow, hruser, key', hk, hrkey⟩ := findByKey_eq_some hlookup
      cases hk
      rw [hunique row r key hrow hr (hruser.trans huser.symm) hrkey hkey]

theorem stagedUnique_of_sub
    {h : Handler}
    (hst : StagedUnique w h)
    (hrows : ∀ r', r' ∈ w'.jobs → ∃ r, r ∈ w.jobs ∧ SameSubmission r r') :
    StagedUnique w' h := by
  intro row hpc r k hr huser hkey hrk
  obtain ⟨q, hq, hsame⟩ := hrows r hr
  exact hst row hpc q k hq (hsame.userId.trans huser) hkey (hsame.idempotencyKey.trans hrk)

/-- A step of a submission other than its commit adds no row. -/
theorem rows_of_handlerStep
    {h h' : Handler} {pc : HandlerPc} {e : HandlerEvent}
    (hs : HandlerStep d i w h pc e w' h') :
    (∃ row, pc = .inserted row ∧ w'.jobs = row :: w.jobs) ∨
      ∀ r', r' ∈ w'.jobs → r' ∈ w.jobs := by
  cases hs with
  | commit row => exact Or.inl ⟨row, rfl, rfl⟩
  | commitReplyLost row => exact Or.inl ⟨row, rfl, rfl⟩
  | deleteRow => exact Or.inr fun r' hr' => (mem_deleteWhere.mp hr').1
  | move => exact Or.inr fun _ h => h
  | lock => exact Or.inr fun _ h => h
  | insert => exact Or.inr fun _ h => h
  | rollback => exact Or.inr fun _ h => h
  | callAdd => exact Or.inr fun _ h => h
  | addTakesEffect => exact Or.inr fun _ h => h
  | stop => exact Or.inr fun _ h => h

/-- A submission gets to its commit by an INSERT that the unique index admits. -/
theorem stagedUnique_of_handlerStep
    {h h' : Handler} {pc : HandlerPc} {e : HandlerEvent}
    (hs : HandlerStep d i w h pc e w' h') :
    StagedUnique w' h' := by
  intro row hrow
  cases hs with
  | insert text id createdAt _ _ hunique =>
      simp only [HandlerPc.inserted.injEq] at hrow
      subst hrow
      intro r k hr huser hkey
      exact key_ne_of_not_violatesUnique hunique hkey hr huser
  | move hm => exact absurd hrow ((moveShape_of_move hm).notInserted row)
  | rollback thrown =>
      rcases afterRollback_cases h thrown with ⟨_, _, hr⟩ | hr <;> simp [hr] at hrow
  | lock => cases hrow
  | commit => cases hrow
  | commitReplyLost => cases hrow
  | callAdd => cases hrow
  | addTakesEffect => cases hrow
  | deleteRow => cases hrow
  | stop => cases hrow

def StagedOf (w : World) : Proc → Prop
  | .handler h => StagedUnique w h
  | .call _ => True

theorem stagedUnique_start
    (w : World) (r : SubmitRequest) :
    StagedUnique w (Handler.start r) := by
  intro row hrow
  unfold Handler.start at hrow
  split at hrow <;> cases hrow

/-- Two submissions that both stand before their commit are those of different
users. -/
theorem user_ne_of_inserted
    {j : Nat} {h k : Handler} {row row' : Job}
    (hij : i ≠ j)
    (hok : HandlerOk d i w h)
    (kok : HandlerOk d j w k)
    (hpc : h.pc = .inserted row)
    (kpc : k.pc = .inserted row') :
    row.userId ≠ row'.userId := by
  intro huser
  have hhuser : h.user = k.user :=
    (hok.staged row hpc).2.1.userId.symm.trans (huser.trans (kok.staged row' kpc).2.1.userId)
  have hlock := hok.lock (by rw [hpc]; rfl)
  have klock := kok.lock (by rw [kpc]; rfl)
  rw [hhuser, klock] at hlock
  exact hij (Option.some.inj hlock).symm

/-- The proof outline for the unique index. -/
def pairsOutline (d : Deps) (G : Service → ServiceEvent → Prop) :
    Outline (service d) G (ServiceOk d) where
  inv := PairUnique
  assert := fun _ w p => StagedOf w p
  spawn := by
    intro g r _ _
    cases r with
    | submit r => exact stagedUnique_start _ r
    | deliver job => trivial
    | failedEvent job => trivial
  act := by
    intro g i a p p' w hK _ hann hp hact
    have hpok := hK.2 i p hp
    have hst := hann.2 i p hp
    cases procStep_of_act hact with
    | @handler h _ _ _ hs =>
        refine ⟨?_, stagedUnique_of_handlerStep hs⟩
        have hworld := worldOk_of_handlerStep hs rfl hK.1 hpok
        rcases rows_of_handlerStep hs with ⟨row, hpc, hjobs⟩ | hsub
        · have hnew : ∀ r k, r ∈ g.world.jobs → r.userId = row.userId →
              row.idempotencyKey = some k → r.idempotencyKey ≠ some k := hst row hpc
          intro r₁ r₂ k hr₁ hr₂ huser hk₁ hk₂
          rw [hjobs] at hr₁ hr₂
          rcases List.mem_cons.mp hr₁ with he₁ | hold₁
          · rcases List.mem_cons.mp hr₂ with he₂ | hold₂
            · exact he₁.trans he₂.symm
            · subst he₁
              exact absurd hk₂ (hnew r₂ k hold₂ huser.symm hk₁)
          · rcases List.mem_cons.mp hr₂ with he₂ | hold₂
            · subst he₂
              exact absurd hk₁ (hnew r₁ k hold₁ huser hk₂)
            · exact hann.1 r₁ r₂ k hold₁ hold₂ huser hk₁ hk₂
        · exact pairUnique_of_sub hann.1 (fun r' hr' => ⟨r', hsub r' hr', .refl r'⟩)
            hworld.rowsUnique
    | call _ hs =>
        have hf := callFrame_of_callStep hs
        exact ⟨pairUnique_of_sub hann.1 hf.rows (hf.unique hK.1.rowsUnique), trivial⟩
  frame := by
    intro g i j a p p' q w hK _ hann hp hact hij hq
    have hst := hann.2 j q hq
    cases q with
    | call c => trivial
    | handler k =>
        cases procStep_of_act hact with
        | handler hs =>
            rcases rows_of_handlerStep hs with ⟨row, hpc, hjobs⟩ | hsub
            · intro row' hkpc r key hr huser hkey
              rw [hjobs] at hr
              rcases List.mem_cons.mp hr with rfl | hr
              · exact absurd huser
                  (user_ne_of_inserted hij (hK.2 i _ hp) (hK.2 j _ hq) hpc hkpc)
              · exact hst row' hkpc r key hr huser hkey
            · exact stagedUnique_of_sub hst fun r' hr' => ⟨r', hsub r' hr', .refl r'⟩
        | call _ hs => exact stagedUnique_of_sub hst (callFrame_of_callStep hs).rows
  env := by
    intro g b w _ _ hann henv
    cases b <;> cases henv <;> exact hann

/-- **The unique index** holds of the committed rows, in every run. -/
theorem pairUnique_of_run
    {G : Service → ServiceEvent → Prop} {es : List ServiceEvent} {s : Service}
    (hrun : ServiceRun d G es s) :
    PairUnique s.world := by
  refine ((pairsOutline d G).run (fun _ _ hr => serviceOk_of_run hr) ?_ hrun).1
  refine ⟨?_, by simp [Service.initial]⟩
  intro r₁ r₂ k hr₁
  cases hr₁

end Pairs

section Creators

variable {d : Deps}

/-- Every committed row is held by the submission that inserted it. -/
def CreatorsKnown (s : Service) : Prop :=
  ∀ (k : Nat) (b : Job), (k, b) ∈ s.world.born → b.id ∈ s.world.everCommitted →
    ∃ h, s.procs[k]? = some (.handler h) ∧ h.job = some b

/-- The variable `job` is set once, by the commit. -/
theorem job_of_handlerStep
    {i : Nat} {w w' : World} {h h' : Handler} {pc : HandlerPc} {e : HandlerEvent}
    (hs : HandlerStep d i w h pc e w' h') :
    h'.job = h.job ∨ ∃ row, pc = .inserted row ∧ h'.job = some row := by
  cases hs with
  | commit row => exact Or.inr ⟨row, rfl, rfl⟩
  | commitReplyLost row => exact Or.inr ⟨row, rfl, rfl⟩
  | _ => exact Or.inl rfl

/-- Once a submission has a row, a step leaves it in its variable `job`. -/
theorem job_after_step
    {s t : Service} {e : ServiceEvent} {i : Nat} {h : Handler} {job : Job}
    (hok : ServiceOk d s)
    (hs : (service d).machine.step s e = some t)
    (hp : s.procs[i]? = some (.handler h))
    (hjob : h.job = some job) :
    ∃ h', t.procs[i]? = some (.handler h') ∧ h'.job = some job := by
  rcases handler_after_step hs hp with ⟨_, h', hstep, hp'⟩ | hsame
  · refine ⟨h', hp', ?_⟩
    rcases job_of_handlerStep hstep with hsame | ⟨row, hpc, _⟩
    · rw [hsame]
      exact hjob
    · have hnone := (hok.2 i _ hp).noJob (by rw [hpc]; rfl)
      rw [hnone] at hjob
      cases hjob
  · exact ⟨h, hsame, hjob⟩

/-- The rows on record after a step of a submission. -/
theorem committed_of_handlerStep
    {i : Nat} {w w' : World} {h h' : Handler} {pc : HandlerPc} {e : HandlerEvent}
    (hs : HandlerStep d i w h pc e w' h')
    (hpc : h.pc = pc)
    (hw : WorldOk w)
    (hok : HandlerOk d i w h)
    {k : Nat} {b : Job}
    (hb : (k, b) ∈ w'.born)
    (hc : b.id ∈ w'.everCommitted) :
    ((k, b) ∈ w.born ∧ b.id ∈ w.everCommitted) ∨ (k = i ∧ h'.job = some b) := by
  -- A row on record after a COMMIT was on record before, or is the committed one.
  have hcommit : ∀ row, pc = .inserted row → (k, b) ∈ w.born → b.id ∈ row.id :: w.everCommitted →
      ((k, b) ∈ w.born ∧ b.id ∈ w.everCommitted) ∨ (k = i ∧ some row = some b) := by
    intro row hrow hb hc
    rcases List.mem_cons.mp hc with hid | hc
    · have heq := eq_of_uniqueKey hw.bornUnique hb (hok.staged row (hpc.trans hrow)).1 hid
      cases heq
      exact Or.inr ⟨rfl, rfl⟩
    · exact Or.inl ⟨hb, hc⟩
  cases hs with
  | insert text id createdAt hfresh =>
      rcases List.mem_cons.mp hb with heq | hb
      · obtain ⟨b', hb', hid⟩ := hw.committedBorn _ hc
        have hbid : b.id = id := by
          rw [(Prod.mk.inj heq).2]
          rfl
        exact absurd (hid.trans hbid) (hfresh b' hb')
      · exact Or.inl ⟨hb, hc⟩
  | commit row => exact hcommit row rfl hb hc
  | commitReplyLost row => exact hcommit row rfl hb hc
  | move => exact Or.inl ⟨hb, hc⟩
  | lock => exact Or.inl ⟨hb, hc⟩
  | rollback => exact Or.inl ⟨hb, hc⟩
  | callAdd => exact Or.inl ⟨hb, hc⟩
  | addTakesEffect => exact Or.inl ⟨hb, hc⟩
  | deleteRow => exact Or.inl ⟨hb, hc⟩
  | stop => exact Or.inl ⟨hb, hc⟩

theorem creatorsKnown_of_step
    {s t : Service} {e : ServiceEvent}
    (hok : ServiceOk d s)
    (hs : (service d).machine.step s e = some t)
    (h : CreatorsKnown s) :
    CreatorsKnown t := by
  -- a row that was known before the step is still held by its submission
  have hknown : ∀ k b, (k, b) ∈ s.world.born → b.id ∈ s.world.everCommitted →
      ∃ a, t.procs[k]? = some (.handler a) ∧ a.job = some b := by
    intro k b hb hc
    obtain ⟨a, ha, hjob⟩ := h k b hb hc
    exact job_after_step hok hs ha hjob
  intro k b hb hc
  cases serviceStep_of_step hs with
  | spawn r => exact hknown k b hb hc
  | @handler i a a' _ w hp hstep =>
      rcases committed_of_handlerStep hstep rfl hok.1 (hok.2 i _ hp) hb hc with
        ⟨hb, hc⟩ | ⟨rfl, hjob⟩
      · exact hknown k b hb hc
      · exact ⟨a', getElem?_set_self_of_some hp, hjob⟩
  | call _ _ hstep =>
      have hf := callFrame_of_callStep hstep
      exact hknown k b (hf.born ▸ hb) (hf.committed ▸ hc)
  | @env b' _ henv =>
      cases b' <;> cases henv <;> exact hknown k b hb hc

theorem creatorsKnown_of_run
    {G : Service → ServiceEvent → Prop} {es : List ServiceEvent} {s : Service}
    (hrun : ServiceRun d G es s) :
    CreatorsKnown s := by
  refine Machine.run_invariant_of_known (K := ServiceOk d) (fun _ _ hr => serviceOk_of_run hr)
    (fun t e u ht _ hI _ hs => creatorsKnown_of_step ht hs hI) hrun ?_
  intro k b hb
  cases hb

end Creators

section Histories

variable {d : Deps}

/-- The histories only grow. -/
structure Grows (w w' : World) : Prop where
  born : ∀ b, b ∈ w.born → b ∈ w'.born
  committed : ∀ id, id ∈ w.everCommitted → id ∈ w'.everCommitted
  calls : ∀ id, id ∈ w.addCalls → id ∈ w'.addCalls
  added : ∀ id, id ∈ w.added → id ∈ w'.added

theorem grows_of_step
    {s t : Service} {e : ServiceEvent}
    (hok : ServiceOk d s)
    (hs : (service d).machine.step s e = some t) :
    Grows s.world t.world := by
  cases serviceStep_of_step hs with
  | spawn => exact ⟨fun _ h => h, fun _ h => h, fun _ h => h, fun _ h => h⟩
  | @handler i h h' _ w hp hstep =>
      have hf := keepsOwn_of_handlerStep hstep hok.1 (hok.2 i _ hp) (Nat.ne_add_one i)
      exact ⟨hf.born, hf.committed, hf.calls, hf.added⟩
  | call _ _ hstep =>
      have hf : KeepsOwn 0 s.world _ := keepsOwn_of_callStep hstep
      exact ⟨hf.born, hf.committed, hf.calls, hf.added⟩
  | env henv =>
      have hf : KeepsOwn 0 s.world _ := keepsOwn_of_env henv
      exact ⟨hf.born, hf.committed, hf.calls, hf.added⟩

/-- A property of reachable states that every step keeps holds in every
continuation of a run. -/
theorem invariant_of_continuation
    {G : Service → ServiceEvent → Prop} {s t : Service} {es fs : List ServiceEvent}
    {I : Service → Prop}
    (hrun : ServiceRun d G es s)
    (hfs : Machine.Run (service d).machine G s fs t)
    (hstep : ∀ u e v, ServiceOk d u → I u → G u e →
      (service d).machine.step u e = some v → I v)
    (hs : I s) :
    I t :=
  Machine.run_invariant_of_known (K := ServiceOk d)
    (fun _ _ hgs => serviceOk_of_run (Machine.run_append hrun hgs))
    (fun u e v hu _ hI hG hs => hstep u e v hu hI hG hs) hfs hs

theorem grows_of_run
    {G : Service → ServiceEvent → Prop} {s t : Service} {es fs : List ServiceEvent}
    (hrun : ServiceRun d G es s)
    (hfs : Machine.Run (service d).machine G s fs t) :
    Grows s.world t.world := by
  refine invariant_of_continuation (I := fun u => Grows s.world u.world) hrun hfs ?_
    ⟨fun _ h => h, fun _ h => h, fun _ h => h, fun _ h => h⟩
  intro u e v hu hI _ hs
  have hstep := grows_of_step hu hs
  exact ⟨fun b hb => hstep.born b (hI.born b hb),
    fun id hid => hstep.committed id (hI.committed id hid),
    fun id hid => hstep.calls id (hI.calls id hid),
    fun id hid => hstep.added id (hI.added id hid)⟩

/-- Versions of one row were submitted together. -/
theorem sameSubmission_of_born
    {w : World} {i : Nat} {b row r : Job}
    (hw : WorldOk w)
    (hb : (i, b) ∈ w.born)
    (hsame : SameSubmission b row)
    (hr : r ∈ w.jobs)
    (hid : row.id = r.id) :
    SameSubmission row r := by
  obtain ⟨j, b', hb', hsame'⟩ := hw.rowsBorn r hr
  have heq := eq_of_uniqueKey hw.bornUnique hb hb'
    (hsame.id.trans (hid.trans hsame'.id.symm))
  cases heq
  exact hsame.symm.trans hsame'

/-- Once a submission has a row, it keeps it in its variable `job`. -/
theorem job_of_continuation
    {G : Service → ServiceEvent → Prop} {s t : Service} {es fs : List ServiceEvent}
    {i : Nat} {h : Handler} {job : Job}
    (hrun : ServiceRun d G es s)
    (hfs : Machine.Run (service d).machine G s fs t)
    (hp : s.procs[i]? = some (.handler h))
    (hjob : h.job = some job) :
    ∃ h', t.procs[i]? = some (.handler h') ∧ h'.job = some job := by
  refine invariant_of_continuation
    (I := fun u => ∃ h', u.procs[i]? = some (.handler h') ∧ h'.job = some job) hrun hfs ?_
    ⟨h, hp, hjob⟩
  rintro u e v hu ⟨a, ha, hajob⟩ _ hs
  exact job_after_step hu hs ha hajob

/-- A call of the worker stays one. -/
theorem call_of_continuation
    {G : Service → ServiceEvent → Prop} {s t : Service} {es fs : List ServiceEvent}
    {i : Nat} {c : Call}
    (hrun : ServiceRun d G es s)
    (hfs : Machine.Run (service d).machine G s fs t)
    (hp : s.procs[i]? = some (.call c)) :
    ∃ c', t.procs[i]? = some (.call c') := by
  refine invariant_of_continuation
    (I := fun u => ∃ c', u.procs[i]? = some (.call c')) hrun hfs ?_ ⟨c, hp⟩
  rintro u e v _ ⟨a, ha⟩ _ hs
  exact call_after_step hs ha

end Histories

end BengaliTts
