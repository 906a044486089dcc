import BengaliTts.SameKeyRace
import BengaliTts.Acknowledgement
import BengaliTts.CodePoints

/-!
# A retry with the same text

A submission under a key was accepted.  Its row stands from then on, so a later
submission of the same text by the same user under the same key finds it, whatever
else runs in between, and is answered from it: the route compares the text of the request
with the text that the column gives back.

The comparison is on code units and the column keeps scalar values, so the two differ
exactly when the text has an unpaired surrogate.  The validator lets such texts pass.

Main results:
* `retry_answered_iff_wellFormed`: the retry is answered 200 with the same job exactly
  when the text has no unpaired surrogate, and is a conflict otherwise;
* `retry_conflicts_with_itself`: a run in which it is a conflict.
-/

namespace BengaliTts

open Lib

section Lookup

variable {d : Deps} {s t : Service} {es fs : List ServiceEvent}
  {G : Service → ServiceEvent → Prop}

/-- The row of an accepted submission stands and holds its text as the column keeps it. -/
theorem row_of_accepted
    {i : Nat} {a : Handler} {answer : SubmissionBody} {text : JsString}
    (hrun : ServiceRun d G es s)
    (hp : s.procs[i]? = some (.handler a))
    (hpc : a.pc = .answered (.success 202 answer))
    (hbody : validate submitSchema a.body = .ok text) :
    ∃ r, r ∈ s.world.jobs ∧ r.id = answer.jobId ∧ r.userId = a.user ∧
      r.idempotencyKey = a.key ∧ r.inputText = toColumn text := by
  obtain ⟨job, hjob, hanswer, r, hr, hid⟩ := job_of_accepted hrun hp hpc
  have hok := serviceOk_of_run hrun
  have haok : HandlerOk d i s.world a := hok.2 i _ hp
  obtain ⟨hborn, hby, _⟩ := haok.own job hjob
  have hsame := sameSubmission_of_born hok.1 hborn (SameSubmission.refl job) hr hid.symm
  refine ⟨r, hr, hid.trans hanswer.symm, hsame.userId.symm.trans hby.userId,
    hsame.idempotencyKey.symm.trans hby.idempotencyKey, ?_⟩
  obtain ⟨text', id, createdAt, htext, _, _, hrow⟩ := hby
  cases hbody.symm.trans htext
  rw [← hsame.inputText, hrow]
  rfl

/-- The lookup step of a submission whose key has a row. -/
theorem replayFound_of_step
    {j : Nat} {b : Handler} {r : Job}
    (hs : (service d).machine.step s (.act j (.handler .findReplay)) = some t)
    (hp : s.procs[j]? = some (.handler b))
    (hpc : b.pc = .replaying)
    (hrow : b.key.bind (findByKey s.world.jobs b.user) = some r) :
    t.procs[j]? = some (.handler { b with pc := .replayFound r }) := by
  cases serviceStep_of_step hs with
  | handler hp' hstep =>
      cases hp'.symm.trans hp
      rw [hpc] at hstep
      cases hstep with
      | move hm =>
          cases hm with
          | replayFound hfound =>
              cases hrow.symm.trans hfound
              exact getElem?_set_self_of_some hp
          | replayMissing hmissing => cases hrow.symm.trans hmissing

/-- A submission that found its row, from then on. -/
inductive FoundPhase (d : Deps) (body : Option Json) (r : Job) : HandlerPc → Prop
  | found : FoundPhase d body r (.replayFound r)
  | answered : FoundPhase d body r (.answered (respondForIdempotentRetry d r body))
  | stopped : FoundPhase d body r .stopped

theorem foundPhase_step
    {j : Nat} {w w' : World} {b b' : Handler} {pc : HandlerPc} {e : HandlerEvent} {r : Job}
    (hs : HandlerStep d j w b pc e w' b')
    (hphase : FoundPhase d b.body r pc) :
    FoundPhase d b.body r b'.pc ∧ b'.body = b.body := by
  cases hphase with
  | found =>
      cases hs with
      | move hm =>
          cases hm with
          | answerReplay => exact ⟨.answered, rfl⟩
          | fault hf => cases hf
      | stop => exact ⟨.stopped, rfl⟩
  | answered => exact (no_step_of_answered hs).elim
  | stopped =>
      cases hs with
      | move hm =>
          cases hm with
          | fault hf => cases hf
      | stop hr => cases hr

/-- A submission that found its row is answered from it, whatever else runs. -/
theorem foundPhase_of_run
    {j : Nat} {b : Handler} {r : Job}
    (hfs : Machine.Run (service d).machine G s fs t)
    (hp : s.procs[j]? = some (.handler { b with pc := .replayFound r })) :
    ∃ b', t.procs[j]? = some (.handler b') ∧ b'.body = b.body ∧ FoundPhase d b.body r b'.pc := by
  refine Machine.run_invariant
    (I := fun u => ∃ b', u.procs[j]? = some (.handler b') ∧ b'.body = b.body ∧
      FoundPhase d b.body r b'.pc) ?_ hfs ⟨_, hp, rfl, .found⟩
  rintro u e v ⟨b', hb', hbody, hphase⟩ _ hs
  rcases handler_after_step hs hb' with ⟨e', b'', hstep, hb''⟩ | hsame
  · rw [← hbody] at hphase ⊢
    obtain ⟨hnext, hnbody⟩ := foundPhase_step hstep hphase
    exact ⟨b'', hb'', hnbody, hnext⟩
  · exact ⟨b', hsame, hbody, hphase⟩

end Lookup

section Retry

variable {d : Deps}

/-- A retry with another text than the column gives back is a conflict. -/
theorem conflict_iff_not_survivesColumn
    {body : Option Json} {text : JsString} {row : Job}
    (hvalid : validate submitSchema body = .ok text)
    (hcolumn : row.inputText = toColumn text) :
    respondForIdempotentRetry d row body = errorHandler (.domain .idempotencyConflict) ↔
      ¬ SurvivesColumn text := by
  rcases respondForIdempotentRetry_cases d row body with
    ⟨error, hv, _⟩ | ⟨text', hv, hne, hresp⟩ | ⟨text', hv, heq, hresp⟩
  · cases hvalid.symm.trans hv
  · cases hvalid.symm.trans hv
    rw [hcolumn] at hne
    exact ⟨fun _ hsurvives => hne hsurvives.symm, fun _ => hresp⟩
  · cases hvalid.symm.trans hv
    rw [hcolumn] at heq
    rw [hresp]
    constructor
    · intro h
      exact absurd h.symm (errorHandler_ne_success _ _ _)
    · intro hlost
      exact absurd heq.symm hlost

/--
**A retry with the same text** is answered with the same job exactly when the text has
no unpaired surrogate.  Submission `i` was answered 202 in the state `s` of any run, so
its row stands; submission `j` of the same user, key and text makes its lookup there.
However the run goes on, the answer to `j` is the 200 that names the job of `i` if and
only if the text is well formed, and IDEMPOTENCY_CONFLICT if and only if it is not.
These are the texts that the column gives back unchanged.
-/
theorem retry_answered_iff_wellFormed
    {es fs : List ServiceEvent} {s s₁ t : Service} {i j : Nat} {a b b' : Handler}
    {key : String} {text : JsString} {answer : SubmissionBody} {response : SubmitResponse}
    (hrun : ServiceRun d Machine.anyStep es s)
    (hfirst : s.procs[i]? = some (.handler a))
    (haccepted : a.pc = .answered (.success 202 answer))
    (hakey : a.key = some key)
    (habody : validate submitSchema a.body = .ok text)
    (hretry : s.procs[j]? = some (.handler b))
    (hpc : b.pc = .replaying)
    (huser : b.user = a.user)
    (hbkey : b.key = some key)
    (hbbody : validate submitSchema b.body = .ok text)
    (hlookup : (service d).machine.step s (.act j (.handler .findReplay)) = some s₁)
    (hfs : Machine.Run (service d).machine Machine.anyStep s₁ fs t)
    (hp : t.procs[j]? = some (.handler b'))
    (hanswer : b'.pc = .answered response) :
    ((∃ body, response = .success 200 body ∧ body.jobId = answer.jobId) ↔ WellFormed text) ∧
      (response = errorHandler (.domain .idempotencyConflict) ↔ ¬ WellFormed text) ∧
      (fromColumn (toColumn text) = text ↔ WellFormed text) := by
  obtain ⟨r, hr, hid, hruser, hrkey, hcolumn⟩ :=
    row_of_accepted hrun hfirst haccepted habody
  have hfind := findByKey_of_mem (pairUnique_of_run hrun) hr (hruser.trans huser.symm)
    (hrkey.trans hakey)
  have hfound := replayFound_of_step (r := r) hlookup hretry hpc (by rw [hbkey]; exact hfind)
  obtain ⟨b'', hb'', _, hphase⟩ := foundPhase_of_run hfs hfound
  cases hb''.symm.trans hp
  rw [hanswer] at hphase
  cases hphase with
  | answered =>
      rw [← survivesColumn_iff, ← hid]
      exact ⟨replay_iff_survivesColumn hbbody hcolumn,
        conflict_iff_not_survivesColumn hbbody hcolumn, Iff.rfl⟩

/-- A submission of a text under the key of the samples. -/
def keyedSubmission (text : JsString) : ServiceEvent :=
  .spawn (.submit
    { user := sampleUser
      idempotencyKey := some (.single "key")
      body := some (.obj [("text", .str text)]) })

/-- A submission up to its answer 202, and the start of its retry. -/
def retryEvents (text : JsString) : List ServiceEvent :=
  keyedSubmission text ::
    (handlerEvents 0 (.findReplay :: (insertEvents sampleJob ++ enqueueEvents)) ++
      [keyedSubmission text])

/-- The first submission is answered with the sample job, and its retry is about to look
its row up. -/
def retryReady (text : JsString) (s : Service) : Bool :=
  match (s.procs[0]? : Option Proc), (s.procs[1]? : Option Proc) with
  | some (.handler a), some (.handler b) =>
      decide (a.pc = .answered (sampleAnswer 202)) && decide (a.key = some "key") &&
        decide (b.pc = .replaying) && decide (b.user = a.user) &&
          decide (b.key = some "key") &&
            decide ((validate submitSchema a.body).toOption = some text) &&
              decide ((validate submitSchema b.body).toOption = some text)
  | _, _ => false

theorem ok_of_toOption
    {ε α : Type} {x : Except ε α} {a : α}
    (h : x.toOption = some a) :
    x = .ok a := by
  cases x with
  | error => cases h
  | ok b =>
      cases h
      rfl

/-- The retry of one Bengali letter is answered with the same job, and accordingly its
text is well formed. -/
theorem retry_answered_iff_wellFormed_letter :
    ∃ (s s₁ t : Service) (fs : List ServiceEvent),
      ServiceRun sampleDeps Machine.anyStep (retryEvents [0x0995]) s ∧
        (service sampleDeps).machine.step s (.act 1 (.handler .findReplay)) = some s₁ ∧
          Machine.Run (service sampleDeps).machine Machine.anyStep s₁ fs t ∧
            answer? t 1 = some (sampleAnswer 200) ∧ WellFormed [0x0995] := by
  have hexec : ((service sampleDeps).machine.exec (fun _ _ => true) Service.initial
      (retryEvents [0x0995])).any
      (fun s => retryReady [0x0995] s &&
        ((service sampleDeps).machine.step s (.act 1 (.handler .findReplay))).any fun s₁ =>
          ((service sampleDeps).machine.exec (fun _ _ => true) s₁
            (handlerEvents 1 [.answerReplay])).any fun t =>
              decide (answer? t 1 = some (sampleAnswer 200))) = true := by
    decide +kernel
  obtain ⟨s, hrun, hs⟩ := Machine.exists_anyRun_of_exec hexec
  obtain ⟨hready, hrest⟩ := (Bool.and_eq_true _ _).mp hs
  obtain ⟨s₁, hlookup, hfs⟩ := (Option.any_eq_true _ _).mp hrest
  obtain ⟨t, hfs, ht⟩ := Machine.exists_anyRun_of_exec hfs
  have hanswer := of_decide_eq_true ht
  obtain ⟨b', hp, hpc'⟩ := answered_of_answer? hanswer
  unfold retryReady at hready
  split at hready
  · next a b ha hb =>
      simp only [Bool.and_eq_true, decide_eq_true_eq] at hready
      obtain ⟨⟨⟨⟨⟨⟨hapc, hakey⟩, hpc⟩, huser⟩, hbkey⟩, habody⟩, hbbody⟩ := hready
      have hiff := retry_answered_iff_wellFormed hrun ha hapc hakey (ok_of_toOption habody)
        hb hpc huser hbkey (ok_of_toOption hbbody) hlookup hfs hp hpc'
      exact ⟨s, s₁, t, _, hrun, hlookup, hfs, hanswer, hiff.1.mp ⟨_, rfl, rfl⟩⟩
  · cases hready

/-- A Bengali letter and an unpaired surrogate are accepted; the retry is a conflict,
and the column gives another text back. -/
theorem retry_conflicts_with_itself :
    validateTtsText [0x0995, 0xD800] sampleDeps.config.TTS_MAX_TEXT_LENGTH = .ok () ∧
      fromColumn (toColumn [0x0995, 0xD800]) ≠ [0x0995, 0xD800] ∧
      ∃ s s₁ t, ServiceRun sampleDeps Machine.anyStep (retryEvents [0x0995, 0xD800]) s ∧
        retryReady [0x0995, 0xD800] s = true ∧
          (service sampleDeps).machine.step s (.act 1 (.handler .findReplay)) = some s₁ ∧
            Machine.Run (service sampleDeps).machine Machine.anyStep s₁
              (handlerEvents 1 [.answerReplay]) t ∧
              answer? t 1 = some (errorHandler (.domain .idempotencyConflict)) := by
  refine ⟨by decide +kernel, by decide +kernel, ?_⟩
  have hexec : ((service sampleDeps).machine.exec (fun _ _ => true) Service.initial
      (retryEvents [0x0995, 0xD800])).any
      (fun s => retryReady [0x0995, 0xD800] s &&
        ((service sampleDeps).machine.step s (.act 1 (.handler .findReplay))).any fun s₁ =>
          ((service sampleDeps).machine.exec (fun _ _ => true) s₁
            (handlerEvents 1 [.answerReplay])).any fun t =>
              decide (answer? t 1 = some (errorHandler (.domain .idempotencyConflict)))) =
      true := by
    decide +kernel
  obtain ⟨s, hrun, hs⟩ := Machine.exists_anyRun_of_exec hexec
  obtain ⟨hready, hrest⟩ := (Bool.and_eq_true _ _).mp hs
  obtain ⟨s₁, hlookup, hfs⟩ := (Option.any_eq_true _ _).mp hrest
  obtain ⟨t, hfs, ht⟩ := Machine.exists_anyRun_of_exec hfs
  exact ⟨s, s₁, t, hrun, hready, hlookup, hfs, of_decide_eq_true ht⟩

end Retry

end BengaliTts
