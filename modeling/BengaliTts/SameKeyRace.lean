import BengaliTts.Admission

/-!
# The loser of a race under one key

Two submissions with the same key and the same text both miss the replay lookup;
one of them commits its row.  The other one takes the user's lock afterwards and
goes through the gates *before* it reaches the unique index, so it is answered
from the winner's row only if both gates let it pass.  The lookup after the
unique violation then compares its text with what the column gives back.

Main result:
* `loser_answered_from_winner`: while no dependency fails, the loser is answered
  200 with the winner's job exactly when, at its own checks, its user is below
  the pending cap and the queue is below its capacity, and the text comes back
  from the column unchanged.
-/

namespace BengaliTts

open Lib

section Statements

/-- No call of a submission to a store raises, and no `queue.add` fails. -/
def NoDependencyFails (_ : Service) : ServiceEvent → Prop
  | .act _ (.handler e) => e ≠ .fault ∧ e ≠ .addRaises ∧ e ≠ .commitReplyLost
  | _ => True

instance : ∀ (s : Service) (e : ServiceEvent), Decidable (NoDependencyFails s e)
  | _, .spawn _ => isTrue trivial
  | _, .act _ (.handler e) => inferInstanceAs 
      (Decidable (e ≠ .fault ∧ e ≠ .addRaises ∧ e ≠ .commitReplyLost))
  | _, .act _ (.call _) => isTrue trivial
  | _, .env _ => isTrue trivial

/-- The gate that a step of a user's submission checks, if any, is open. -/
def GateOpen (d : Deps) (w : World) (user : Uuid) (e : HandlerEvent) : Prop :=
  (e = .count → pendingCount w.jobs user < d.config.TTS_PENDING_CAP) ∧
    (e = .readDepth → queueDepth w < d.config.TTS_QUEUE_CAPACITY)

/-- Submission `i` is let through by the gate it checks in this step, if any. -/
def PassesGates (d : Deps) (i : Nat) (s : Service) : ServiceEvent → Prop
  | .act j (.handler e) =>
      j = i → ∀ h, s.procs[i]? = some (.handler h) → GateOpen d s.world h.user e
  | _ => True

end Statements

section Phases

variable {d : Deps} {i : Nat} {w w' : World}

/-- What the loser needs of the winner's row while it runs. -/
structure WinnerStands (w : World) (user : Uuid) (key : Option String) (r : Job)
    (text : JsString) : Prop where
  keyed : key.isSome = true
  lookup : ∃ row, key.bind (findByKey w.jobs user) = some row ∧ row.id = r.id ∧
    row.inputText = r.inputText
  noNul : hasNul text = false

/-- The loser while every gate let it pass. -/
inductive LoserPhase (d : Deps) (body : Option Json) (r : Job) (text : JsString) :
    HandlerPc → Prop
  | locked : LoserPhase d body r text (.locked text)
  | counted : LoserPhase d body r text (.counted text)
  | depthChecked : LoserPhase d body r text (.depthChecked text)
  | aborting : LoserPhase d body r text (.aborting .uniqueViolation)
  | fallback : LoserPhase d body r text .fallback
  | found (row : Job) (hid : row.id = r.id) (htext : row.inputText = r.inputText) :
      LoserPhase d body r text (.fallbackFound row)
  | answered (row : Job) (hid : row.id = r.id) (htext : row.inputText = r.inputText) :
      LoserPhase d body r text (.answered (respondForIdempotentRetry d row body))
  | stopped : LoserPhase d body r text .stopped

/-- The loser after a gate refused it. -/
inductive RefusedPhase : HandlerPc → Prop
  | aborting (error : DomainError) : RefusedPhase (.aborting (.domain error))
  | answered (error : DomainError) : RefusedPhase (.answered (errorHandler (.domain error)))
  | stopped : RefusedPhase .stopped

theorem gateOpen_of_ne
    {user : Uuid} {e : HandlerEvent}
    (hne : e ≠ .count ∧ e ≠ .readDepth) :
    GateOpen d w user e :=
  ⟨fun he => absurd he hne.1, fun he => absurd he hne.2⟩

/-- The winner's row makes the index reject the loser's INSERT. -/
theorem violatesUnique_of_winnerStands
    {h : Handler} {r : Job} {text : JsString}
    (hwin : WinnerStands w h.user h.key r text)
    (id : Uuid) (createdAt : Nat) :
    violatesUnique w.jobs (insertedRow h text id createdAt) = true := by
  obtain ⟨row, hrow, _⟩ := hwin.lookup
  obtain ⟨k, hk, hfind⟩ := Option.bind_eq_some_iff.mp hrow
  simp [violatesUnique, insertedRow, newJob, hk, hfind]

/-- The loser's steps: it goes on while the gates are open, and is refused by the
first one that is closed. -/
theorem loserPhase_step
    {h h' : Handler} {pc : HandlerPc} {e : HandlerEvent} {r : Job} {text : JsString}
    (hs : HandlerStep d i w h pc e w' h')
    (hne : e ≠ .fault)
    (hwin : WinnerStands w h.user h.key r text)
    (hphase : LoserPhase d h.body r text pc) :
    (LoserPhase d h.body r text h'.pc ∧ GateOpen d w h.user e) ∨
      (RefusedPhase h'.pc ∧ ¬ GateOpen d w h.user e) := by
  obtain ⟨found, hfound, hfid, hftext⟩ := hwin.lookup
  cases hphase with
  | locked =>
      cases hs with
      | move hm =>
          cases hm with
          | pendingCap _ hcap =>
              exact Or.inr ⟨.aborting _, fun hopen => absurd (hopen.1 rfl) (not_lt.mpr hcap)⟩
          | counted _ hcap => exact Or.inl ⟨.counted, fun _ => hcap, by simp⟩
          | fault => exact absurd rfl hne
      | stop => exact Or.inl ⟨.stopped, gateOpen_of_ne (by simp)⟩
  | counted =>
      cases hs with
      | move hm =>
          cases hm with
          | queueFull _ hdepth =>
              exact Or.inr ⟨.aborting _, fun hopen => absurd (hopen.2 rfl) (not_lt.mpr hdepth)⟩
          | depthChecked _ hdepth => exact Or.inl ⟨.depthChecked, by simp, fun _ => hdepth⟩
          | fault => exact absurd rfl hne
      | stop => exact Or.inl ⟨.stopped, gateOpen_of_ne (by simp)⟩
  | depthChecked =>
      cases hs with
      | move hm =>
          cases hm with
          | rejectNul _ _ _ hnul => simp [hwin.noNul] at hnul
          | rejectDuplicate => exact Or.inl ⟨.aborting, gateOpen_of_ne (by simp)⟩
          | fault => exact absurd rfl hne
      | insert _ id createdAt _ _ hunique =>
          simp [violatesUnique_of_winnerStands hwin id createdAt] at hunique
      | stop => exact Or.inl ⟨.stopped, gateOpen_of_ne (by simp)⟩
  | aborting =>
      cases hs with
      | move hm =>
          cases hm with
          | fault => exact absurd rfl hne
      | rollback =>
          refine Or.inl ⟨?_, gateOpen_of_ne (by simp)⟩
          simp only [afterRollback, hwin.keyed, and_self, if_true]
          exact .fallback
      | stop => exact Or.inl ⟨.stopped, gateOpen_of_ne (by simp)⟩
  | fallback =>
      cases hs with
      | move hm =>
          cases hm with
          | winnerFound hrow =>
              cases hfound.symm.trans hrow
              exact Or.inl ⟨.found _ hfid hftext, gateOpen_of_ne (by simp)⟩
          | winnerMissing hrow => cases hfound.symm.trans hrow
          | fault => exact absurd rfl hne
      | stop => exact Or.inl ⟨.stopped, gateOpen_of_ne (by simp)⟩
  | found row hid htext =>
      cases hs with
      | move hm =>
          cases hm with
          | answerWinner => exact Or.inl ⟨.answered row hid htext, gateOpen_of_ne (by simp)⟩
          | fault => exact absurd rfl hne
      | stop => exact Or.inl ⟨.stopped, gateOpen_of_ne (by simp)⟩
  | answered =>
      cases hs with
      | move hm =>
          cases hm with
          | fault => exact absurd rfl hne
      | stop hr => cases hr
  | stopped =>
      cases hs with
      | move hm =>
          cases hm with
          | fault => exact absurd rfl hne
      | stop hr => cases hr

theorem refusedPhase_step
    {h h' : Handler} {pc : HandlerPc} {e : HandlerEvent}
    (hs : HandlerStep d i w h pc e w' h')
    (hne : e ≠ .fault)
    (hphase : RefusedPhase pc) :
    RefusedPhase h'.pc := by
  cases hphase with
  | aborting error =>
      cases hs with
      | move hm =>
          cases hm with
          | fault => exact absurd rfl hne
      | rollback =>
          rcases afterRollback_cases h (.domain error) with ⟨_, hthrown, _⟩ | hr
          · cases hthrown
          · rw [hr]
            exact .answered error
      | stop => exact .stopped
  | answered =>
      cases hs with
      | move hm =>
          cases hm with
          | fault => exact absurd rfl hne
      | stop hr => cases hr
  | stopped =>
      cases hs with
      | move hm =>
          cases hm with
          | fault => exact absurd rfl hne
      | stop hr => cases hr

/-- In these phases a step changes nothing of the loser but its place. -/
theorem sameHandler_of_step
    {h h' : Handler} {pc : HandlerPc} {e : HandlerEvent} {r : Job} {text : JsString}
    (hs : HandlerStep d i w h pc e w' h')
    (hphase : LoserPhase d h.body r text pc ∨ RefusedPhase pc) :
    h' = { h with pc := h'.pc } := by
  cases hs with
  | commit row =>
      rcases hphase with hphase | hphase <;> cases hphase
  | commitReplyLost row =>
      rcases hphase with hphase | hphase <;> cases hphase
  | _ => rfl

end Phases

section Runs

variable {d : Deps} {i : Nat}

theorem addSucceeds_of_noDependencyFails
    (s : Service) (e : ServiceEvent)
    (h : NoDependencyFails s e) :
    AddSucceeds s e := by
  cases e with
  | spawn => trivial
  | act j a =>
      cases a with
      | handler e => exact h.2
      | call e => trivial
  | env => trivial

/-- The winner's row stands for the rest of the run and is the one that the
loser's lookups find. -/
theorem winnerStands_of_run
    {es : List ServiceEvent} {s : Service} {k : Nat} {r : Job} {user : Uuid} {key : String}
    {text : JsString}
    (hrun : ServiceRun d NoDependencyFails es s)
    (hborn : (k, r) ∈ s.world.born)
    (hcommitted : r.id ∈ s.world.everCommitted)
    (huser : r.userId = user)
    (hkey : r.idempotencyKey = some key)
    (hnul : hasNul text = false) :
    WinnerStands s.world user (some key) r text := by
  have hadd := Machine.run_weaken addSucceeds_of_noDependencyFails hrun
  obtain ⟨q, hq, hid⟩ := hasRow_of_committed hadd _ hcommitted
  have hqr := sameSubmission_of_born (serviceOk_of_run hrun).1 hborn (SameSubmission.refl r) hq
    hid.symm
  have hfind := findByKey_of_mem (pairUnique_of_run hrun) hq (hqr.userId.symm.trans huser)
    (hqr.idempotencyKey.symm.trans hkey)
  exact ⟨rfl, ⟨q, hfind, hid, hqr.inputText.symm⟩, hnul⟩

/-- Where the loser stands after the events `fs` from `s₁`, by whether the gates
let it through so far. -/
def RaceState (d : Deps) (i : Nat) (h : Handler) (r : Job) (text : JsString)
    (s₁ : Service) (fs : List ServiceEvent) (u : Service) : Prop :=
  ∃ pc, u.procs[i]? = some (.handler { h with pc := pc }) ∧
    ((LoserPhase d h.body r text pc ∧
        Machine.Run (service d).machine (PassesGates d i) s₁ fs u) ∨
      (RefusedPhase pc ∧ ¬ Machine.Run (service d).machine (PassesGates d i) s₁ fs u))

/-- A step that is not the loser's leaves it where it stands. -/
theorem raceState_of_other
    {h : Handler} {r : Job} {text : JsString} {s₁ u v : Service} {fs : List ServiceEvent}
    {e : ServiceEvent} {G : Service → ServiceEvent → Prop}
    (hrun : Machine.Run (service d).machine G s₁ fs u)
    (hs : (service d).machine.step u e = some v)
    (hpass : PassesGates d i u e)
    (hsame : ∀ p, u.procs[i]? = some p → v.procs[i]? = some p)
    (hrace : RaceState d i h r text s₁ fs u) :
    RaceState d i h r text s₁ (fs ++ [e]) v := by
  have hiff := Machine.run_snoc_iff (H := PassesGates d i) hrun hs
  obtain ⟨pc, hp, hphase⟩ := hrace
  refine ⟨pc, hsame _ hp, ?_⟩
  rcases hphase with ⟨hloser, hopen⟩ | ⟨hrefused, hclosed⟩
  · exact Or.inl ⟨hloser, hiff.mpr ⟨hopen, hpass⟩⟩
  · exact Or.inr ⟨hrefused, fun hlong => hclosed (hiff.mp hlong).1⟩

/-- The loser's own step. -/
theorem raceState_of_own
    {h h' : Handler} {r : Job} {text : JsString} {s₁ u : Service} {fs : List ServiceEvent}
    {pc : HandlerPc} {e : HandlerEvent} {w : World} {G : Service → ServiceEvent → Prop}
    (hrun : Machine.Run (service d).machine G s₁ fs u)
    (hs : (service d).machine.step u (.act i (.handler e)) =
      some ⟨w, u.procs.set i (.handler h')⟩)
    (hne : e ≠ .fault)
    (hp : u.procs[i]? = some (.handler { h with pc := pc }))
    (hstep : HandlerStep d i u.world { h with pc := pc } pc e w h')
    (hwin : WinnerStands u.world h.user h.key r text)
    (hphase : (LoserPhase d h.body r text pc ∧
        Machine.Run (service d).machine (PassesGates d i) s₁ fs u) ∨
      (RefusedPhase pc ∧ ¬ Machine.Run (service d).machine (PassesGates d i) s₁ fs u)) :
    RaceState d i h r text s₁ (fs ++ [.act i (.handler e)]) ⟨w, u.procs.set i (.handler h')⟩ := by
  have hiff := Machine.run_snoc_iff (H := PassesGates d i) hrun hs
  have hsame : h' = { h with pc := h'.pc } :=
    sameHandler_of_step (h := { h with pc := pc }) hstep (hphase.imp And.left And.left)
  refine ⟨h'.pc, ?_, ?_⟩
  · rw [← hsame]
    exact getElem?_set_self_of_some hp
  · rcases hphase with ⟨hloser, hopen⟩ | ⟨hrefused, hclosed⟩
    · rcases loserPhase_step hstep hne hwin hloser with ⟨hnext, hgate⟩ | ⟨hnext, hgate⟩
      · left
        refine ⟨hnext, hiff.mpr ⟨hopen, ?_⟩⟩
        intro _ a ha
        cases hp.symm.trans ha
        exact hgate
      · right
        refine ⟨hnext, fun hlong => hgate ?_⟩
        exact (hiff.mp hlong).2 rfl _ hp
    · exact Or.inr ⟨refusedPhase_step hstep hne hrefused, fun hlong => hclosed (hiff.mp hlong).1⟩

theorem raceState_of_run
    {h : Handler} {r : Job} {text : JsString} {s₁ t : Service} {es fs : List ServiceEvent}
    {k : Nat} {key : String}
    (hrun : ServiceRun d NoDependencyFails es s₁)
    (hfs : Machine.Run (service d).machine NoDependencyFails s₁ fs t)
    (hborn : (k, r) ∈ s₁.world.born)
    (hcommitted : r.id ∈ s₁.world.everCommitted)
    (huser : r.userId = h.user)
    (hkey : h.key = some key)
    (hrkey : r.idempotencyKey = some key)
    (hnul : hasNul text = false)
    (hstart : s₁.procs[i]? = some (.handler { h with pc := .locked text })) :
    RaceState d i h r text s₁ fs t := by
  induction hfs with
  | nil => exact ⟨_, hstart, Or.inl ⟨.locked, Machine.Run.nil s₁⟩⟩
  | @snoc u v fs e hbefore hG hs ih =>
      have hu := Machine.run_append hrun hbefore
      have hgrows := grows_of_run hrun hbefore
      have hwin : WinnerStands u.world h.user h.key r text := by
        rw [hkey]
        exact winnerStands_of_run hu (hgrows.born _ hborn) (hgrows.committed _ hcommitted)
          huser hrkey hnul
      cases serviceStep_of_step hs with
      | spawn =>
          exact raceState_of_other hbefore hs trivial (fun p hp => getElem?_spawn_of_some hp) ih
      | @handler j a a' e w hp hstep =>
          by_cases hji : j = i
          · subst hji
            obtain ⟨pc, hpi, hphase⟩ := ih
            cases hp.symm.trans hpi
            exact raceState_of_own hbefore hs hG.1 hp hstep hwin hphase
          · refine raceState_of_other hbefore hs (fun hij => absurd hij hji) ?_ ih
            intro p hp'
            rw [List.getElem?_set_ne hji]
            exact hp'
      | @call j _ _ _ _ hp =>
          have hji : j ≠ i := by
            rintro rfl
            obtain ⟨pc, hpi, _⟩ := ih
            cases hp.symm.trans hpi
          refine raceState_of_other hbefore hs trivial ?_ ih
          intro p hp'
          rw [List.getElem?_set_ne hji]
          exact hp'
      | env => exact raceState_of_other hbefore hs trivial (fun p hp => hp) ih

/-- The lock step leads from `opened` to `locked` and touches no row. -/
theorem locked_of_step
    {s t : Service} {h : Handler} {text : JsString}
    (hs : (service d).machine.step s (.act i (.handler .lock)) = some t)
    (hp : s.procs[i]? = some (.handler h))
    (hpc : h.pc = .opened text) :
    t.procs[i]? = some (.handler { h with pc := .locked text }) ∧
      t.world.born = s.world.born ∧ t.world.everCommitted = s.world.everCommitted := by
  cases serviceStep_of_step hs with
  | handler hp' hstep =>
      cases hp'.symm.trans hp
      rw [hpc] at hstep
      cases hstep with
      | lock => exact ⟨getElem?_set_self_of_some hp, rfl, rfl⟩
      | move hm => cases hm

/-- A retry with the text of a row is answered from it exactly if the column
gives that text back. -/
theorem replay_iff_survivesColumn
    {body : Option Json} {text : JsString} {row : Job}
    (hvalid : validate submitSchema body = .ok text)
    (hcolumn : row.inputText = toColumn text) :
    (∃ answer, respondForIdempotentRetry d row body = .success 200 answer ∧
        answer.jobId = row.id) ↔
      SurvivesColumn text := by
  rcases respondForIdempotentRetry_cases d row body with
    ⟨error, hv, _⟩ | ⟨text', hv, hne, hresp⟩ | ⟨text', hv, heq, hresp⟩
  · cases hvalid.symm.trans hv
  · cases hvalid.symm.trans hv
    rw [hresp]
    constructor
    · rintro ⟨answer, hanswer, _⟩
      exact absurd hanswer (errorHandler_ne_success _ _ _)
    · intro hsurvives
      rw [hcolumn] at hne
      exact absurd hsurvives.symm hne
  · cases hvalid.symm.trans hv
    rw [hresp]
    constructor
    · intro _
      rw [hcolumn] at heq
      exact heq.symm
    · intro _
      exact ⟨_, rfl, rfl⟩

/--
**The loser is answered from the winner's row** exactly when the gates let it
through.  Submission `k` has committed the row `r`; submission `i` of the same
user carries the same key and the same text and takes the user's lock only now.
While no dependency fails, it is answered 200 with the job of `r` if and only if
in the rest of the run it passes both gates, and its text is the one that the
column gives back.
-/
theorem loser_answered_from_winner
    {es fs : List ServiceEvent} {s₀ s₁ t : Service} {k : Nat} {a h h' : Handler} {r : Job}
    {key : String} {text : JsString} {response : SubmitResponse}
    (hrun : ServiceRun d NoDependencyFails es s₀)
    (hwinner : s₀.procs[k]? = some (.handler a))
    (hjob : a.job = some r)
    (hloser : s₀.procs[i]? = some (.handler h))
    (hpc : h.pc = .opened text)
    (huser : a.user = h.user)
    (hkey : h.key = some key)
    (hakey : a.key = some key)
    (hbody : validate submitSchema a.body = validate submitSchema h.body)
    (hlock : (service d).machine.step s₀ (.act i (.handler .lock)) = some s₁)
    (hfs : Machine.Run (service d).machine NoDependencyFails s₁ fs t)
    (hp : t.procs[i]? = some (.handler h'))
    (hanswer : h'.pc = .answered response) :
    (∃ body, response = .success 200 body ∧ body.jobId = r.id) ↔
      Machine.Run (service d).machine (PassesGates d i) s₁ fs t ∧ SurvivesColumn text := by
  have hok := serviceOk_of_run hrun
  have haok : HandlerOk d k s₀.world a := hok.2 k _ hwinner
  have hhok : HandlerOk d i s₀.world h := hok.2 i _ hloser
  obtain ⟨hborn, ⟨text', id, createdAt, hatext, _, hnul, hrow⟩, hcommitted⟩ := haok.own r hjob
  have htext := (hhok.text text (by rw [hpc]; rfl)).1
  have hsame : text' = text := by
    have heq := hatext.symm.trans (hbody.trans htext)
    exact Except.ok.inj heq
  subst hsame
  have hcolumn : r.inputText = toColumn text' := by
    rw [hrow]
    rfl
  obtain ⟨hlocked, hsameBorn, hsameCommitted⟩ := locked_of_step hlock hloser hpc
  have hruns := Machine.Run.snoc hrun (by simp [NoDependencyFails]) hlock
  obtain ⟨pc, hpi, hphase⟩ := raceState_of_run hruns hfs (hsameBorn ▸ hborn)
    (hsameCommitted ▸ hcommitted) (by rw [hrow]; exact huser) hkey (by rw [hrow]; exact hakey)
    hnul hlocked
  cases hpi.symm.trans hp
  dsimp only at hanswer
  subst hanswer
  rcases hphase with ⟨hphase, hopen⟩ | ⟨hphase, hclosed⟩
  · cases hphase with
    | answered row hid hrtext =>
        have hiff := replay_iff_survivesColumn (d := d) htext (hrtext.trans hcolumn)
        rw [← hid, hiff]
        exact ⟨fun hsurvives => ⟨hopen, hsurvives⟩, And.right⟩
  · cases hphase with
    | answered error =>
        constructor
        · rintro ⟨body, hbody, _⟩
          exact absurd hbody (errorHandler_ne_success _ _ _)
        · rintro ⟨hopen, _⟩
          exact absurd hopen hclosed

/-- Up to the loser's lock: both submissions miss the replay lookup, and the
first one commits its row and enqueues it. -/
def raceEvents : List ServiceEvent :=
  sampleSubmission (some "key") :: sampleSubmission (some "key") ::
    (handlerEvents 0 [.findReplay] ++
      handlerEvents 1 [.findReplay, .takeToken 1 0, .beginTx] ++
        handlerEvents 0 (insertEvents sampleJob ++ enqueueEvents))

/-- The row of the winner. -/
def racedRow : Job :=
  newJob sampleJob sampleUser (toColumn [0x0995]) (some "key") 0

/-- The first submission has committed its row, the second one is about to take
the lock. -/
def raceReady (s : Service) : Bool :=
  match (s.procs[0]? : Option Proc), (s.procs[1]? : Option Proc) with
  | some (.handler a), some (.handler h) =>
      decide (a.job = some racedRow) && decide (h.pc = .opened [0x0995]) &&
        decide (a.user = h.user) && decide (h.key = some "key") &&
          decide (a.key = some "key") &&
            decide ((validate submitSchema a.body).toOption =
              (validate submitSchema h.body).toOption) &&
              ((validate submitSchema a.body).toOption.isSome)
  | _, _ => false

/-- With room for another job the loser is answered from the winner's row, so
the rest of its run has passed the gates. -/
theorem loser_answered_from_winner_room :
    ∃ (s₀ s₁ t : Service) (fs : List ServiceEvent),
      ServiceRun sampleDeps NoDependencyFails raceEvents s₀ ∧
        (service sampleDeps).machine.step s₀ (.act 1 (.handler .lock)) = some s₁ ∧
          Machine.Run (service sampleDeps).machine NoDependencyFails s₁ fs t ∧
            answer? t 1 = some (sampleAnswer 200) ∧
              Machine.Run (service sampleDeps).machine (PassesGates sampleDeps 1) s₁ fs t ∧
                SurvivesColumn [0x0995] := by
  have hexec : ((service sampleDeps).machine.exec (fun s e => decide (NoDependencyFails s e))
      Service.initial raceEvents).any
      (fun s₀ => raceReady s₀ &&
        ((service sampleDeps).machine.step s₀ (.act 1 (.handler .lock))).any fun s₁ =>
          ((service sampleDeps).machine.exec (fun s e => decide (NoDependencyFails s e)) s₁
            (handlerEvents 1 [.count, .readDepth, .create otherJob 0, .rollback, .findWinner,
              .answerWinner])).any fun t => decide (answer? t 1 = some (sampleAnswer 200))) =
      true := by
    decide +kernel
  obtain ⟨s₀, hrun, hs₀⟩ := Machine.exists_run_of_exec (G := NoDependencyFails)
    (fun _ _ hG => of_decide_eq_true hG) hexec
  obtain ⟨hready, hrest⟩ := (Bool.and_eq_true _ _).mp hs₀
  obtain ⟨s₁, hlock, hfs⟩ := (Option.any_eq_true _ _).mp hrest
  obtain ⟨t, hfs, ht⟩ := Machine.exists_run_of_exec (G := NoDependencyFails)
    (fun _ _ hG => of_decide_eq_true hG) hfs
  have hanswer := of_decide_eq_true ht
  obtain ⟨h', hp, hpc'⟩ := answered_of_answer? hanswer
  unfold raceReady at hready
  split at hready
  · next a h ha hh =>
      simp only [Bool.and_eq_true, decide_eq_true_eq] at hready
      obtain ⟨⟨⟨⟨⟨⟨hjob, hpc⟩, huser⟩, hkey⟩, hakey⟩, hbody⟩, hsome⟩ := hready
      have hbodies : validate submitSchema a.body = validate submitSchema h.body := by
        cases hva : validate submitSchema a.body with
        | error => simp [hva, Except.toOption] at hsome
        | ok text =>
            cases hvh : validate submitSchema h.body with
            | error => simp [hva, hvh, Except.toOption] at hbody
            | ok text' =>
                simp only [hva, hvh, Except.toOption, Option.some.injEq] at hbody
                rw [hbody]
      have hiff := loser_answered_from_winner hrun ha hjob hh hpc huser hkey hakey hbodies hlock
        hfs hp hpc'
      obtain ⟨hpass, hsurvives⟩ := hiff.mp ⟨_, rfl, rfl⟩
      exact ⟨s₀, s₁, t, _, hrun, hlock, hfs, hanswer, hpass, hsurvives⟩
  · cases hready

/-- With a cap of one the winner's row fills the cap, and the loser is refused. -/
theorem loser_refused_by_cap :
    ∃ (es fs : List ServiceEvent) (s₀ s₁ t : Service),
      ServiceRun tightDeps NoDependencyFails es s₀ ∧ racedRow ∈ s₀.world.jobs ∧
        (service tightDeps).machine.step s₀ (.act 1 (.handler .lock)) = some s₁ ∧
          Machine.Run (service tightDeps).machine NoDependencyFails s₁ fs t ∧
            answer? t 1 = some (errorHandler (.domain .pendingCapExceeded)) := by
  have hexec : ((service tightDeps).machine.exec (fun s e => decide (NoDependencyFails s e))
      Service.initial raceEvents).any
      (fun s₀ => decide (racedRow ∈ s₀.world.jobs) &&
        ((service tightDeps).machine.step s₀ (.act 1 (.handler .lock))).any fun s₁ =>
          ((service tightDeps).machine.exec (fun s e => decide (NoDependencyFails s e)) s₁
            (handlerEvents 1 [.count, .rollback])).any fun t =>
              decide (answer? t 1 = some (errorHandler (.domain .pendingCapExceeded)))) =
      true := by
    decide +kernel
  obtain ⟨s₀, hrun, hs₀⟩ := Machine.exists_run_of_exec (G := NoDependencyFails)
    (fun _ _ hG => of_decide_eq_true hG) hexec
  obtain ⟨hrow, hrest⟩ := (Bool.and_eq_true _ _).mp hs₀
  obtain ⟨s₁, hlock, hfs⟩ := (Option.any_eq_true _ _).mp hrest
  obtain ⟨t, hfs, ht⟩ := Machine.exists_run_of_exec (G := NoDependencyFails)
    (fun _ _ hG => of_decide_eq_true hG) hfs
  exact ⟨_, _, s₀, s₁, t, hrun, of_decide_eq_true hrow, hlock, hfs, of_decide_eq_true ht⟩

end Runs

end BengaliTts
