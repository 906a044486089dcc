import BengaliTts.Service

/-!
# The pending cap

A submission counts its user's unfinished jobs and inserts one more in the same
transaction, under the user's advisory lock.  The row it inserts is seen by
nobody before the commit, and nothing but a commit makes more jobs of a user
pending: status writes never leave a terminal status, and a DELETE only removes
rows.

The invariant says that a submission between its count and its commit still has
room for one job.  Another submission of the same user cannot take that room,
because it would hold the same lock.

Main result:
* `pending_cap_exact`: no user ever has more unfinished jobs than the cap.
-/

namespace BengaliTts

open Lib

section Counting

variable {d : Deps} {i : Nat} {w w' : World}

/-- Between the count and the commit. -/
def HandlerPc.passedCap : HandlerPc → Bool
  | .counted _ => true
  | .depthChecked _ => true
  | .inserted _ => true
  | _ => false

theorem holdsLock_of_passedCap
    {pc : HandlerPc}
    (h : pc.passedCap = true) :
    pc.holdsLock = true := by
  cases pc <;> first | rfl | cases h

theorem pendingCount_cons
    (row : Job) (jobs : List Job) (user : Uuid) :
    pendingCount (row :: jobs) user ≤ pendingCount jobs user + 1 := by
  unfold pendingCount
  rw [List.countP_cons]
  split <;> omega

theorem pendingCount_cons_of_ne
    {row : Job} {user : Uuid}
    (jobs : List Job)
    (hne : row.userId ≠ user) :
    pendingCount (row :: jobs) user = pendingCount jobs user := by
  unfold pendingCount
  rw [List.countP_cons]
  simp [isPending, hne]

/-- A call never makes more jobs pending. -/
theorem pendingCount_of_callStep
    {job : QueueJob} {pc pc' : CallPc} {e : CallEvent}
    (hs : CallStep d w job pc e w' pc')
    (user : Uuid) :
    pendingCount w'.jobs user ≤ pendingCount w.jobs user := by
  cases hs with
  | quiet => exact le_rfl
  | write hf => exact pendingCount_guardedUpdate_le hf.statusWrite w.jobs user
  | synthesizeReturns => exact le_rfl
  | uploadWav => exact le_rfl
  | uploadWavRaises => exact le_rfl

/-- A submission makes at most its own user's job pending, and only by its
commit, which needs the room it found at its count. -/
theorem pendingCount_of_handlerStep
    {h h' : Handler} {pc : HandlerPc} {e : HandlerEvent}
    (hs : HandlerStep d i w h pc e w' h')
    (hpc : h.pc = pc)
    (hok : HandlerOk d i w h)
    (user : Uuid) :
    pendingCount w'.jobs user ≤ pendingCount w.jobs user ∨
      (pc.passedCap = true ∧ user = h.user ∧
        pendingCount w'.jobs user ≤ pendingCount w.jobs user + 1) := by
  have hcommit : ∀ row, pc = .inserted row →
      pendingCount (row :: w.jobs) user ≤ pendingCount w.jobs user ∨
        (user = h.user ∧
          pendingCount (row :: w.jobs) user ≤ pendingCount w.jobs user + 1) := by
    intro row hrow
    obtain ⟨_, ⟨text, id, createdAt, _, _, _, rfl⟩, _⟩ := hok.staged row (hpc.trans hrow)
    by_cases huser : user = h.user
    · exact Or.inr ⟨huser, pendingCount_cons _ _ _⟩
    · exact Or.inl (pendingCount_cons_of_ne w.jobs (Ne.symm huser)).le
  cases hs with
  | move => exact Or.inl le_rfl
  | lock => exact Or.inl le_rfl
  | insert => exact Or.inl le_rfl
  | commit row => exact (hcommit row rfl).imp_right fun hmore => ⟨rfl, hmore⟩
  | commitReplyLost row => exact (hcommit row rfl).imp_right fun hmore => ⟨rfl, hmore⟩
  | rollback => exact Or.inl le_rfl
  | callAdd => exact Or.inl le_rfl
  | addTakesEffect => exact Or.inl le_rfl
  | deleteRow => exact Or.inl (countP_deleteWhere_le _ _ w.jobs)
  | stop => exact Or.inl le_rfl

/-- A submission gets past its count with room for one more job. -/
def HasRoom (d : Deps) (w : World) (h : Handler) : Prop :=
  h.pc.passedCap = true → pendingCount w.jobs h.user < d.config.TTS_PENDING_CAP

theorem hasRoom_of_handlerStep
    {h h' : Handler} {pc : HandlerPc} {e : HandlerEvent}
    (hs : HandlerStep d i w h pc e w' h')
    (hpc : h.pc = pc)
    (hroom : HasRoom d w h) :
    HasRoom d w' h' := by
  intro hpassed
  cases hs with
  | move hm =>
      cases hm
      case counted hcap => exact hcap
      case depthChecked => exact hroom (by rw [hpc]; rfl)
      case takeToken allowed retryAfterMs =>
          rcases afterToken_cases d h allowed retryAfterMs with
            ⟨_, _, ha⟩ | ⟨_, ha, _⟩
          · simp [ha, HandlerPc.passedCap] at hpassed
          · simp [ha, HandlerPc.passedCap] at hpassed
      case fault hf =>
          rcases afterFault_cases hf with rfl | rfl <;> cases hpassed
      all_goals cases hpassed
  | lock => cases hpassed
  | insert => exact hroom (by rw [hpc]; rfl)
  | commit => cases hpassed
  | commitReplyLost => cases hpassed
  | rollback thrown =>
      rcases afterRollback_cases h thrown with ⟨_, _, hr⟩ | hr
      · simp [hr, HandlerPc.passedCap] at hpassed
      · simp [hr, HandlerPc.passedCap] at hpassed
  | callAdd => cases hpassed
  | addTakesEffect => cases hpassed
  | deleteRow => cases hpassed
  | stop => cases hpassed

end Counting

section Runs

variable {d : Deps}

/-- No user has more unfinished jobs than the cap. -/
def CapKept (d : Deps) (w : World) : Prop :=
  ∀ user, pendingCount w.jobs user ≤ d.config.TTS_PENDING_CAP

def RoomOf (d : Deps) (w : World) : Proc → Prop
  | .handler h => HasRoom d w h
  | .call _ => True

/-- Two submissions that are both past their count are those of different users. -/
theorem user_ne_of_passedCap
    {w : World} {i j : Nat} {h k : Handler}
    (hij : i ≠ j)
    (hok : HandlerOk d i w h)
    (kok : HandlerOk d j w k)
    (hpassed : h.pc.passedCap = true)
    (kpassed : k.pc.passedCap = true) :
    k.user ≠ h.user := by
  intro huser
  have hlock := hok.lock (holdsLock_of_passedCap hpassed)
  have klock := kok.lock (holdsLock_of_passedCap kpassed)
  rw [huser, hlock] at klock
  exact hij (Option.some.inj klock)

theorem hasRoom_start
    (w : World) (r : SubmitRequest) :
    HasRoom d w (Handler.start r) := by
  intro hpassed
  unfold Handler.start at hpassed
  split at hpassed <;> cases hpassed

/-- The proof outline for the pending cap. -/
def capOutline (d : Deps) (G : Service → ServiceEvent → Prop) :
    Outline (service d) G (ServiceOk d) where
  inv := CapKept d
  assert := fun _ w p => RoomOf d w p
  spawn := by
    intro g r _ _
    cases r with
    | submit r => exact hasRoom_start _ r
    | deliver job => trivial
    | failedEvent job => trivial
  act := by
    intro g i a p p' w hK _ hann hp hact
    have hpok := hK.2 i p hp
    have hroom := hann.2 i p hp
    cases procStep_of_act hact with
    | handler hs =>
        refine ⟨?_, hasRoom_of_handlerStep hs rfl hroom⟩
        intro user
        rcases pendingCount_of_handlerStep hs rfl hpok user with hle | ⟨hpassed, huser, hle⟩
        · exact hle.trans (hann.1 user)
        · subst huser
          have hlt := hroom hpassed
          omega
    | call _ hs =>
        exact ⟨fun user => (pendingCount_of_callStep hs user).trans (hann.1 user), trivial⟩
  frame := by
    intro g i j a p p' q w hK _ hann hp hact hij hq
    have hqroom := hann.2 j q hq
    cases q with
    | call c => trivial
    | handler k =>
        intro kpassed
        have hlt := hqroom kpassed
        cases procStep_of_act hact with
        | handler hs =>
            rcases pendingCount_of_handlerStep hs rfl (hK.2 i _ hp) k.user with
              hle | ⟨hpassed, huser, _⟩
            · exact hle.trans_lt hlt
            · exact absurd huser
                (user_ne_of_passedCap hij (hK.2 i _ hp) (hK.2 j _ hq) hpassed kpassed)
        | call _ hs => exact (pendingCount_of_callStep hs k.user).trans_lt hlt
  env := by
    intro g b w _ _ hann henv
    cases b <;> cases henv <;> exact hann

/--
**The pending cap is exact.**  In every state of every run, with any number of
gateways and workers, retries, crashes and lost replies, no user has more than
`TTS_PENDING_CAP` jobs that are queued or active.
-/
theorem pending_cap_exact
    {es : List ServiceEvent} {s : Service}
    (h : ServiceRun d Machine.anyStep es s)
    (user : Uuid) :
    pendingCount s.world.jobs user ≤ d.config.TTS_PENDING_CAP := by
  refine ((capOutline d Machine.anyStep).run (fun _ _ hr => serviceOk_of_run hr) ?_ h).1 user
  refine ⟨?_, by simp [Service.initial]⟩
  intro user
  simp [Service.initial, World.empty, pendingCount]

/-- A user with a cap of one who has one queued job. -/
theorem pending_cap_exact_reached :
    ∃ (es : List ServiceEvent) (s : Service), ServiceRun tightDeps Machine.anyStep es s ∧
      pendingCount s.world.jobs sampleUser = 1 ∧ pendingCount s.world.jobs sampleUser ≤ 1 := by
  have hexec : ((service tightDeps).machine.exec (fun _ _ => true) Service.initial
      (sampleSubmission none :: handlerEvents 0 (insertEvents sampleJob))).any
      (fun s => decide (pendingCount s.world.jobs sampleUser = 1)) = true := by
    decide +kernel
  obtain ⟨s, hrun, hs⟩ := Machine.exists_anyRun_of_exec hexec
  exact ⟨_, s, hrun, by simpa using hs, pending_cap_exact hrun sampleUser⟩

end Runs

end BengaliTts
