import BengaliTts.ConnectionPool
import BengaliTts.Lib.Potential

/-!
# Submissions come to an end

Submissions wait for each other twice: for a connection of the pool, which a submission
in its transaction keeps while it waits for its user's advisory lock, and for that lock,
which users share when `hashtext` does not tell them apart.  A submission that holds a
lock has its connection and asks for nothing that another submission holds.

Main result:
* `submissions_come_to_an_end`: the steps of submissions are bounded by twelve for each
  that arrived, whatever else happens, and as long as one is unanswered one can go on by
  an ordinary reply of what it awaits.
-/

namespace BengaliTts

open Lib

section Statements

/-- What is awaited answers: no failure, and no stop of the gateway. -/
def HandlerEvent.ordinary : HandlerEvent → Bool
  | .commitReplyLost => false
  | .addRaises => false
  | .deleteRowRaises _ => false
  | .fault => false
  | .stop => false
  | _ => true

/-- The steps of submissions. -/
def submissionStep : ServiceEvent → Nat
  | .act _ (.handler _) => 1
  | _ => 0

/-- The submissions that arrive. -/
def submissionArrival : ServiceEvent → Nat
  | .spawn (.submit _) => 1
  | _ => 0

/-- The steps that a submission may still take. -/
def HandlerPc.rank : HandlerPc → Nat
  | .replaying => 12
  | .replayFound _ => 1
  | .rateGate => 11
  | .opening _ => 10
  | .opened _ => 9
  | .locked _ => 8
  | .counted _ => 7
  | .depthChecked _ => 6
  | .inserted _ => 5
  | .aborting _ => 3
  | .fallback => 2
  | .fallbackFound _ => 1
  | .committed => 4
  | .adding tookEffect => if tookEffect then 2 else 3
  | .enqueued => 1
  | .cleanup => 1
  | .answered _ => 0
  | .stopped => 0

def Proc.rank : Proc → Nat
  | .handler h => h.pc.rank
  | .call _ => 0

/-- The steps that the submissions under way may still take. -/
def remainingSteps (s : Service) : Nat :=
  (s.procs.map Proc.rank).sum

/-- A submission is neither answered nor was its gateway stopped. -/
def SubmissionRunning (s : Service) : Prop :=
  ∃ (i : Nat) (h : Handler), s.procs[i]? = some (.handler h) ∧ h.pc.running = true

/-- Some submission can go on by an ordinary reply. -/
def SubmissionCanGoOn (d : Deps) (poolSize : Nat) (s : Service) : Prop :=
  ∃ (i : Nat) (e : HandlerEvent) (t : Service), e.ordinary = true ∧
    (pooledService d poolSize).step s (.act i (.handler e)) = some t

/-- An id is left that was never generated. -/
def IdLeft (w : World) : Prop :=
  ∃ id : Uuid, ∀ b, b ∈ w.born → b.2.id ≠ id

/-- So many ids are left. -/
def IdsLeft (n : Nat) (w : World) : Prop :=
  ∃ ids : List Uuid, ids.Nodup ∧ ids.length = n ∧
    ∀ id, id ∈ ids → ∀ b, b ∈ w.born → b.2.id ≠ id

/-- Only submissions move, by ordinary replies of what they await. -/
def OrdinaryReplies (_ : Service) : ServiceEvent → Prop
  | .act _ (.handler e) => e.ordinary = true
  | _ => False

end Statements

section Bound

variable {d : Deps} {poolSize : Nat}

theorem rank_of_afterFault
    {pc pc' : HandlerPc}
    (h : afterFault pc = some pc') :
    pc'.rank + 1 ≤ pc.rank := by
  cases pc <;> simp only [afterFault, Option.some.injEq, reduceCtorEq] at h <;> subst h <;>
    simp [HandlerPc.rank]

theorem rank_of_running
    {pc : HandlerPc}
    (h : pc.running = true) :
    1 ≤ pc.rank := by
  cases pc with
  | adding tookEffect => cases tookEffect <;> simp [HandlerPc.rank]
  | answered => cases h
  | stopped => cases h
  | _ => simp [HandlerPc.rank]

/-- Every step of a submission brings it nearer to its end. -/
theorem rank_of_handlerStep
    {i : Nat} {w w' : World} {h h' : Handler} {pc : HandlerPc} {e : HandlerEvent}
    (hs : HandlerStep d i w h pc e w' h') :
    h'.pc.rank + 1 ≤ pc.rank := by
  cases hs with
  | move hm =>
      cases hm
      case takeToken allowed retryAfterMs =>
        rcases afterToken_cases d h allowed retryAfterMs with
          ⟨error, _, ha⟩ | ⟨text, ha, _, _⟩ <;> simp [ha, HandlerPc.rank]
      case addRaises tookEffect => cases tookEffect <;> simp [HandlerPc.rank]
      case fault hf => exact rank_of_afterFault hf
      all_goals simp [HandlerPc.rank]
  | rollback thrown =>
      rcases afterRollback_cases h thrown with ⟨_, _, ha⟩ | ha <;> simp [ha, HandlerPc.rank]
  | stop hr => exact rank_of_running hr
  | _ => simp [HandlerPc.rank]

theorem rank_start_le
    (r : SubmitRequest) :
    (Handler.start r).pc.rank ≤ 12 := by
  unfold Handler.start
  split <;> simp [HandlerPc.rank]

/-- A step is paid for by the steps that remain, and an arrival brings twelve. -/
theorem remainingSteps_of_step
    {s t : Service} {e : ServiceEvent}
    (hs : (service d).machine.step s e = some t) :
    remainingSteps t + submissionStep e ≤ remainingSteps s + 12 * submissionArrival e := by
  unfold remainingSteps
  cases serviceStep_of_step hs with
  | spawn r =>
      rw [List.map_append, List.sum_append]
      cases r with
      | submit r =>
          have hstart := rank_start_le r
          simp only [Request.boot, List.map_cons, List.map_nil, List.sum_cons, List.sum_nil,
            Proc.rank, submissionStep, submissionArrival]
          omega
      | deliver job => simp [Request.boot, Proc.rank, submissionStep, submissionArrival]
      | failedEvent job => simp [Request.boot, Proc.rank, submissionStep, submissionArrival]
  | @handler i h h' e w hp hstep =>
      have hrank := rank_of_handlerStep hstep
      have hsum := sum_set_add (k := Proc.handler h') Proc.rank hp
      simp only [Proc.rank, submissionStep, submissionArrival] at hsum ⊢
      omega
  | @call i c c' e w hp hjob hstep =>
      have hsum := sum_set_add (k := Proc.call c') Proc.rank hp
      simp only [Proc.rank, submissionStep, submissionArrival] at hsum ⊢
      omega
  | env henv => simp [submissionStep, submissionArrival]

theorem remainingSteps_of_run
    {s t : Service} {es : List ServiceEvent}
    (h : Machine.Run (pooledService d poolSize) Machine.anyStep s es t) :
    remainingSteps t + (es.map submissionStep).sum ≤
      remainingSteps s + 12 * (es.map submissionArrival).sum := by
  have hbound := Machine.run_potential remainingSteps submissionStep
    (fun e => 12 * submissionArrival e)
    (fun _ _ _ _ hs => remainingSteps_of_step (step_of_pooled hs).2) h
  have hgain : (es.map fun e => 12 * submissionArrival e).sum =
      12 * (es.map submissionArrival).sum := by
    rw [List.sum_map_mul_left]
  omega

end Bound

section Holders

variable {d : Deps} {poolSize : Nat}

/-- From the lock to the end of the transaction. -/
def HandlerPc.mayHoldLock : HandlerPc → Bool
  | .locked _ => true
  | .counted _ => true
  | .depthChecked _ => true
  | .inserted _ => true
  | .aborting _ => true
  | _ => false

/-- A lock that is taken is held by a submission in its transaction. -/
def HoldersKnown (s : Service) : Prop :=
  ∀ k j, s.world.locks k = some j →
    ∃ h, s.procs[j]? = some (.handler h) ∧ h.pc.mayHoldLock = true

theorem mayHoldLock_of_afterFault
    {pc pc' : HandlerPc}
    (h : afterFault pc = some pc')
    (hold : pc.mayHoldLock = true) :
    pc'.mayHoldLock = true := by
  cases pc <;> simp only [afterFault, Option.some.injEq, reduceCtorEq] at h <;> subst h <;>
    first | rfl | cases hold

theorem releaseLocks_ne
    (w : World) (i : Nat) (k : Int) :
    (w.releaseLocks i).locks k ≠ some i := by
  simp only [World.releaseLocks]
  split
  · exact Option.some_ne_none i ∘ Eq.symm
  · next hne => exact hne

/-- A submission that ends its transaction releases its locks; until then it may hold
one. -/
theorem mayHoldLock_of_handlerStep
    {i : Nat} {w w' : World} {h h' : Handler} {pc : HandlerPc} {e : HandlerEvent} {k : Int}
    (hs : HandlerStep d i w h pc e w' h')
    (hold : w.locks k = some i → pc.mayHoldLock = true)
    (hlock : w'.locks k = some i) :
    h'.pc.mayHoldLock = true := by
  cases hs with
  | move hm =>
      have hpc := hold hlock
      cases hm
      case takeToken => cases hpc
      case fault hf => exact mayHoldLock_of_afterFault hf hpc
      all_goals first | rfl | cases hpc
  | lock => rfl
  | insert => rfl
  | commit row => exact absurd hlock (releaseLocks_ne _ i k)
  | commitReplyLost row => exact absurd hlock (releaseLocks_ne _ i k)
  | rollback => exact absurd hlock (releaseLocks_ne _ i k)
  | callAdd => exact absurd (hold hlock) Bool.false_ne_true
  | addTakesEffect => exact absurd (hold hlock) Bool.false_ne_true
  | deleteRow => exact absurd (hold hlock) Bool.false_ne_true
  | stop => exact absurd hlock (releaseLocks_ne _ i k)

/-- A step of a submission takes a lock for itself only. -/
theorem locks_of_handlerStep
    {i j : Nat} {w w' : World} {h h' : Handler} {pc : HandlerPc} {e : HandlerEvent} {k : Int}
    (hs : HandlerStep d i w h pc e w' h')
    (hij : i ≠ j)
    (hlock : w'.locks k = some j) :
    w.locks k = some j := by
  have hreleased : ∀ u : World, (u.releaseLocks i).locks k = some j → u.locks k = some j := by
    intro u hu
    simp only [World.releaseLocks] at hu
    split at hu
    · cases hu
    · exact hu
  cases hs with
  | lock text hfree =>
      simp only [World.takeLock] at hlock
      split at hlock
      · exact absurd (Option.some.inj hlock) hij
      · exact hlock
  | commit row => exact hreleased _ hlock
  | commitReplyLost row => exact hreleased _ hlock
  | rollback => exact hreleased _ hlock
  | stop => exact hreleased _ hlock
  | _ => exact hlock

theorem holdersKnown_of_step
    {s t : Service} {e : ServiceEvent}
    (hs : (service d).machine.step s e = some t)
    (hI : HoldersKnown s) :
    HoldersKnown t := by
  intro k j hlock
  cases serviceStep_of_step hs with
  | spawn r =>
      obtain ⟨h, hp, hholds⟩ := hI k j hlock
      exact ⟨h, getElem?_spawn_of_some hp, hholds⟩
  | @handler i h h' e w hp hstep =>
      by_cases hij : i = j
      · subst hij
        refine ⟨h', getElem?_set_self_of_some hp,
          mayHoldLock_of_handlerStep hstep (fun hold => ?_) hlock⟩
        obtain ⟨h₀, hp₀, hholds⟩ := hI k i hold
        cases hp.symm.trans hp₀
        exact hholds
      · obtain ⟨h₀, hp₀, hholds⟩ := hI k j (locks_of_handlerStep hstep hij hlock)
        refine ⟨h₀, ?_, hholds⟩
        rw [List.getElem?_set_ne hij]
        exact hp₀
  | @call i c c' e w hp hjob hstep =>
      rw [(callFrame_of_callStep hstep).locks] at hlock
      obtain ⟨h₀, hp₀, hholds⟩ := hI k j hlock
      refine ⟨h₀, ?_, hholds⟩
      have hij : i ≠ j := by
        rintro rfl
        cases hp.symm.trans hp₀
      rw [List.getElem?_set_ne hij]
      exact hp₀
  | @env b w henv =>
      cases b <;> cases henv <;> exact hI k j hlock

theorem holdersKnown_of_run
    {es : List ServiceEvent} {s : Service}
    (hrun : Machine.Run (pooledService d poolSize) Machine.anyStep Service.initial es s) :
    HoldersKnown s := by
  refine Machine.run_invariant (I := HoldersKnown)
    (fun _ _ _ hI _ hs => holdersKnown_of_step (step_of_pooled hs).2 hI) hrun ?_
  intro k j hlock
  cases hlock

end Holders

section Progress

variable {d : Deps} {poolSize : Nat} {s : Service} {i : Nat} {h : Handler}

/-- What a submission that is under way can do by itself. -/
inductive CanAct (d : Deps) (i : Nat) (w : World) (h : Handler) : Prop
  /-- An ordinary reply takes it on, whatever the pool is. -/
  | now (e : HandlerEvent) (next : World × Handler) (hordinary : e.ordinary = true)
      (hfree : e.needsConnection = false) (hact : h.act d i w e = some next)
  /-- An ordinary reply takes it on as soon as there is a connection. -/
  | connection (e : HandlerEvent) (next : World × Handler) (hordinary : e.ordinary = true)
      (hclosed : h.pc.inTransaction = false) (hact : h.act d i w e = some next)
  /-- It waits for its user's lock. -/
  | lock (text : JsString) (j : Nat) (hpc : h.pc = .opened text)
      (htaken : w.locks (d.lockKey h.user) = some j)

theorem canAct_of_running
    {w : World}
    (hok : HandlerOk d i w h)
    (hid : IdLeft w)
    (hrunning : h.pc.running = true) :
    CanAct d i w h := by
  obtain ⟨user, key, body, job, pc⟩ := h
  have hjob : pc.afterCommit = true → ∃ row, job = some row :=
    fun hafter => Option.isSome_iff_exists.mp (hok.hasJob hafter)
  cases pc with
  | replaying =>
      cases hrow : key.bind (findByKey w.jobs user) with
      | none => exact .connection .findReplay _ rfl rfl (by simp only [Handler.act, hrow]; rfl)
      | some row =>
          exact .connection .findReplay _ rfl rfl (by simp only [Handler.act, hrow]; rfl)
  | replayFound row => exact .now .answerReplay _ rfl rfl rfl
  | rateGate => exact .now (.takeToken 1 0) _ rfl rfl rfl
  | opening text => exact .connection .beginTx _ rfl rfl rfl
  | opened text =>
      cases htaken : w.locks (d.lockKey user) with
      | none => exact .now .lock _ rfl rfl (if_pos htaken)
      | some j => exact .lock text j rfl htaken
  | locked text =>
      by_cases hcap : pendingCount w.jobs user ≥ d.config.TTS_PENDING_CAP
      · exact .now .count _ rfl rfl (if_pos hcap)
      · exact .now .count _ rfl rfl (if_neg hcap)
  | counted text =>
      by_cases hfull : queueDepth w ≥ d.config.TTS_QUEUE_CAPACITY
      · exact .now .readDepth _ rfl rfl (if_pos hfull)
      · exact .now .readDepth _ rfl rfl (if_neg hfull)
  | depthChecked text =>
      obtain ⟨id, hfresh⟩ := hid
      have hnew : ¬ (w.born.any fun b => decide (b.2.id = id)) = true := by
        simpa using fun k b hb => hfresh (k, b) hb
      cases hact : Handler.act d i w ⟨user, key, body, job, .depthChecked text⟩ (.create id 0) with
      | none =>
          simp only [Handler.act, if_neg hnew] at hact
          split at hact
          · cases hact
          · split at hact <;> cases hact
      | some next => exact .now (.create id 0) next rfl rfl hact
  | inserted row => exact .now .commit _ rfl rfl rfl
  | aborting thrown => exact .now .rollback _ rfl rfl rfl
  | fallback =>
      cases hrow : key.bind (findByKey w.jobs user) with
      | none => exact .connection .findWinner _ rfl rfl (by simp only [Handler.act, hrow]; rfl)
      | some row =>
          exact .connection .findWinner _ rfl rfl (by simp only [Handler.act, hrow]; rfl)
  | fallbackFound row => exact .now .answerWinner _ rfl rfl rfl
  | committed =>
      obtain ⟨row, rfl⟩ := hjob rfl
      exact .now .callAdd _ rfl rfl rfl
  | adding tookEffect =>
      obtain ⟨row, rfl⟩ := hjob rfl
      cases tookEffect with
      | false => exact .now .addTakesEffect _ rfl rfl rfl
      | true => exact .now .addReturns _ rfl rfl rfl
  | enqueued =>
      obtain ⟨row, rfl⟩ := hjob rfl
      exact .now .accept _ rfl rfl rfl
  | cleanup =>
      obtain ⟨row, rfl⟩ := hjob rfl
      exact .connection .deleteRow _ rfl rfl rfl
  | answered response => cases hrunning
  | stopped => cases hrunning

/-- A step of a submission is one of the service, if the pool allows it. -/
theorem canGoOn_of_act
    {e : HandlerEvent} {next : World × Handler}
    (hp : s.procs[i]? = some (.handler h))
    (hordinary : e.ordinary = true)
    (hact : h.act d i s.world e = some next)
    (hpool : e.needsConnection = true → openTransactions s < poolSize) :
    SubmissionCanGoOn d poolSize s := by
  have hadmits : admits poolSize s (.act i (.handler e)) = true := by
    cases hneeds : e.needsConnection with
    | false => simp [admits, hneeds]
    | true => simp [admits, hpool hneeds]
  refine ⟨i, e, ⟨next.1, s.procs.set i (.handler next.2)⟩, hordinary, ?_⟩
  simp only [pooledService, hadmits, if_true]
  simp [Program.machine, Program.poolStep, hp, service, Proc.act, hact]

/-- A step that needs no connection is one of the service, whatever the pool holds. -/
theorem canGoOn_of_free
    {e : HandlerEvent} {next : World × Handler}
    (hp : s.procs[i]? = some (.handler h))
    (hordinary : e.ordinary = true)
    (hfree : e.needsConnection = false)
    (hact : h.act d i s.world e = some next) :
    SubmissionCanGoOn d poolSize s := by
  refine canGoOn_of_act hp hordinary hact fun hneeds => ?_
  rw [hfree] at hneeds
  cases hneeds

/-- A submission in its transaction can go on, or the one that holds its lock can. -/
theorem canGoOn_of_inTransaction
    (hok : ServiceOk d s)
    (hholders : HoldersKnown s)
    (hid : IdLeft s.world)
    (hp : s.procs[i]? = some (.handler h))
    (hopen : h.pc.inTransaction = true) :
    SubmissionCanGoOn d poolSize s := by
  have hrunning : ∀ pc : HandlerPc, pc.inTransaction = true → pc.running = true := by
    intro pc hpc
    cases pc <;> first | rfl | cases hpc
  cases canAct_of_running (hok.2 i _ hp) hid (hrunning _ hopen) with
  | now e next hordinary hfree hact =>
      exact canGoOn_of_free hp hordinary hfree hact
  | connection _ _ _ hclosed =>
      rw [hopen] at hclosed
      cases hclosed
  | lock text j hpc htaken =>
      -- The holder is past its lock, so it waits for nothing.
      obtain ⟨h', hp', hholds⟩ := hholders _ j htaken
      have hopen' : h'.pc.inTransaction = true := by
        cases hpc' : h'.pc <;> rw [hpc'] at hholds <;> first | rfl | cases hholds
      cases canAct_of_running (hok.2 j _ hp') hid (hrunning _ hopen') with
      | now e next hordinary hfree hact =>
          exact canGoOn_of_free hp' hordinary hfree hact
      | connection _ _ _ hclosed =>
          rw [hopen'] at hclosed
          cases hclosed
      | lock text' _ hpc' =>
          rw [hpc'] at hholds
          cases hholds

/-- **No deadlock.**  With at least one connection, a running submission or one that it
waits for can go on. -/
theorem canGoOn_of_running
    (hpool : 0 < poolSize)
    (hok : ServiceOk d s)
    (hholders : HoldersKnown s)
    (hid : IdLeft s.world)
    (hrunning : SubmissionRunning s) :
    SubmissionCanGoOn d poolSize s := by
  obtain ⟨i, h, hp, hpc⟩ := hrunning
  cases canAct_of_running (hok.2 i _ hp) hid hpc with
  | now e next hordinary hfree hact =>
      exact canGoOn_of_free hp hordinary hfree hact
  | connection e next hordinary _ hact =>
      by_cases hfree : openTransactions s < poolSize
      · exact canGoOn_of_act hp hordinary hact fun _ => hfree
      · -- Every connection is in use, so some transaction is open.
        have hsome : 0 < s.procs.countP Proc.inTransaction := by
          unfold openTransactions at hfree
          omega
        obtain ⟨p, hmem, hopen⟩ := List.countP_pos_iff.mp hsome
        obtain ⟨j, hj⟩ := List.mem_iff_getElem?.mp hmem
        cases p with
        | handler h' => exact canGoOn_of_inTransaction hok hholders hid hj hopen
        | call c => cases hopen
  | lock text j hopened htaken =>
      exact canGoOn_of_inTransaction hok hholders hid hp (by rw [hopened]; rfl)

end Progress

section Completion

variable {d : Deps} {poolSize : Nat} {s t : Service} {es : List ServiceEvent}

theorem IdsLeft.mono
    {n m : Nat} {w : World}
    (h : IdsLeft n w)
    (hle : m ≤ n) :
    IdsLeft m w := by
  obtain ⟨ids, hnodup, hlength, hfresh⟩ := h
  exact ⟨ids.take m, hnodup.sublist (List.take_sublist m ids), by simp [hlength, hle],
    fun id hid => hfresh id (List.mem_of_mem_take hid)⟩

theorem idLeft_of_idsLeft
    {n : Nat} {w : World}
    (h : IdsLeft (n + 1) w) :
    IdLeft w := by
  obtain ⟨ids, _, hlength, hfresh⟩ := h
  cases ids with
  | nil => cases hlength
  | cons id ids => exact ⟨id, hfresh id List.mem_cons_self⟩

/-- A step of a submission uses one id at most. -/
theorem idsLeft_of_handlerStep
    {i n : Nat} {w w' : World} {h h' : Handler} {pc : HandlerPc} {e : HandlerEvent}
    (hs : HandlerStep d i w h pc e w' h')
    (hids : IdsLeft (n + 1) w) :
    IdsLeft n w' := by
  cases hs with
  | insert text id createdAt =>
      obtain ⟨ids, hnodup, hlength, hfresh⟩ := hids
      have hleft : IdsLeft (ids.erase id).length
          (w.insertRow i (insertedRow h text id createdAt)) := by
        refine ⟨ids.erase id, hnodup.erase id, rfl, fun other hother b hb => ?_⟩
        obtain ⟨hne, hmem⟩ := hnodup.mem_erase_iff.mp hother
        rcases List.mem_cons.mp hb with rfl | hb
        · exact hne.symm
        · exact hfresh other hmem b hb
      refine hleft.mono ?_
      rw [List.length_erase]
      split <;> omega
  | _ => exact hids.mono (Nat.le_succ n)

theorem remainingSteps_pos
    (hrunning : SubmissionRunning s) :
    0 < remainingSteps s := by
  obtain ⟨i, h, hp, hpc⟩ := hrunning
  have hmem : h.pc.rank ∈ s.procs.map Proc.rank :=
    List.mem_map.mpr ⟨_, List.mem_of_getElem? hp, rfl⟩
  have hle := List.single_le_sum (fun _ _ => Nat.zero_le _) _ hmem
  have hrank := rank_of_running hpc
  unfold remainingSteps
  omega

/-- Ordinary replies take every submission to its end. -/
theorem exists_completion
    (hpool : 0 < poolSize)
    (hrun : Machine.Run (pooledService d poolSize) Machine.anyStep Service.initial es s)
    (hids : IdsLeft (remainingSteps s) s.world) :
    ∃ fs t, Machine.Run (pooledService d poolSize) OrdinaryReplies s fs t ∧
      ¬ SubmissionRunning t := by
  generalize hn : remainingSteps s = n at hids
  induction n using Nat.strong_induction_on generalizing s es with
  | _ n ih =>
      by_cases hrunning : SubmissionRunning s
      · have hpos := remainingSteps_pos hrunning
        obtain ⟨m, rfl⟩ : ∃ m, n = m + 1 := ⟨n - 1, by omega⟩
        obtain ⟨i, e, t, hordinary, hstep⟩ := canGoOn_of_running (d := d) hpool
          (serviceOk_of_run (run_of_pooled hrun)) (holdersKnown_of_run hrun)
          (idLeft_of_idsLeft hids) hrunning
        have hless := remainingSteps_of_step (step_of_pooled hstep).2
        simp only [submissionStep, submissionArrival] at hless
        have hleft : IdsLeft m t.world := by
          cases serviceStep_of_step (step_of_pooled hstep).2 with
          | handler hp hs => exact idsLeft_of_handlerStep hs hids
        obtain ⟨fs, u, hfs, hdone⟩ := ih (remainingSteps t) (by omega)
          (.snoc hrun trivial hstep) rfl (hleft.mono (by omega))
        have hguard : OrdinaryReplies s (.act i (.handler e)) := hordinary
        exact ⟨_, u, Machine.run_append (Machine.run_single hguard hstep) hfs, hdone⟩
      · exact ⟨[], s, .nil s, hrunning⟩

/--
**Submissions come to an end.**  For any number of submissions of any users on gateways
with at least one connection, in any interleaving with the worker, the queue and each
other, and with any failures: the steps that submissions have taken are at most twelve
for each that arrived, and the same holds of every continuation, less what was used up.
As long as some submission is neither answered nor stopped, and an id is left, some
submission can go on by an ordinary reply of what it awaits; and ordinary replies alone
take every submission to its end.
-/
theorem submissions_come_to_an_end
    (hpool : 0 < poolSize)
    (hrun : Machine.Run (pooledService d poolSize) Machine.anyStep Service.initial es s) :
    remainingSteps s + (es.map submissionStep).sum ≤ 12 * (es.map submissionArrival).sum ∧
    (∀ fs t, Machine.Run (pooledService d poolSize) Machine.anyStep s fs t →
      remainingSteps t + (fs.map submissionStep).sum ≤
        remainingSteps s + 12 * (fs.map submissionArrival).sum) ∧
    (IdLeft s.world → SubmissionRunning s → SubmissionCanGoOn d poolSize s) ∧
    (IdsLeft (remainingSteps s) s.world →
      ∃ fs t, Machine.Run (pooledService d poolSize) OrdinaryReplies s fs t ∧
        ¬ SubmissionRunning t) := by
  refine ⟨?_, fun _ _ hfs => remainingSteps_of_run hfs, fun hid hrunning => ?_,
    exists_completion hpool hrun⟩
  · have hbound := remainingSteps_of_run hrun
    simpa [remainingSteps, Service.initial] using hbound
  · exact canGoOn_of_running hpool (serviceOk_of_run (run_of_pooled hrun))
      (holdersKnown_of_run hrun) hid hrunning

/-- Two submissions of one user with one connection, and a third of another user: the
first has its lock. -/
theorem submissions_come_to_an_end_one_connection :
    ∃ (es : List ServiceEvent) (s : Service),
      Machine.Run (pooledService twoUserDeps 1) Machine.anyStep Service.initial es s ∧
        s.procs.length = 3 ∧ openTransactions s = 1 ∧ SubmissionCanGoOn twoUserDeps 1 s := by
  have hexec : ((pooledService twoUserDeps 1).exec (fun _ _ => true) Service.initial
      ([sampleSubmission none, sampleSubmission none, secondSubmission] ++
        handlerEvents 0 [.takeToken 1 0, .beginTx, .lock] ++ handlerEvents 1 [.takeToken 1 0])).any
      (fun s => decide (s.procs.length = 3 ∧ openTransactions s = 1 ∧ s.world.born = []) &&
        (place? s 0).any fun h => h.pc.running) = true := by
    decide +kernel
  obtain ⟨s, hrun, hs⟩ := Machine.exists_anyRun_of_exec hexec
  obtain ⟨hcounts, hplace⟩ := (Bool.and_eq_true _ _).mp hs
  obtain ⟨hlength, hopen, hborn⟩ := of_decide_eq_true hcounts
  obtain ⟨h, hp, hrunning⟩ := (Option.any_eq_true _ _).mp hplace
  have hid : IdLeft s.world := by
    refine ⟨sampleJob, fun b hb => ?_⟩
    rw [hborn] at hb
    cases hb
  exact ⟨_, s, hrun, hlength, hopen, (submissions_come_to_an_end Nat.one_pos hrun).2.2.1 hid
    ⟨0, h, handler_of_place? hp, hrunning⟩⟩

end Completion

end BengaliTts
