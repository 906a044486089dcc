import BengaliTts.JobReads
import BengaliTts.Service
import Mathlib.Data.Finset.Card
import Mathlib.Data.List.Sigma

/-!
# The connection pool

Every open transaction of a submission occupies one connection of the pool, also
while it waits for the user's advisory lock.  The connection goes back with the end
of the transaction; the call of `queue.add` comes after it.  The lookups by key and the
cleanup DELETE stand outside the transaction: each waits for a connection of the same
pool and keeps it for its one statement.

Two promises are made about the pool.  One is that it bounds how far the queue can
overshoot its capacity, since only so many transactions stand between the depth
check and the INSERT.  But a job counts in the depth only when `queue.add` took
effect, and submissions that have committed and not yet added their job occupy no
connection.  The other is that users do not contend with each other, though the
transactions of one user that wait for the lock can occupy the whole pool.

Main results:
* `queue_overshoot_bounded`: the depth stays within capacity plus pool size, if at
  every passed gate the submissions whose job is not in the queue yet leave room;
* `run_room_of_releasedCounted`: they do, if the jobs of those whose transaction has
  ended are within the capacity together with the queue;
* `begin_enabled_iff`: a transaction can be opened exactly if the transactions that
  do not hold their lock and the users that hold theirs leave a connection.
-/

namespace BengaliTts

open Lib

section Pool

/-- The transaction is open and occupies a connection. -/
def HandlerPc.inTransaction : HandlerPc → Bool
  | .opened _ => true
  | .locked _ => true
  | .counted _ => true
  | .depthChecked _ => true
  | .inserted _ => true
  | .aborting _ => true
  | _ => false

def Proc.inTransaction : Proc → Bool
  | .handler h => h.pc.inTransaction
  | .call _ => false

/-- The connections that submissions occupy. -/
def openTransactions (s : Service) : Nat :=
  s.procs.countP Proc.inTransaction

/-- The event takes a connection of the pool. -/
def HandlerEvent.needsConnection : HandlerEvent → Bool
  | .beginTx => true
  | .findReplay => true
  | .findWinner => true
  | .deleteRow => true
  | .deleteRowRaises tookEffect => tookEffect
  | _ => false

/-- A transaction, or a statement outside one, begins only with a free connection. -/
def admits (poolSize : Nat) (s : Service) : ServiceEvent → Bool
  | .act _ (.handler e) => !e.needsConnection || decide (openTransactions s < poolSize)
  | _ => true

/-- The service whose gateways have `poolSize` connections together. -/
def pooledService (d : Deps) (poolSize : Nat) : Machine Service ServiceEvent where
  step s e := if admits poolSize s e then (service d).machine.step s e else none

theorem step_of_pooled
    {d : Deps} {poolSize : Nat} {s t : Service} {e : ServiceEvent}
    (h : (pooledService d poolSize).step s e = some t) :
    admits poolSize s e = true ∧ (service d).machine.step s e = some t := by
  simp only [pooledService] at h
  split at h
  · next hadmits => exact ⟨hadmits, h⟩
  · cases h

/-- Runs with a pool are runs of the service. -/
theorem run_of_pooled
    {d : Deps} {poolSize : Nat} {G : Service → ServiceEvent → Prop} {s t : Service}
    {es : List ServiceEvent}
    (h : Machine.Run (pooledService d poolSize) G s es t) :
    Machine.Run (service d).machine G s es t := by
  induction h with
  | nil => exact .nil _
  | snoc _ hG hs ih => exact .snoc ih hG (step_of_pooled hs).2

/-- A step opens a transaction only with `beginTx`. -/
theorem inTransaction_of_step
    {d : Deps} {i : Nat} {w w' : World} {h h' : Handler} {pc : HandlerPc} {e : HandlerEvent}
    (hs : HandlerStep d i w h pc e w' h')
    (hopen : h'.pc.inTransaction = true) :
    pc.inTransaction = true ∨ e = .beginTx := by
  cases hs with
  | move hm =>
      cases hm
      case takeToken allowed retryAfterMs =>
        rcases afterToken_cases d h allowed retryAfterMs with
          ⟨error, _, ha⟩ | ⟨text, ha, _, _⟩ <;> simp [ha, HandlerPc.inTransaction] at hopen
      case fault hf =>
        rcases afterFault_cases hf with rfl | rfl
        · cases hopen
        · left
          cases pc <;> first | rfl | cases hf
      all_goals first | exact Or.inl rfl | exact Or.inr rfl | cases hopen
  | rollback => exact Or.inl rfl
  | _ => first | exact Or.inl rfl | cases hopen

/-- A call of the worker leaves the queue alone. -/
theorem queueDepth_of_callStep
    {d : Deps} {w w' : World} {job : QueueJob} {pc pc' : CallPc} {e : CallEvent}
    (hs : CallStep d w job pc e w' pc') :
    queueDepth w' = queueDepth w := by
  cases hs <;> rfl

/-- Counting submissions: a step is one of a submission, which alone makes a
difference, or it makes none and adds nothing to the queue. -/
theorem counted_of_step
    {d : Deps} {s t : Service} {e : ServiceEvent} {f : HandlerPc → Bool}
    {k : Proc → Bool}
    (hhandler : ∀ h, k (.handler h) = f h.pc)
    (hcall : ∀ c, k (.call c) = false)
    (hstart : ∀ r, f (Handler.start r).pc = false)
    (hs : (service d).machine.step s e = some t) :
    (∃ i h h' e', e = .act i (.handler e') ∧
        HandlerStep d i s.world h h.pc e' t.world h' ∧
        t.procs.countP k + (f h.pc).toNat = s.procs.countP k + (f h'.pc).toNat) ∨
      (t.procs.countP k = s.procs.countP k ∧ queueDepth t.world ≤ queueDepth s.world) := by
  cases serviceStep_of_step hs with
  | spawn r =>
      right
      have hboot : k r.boot = false := by
        cases r with
        | submit r => exact (hhandler _).trans (hstart r)
        | deliver job => exact hcall _
        | failedEvent job => exact hcall _
      exact ⟨by simp [hboot], le_rfl⟩
  | @handler i h h' e w hp hstep =>
      left
      have hcount := countP_set_add (k := Proc.handler h') k hp
      rw [hhandler, hhandler] at hcount
      exact ⟨i, h, h', e, rfl, hstep, hcount⟩
  | @call i c c' e w hp hjob hstep =>
      right
      have hcount := countP_set_add (k := Proc.call c') k hp
      rw [hcall, hcall] at hcount
      exact ⟨Nat.add_right_cancel hcount, (queueDepth_of_callStep hstep).le⟩
  | @env b w henv =>
      right
      refine ⟨rfl, ?_⟩
      cases b with
      | tick ms =>
          cases henv
          exact le_rfl
      | dequeue id =>
          cases henv
          exact List.length_erase_le

theorem start_not_inTransaction
    (r : SubmitRequest) :
    (Handler.start r).pc.inTransaction = false := by
  unfold Handler.start
  split <;> rfl

theorem openTransactions_of_step
    {d : Deps} {s t : Service} {e : ServiceEvent}
    (hs : (service d).machine.step s e = some t) :
    openTransactions t ≤ openTransactions s ∨
      ((∃ i, e = .act i (.handler .beginTx)) ∧
        openTransactions t ≤ openTransactions s + 1) := by
  unfold openTransactions
  rcases counted_of_step (k := Proc.inTransaction) (fun _ => rfl) (fun _ => rfl)
    start_not_inTransaction hs with ⟨i, h, h', e', rfl, hstep, hcount⟩ | ⟨hsame, _⟩
  · have hle := Bool.toNat_le h'.pc.inTransaction
    cases hopen : h'.pc.inTransaction with
    | false =>
        left
        rw [hopen, Bool.toNat_false] at hcount
        omega
    | true =>
        rcases inTransaction_of_step hstep hopen with hwas | rfl
        · left
          rw [hopen, hwas] at hcount
          omega
        · right
          exact ⟨⟨i, rfl⟩, by omega⟩
  · exact Or.inl hsame.le

/-- The pool is never exceeded. -/
theorem openTransactions_le
    {d : Deps} {poolSize : Nat} {G : Service → ServiceEvent → Prop} {s : Service}
    {es : List ServiceEvent}
    (hrun : Machine.Run (pooledService d poolSize) G Service.initial es s) :
    openTransactions s ≤ poolSize := by
  refine Machine.run_invariant (I := fun u => openTransactions u ≤ poolSize) ?_ hrun
    (Nat.zero_le _)
  intro u e v hI _ hs
  obtain ⟨hadmits, hstep⟩ := step_of_pooled hs
  rcases openTransactions_of_step hstep with hle | ⟨⟨i, rfl⟩, hle⟩
  · exact hle.trans hI
  · have hfree : openTransactions u < poolSize := by
      simpa [admits, HandlerEvent.needsConnection] using hadmits
    omega

end Pool

section Overshoot

variable {d : Deps} {poolSize : Nat}

/-- Past the depth check, and the job is not in the queue yet. -/
def HandlerPc.pastGate : HandlerPc → Bool
  | .depthChecked _ => true
  | .inserted _ => true
  | .committed => true
  | .adding false => true
  | _ => false

/-- The same after the commit, when the connection has been given back. -/
def HandlerPc.released : HandlerPc → Bool
  | .committed => true
  | .adding false => true
  | _ => false

def Proc.pastGate : Proc → Bool
  | .handler h => h.pc.pastGate
  | .call _ => false

def Proc.released : Proc → Bool
  | .handler h => h.pc.released
  | .call _ => false

/-- The jobs in the queue and those that may still be added without another look at
the depth. -/
def committedDepth (s : Service) : Nat :=
  queueDepth s.world + s.procs.countP Proc.pastGate

/-- Whenever a submission passes the depth check, the jobs that may still be added
leave room within capacity plus pool size. -/
def RoomAtGate (d : Deps) (poolSize : Nat) (s : Service) : ServiceEvent → Prop
  | .act _ (.handler .readDepth) =>
      queueDepth s.world < d.config.TTS_QUEUE_CAPACITY →
        committedDepth s < d.config.TTS_QUEUE_CAPACITY + poolSize
  | _ => True

/-- Whenever a submission passes the depth check, the depth with the jobs of those
that have already given their connection back is within the capacity. -/
def ReleasedCounted (d : Deps) (s : Service) : ServiceEvent → Prop
  | .act _ (.handler .readDepth) =>
      queueDepth s.world < d.config.TTS_QUEUE_CAPACITY →
        queueDepth s.world + s.procs.countP Proc.released ≤ d.config.TTS_QUEUE_CAPACITY
  | _ => True

theorem length_addEntry_le
    (w : World) (id : Uuid) :
    queueDepth (w.addEntry id) ≤ queueDepth w + 1 := by
  unfold queueDepth World.addEntry
  dsimp only
  split
  · exact Nat.le_succ _
  · exact le_rfl

/-- Only a passed depth check makes one more job to come. -/
theorem committedDepth_of_handlerStep
    {i : Nat} {w w' : World} {h h' : Handler} {pc : HandlerPc} {e : HandlerEvent}
    (hs : HandlerStep d i w h pc e w' h') :
    queueDepth w' + h'.pc.pastGate.toNat ≤ queueDepth w + pc.pastGate.toNat ∨
      (e = .readDepth ∧ queueDepth w < d.config.TTS_QUEUE_CAPACITY ∧
        queueDepth w' + h'.pc.pastGate.toNat ≤ queueDepth w + pc.pastGate.toNat + 1) := by
  cases hs with
  | move hm =>
      cases hm
      case depthChecked hdepth => exact Or.inr ⟨rfl, hdepth, le_rfl⟩
      case takeToken allowed retryAfterMs =>
        left
        rcases afterToken_cases d h allowed retryAfterMs with
          ⟨error, _, ha⟩ | ⟨text, ha, _, _⟩ <;> rw [ha] <;> exact le_rfl
      case fault hf =>
        left
        rcases afterFault_cases hf with rfl | rfl <;>
          exact Nat.add_le_add_left (Nat.zero_le _) _
      all_goals exact Or.inl (Nat.add_le_add_left (Nat.zero_le _) _)
  | lock => exact Or.inl le_rfl
  | insert => exact Or.inl le_rfl
  | commit => exact Or.inl le_rfl
  | commitReplyLost => exact Or.inl (Nat.add_le_add_left (Nat.zero_le _) _)
  | rollback thrown =>
      left
      rcases afterRollback_cases h thrown with ⟨_, _, ha⟩ | ha <;> rw [ha] <;> exact le_rfl
  | callAdd => exact Or.inl le_rfl
  | addTakesEffect job => exact Or.inl (length_addEntry_le w job.id)
  | deleteRow => exact Or.inl le_rfl
  | stop => exact Or.inl (Nat.add_le_add_left (Nat.zero_le _) _)

theorem start_not_pastGate
    (r : SubmitRequest) :
    (Handler.start r).pc.pastGate = false := by
  unfold Handler.start
  split <;> rfl

theorem committedDepth_of_step
    {s t : Service} {e : ServiceEvent}
    (hs : (service d).machine.step s e = some t) :
    committedDepth t ≤ committedDepth s ∨
      ((∃ i, e = .act i (.handler .readDepth)) ∧
        queueDepth s.world < d.config.TTS_QUEUE_CAPACITY ∧
          committedDepth t ≤ committedDepth s + 1) := by
  unfold committedDepth
  rcases counted_of_step (k := Proc.pastGate) (fun _ => rfl) (fun _ => rfl)
    start_not_pastGate hs with ⟨i, h, h', e', rfl, hstep, hcount⟩ | ⟨hsame, hle⟩
  · rcases committedDepth_of_handlerStep hstep with hle | ⟨rfl, hdepth, hle⟩
    · left
      omega
    · right
      exact ⟨⟨i, rfl⟩, hdepth, by omega⟩
  · left
    omega

/--
**The overshoot of the queue.**  For any number of gateways with any number of
submissions of any users, any interleaving of their steps with the workers, and
`queue.add` taking effect at any point of its call: if at every passed depth check
the jobs in the queue and those that may still be added leave room, then the depth
never exceeds capacity plus pool size.
-/
theorem queue_overshoot_bounded
    {es : List ServiceEvent} {s : Service}
    (hrun : Machine.Run (pooledService d poolSize) (RoomAtGate d poolSize)
      Service.initial es s) :
    queueDepth s.world ≤ d.config.TTS_QUEUE_CAPACITY + poolSize := by
  have hcommitted : committedDepth s ≤ d.config.TTS_QUEUE_CAPACITY + poolSize := by
    refine Machine.run_invariant
      (I := fun u => committedDepth u ≤ d.config.TTS_QUEUE_CAPACITY + poolSize) ?_ hrun
      (Nat.zero_le _)
    intro u e v hI hroom hs
    rcases committedDepth_of_step (step_of_pooled hs).2 with hle | ⟨⟨i, rfl⟩, hdepth, hle⟩
    · exact hle.trans hI
    · have hlt : committedDepth u < d.config.TTS_QUEUE_CAPACITY + poolSize := hroom hdepth
      omega
  exact (Nat.le_add_right _ _).trans hcommitted

/-- What stands past the gate has either given its connection back or still
occupies one; the submission at the gate occupies one more. -/
theorem pastGate_lt_of_counted
    {s : Service} {i : Nat} {h : Handler} {text : JsString}
    (hp : s.procs[i]? = some (.handler h))
    (hpc : h.pc = .counted text) :
    s.procs.countP Proc.pastGate <
      s.procs.countP Proc.released + openTransactions s := by
  have hsplit : ∀ p : Proc, p.pastGate = true → p.released = false →
      p.inTransaction = true := by
    intro p hpast hkept
    cases p with
    | handler h' =>
        cases hpc' : h'.pc with
        | depthChecked | inserted => simp [Proc.inTransaction, HandlerPc.inTransaction, hpc']
        | adding tookEffect =>
            cases tookEffect <;>
              simp [Proc.pastGate, Proc.released, HandlerPc.pastGate, HandlerPc.released, hpc']
                at hpast hkept
        | _ =>
            simp [Proc.pastGate, Proc.released, HandlerPc.pastGate, HandlerPc.released, hpc']
              at hpast hkept
    | call c => cases hpast
  have hreleased : (s.procs.filter Proc.released).countP Proc.pastGate ≤
      s.procs.countP Proc.released := by
    rw [List.countP_eq_length_filter (p := Proc.released)]
    exact List.countP_le_length
  have hkept : (s.procs.filter fun p => !p.released).countP Proc.pastGate <
      openTransactions s := by
    rw [List.countP_filter]
    refine countP_lt_countP hp ?_ ?_ ?_
    · intro p hboth
      simp only [Bool.and_eq_true, Bool.not_eq_true'] at hboth
      exact hsplit p hboth.1 hboth.2
    · simp [Proc.pastGate, HandlerPc.pastGate, hpc]
    · simp [Proc.inTransaction, HandlerPc.inTransaction, hpc]
  have hparts := List.countP_eq_countP_filter_add s.procs Proc.pastGate Proc.released
  omega

/-- What the comment at the gate argues: as long as the jobs whose submissions have
given their connection back are within the capacity, the pool bounds the rest. -/
theorem run_room_of_releasedCounted
    {es : List ServiceEvent} {s : Service}
    (hrun : Machine.Run (pooledService d poolSize) (ReleasedCounted d)
      Service.initial es s) :
    Machine.Run (pooledService d poolSize) (RoomAtGate d poolSize)
      Service.initial es s := by
  generalize hstart : Service.initial = s₀ at hrun ⊢
  induction hrun with
  | nil => exact .nil _
  | @snoc t u es e hbefore hcounted hfires ih =>
      subst hstart
      refine .snoc ih ?_ hfires
      have hopen := openTransactions_le hbefore
      cases serviceStep_of_step (step_of_pooled hfires).2 with
      | @handler i h h' e w hp hstep =>
          cases e with
          | readDepth =>
              intro hdepth
              have hcapacity := hcounted hdepth
              obtain ⟨text, hpc⟩ : ∃ text, h.pc = .counted text := by
                generalize h.pc = pc at hstep
                cases hstep with
                | move hm => cases hm <;> exact ⟨_, rfl⟩
                | deleteRow _ _ he => rcases he with he | he <;> cases he
              have hlt := pastGate_lt_of_counted hp hpc
              unfold committedDepth
              omega
          | _ => trivial
      | _ => trivial

/-- A queue with room for one job. -/
def oneJobDeps : Deps :=
  { sampleDeps with
    config := { defaultConfig with TTS_QUEUE_CAPACITY := 1, queueCapacity_pos := Nat.one_pos } }

/-- A submission through the depth check to the committed row. -/
def submitAndCommit (i : Nat) (id : Uuid) : List ServiceEvent :=
  sampleSubmission none :: handlerEvents i (insertEvents id)

/-- The call of `queue.add` takes effect. -/
def addJob (i : Nat) : List ServiceEvent :=
  handlerEvents i [.callAdd, .addTakesEffect]

/-- A check that is enough for `RoomAtGate`. -/
def roomAtGate (d : Deps) (poolSize : Nat) (s : Service) : ServiceEvent → Bool
  | .act _ (.handler .readDepth) =>
      decide (committedDepth s < d.config.TTS_QUEUE_CAPACITY + poolSize)
  | _ => true

theorem roomAtGate_of_check
    {poolSize : Nat} {s : Service} {e : ServiceEvent}
    (h : roomAtGate d poolSize s e = true) :
    RoomAtGate d poolSize s e := by
  unfold RoomAtGate
  split
  · intro _
    exact of_decide_eq_true h
  · trivial

/-- One submission through a pool with one connection. -/
theorem queue_overshoot_bounded_one :
    ∃ (es : List ServiceEvent) (s : Service),
      Machine.Run (pooledService oneJobDeps 1) (RoomAtGate oneJobDeps 1) Service.initial es s ∧
        0 < queueDepth s.world ∧ queueDepth s.world ≤ 1 + 1 := by
  have hexec : ((pooledService oneJobDeps 1).exec (roomAtGate oneJobDeps 1) Service.initial
      (submitAndCommit 0 sampleJob ++ addJob 0)).any
      (fun s => decide (0 < queueDepth s.world)) = true := by
    decide +kernel
  obtain ⟨s, hrun, hs⟩ := Machine.exists_run_of_exec (fun _ _ => roomAtGate_of_check) hexec
  exact ⟨_, s, hrun, of_decide_eq_true hs, queue_overshoot_bounded hrun⟩

/-- Three submissions use the only connection one after another and find the queue
empty; then the calls of `queue.add` take effect. -/
theorem queue_overshoots_pool :
    ∃ (es : List ServiceEvent) (s : Service),
      Machine.Run (pooledService oneJobDeps 1) Machine.anyStep Service.initial es s ∧
        oneJobDeps.config.TTS_QUEUE_CAPACITY + 1 < queueDepth s.world := by
  have hexec : ((pooledService oneJobDeps 1).exec (fun _ _ => true) Service.initial
      (submitAndCommit 0 sampleJob ++ submitAndCommit 1 otherJob ++
        submitAndCommit 2 foreignJob ++ addJob 0 ++ addJob 1 ++ addJob 2)).any
      (fun s => decide (oneJobDeps.config.TTS_QUEUE_CAPACITY + 1 < queueDepth s.world)) =
        true := by
    decide +kernel
  obtain ⟨s, hrun, hs⟩ := Machine.exists_anyRun_of_exec hexec
  exact ⟨_, s, hrun, of_decide_eq_true hs⟩

end Overshoot

section Contention

variable {d : Deps} {poolSize : Nat}

/-- The submissions with their places. -/
def handlers (s : Service) : List (Nat × Handler) :=
  s.procs.zipIdx.filterMap fun p =>
    match p.1 with
    | .handler h => some (p.2, h)
    | .call _ => none

/-- The transaction of submission `i` is open and holds its user's lock. -/
def holdsUserLock (d : Deps) (w : World) (p : Nat × Handler) : Bool :=
  p.2.pc.inTransaction && decide (w.locks (d.lockKey p.2.user) = some p.1)

/-- The open transactions that do not hold their user's lock. -/
def openWithoutLock (d : Deps) (s : Service) : Nat :=
  (handlers s).countP fun p => p.2.pc.inTransaction && !holdsUserLock d s.world p

/-- The users with a transaction that holds their lock. -/
def usersHolding (d : Deps) (s : Service) : Finset Uuid :=
  (((handlers s).filter (holdsUserLock d s.world)).map fun p => p.2.user).toFinset

theorem mem_handlers
    {s : Service} {p : Nat × Handler} :
    p ∈ handlers s ↔ s.procs[p.1]? = some (.handler p.2) := by
  unfold handlers
  rw [List.mem_filterMap]
  constructor
  · rintro ⟨⟨q, j⟩, hq, hp⟩
    rw [List.mem_zipIdx_iff_getElem?] at hq
    cases q with
    | handler h =>
        cases hp
        exact hq
    | call c => cases hp
  · intro hp
    exact ⟨(.handler p.2, p.1), List.mem_zipIdx_iff_getElem?.mpr hp, rfl⟩

theorem nodup_handlers
    (s : Service) :
    (handlers s).Nodup := by
  refine List.Nodup.filterMap ?_ ?_
  · rintro ⟨q, j⟩ ⟨q', j'⟩ p hp hp'
    cases q <;> cases q' <;> cases hp <;> cases hp'
    rfl
  · exact List.Nodup.of_map Prod.snd (List.nodup_zipIdx_map_snd s.procs)

theorem countP_handlers
    (s : Service) :
    (handlers s).countP (fun p => p.2.pc.inTransaction) = openTransactions s := by
  unfold handlers openTransactions
  rw [List.countP_filterMap]
  conv_rhs => rw [← List.zipIdx_map_fst 0 s.procs, List.countP_map]
  refine List.countP_congr ?_
  rintro ⟨q, j⟩ _
  cases q <;> exact Iff.rfl

/-- A user's lock is held by one transaction at most. -/
theorem nodup_users_holding
    (d : Deps) (s : Service) :
    (((handlers s).filter (holdsUserLock d s.world)).map fun p => p.2.user).Nodup := by
  refine List.Nodup.map_on ?_ ((nodup_handlers s).filter _)
  rintro ⟨i, h⟩ hi ⟨j, h'⟩ hj huser
  obtain ⟨hmemi, hlocki⟩ := List.mem_filter.mp hi
  obtain ⟨hmemj, hlockj⟩ := List.mem_filter.mp hj
  simp only [holdsUserLock, Bool.and_eq_true, decide_eq_true_eq] at hlocki hlockj huser
  have hplace : i = j := by
    rw [huser, hlockj.2] at hlocki
    exact (Option.some.inj hlocki.2).symm
  subst hplace
  have hsame : some (Proc.handler h) = some (.handler h') :=
    (mem_handlers.mp hmemi).symm.trans (mem_handlers.mp hmemj)
  cases hsame
  rfl

/-- Every open transaction holds its user's lock or does not. -/
theorem openTransactions_eq
    (d : Deps) (s : Service) :
    openTransactions s = openWithoutLock d s + (usersHolding d s).card := by
  have hholding : (usersHolding d s).card =
      ((handlers s).filter (holdsUserLock d s.world)).countP fun p => p.2.pc.inTransaction := by
    unfold usersHolding
    rw [List.toFinset_card_of_nodup (nodup_users_holding d s), List.length_map]
    symm
    rw [List.countP_eq_length]
    intro p hp
    have hholds := (List.mem_filter.mp hp).2
    simp only [holdsUserLock, Bool.and_eq_true] at hholds
    exact hholds.1
  rw [← countP_handlers,
    List.countP_eq_countP_filter_add _ _ (holdsUserLock d s.world), ← hholding,
    List.countP_filter, Nat.add_comm]
  rfl

/--
**Users and the pool.**  In every state of the service, a submission that is about to
open its transaction can do so exactly if the transactions of all users that do not
hold their lock, together with the users that have one that does, are fewer than the
connections.
-/
theorem begin_enabled_iff
    {s : Service} {i : Nat} {h : Handler} {text : JsString}
    (hp : s.procs[i]? = some (.handler h))
    (hpc : h.pc = .opening text) :
    ((pooledService d poolSize).step s (.act i (.handler .beginTx))).isSome = true ↔
      openWithoutLock d s + (usersHolding d s).card < poolSize := by
  have hfires : ((service d).machine.step s (.act i (.handler .beginTx))).isSome = true := by
    simp [service, Program.machine, Program.poolStep, hp, Proc.act, Handler.act, hpc]
  rw [← openTransactions_eq d s]
  simp only [pooledService, admits, HandlerEvent.needsConnection, Bool.not_true, Bool.false_or,
    decide_eq_true_eq]
  constructor
  · intro henabled
    by_contra hfull
    rw [if_neg hfull] at henabled
    cases henabled
  · intro hroom
    rw [if_pos hroom]
    exact hfires

def secondUser : Uuid :=
  ⟨"8c3bfb1c-95b1-4a3c-9dd6-0a7f1f1d2f02", by decide⟩

/-- Two users with different lock keys. -/
def twoUserDeps : Deps :=
  { sampleDeps with hashtext := fun text => if text = sampleUser.text then 0 else 1 }

/-- The second user's submission. -/
def secondSubmission : ServiceEvent :=
  .spawn (.submit
    { user := secondUser
      idempotencyKey := none
      body := some (.obj [("text", .str [0x0995])]) })

/-- A submission that opens its transaction. -/
def openTransaction (i : Nat) : List ServiceEvent :=
  sampleSubmission none :: handlerEvents i [.takeToken 1 0, .beginTx]

/-- The first of a user's submissions takes the lock, the others wait for it. -/
def burst : Nat → List ServiceEvent
  | 0 => openTransaction 0 ++ handlerEvents 0 [.lock]
  | n + 1 => burst n ++ openTransaction (n + 1)

/-- Submission `i` is the second user's only one, about to open its transaction, and
one user holds a lock. -/
def secondUserNext (i : Nat) (s : Service) : Bool :=
  (place? s i).any (fun h => decide (h.user = secondUser ∧ h.pc = .opening [0x0995])) &&
    (handlers s).all (fun p => decide (p.1 ≠ i → p.2.user ≠ secondUser)) &&
      decide ((usersHolding twoUserDeps s).card = 1)

theorem of_secondUserNext
    {i : Nat} {s : Service}
    (h : secondUserNext i s = true) :
    (∃ a, s.procs[i]? = some (.handler a) ∧ a.user = secondUser ∧ a.pc = .opening [0x0995]) ∧
      (∀ j a, j ≠ i → s.procs[j]? = some (.handler a) → a.user ≠ secondUser) ∧
        (usersHolding twoUserDeps s).card = 1 := by
  simp only [secondUserNext, Bool.and_eq_true, decide_eq_true_eq, List.all_eq_true] at h
  obtain ⟨⟨hplace, hothers⟩, hcard⟩ := h
  obtain ⟨a, ha, hprop⟩ := (Option.any_eq_true _ _).mp hplace
  have hnext := of_decide_eq_true hprop
  refine ⟨⟨a, handler_of_place? ha, hnext.1, hnext.2⟩, ?_, hcard⟩
  intro j b hj hb
  exact hothers (j, b) (mem_handlers.mpr hb) hj

/-- Beside a burst of two the second user finds the third connection free. -/
theorem begin_enabled_beside_two :
    ∃ (es : List ServiceEvent) (s : Service),
      Machine.Run (pooledService twoUserDeps 3) Machine.anyStep Service.initial es s ∧
        ((pooledService twoUserDeps 3).step s (.act 2 (.handler .beginTx))).isSome = true := by
  have hexec : ((pooledService twoUserDeps 3).exec (fun _ _ => true) Service.initial
      (burst 1 ++ secondSubmission :: handlerEvents 2 [.takeToken 1 0])).any
      (fun s => secondUserNext 2 s && decide (openWithoutLock twoUserDeps s = 1)) = true := by
    decide +kernel
  obtain ⟨s, hrun, hs⟩ := Machine.exists_anyRun_of_exec hexec
  simp only [Bool.and_eq_true, decide_eq_true_eq] at hs
  obtain ⟨⟨a, ha, _, hpc⟩, _, hcard⟩ := of_secondUserNext hs.1
  refine ⟨_, s, hrun, (begin_enabled_iff ha hpc).mpr ?_⟩
  rw [hs.2, hcard]
  decide

/-- A burst of one user that is as large as the pool: the second user has no other
submission, one user of three possible ones holds a lock, and the step is not enabled. -/
theorem second_user_held_up :
    ∃ (es : List ServiceEvent) (s : Service),
      Machine.Run (pooledService twoUserDeps 3) Machine.anyStep Service.initial es s ∧
        (∃ a, s.procs[3]? = some (.handler a) ∧ a.user = secondUser ∧
          a.pc = .opening [0x0995]) ∧
        (∀ j a, j ≠ 3 → s.procs[j]? = some (.handler a) → a.user ≠ secondUser) ∧
        (usersHolding twoUserDeps s).card < 3 ∧
        (pooledService twoUserDeps 3).step s (.act 3 (.handler .beginTx)) = none := by
  have hexec : ((pooledService twoUserDeps 3).exec (fun _ _ => true) Service.initial
      (burst 2 ++ secondSubmission :: handlerEvents 3 [.takeToken 1 0])).any
      (fun s => secondUserNext 3 s &&
        ((pooledService twoUserDeps 3).step s (.act 3 (.handler .beginTx))).isNone) = true := by
    decide +kernel
  obtain ⟨s, hrun, hs⟩ := Machine.exists_anyRun_of_exec hexec
  rw [Bool.and_eq_true] at hs
  obtain ⟨hnext, hothers, hcard⟩ := of_secondUserNext hs.1
  refine ⟨_, s, hrun, hnext, hothers, ?_, Option.isNone_iff_eq_none.mp hs.2⟩
  rw [hcard]
  decide

end Contention

end BengaliTts
