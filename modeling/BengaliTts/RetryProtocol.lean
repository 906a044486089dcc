import BengaliTts.DeliveryOutcome

/-!
# The attempts of one job

Two programs count attempts.  The queue retries while `attemptsMade + 1 < attempts` and
the exception is no `UnrecoverableError`; the worker marks the row FAILED if its own test
`attemptsMade + 1 >= attempts` says that this attempt was the last one, and QUEUED
otherwise.  Here the stores are healthy, no worker dies and the queue delivers the entry
to one worker at a time, so the life of the entry is decided by what the engine comes to
at each attempt: a recording, an exception, or the time limit.

A `Stage` says, for every place of the entry, which attempts are behind it, how often the
engine was called, and what the row holds.

Main result:
* `retry_protocol_outcome`: the row and the engine's calls in every state of such a life,
  that the row becomes terminal exactly when the queue stops retrying, and that every
  life gets there.
-/

namespace BengaliTts

open Lib

section Statements

/-- What a call of the engine comes to. -/
inductive Outcome where
  | wav (data : Bytes)
  /-- Any exception but a `TimeoutError`; the engine raises neither an
  `UnrecoverableError`, which is the queue's own, nor what is no `Exception`. -/
  | exception
  /-- The call runs past the time limit. -/
  | timeout
deriving DecidableEq

/-- The statements of an attempt with this outcome; nothing else fails. -/
def Outcome.admits (outcome : Outcome) : CallEvent → Bool
  | .synthesizeReturns data => decide (outcome = .wav data)
  | .synthesizeRaises exc => decide (outcome = .exception ∧ exc = .other)
  | .timeoutExpires => decide (outcome = .timeout)
  | e => !e.fails

/-- The row of a job. -/
def World.rowOf (w : World) (jobId : Uuid) : Option Job :=
  w.jobs.find? fun r => decide (r.id = jobId)

/-- The rest of the system leaves the job's row and its recording alone. -/
def LeavesAlone (user jobId : Uuid) (w w' : World) : Prop :=
  w'.rowOf jobId = w.rowOf jobId ∧
    w'.bucket (audioKey user jobId) = w.bucket (audioKey user jobId)

/-- Attempt `k` comes to `outcomes k`, and nothing else goes wrong. -/
def Healthy (user jobId : Uuid) (outcomes : Nat → Outcome) (s : EntryState) :
    EntryEvent → Prop
  | .call e => ∀ k pc, s.phase = .active k pc → (outcomes k).admits e = true
  | .others w => LeavesAlone user jobId s.world w
  | _ => True

/-- The engine is called. -/
def EntryEvent.callsEngine : EntryEvent → Bool
  | .call .synthesize => true
  | _ => false

/-- A step of the queue or of the worker. -/
def EntryEvent.own : EntryEvent → Bool
  | .others _ => false
  | _ => true

/-- Number of calls of the engine. -/
def engineCalls (es : List EntryEvent) : Nat :=
  es.countP EntryEvent.callsEngine

/-- The row of an unfinished job: no recording and no error. -/
structure OpenRow (user jobId : Uuid) (status : JobStatus) (w : World) (r : Job) : Prop where
  row : w.rowOf jobId = some r
  user : r.userId = user
  status : r.status = status
  audioKey : r.audioKey = none
  errorCode : r.errorCode = none
  errorMessage : r.errorMessage = none

/-- The row is COMPLETED and its recording is the given one. -/
def EndsCompleted (user jobId : Uuid) (data : Bytes) (w : World) : Prop :=
  ∃ r, w.rowOf jobId = some r ∧ r.status = .completed ∧
    r.audioKey = some (audioKey user jobId) ∧ r.errorCode = none ∧ r.errorMessage = none ∧
      w.bucket (audioKey user jobId) = some data

/-- The row is FAILED with the given error. -/
def EndsFailed (jobId : Uuid) (code message : String) (w : World) : Prop :=
  ∃ r, w.rowOf jobId = some r ∧ r.status = .failed ∧ r.audioKey = none ∧
    r.errorCode = some code ∧ r.errorMessage = some message

/-- All attempts before `k` raised, and `k` is one of the attempts. -/
def Reaches (outcomes : Nat → Outcome) (attempts k : Nat) : Prop :=
  k < attempts ∧ ∀ j, j < k → outcomes j = .exception

/-- The queue is done with the entry. -/
def EntryState.stopped (s : EntryState) : Bool :=
  match s.phase with
  | .completed => true
  | .failed _ _ _ => true
  | _ => false

/-- The part of an attempt between its first status write and its last one. -/
def CallPc.underway : CallPc → Bool
  | .activated _ => true
  | .synthesizing _ => true
  | .synthesized _ _ => true
  | .uploaded _ _ => true
  | .timedOut _ => true
  | .failing _ _ => true
  | _ => false

end Statements

section Rows

variable {user jobId : Uuid} {w w' : World} {r : Job} {status : JobStatus}

/-- A status write changes the row of an unfinished job. -/
theorem rowOf_write
    {now : Nat} {f : Job → Job}
    (hf : StatusWrite now jobId f)
    (hrow : w.rowOf jobId = some r)
    (hopen : r.status.terminal = false) :
    World.rowOf { w with jobs := guardedUpdate jobId f w.jobs } jobId = some (f r) := by
  have hid : r.id = jobId := by simpa using List.find?_some hrow
  have hfind : (w.jobs.find? fun r => decide (r.id = jobId)) = some r := hrow
  unfold World.rowOf
  rw [find?_guardedUpdate hf, hfind]
  simp [notTerminal, hid, hopen]

theorem OpenRow.terminal
    (h : OpenRow user jobId status w r) :
    r.status.terminal = status.terminal := by
  rw [h.status]

/-- What the worker reads of the row. -/
theorem OpenRow.fetch
    (h : OpenRow user jobId status w r) :
    BengaliTts.fetchJob w.jobs jobId = some r.toJobRow := by
  have hfind : (w.jobs.find? fun r => decide (r.id = jobId)) = some r := h.row
  rw [BengaliTts.fetchJob, hfind]
  rfl

theorem OpenRow.setActive
    (h : OpenRow user jobId status w r)
    (hopen : status.terminal = false)
    (now : Nat) :
    OpenRow user jobId .active
      { w with jobs := guardedUpdate jobId (setActive now) w.jobs } (setActive now r) :=
  ⟨rowOf_write .active h.row (h.terminal.trans hopen), h.user, rfl, h.audioKey, h.errorCode,
    h.errorMessage⟩

theorem OpenRow.setQueued
    (h : OpenRow user jobId status w r)
    (hopen : status.terminal = false) :
    OpenRow user jobId .queued
      { w with jobs := guardedUpdate jobId setQueued w.jobs } (setQueued r) :=
  ⟨rowOf_write (.queued : StatusWrite 0 jobId _) h.row (h.terminal.trans hopen), h.user, rfl,
    h.audioKey, h.errorCode, h.errorMessage⟩

theorem OpenRow.setFailed
    (h : OpenRow user jobId status w r)
    (hopen : status.terminal = false)
    (now : Nat) (code message : String) :
    EndsFailed jobId code message
      { w with jobs := guardedUpdate jobId (setFailed now code message) w.jobs } :=
  ⟨_, rowOf_write (.failed code message) h.row (h.terminal.trans hopen), rfl, h.audioKey, rfl, rfl⟩

theorem OpenRow.setCompleted
    {data : Bytes}
    (h : OpenRow user jobId status w r)
    (hopen : status.terminal = false)
    (hdata : w.bucket (BengaliTts.audioKey user jobId) = some data)
    (now : Nat) :
    EndsCompleted user jobId data
      { w with
        jobs := guardedUpdate jobId (setCompleted now (BengaliTts.audioKey user jobId)) w.jobs } :=
  ⟨_, rowOf_write (.completed _) h.row (h.terminal.trans hopen), rfl, rfl, h.errorCode,
    h.errorMessage, hdata⟩

theorem OpenRow.frame
    (h : OpenRow user jobId status w r)
    (hrow : w'.rowOf jobId = w.rowOf jobId) :
    OpenRow user jobId status w' r :=
  { h with row := hrow.trans h.row }

end Rows

section Stages

/-- What holds of the entry and of the stores after the given calls of the engine. -/
inductive Stage (d : Deps) (user jobId : Uuid) (attempts : Nat) (outcomes : Nat → Outcome)
    (calls : Nat) (w : World) : EntryPhase → Prop
  | waiting {k : Nat} {r : Job} (hk : Reaches outcomes attempts k) (hcalls : calls = k)
      (hrow : OpenRow user jobId .queued w r) :
      Stage d user jobId attempts outcomes calls w (.waiting k)
  | entered {k : Nat} {r : Job} (hk : Reaches outcomes attempts k) (hcalls : calls = k)
      (hrow : OpenRow user jobId .queued w r) :
      Stage d user jobId attempts outcomes calls w (.active k .entered)
  | fetched {k : Nat} {r : Job} {row : JobRow} (hk : Reaches outcomes attempts k)
      (hcalls : calls = k) (hrow : OpenRow user jobId .queued w r) (huser : row.userId = user) :
      Stage d user jobId attempts outcomes calls w (.active k (.fetched row))
  | activated {k : Nat} {r : Job} {row : JobRow} (hk : Reaches outcomes attempts k)
      (hcalls : calls = k) (hrow : OpenRow user jobId .active w r) (huser : row.userId = user) :
      Stage d user jobId attempts outcomes calls w (.active k (.activated row))
  | synthesizing {k : Nat} {r : Job} {row : JobRow} (hk : Reaches outcomes attempts k)
      (hcalls : calls = k + 1) (hrow : OpenRow user jobId .active w r)
      (huser : row.userId = user) :
      Stage d user jobId attempts outcomes calls w (.active k (.synthesizing row))
  | synthesized {k : Nat} {r : Job} {row : JobRow} {data : Bytes}
      (hk : Reaches outcomes attempts k) (hcalls : calls = k + 1)
      (hrow : OpenRow user jobId .active w r) (huser : row.userId = user)
      (hout : outcomes k = .wav data) :
      Stage d user jobId attempts outcomes calls w (.active k (.synthesized row data))
  | uploaded {k : Nat} {r : Job} {row : JobRow} {data : Bytes}
      (hk : Reaches outcomes attempts k) (hcalls : calls = k + 1)
      (hrow : OpenRow user jobId .active w r) (hout : outcomes k = .wav data)
      (hdata : w.bucket (audioKey user jobId) = some data) :
      Stage d user jobId attempts outcomes calls w
        (.active k (.uploaded row (audioKey user jobId)))
  | recorded {k : Nat} {row : JobRow} {key : String} {data : Bytes}
      (hk : Reaches outcomes attempts k) (hcalls : calls = k + 1) (hout : outcomes k = .wav data)
      (hends : EndsCompleted user jobId data w) :
      Stage d user jobId attempts outcomes calls w (.active k (.recorded row key))
  | timedOut {k : Nat} {r : Job} {row : JobRow} (hk : Reaches outcomes attempts k)
      (hcalls : calls = k + 1) (hrow : OpenRow user jobId .active w r)
      (hout : outcomes k = .timeout) :
      Stage d user jobId attempts outcomes calls w (.active k (.timedOut row))
  | failing {k : Nat} {r : Job} {row : JobRow} (hk : Reaches outcomes attempts k)
      (hcalls : calls = k + 1) (hrow : OpenRow user jobId .active w r)
      (hout : outcomes k = .exception) :
      Stage d user jobId attempts outcomes calls w (.active k (.failing row false))
  | completed {k : Nat} {data : Bytes} (hk : Reaches outcomes attempts k)
      (hcalls : calls = k + 1) (hout : outcomes k = .wav data)
      (hends : EndsCompleted user jobId data w) :
      Stage d user jobId attempts outcomes calls w .completed
  | overdue {k : Nat} (hk : Reaches outcomes attempts k) (hcalls : calls = k + 1)
      (hout : outcomes k = .timeout) (hends : EndsFailed jobId "TIMEOUT" d.timeoutMessage w) :
      Stage d user jobId attempts outcomes calls w (.failed k false .listened)
  | exhausted {k : Nat} (hk : Reaches outcomes attempts k) (hcalls : calls = k + 1)
      (hlast : attempts = k + 1) (hout : outcomes k = .exception)
      (hends : EndsFailed jobId "INTERNAL" "Synthesis failed" w) :
      Stage d user jobId attempts outcomes calls w (.failed k false .listened)

/-- How far an attempt has come. -/
def CallPc.place : CallPc → Nat
  | .entered => 1
  | .fetched _ => 2
  | .activated _ => 3
  | .synthesizing _ => 4
  | .synthesized _ _ => 5
  | .timedOut _ => 5
  | .failing _ _ => 5
  | .uploaded _ _ => 6
  | .recorded _ _ => 7
  | _ => 0

/-- How far an entry has come: at most eight steps of an attempt after those of the
attempts before it. -/
def EntryPhase.place (attempts : Nat) : EntryPhase → Nat
  | .waiting k => 8 * k
  | .active k pc => 8 * k + pc.place
  | .completed => 8 * attempts
  | .failed _ _ _ => 8 * attempts

variable {d : Deps} {user jobId : Uuid} {attempts calls : Nat} {outcomes : Nat → Outcome}
  {w w' : World}

/-- The rest of the system leaves the stage as it is. -/
theorem stage_frame
    {phase : EntryPhase}
    (h : Stage d user jobId attempts outcomes calls w phase)
    (halone : LeavesAlone user jobId w w') :
    Stage d user jobId attempts outcomes calls w' phase := by
  obtain ⟨hrows, hbucket⟩ := halone
  cases h with
  | waiting hk hcalls hrow => exact .waiting hk hcalls (hrow.frame hrows)
  | entered hk hcalls hrow => exact .entered hk hcalls (hrow.frame hrows)
  | fetched hk hcalls hrow huser => exact .fetched hk hcalls (hrow.frame hrows) huser
  | activated hk hcalls hrow huser => exact .activated hk hcalls (hrow.frame hrows) huser
  | synthesizing hk hcalls hrow huser => exact .synthesizing hk hcalls (hrow.frame hrows) huser
  | synthesized hk hcalls hrow huser hout =>
      exact .synthesized hk hcalls (hrow.frame hrows) huser hout
  | uploaded hk hcalls hrow hout hdata =>
      exact .uploaded hk hcalls (hrow.frame hrows) hout (hbucket.trans hdata)
  | recorded hk hcalls hout hends =>
      obtain ⟨r, hr, hstatus, hkey, hcode, hmessage, hdata⟩ := hends
      exact .recorded hk hcalls hout
        ⟨r, hrows.trans hr, hstatus, hkey, hcode, hmessage, hbucket.trans hdata⟩
  | timedOut hk hcalls hrow hout => exact .timedOut hk hcalls (hrow.frame hrows) hout
  | failing hk hcalls hrow hout => exact .failing hk hcalls (hrow.frame hrows) hout
  | completed hk hcalls hout hends =>
      obtain ⟨r, hr, hstatus, hkey, hcode, hmessage, hdata⟩ := hends
      exact .completed hk hcalls hout
        ⟨r, hrows.trans hr, hstatus, hkey, hcode, hmessage, hbucket.trans hdata⟩
  | overdue hk hcalls hout hends =>
      obtain ⟨r, hr, hfailed⟩ := hends
      exact .overdue hk hcalls hout ⟨r, hrows.trans hr, hfailed⟩
  | exhausted hk hcalls hlast hout hends =>
      obtain ⟨r, hr, hfailed⟩ := hends
      exact .exhausted hk hcalls hlast hout ⟨r, hrows.trans hr, hfailed⟩

theorem settle_failing
    {k : Nat}
    (hk : Reaches outcomes attempts k)
    (hcalls : calls = k + 1)
    (hout : outcomes k = .exception)
    (hqueued : k + 1 < attempts → ∃ r, OpenRow user jobId .queued w r)
    (hfailed : attempts = k + 1 → EndsFailed jobId "INTERNAL" "Synthesis failed" w) :
    Stage d user jobId attempts outcomes calls w (settle jobId attempts k (.raised false)) ∧
      8 * k + 5 < (settle jobId attempts k (.raised false)).place attempts := by
  have hlt := hk.1
  by_cases hnext : k + 1 < attempts
  · have hsettle : settle jobId attempts k (.raised false) = .waiting (k + 1) := by
      simp [settle, hnext]
    obtain ⟨r, hrow⟩ := hqueued hnext
    rw [hsettle]
    refine ⟨.waiting ⟨hnext, ?_⟩ hcalls hrow, ?_⟩
    · intro j hj
      rcases Nat.lt_succ_iff_lt_or_eq.mp hj with hj | rfl
      · exact hk.2 j hj
      · exact hout
    · simp only [EntryPhase.place]
      omega
  · have hlast : attempts = k + 1 := by omega
    have hsettle : settle jobId attempts k (.raised false) = .failed k false .listened := by
      simp [settle, hnext, Call.recordBypassedFailure, queueJob]
    rw [hsettle]
    refine ⟨.exhausted hk hcalls hlast hout (hfailed hlast), ?_⟩
    simp only [EntryPhase.place]
    omega

/-- A statement that leads on within the attempt. -/
theorem stage_on
    {k : Nat} {pc pc' : CallPc}
    (hsettle : settle jobId attempts k pc' = .active k pc')
    (hplace : pc.place < pc'.place)
    (h : Stage d user jobId attempts outcomes calls w (.active k pc')) :
    Stage d user jobId attempts outcomes calls w (settle jobId attempts k pc') ∧
      8 * k + pc.place < (settle jobId attempts k pc').place attempts := by
  rw [hsettle]
  exact ⟨h, Nat.add_lt_add_left hplace _⟩

/-- The stage after a statement of an attempt. -/
theorem stage_of_call
    {k : Nat} {pc pc' : CallPc} {e : CallEvent}
    (h : Stage d user jobId attempts outcomes calls w (.active k pc))
    (hs : CallStep d w (queueJob jobId attempts k false) pc e w' pc')
    (hadmits : (outcomes k).admits e = true) :
    Stage d user jobId attempts outcomes (calls + (EntryEvent.call e).callsEngine.toNat) w'
        (settle jobId attempts k pc') ∧
      8 * k + pc.place < (settle jobId attempts k pc').place attempts := by
  cases h with
  | entered hk hcalls hrow =>
      cases hs with
      | quiet hq =>
          cases hq with
          | missing hnone => cases hrow.fetch.symm.trans hnone
          | skip hsome ht =>
              cases hrow.fetch.symm.trans hsome
              cases hrow.terminal.symm.trans ht
          | fetch hsome ht =>
              cases hrow.fetch.symm.trans hsome
              exact stage_on rfl (by simp [CallPc.place]) (.fetched hk hcalls hrow hrow.user)
          | fetchRaises => cases hadmits
          | crash => cases hadmits
      | write hf hafter => cases hf
  | fetched hk hcalls hrow huser =>
      cases hs with
      | quiet hq =>
          cases hq with
          | activeRaises => cases hadmits
          | crash => cases hadmits
      | write hf hafter =>
          cases hf
          cases hafter with
          | active =>
              exact stage_on rfl (by simp [CallPc.place])
                (.activated hk hcalls (hrow.setActive rfl w.now) huser)
          | activeRaises => cases hadmits
  | activated hk hcalls hrow huser =>
      cases hs with
      | quiet hq =>
          cases hq with
          | synthesize =>
              have hcalled : calls + 1 = k + 1 := by rw [hcalls]
              exact stage_on rfl (by simp [CallPc.place]) (.synthesizing hk hcalled hrow huser)
          | crash => cases hadmits
      | write hf hafter => cases hf
  | synthesizing hk hcalls hrow huser =>
      cases hs with
      | quiet hq =>
          cases hq with
          | synthesizeRaises row exc =>
              obtain ⟨hout, rfl⟩ := of_decide_eq_true hadmits
              exact stage_on rfl (by simp [exceptClause, CallPc.place])
                (.failing hk hcalls hrow hout)
          | timeoutExpires =>
              exact stage_on rfl (by simp [CallPc.place])
                (.timedOut hk hcalls hrow (of_decide_eq_true hadmits))
          | crash => cases hadmits
      | write hf hafter => cases hf
      | synthesizeReturns row data =>
          exact stage_on rfl (by simp [CallPc.place])
            (.synthesized hk hcalls (hrow.frame rfl) huser (of_decide_eq_true hadmits))
  | synthesized hk hcalls hrow huser hout =>
      cases hs with
      | quiet hq =>
          cases hq with
          | uploadRaises => cases hadmits
          | crash => cases hadmits
      | write hf hafter => cases hf
      | uploadWav row data =>
          rw [huser]
          exact stage_on rfl (by simp [CallPc.place])
            (.uploaded hk hcalls (hrow.frame rfl) hout (Function.update_self _ _ _))
      | uploadWavRaises => cases hadmits
  | uploaded hk hcalls hrow hout hdata =>
      cases hs with
      | quiet hq =>
          cases hq with
          | completedRaises => cases hadmits
          | crash => cases hadmits
      | write hf hafter =>
          cases hf
          cases hafter with
          | completed =>
              exact stage_on rfl (by simp [CallPc.place])
                (.recorded hk hcalls hout (hrow.setCompleted rfl hdata w.now))
          | completedRaises => cases hadmits
  | recorded hk hcalls hout hends =>
      cases hs with
      | quiet hq =>
          cases hq with
          | finish =>
              refine ⟨.completed hk hcalls hout hends, ?_⟩
              have hlt := hk.1
              simp only [settle, EntryPhase.place, CallPc.place]
              omega
          | crash => cases hadmits
      | write hf hafter => cases hf
  | timedOut hk hcalls hrow hout =>
      cases hs with
      | quiet hq =>
          cases hq with
          | timedOutRaises => cases hadmits
          | crash => cases hadmits
      | write hf hafter =>
          cases hf
          cases hafter with
          | timedOut =>
              have hsettle : settle jobId attempts k (.raised true) = .failed k false .listened := by
                simp [settle, Call.recordBypassedFailure, queueJob]
              rw [hsettle]
              refine ⟨.overdue hk hcalls hout (hrow.setFailed rfl w.now _ _), ?_⟩
              have hlt := hk.1
              simp only [EntryPhase.place, CallPc.place]
              omega
          | timedOutRaises => cases hadmits
  | failing hk hcalls hrow hout =>
      cases hs with
      | quiet hq =>
          cases hq with
          | failingRaises => cases hadmits
          | crash => cases hadmits
      | write hf hafter =>
          -- The worker's own test agrees with the queue's.
          cases hafter with
          | failing =>
              cases hf with
              | failed _ _ hfinal =>
                  refine settle_failing hk hcalls hout ?_ fun _ => hrow.setFailed rfl w.now _ _
                  intro hnext
                  have hlast : k + 1 ≥ attempts := of_decide_eq_true hfinal
                  omega
              | queued _ _ hnot =>
                  refine settle_failing hk hcalls hout (fun _ => ⟨_, hrow.setQueued rfl⟩) ?_
                  intro hlast
                  have hmore : ¬ k + 1 ≥ attempts := of_decide_eq_false hnot
                  omega
          | failingRaises => cases hadmits

/-- The stage after any step of a healthy entry. -/
theorem stage_of_step
    {s t : EntryState} {e : EntryEvent}
    (h : Stage d user jobId attempts outcomes calls s.world s.phase)
    (hG : Healthy user jobId outcomes s e)
    (hs : EntryStep d jobId attempts s e t) :
    Stage d user jobId attempts outcomes (calls + e.callsEngine.toNat) t.world t.phase ∧
      s.phase.place attempts + e.own.toNat ≤ t.phase.place attempts := by
  cases hs with
  | deliver w k =>
      cases h with
      | waiting hk hcalls hrow => exact ⟨.entered hk hcalls hrow, le_rfl⟩
  | call hstep => exact stage_of_call h hstep (hG _ _ rfl)
  | recoverStalled => cases h
  | exceedStallLimit => cases h
  | listen he hstep =>
      cases h <;>
        cases hstep with
        | quiet hq =>
            cases hq with
            | crash hrunning => cases hrunning
        | write hf => cases hf
  | others hover hkeep => exact ⟨stage_frame h hG, le_rfl⟩

theorem CallPc.place_le
    (pc : CallPc) :
    pc.place ≤ 7 := by
  cases pc <;> simp [CallPc.place]

/-- An attempt is made only after all earlier ones raised. -/
theorem reaches_of_stage
    {phase : EntryPhase} {k : Nat}
    (h : Stage d user jobId attempts outcomes calls w phase)
    (hphase : phase = .waiting k ∨ ∃ pc, phase = .active k pc) :
    Reaches outcomes attempts k := by
  rcases hphase with rfl | ⟨pc, rfl⟩
  · cases h
    assumption
  · cases h <;> assumption

theorem place_le_of_stage
    {phase : EntryPhase}
    (h : Stage d user jobId attempts outcomes calls w phase) :
    phase.place attempts ≤ 8 * attempts := by
  cases phase with
  | waiting k =>
      have hlt := (reaches_of_stage h (Or.inl rfl)).1
      simp only [EntryPhase.place]
      omega
  | active k pc =>
      have hlt := (reaches_of_stage h (Or.inr ⟨pc, rfl⟩)).1
      have hpc := pc.place_le
      simp only [EntryPhase.place]
      omega
  | completed => exact le_rfl
  | failed => exact le_rfl

/-- As long as the queue is not done, the attempt at hand can go on. -/
theorem progress_of_stage
    {s : EntryState}
    (h : Stage d user jobId attempts outcomes calls s.world s.phase)
    (hgoes : s.stopped = false) :
    ∃ e t, e.own = true ∧ Healthy user jobId outcomes s e ∧
      (entryMachine d jobId attempts).step s e = some t := by
  obtain ⟨w, phase⟩ := s
  -- One statement of the attempt that the outcome admits and that returns.
  have hcall : ∀ (k : Nat) (pc : CallPc) (e : CallEvent) (w' : World) (c : Call),
      phase = .active k pc → (outcomes k).admits e = true →
        Call.act d w ⟨queueJob jobId attempts k false, pc⟩ e = some (w', c) →
          ∃ e t, e.own = true ∧ Healthy user jobId outcomes ⟨w, phase⟩ e ∧
            (entryMachine d jobId attempts).step ⟨w, phase⟩ e = some t := by
    rintro k pc e w' c rfl hadmits hact
    refine ⟨.call e, ⟨w', settle jobId attempts k c.pc⟩, rfl, ?_, ?_⟩
    · intro k' pc' hphase
      cases hphase
      exact hadmits
    · simp [entryMachine, EntryState.step, hact]
  cases h with
  | waiting => exact ⟨.deliver, _, rfl, trivial, rfl⟩
  | @entered k r hk hcalls hrow =>
      have hopen : r.toJobRow.status.terminal = false := hrow.terminal
      refine hcall k .entered .fetchJob w
        ⟨queueJob jobId attempts k false, .fetched r.toJobRow⟩ rfl rfl ?_
      simp [Call.act, queueJob, hrow.fetch, hopen]
  | fetched => exact hcall _ _ .markActive _ _ rfl rfl rfl
  | activated => exact hcall _ _ .synthesize _ _ rfl rfl rfl
  | @synthesizing k =>
      cases hout : outcomes k with
      | wav data =>
          exact hcall _ _ (.synthesizeReturns data) _ _ rfl (decide_eq_true hout) rfl
      | exception =>
          exact hcall _ _ (.synthesizeRaises .other) _ _ rfl (decide_eq_true ⟨hout, rfl⟩) rfl
      | timeout => exact hcall _ _ .timeoutExpires _ _ rfl (decide_eq_true hout) rfl
  | synthesized => exact hcall _ _ .uploadWav _ _ rfl rfl rfl
  | uploaded => exact hcall _ _ .markCompleted _ _ rfl rfl rfl
  | recorded => exact hcall _ _ .finish _ _ rfl rfl rfl
  | timedOut => exact hcall _ _ .record _ _ rfl rfl rfl
  | failing => exact hcall _ _ .record _ _ rfl rfl rfl
  | completed => cases hgoes
  | overdue => cases hgoes
  | exhausted => cases hgoes

end Stages

section Lives

variable {d : Deps} {user jobId : Uuid} {attempts : Nat} {outcomes : Nat → Outcome}
  {w : World} {r : Job} {es : List EntryEvent} {s : EntryState}

/-- The stage of an entry in every state of a healthy life. -/
theorem stage_of_run
    (hattempts : 1 ≤ attempts)
    (hrow : OpenRow user jobId .queued w r)
    (hrun : EntryRun d jobId attempts (Healthy user jobId outcomes) w es s) :
    Stage d user jobId attempts outcomes (engineCalls es) s.world s.phase ∧
      es.countP EntryEvent.own ≤ s.phase.place attempts := by
  induction hrun with
  | nil =>
      refine ⟨.waiting ⟨hattempts, ?_⟩ rfl hrow, Nat.zero_le _⟩
      intro j hj
      cases hj
  | @snoc t u es e _ hG hs ih =>
      obtain ⟨hstage, hsteps⟩ := ih
      obtain ⟨hnext, hplace⟩ := stage_of_step hstage hG (entryStep_of_step hs)
      have hcalls : engineCalls (es ++ [e]) = engineCalls es + e.callsEngine.toNat := by
        cases he : e.callsEngine <;> simp [engineCalls, he]
      have hown : (es ++ [e]).countP EntryEvent.own = es.countP EntryEvent.own + e.own.toNat := by
        cases he : e.own <;> simp [he]
      rw [hcalls, hown]
      exact ⟨hnext, by omega⟩

/-- The first attempt that does not raise ends the sequence. -/
theorem eq_of_reaches
    {k j : Nat}
    (hk : Reaches outcomes attempts k)
    (hkout : outcomes k ≠ .exception)
    (hj : Reaches outcomes attempts j)
    (hjout : outcomes j ≠ .exception) :
    j = k := by
  rcases Nat.lt_trichotomy j k with h | h | h
  · exact absurd (hk.2 j h) hjout
  · exact h
  · exact absurd (hj.2 k h) hkout

/-- The entry is between the last status write and the return of its delivery. -/
def EntryState.returning (s : EntryState) : Prop :=
  ∃ k row key, s.phase = .active k (.recorded row key)

theorem rowFinished_of_row
    {q : Job}
    (hrow : s.world.rowOf jobId = some q) :
    s.world.rowFinished jobId = q.status.terminal := by
  have hfind : (s.world.jobs.find? fun r => decide (r.id = jobId)) = some q := hrow
  unfold World.rowFinished BengaliTts.fetchJob
  rw [hfind]
  rfl

/-- The row is finished when the queue is done or about to be, and open before. -/
theorem finished_or_open
    {calls : Nat}
    (h : Stage d user jobId attempts outcomes calls s.world s.phase) :
    (s.world.rowFinished jobId = true ∧ (s.stopped = true ∨ s.returning)) ∨
      (s.world.rowFinished jobId = false ∧ s.stopped = false ∧ ¬ s.returning ∧
        ∃ status q, OpenRow user jobId status s.world q) := by
  have hopen : ∀ status q, OpenRow user jobId status s.world q → status.terminal = false →
      s.stopped = false → ¬ s.returning →
        s.world.rowFinished jobId = false ∧ s.stopped = false ∧ ¬ s.returning ∧
          ∃ status q, OpenRow user jobId status s.world q := by
    intro status q hq hstatus hstopped hreturning
    have hfinished := (rowFinished_of_row hq.row).trans (hq.terminal.trans hstatus)
    exact ⟨hfinished, hstopped, hreturning, status, q, hq⟩
  obtain ⟨w, phase⟩ := s
  cases h
  case recorded hends =>
    obtain ⟨q, hq, hstatus, _⟩ := hends
    exact Or.inl ⟨by rw [rowFinished_of_row hq, hstatus]; rfl, Or.inr ⟨_, _, _, rfl⟩⟩
  case completed hends =>
    obtain ⟨q, hq, hstatus, _⟩ := hends
    exact Or.inl ⟨by rw [rowFinished_of_row hq, hstatus]; rfl, Or.inl rfl⟩
  case overdue hends =>
    obtain ⟨q, hq, hstatus, _⟩ := hends
    exact Or.inl ⟨by rw [rowFinished_of_row hq, hstatus]; rfl, Or.inl rfl⟩
  case exhausted hends =>
    obtain ⟨q, hq, hstatus, _⟩ := hends
    exact Or.inl ⟨by rw [rowFinished_of_row hq, hstatus]; rfl, Or.inl rfl⟩
  all_goals
    have hq := ‹OpenRow user jobId _ w _›
    refine Or.inr (hopen _ _ hq rfl rfl ?_)
    rintro ⟨_, _, _, hphase⟩
    cases hphase

/-- What the queue and the worker have come to when the queue is done. -/
theorem verdict_of_stopped
    {calls : Nat}
    (h : Stage d user jobId attempts outcomes calls s.world s.phase)
    (hstopped : s.stopped = true) :
    (∀ k data, Reaches outcomes attempts k → outcomes k = .wav data →
        calls = k + 1 ∧ EndsCompleted user jobId data s.world) ∧
      (∀ k, Reaches outcomes attempts k → outcomes k = .timeout →
        calls = k + 1 ∧ EndsFailed jobId "TIMEOUT" d.timeoutMessage s.world) ∧
      ((∀ j, j < attempts → outcomes j = .exception) →
        calls = attempts ∧ EndsFailed jobId "INTERNAL" "Synthesis failed" s.world) := by
  obtain ⟨w, phase⟩ := s
  cases h
  case completed k data hk hcalls hout hends =>
    have hne : outcomes k ≠ .exception := by simp [hout]
    refine ⟨?_, ?_, fun hall => absurd (hall k hk.1) hne⟩
    · intro j data' hj hjout
      obtain rfl := eq_of_reaches hk hne hj (by simp [hjout])
      cases hout.symm.trans hjout
      exact ⟨hcalls, hends⟩
    · intro j hj hjout
      obtain rfl := eq_of_reaches hk hne hj (by simp [hjout])
      cases hout.symm.trans hjout
  case overdue k hk hcalls hout hends =>
    have hne : outcomes k ≠ .exception := by simp [hout]
    refine ⟨?_, ?_, fun hall => absurd (hall k hk.1) hne⟩
    · intro j data' hj hjout
      obtain rfl := eq_of_reaches hk hne hj (by simp [hjout])
      cases hout.symm.trans hjout
    · intro j hj hjout
      obtain rfl := eq_of_reaches hk hne hj (by simp [hjout])
      exact ⟨hcalls, hends⟩
  case exhausted k hk hcalls hlast hout hends =>
    have hraised : ∀ j, Reaches outcomes attempts j → outcomes j = .exception := by
      intro j hj
      rcases Nat.lt_succ_iff_lt_or_eq.mp (hlast ▸ hj.1) with hlt | rfl
      · exact hk.2 j hlt
      · exact hout
    refine ⟨?_, ?_, fun _ => ⟨hcalls.trans hlast.symm, hends⟩⟩
    · intro j data' hj hjout
      cases (hraised j hj).symm.trans hjout
    · intro j hj hjout
      cases (hraised j hj).symm.trans hjout
  all_goals cases hstopped

/--
**The retry protocol.**  For every number of attempts and every sequence of outcomes, in
every state of a healthy life of an entry: between attempts the row is QUEUED, from the
first to the last status write of an attempt it is ACTIVE, and before it is finished it
has no error; the row is finished exactly if the queue is done with the entry or the
delivery that finished it is about to return.  When the queue is done, the engine was
called up to the first attempt that did not raise and the row is COMPLETED with the
recording of that call, or FAILED with TIMEOUT if that call ran past the limit; if every
attempt raised, the engine was called once for each and the row is FAILED with INTERNAL.
Until then a step of the queue or the worker is possible, and a life has at most eight
of them for each attempt.
-/
theorem retry_protocol_outcome
    (hattempts : 1 ≤ attempts)
    (hrow : OpenRow user jobId .queued w r)
    (hrun : EntryRun d jobId attempts (Healthy user jobId outcomes) w es s) :
    (∀ k, s.phase = .waiting k → ∃ q, OpenRow user jobId .queued s.world q) ∧
      (∀ k pc, s.phase = .active k pc → pc.underway = true →
        ∃ q, OpenRow user jobId .active s.world q) ∧
      (s.world.rowFinished jobId = false →
        ∃ status q, OpenRow user jobId status s.world q) ∧
      (s.world.rowFinished jobId = true ↔ s.stopped = true ∨ s.returning) ∧
      (s.stopped = true →
        (∀ k data, Reaches outcomes attempts k → outcomes k = .wav data →
            engineCalls es = k + 1 ∧ EndsCompleted user jobId data s.world) ∧
          (∀ k, Reaches outcomes attempts k → outcomes k = .timeout →
            engineCalls es = k + 1 ∧ EndsFailed jobId "TIMEOUT" d.timeoutMessage s.world) ∧
          ((∀ j, j < attempts → outcomes j = .exception) →
            engineCalls es = attempts ∧
              EndsFailed jobId "INTERNAL" "Synthesis failed" s.world)) ∧
      (s.stopped = false →
        ∃ e t, e.own = true ∧ Healthy user jobId outcomes s e ∧
          (entryMachine d jobId attempts).step s e = some t) ∧
      es.countP EntryEvent.own ≤ 8 * attempts := by
  obtain ⟨hstage, hsteps⟩ := stage_of_run hattempts hrow hrun
  refine ⟨?_, ?_, ?_, ?_, verdict_of_stopped hstage, progress_of_stage hstage,
    hsteps.trans (place_le_of_stage hstage)⟩
  · intro k hphase
    rw [hphase] at hstage
    cases hstage with
    | waiting _ _ hq => exact ⟨_, hq⟩
  · intro k pc hphase hunder
    rw [hphase] at hstage
    cases hstage
    case entered => cases hunder
    case fetched => cases hunder
    case recorded => cases hunder
    all_goals exact ⟨_, by assumption⟩
  · intro hfalse
    rcases finished_or_open hstage with ⟨htrue, _⟩ | ⟨_, _, _, hq⟩
    · rw [hfalse] at htrue
      cases htrue
    · exact hq
  · rcases finished_or_open hstage with ⟨htrue, hend⟩ | ⟨hfalse, hnot, hreturning, _⟩
    · exact ⟨fun _ => hend, fun _ => htrue⟩
    · constructor
      · intro htrue
        rw [hfalse] at htrue
        cases htrue
      · rintro (hstopped | hreturn)
        · rw [hnot] at hstopped
          cases hstopped
        · exact absurd hreturn hreturning

/-- Two exceptions and a recording. -/
def twoFailures : Nat → Outcome
  | 0 => .exception
  | 1 => .exception
  | _ => .wav [82]

/-- The last attempt, with a recording of one byte. -/
def lastAttempt : List EntryEvent :=
  .deliver :: [CallEvent.fetchJob, .markActive, .synthesize, .synthesizeReturns [82], .uploadWav,
    .markCompleted, .finish].map .call

/-- Nothing else writes to the stores, and the engine comes to `outcomes`. -/
def undisturbed (outcomes : Nat → Outcome) (s : EntryState) : EntryEvent → Bool
  | .call e =>
      match s.phase with
      | .active k _ => (outcomes k).admits e
      | _ => false
  | .deliver => true
  | _ => false

theorem healthy_of_undisturbed
    {s : EntryState} {e : EntryEvent}
    (h : undisturbed outcomes s e = true) :
    Healthy user jobId outcomes s e := by
  cases e with
  | call e =>
      intro k pc hphase
      simp only [undisturbed, hphase] at h
      exact h
  | others => cases h
  | _ => trivial

/-- The third of three attempts returns, and the row is COMPLETED with its recording. -/
theorem retry_protocol_outcome_third :
    ∃ s : EntryState,
      Machine.Run (entryMachine sampleDeps sampleJob 3) (Healthy sampleUser sampleJob twoFailures)
          ⟨oneQueued, .waiting 0⟩ (engineFails ++ engineFails ++ lastAttempt) s ∧
      s.stopped = true ∧
      engineCalls (engineFails ++ engineFails ++ lastAttempt) = 3 ∧
        EndsCompleted sampleUser sampleJob [82] s.world := by
  have hexec : ((entryMachine sampleDeps sampleJob 3).exec (undisturbed twoFailures)
      ⟨oneQueued, .waiting 0⟩ (engineFails ++ engineFails ++ lastAttempt)).any
      EntryState.stopped = true := by
    decide +kernel
  obtain ⟨s, hrun, hstopped⟩ := Machine.exists_run_of_exec
    (G := Healthy sampleUser sampleJob twoFailures) (fun _ _ => healthy_of_undisturbed) hexec
  have hrow : OpenRow sampleUser sampleJob .queued oneQueued
      (newJob sampleJob sampleUser "ক" none 0) :=
    ⟨by decide, rfl, rfl, rfl, rfl, rfl⟩
  have hreach : Reaches twoFailures 3 2 := ⟨by decide, by decide⟩
  obtain ⟨_, _, _, _, hverdict, _⟩ := retry_protocol_outcome (by decide) hrow hrun
  exact ⟨s, hrun, hstopped, (hverdict hstopped).1 2 [82] hreach rfl⟩

end Lives

end BengaliTts
