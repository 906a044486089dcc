import BengaliTts.Lib.ProcessPool
import BengaliTts.Processor
import BengaliTts.Submission

/-!
# The whole service

Any number of submissions on any number of gateways and any number of calls of
the worker run over one set of stores, in any interleaving.  The environment
lets time pass and takes entries out of the queue.  The service starts with
empty stores; every row of the jobs table comes from a submission.

`ServiceOk` collects what every run keeps and every later result builds on:
* inserted rows have different ids, and every row of the table is an inserted
  row up to the columns that status writes change (`WorldOk`);
* a submission in the locked part of its transaction holds its user's lock, the
  row it inserted is its own and not yet in the table, and its variable `job`
  is the row it committed (`HandlerOk`);
* a call works on the id it was given, and what it read of the row is what the
  submission inserted (`CallOk`).
-/

namespace BengaliTts

open Lib

/-- A process of the service. -/
inductive Proc where
  | handler (h : Handler)
  | call (c : Call)

/-- What starts a process: a submission, a delivery by the queue, or the queue's
`failed` event. -/
inductive Request where
  | submit (r : SubmitRequest)
  | deliver (job : QueueJob)
  | failedEvent (job : QueueJob)

inductive Action where
  | handler (e : HandlerEvent)
  | call (e : CallEvent)

/-- Time passes, or the queue drops an entry that completed or failed. -/
inductive EnvEvent where
  | tick (ms : Nat)
  | dequeue (id : Uuid)

def Request.boot : Request → Proc
  | .submit r => .handler (Handler.start r)
  | .deliver job => .call (Call.process job)
  | .failedEvent job => .call (Call.recordBypassedFailure job)

def Proc.act (d : Deps) (i : Nat) (w : World) : Proc → Action → Option (World × Proc)
  | .handler h, .handler e => (h.act d i w e).map fun next => (next.1, .handler next.2)
  | .call c, .call e => (c.act d w e).map fun next => (next.1, .call next.2)
  | _, _ => none

def World.env (w : World) : EnvEvent → Option World
  | .tick ms => some { w with now := w.now + ms }
  | .dequeue id => some { w with queue := w.queue.erase id }

/-- The programs of the service, over its stores. -/
def service (d : Deps) : Program World Proc Request Action EnvEvent where
  boot := Request.boot
  act := Proc.act d
  env := World.env

abbrev Service := Pool World Proc
abbrev ServiceEvent := PoolEvent Request Action EnvEvent

/-- Empty stores and no process. -/
def Service.initial : Service :=
  ⟨World.empty, []⟩

/-- A run of the service from its initial state under a guard. -/
abbrev ServiceRun (d : Deps) (G : Service → ServiceEvent → Prop)
    (es : List ServiceEvent) (s : Service) : Prop :=
  Machine.Run (service d).machine G Service.initial es s

/-- What an action of a process is: a step of a submission or of a call. -/
inductive ProcStep (d : Deps) (i : Nat) (w : World) :
    Proc → Action → World → Proc → Prop
  | handler {h h' : Handler} {e : HandlerEvent} {w' : World}
      (hs : HandlerStep d i w h h.pc e w' h') :
      ProcStep d i w (.handler h) (.handler e) w' (.handler h')
  | call {c c' : Call} {e : CallEvent} {w' : World}
      (hjob : c'.job = c.job)
      (hs : CallStep d w c.job c.pc e w' c'.pc) :
      ProcStep d i w (.call c) (.call e) w' (.call c')

theorem procStep_of_act
    {d : Deps} {i : Nat} {w w' : World} {p p' : Proc} {a : Action}
    (h : (service d).act i w p a = some (w', p')) :
    ProcStep d i w p a w' p' := by
  cases p with
  | handler hd =>
      cases a with
      | handler e =>
          obtain ⟨⟨w₁, h₁⟩, hact, hnext⟩ := Option.map_eq_some_iff.mp h
          cases hnext
          exact .handler (handlerStep_of_act hact)
      | call e =>
          cases h
  | call c =>
      cases a with
      | handler e =>
          cases h
      | call e =>
          obtain ⟨⟨w₁, c₁⟩, hact, hnext⟩ := Option.map_eq_some_iff.mp h
          cases hnext
          exact .call (callStep_of_act hact).1 (callStep_of_act hact).2

/-- What a step of the service is: a new process, a step of a submission or of a
call, or a change by the environment. -/
inductive ServiceStep (d : Deps) (s : Service) : ServiceEvent → Service → Prop
  | spawn (r : Request) :
      ServiceStep d s (.spawn r) ⟨s.world, s.procs ++ [r.boot]⟩
  | handler {i : Nat} {h h' : Handler} {e : HandlerEvent} {w : World}
      (hp : s.procs[i]? = some (.handler h))
      (hstep : HandlerStep d i s.world h h.pc e w h') :
      ServiceStep d s (.act i (.handler e)) ⟨w, s.procs.set i (.handler h')⟩
  | call {i : Nat} {c c' : Call} {e : CallEvent} {w : World}
      (hp : s.procs[i]? = some (.call c))
      (hjob : c'.job = c.job)
      (hstep : CallStep d s.world c.job c.pc e w c'.pc) :
      ServiceStep d s (.act i (.call e)) ⟨w, s.procs.set i (.call c')⟩
  | env {b : EnvEvent} {w : World}
      (henv : s.world.env b = some w) :
      ServiceStep d s (.env b) ⟨w, s.procs⟩

/-- **Inversion.**  Everything a step of the service can do. -/
theorem serviceStep_of_step
    {d : Deps} {s t : Service} {e : ServiceEvent}
    (h : (service d).machine.step s e = some t) :
    ServiceStep d s e t := by
  cases Program.step_of_machine h with
  | spawn r => exact .spawn r
  | act hp hact =>
      cases procStep_of_act hact with
      | handler hstep => exact .handler hp hstep
      | call hjob hstep => exact .call hp hjob hstep
  | env henv => exact .env henv

/-- A step is one of submission `i`, or it leaves submission `i` where it is. -/
theorem handler_after_step
    {d : Deps} {s t : Service} {e : ServiceEvent} {i : Nat} {h : Handler}
    (hs : (service d).machine.step s e = some t)
    (hp : s.procs[i]? = some (.handler h)) :
    (∃ e' h', HandlerStep d i s.world h h.pc e' t.world h' ∧
        t.procs[i]? = some (.handler h')) ∨
      t.procs[i]? = some (.handler h) := by
  rcases proc_of_step hs hp with ⟨a, p', _, hact, hp'⟩ | hsame
  · cases procStep_of_act hact with
    | handler hstep => exact Or.inl ⟨_, _, hstep, hp'⟩
  · exact Or.inr hsame

/-- A call of the worker stays one. -/
theorem call_after_step
    {d : Deps} {s t : Service} {e : ServiceEvent} {i : Nat} {c : Call}
    (hs : (service d).machine.step s e = some t)
    (hp : s.procs[i]? = some (.call c)) :
    ∃ c', t.procs[i]? = some (.call c') := by
  rcases proc_of_step hs hp with ⟨a, p', _, hact, hp'⟩ | hsame
  · cases procStep_of_act hact with
    | call => exact ⟨_, hp'⟩
  · exact ⟨c, hsame⟩

section Shape

/-- The part of a transaction that runs under the user's advisory lock. -/
def HandlerPc.holdsLock : HandlerPc → Bool
  | .locked _ => true
  | .counted _ => true
  | .depthChecked _ => true
  | .inserted _ => true
  | _ => false

/-- Before the transaction commits the variable `job` is unset. -/
def HandlerPc.beforeCommit : HandlerPc → Bool
  | .committed => false
  | .adding _ => false
  | .enqueued => false
  | .cleanup => false
  | .answered _ => false
  | .stopped => false
  | _ => true

/-- From the commit to the answer the variable `job` is set. -/
def HandlerPc.afterCommit : HandlerPc → Bool
  | .committed => true
  | .adding _ => true
  | .enqueued => true
  | .cleanup => true
  | _ => false

/-- The text that passed the checks, while a submission holds it. -/
def HandlerPc.text? : HandlerPc → Option JsString
  | .opening text => some text
  | .opened text => some text
  | .locked text => some text
  | .counted text => some text
  | .depthChecked text => some text
  | _ => none

/-- The row a call has read. -/
def CallPc.row? : CallPc → Option JobRow
  | .fetched row => some row
  | .activated row => some row
  | .synthesizing row => some row
  | .synthesized row _ => some row
  | .uploaded row _ => some row
  | .recorded row _ => some row
  | .timedOut row => some row
  | .failing row _ => some row
  | .bypassing row => some row
  | _ => none

/-- The object key a call holds. -/
def CallPc.key? : CallPc → Option (JobRow × String)
  | .uploaded row key => some (row, key)
  | .recorded row key => some (row, key)
  | _ => none

/-- What every run keeps of the stores. -/
structure WorldOk (w : World) : Prop where
  bornUnique : UniqueKey (fun b : Nat × Job => b.2.id) w.born
  rowsUnique : UniqueKey Job.id w.jobs
  rowsBorn : ∀ r, r ∈ w.jobs → ∃ i b, (i, b) ∈ w.born ∧ SameSubmission b r
  rowsCommitted : ∀ r, r ∈ w.jobs → r.id ∈ w.everCommitted
  committedBorn : ∀ id, id ∈ w.everCommitted → ∃ b, b ∈ w.born ∧ b.2.id = id

/-- A row as submission `h` inserts it, of a text that passed the checks. -/
def InsertedBy (d : Deps) (h : Handler) (row : Job) : Prop :=
  ∃ text id createdAt,
    validate submitSchema h.body = .ok text ∧
      validateTtsText text d.config.TTS_MAX_TEXT_LENGTH = .ok () ∧
      hasNul text = false ∧
      row = insertedRow h text id createdAt

theorem InsertedBy.userId
    {d : Deps} {h : Handler} {row : Job}
    (hby : InsertedBy d h row) :
    row.userId = h.user := by
  obtain ⟨_, _, _, _, _, _, rfl⟩ := hby
  rfl

theorem InsertedBy.idempotencyKey
    {d : Deps} {h : Handler} {row : Job}
    (hby : InsertedBy d h row) :
    row.idempotencyKey = h.key := by
  obtain ⟨_, _, _, _, _, _, rfl⟩ := hby
  rfl

/-- What every run keeps of submission `i`. -/
structure HandlerOk (d : Deps) (i : Nat) (w : World) (h : Handler) : Prop where
  lock : h.pc.holdsLock = true → w.locks (d.lockKey h.user) = some i
  text : ∀ text, h.pc.text? = some text →
    validate submitSchema h.body = .ok text ∧
      validateTtsText text d.config.TTS_MAX_TEXT_LENGTH = .ok ()
  staged : ∀ row, h.pc = .inserted row →
    (i, row) ∈ w.born ∧ InsertedBy d h row ∧ row.id ∉ w.everCommitted
  own : ∀ row, h.job = some row →
    (i, row) ∈ w.born ∧ InsertedBy d h row ∧ row.id ∈ w.everCommitted
  noJob : h.pc.beforeCommit = true → h.job = none
  hasJob : h.pc.afterCommit = true → h.job.isSome = true

theorem HandlerOk.noJob_at
    {d : Deps} {i : Nat} {w : World} {h : Handler} {pc : HandlerPc}
    (hok : HandlerOk d i w h)
    (hpc : h.pc = pc)
    (hb : pc.beforeCommit = true) :
    h.job = none :=
  hok.noJob (by rw [hpc]; exact hb)

/-- What every run keeps of a call. -/
structure CallOk (w : World) (c : Call) : Prop where
  row : ∀ row, c.pc.row? = some row →
    row.id = c.job.jobId ∧ row.id ∈ w.everCommitted ∧
      ∃ i b, (i, b) ∈ w.born ∧ b.id = row.id ∧ b.userId = row.userId ∧
        b.inputText = row.inputText
  key : ∀ row key, c.pc.key? = some (row, key) → key = audioKey row.userId c.job.jobId

def ProcOk (d : Deps) (i : Nat) (w : World) : Proc → Prop
  | .handler h => HandlerOk d i w h
  | .call c => CallOk w c

/-- What every run keeps of the service. -/
abbrev ServiceOk (d : Deps) (s : Service) : Prop :=
  Annotated WorldOk (ProcOk d) s

end Shape

section Frames

/--
What a step of another process or of the environment leaves to process `i`:
inserted and committed rows stay on record, the locks of `i` stay its own, and
a newly committed row was inserted by somebody else.
-/
structure Undisturbed (i : Nat) (w w' : World) : Prop where
  born : ∀ b, b ∈ w.born → b ∈ w'.born
  locks : ∀ k, w.locks k = some i → w'.locks k = some i
  committed : ∀ id, id ∈ w.everCommitted → id ∈ w'.everCommitted
  committedBy : ∀ id, id ∈ w'.everCommitted →
    id ∈ w.everCommitted ∨ ∃ j r, j ≠ i ∧ (j, r) ∈ w.born ∧ r.id = id

theorem Undisturbed.of_eq
    {i : Nat} {w w' : World}
    (hborn : w'.born = w.born)
    (hlocks : w'.locks = w.locks)
    (hcommitted : w'.everCommitted = w.everCommitted) :
    Undisturbed i w w' where
  born := by simp [hborn]
  locks := by simp [hlocks]
  committed := by simp [hcommitted]
  committedBy := fun id hid => Or.inl (hcommitted ▸ hid)

theorem handlerOk_frame
    {d : Deps} {i : Nat} {w w' : World} {h : Handler}
    (hw : WorldOk w)
    (hf : Undisturbed i w w')
    (hok : HandlerOk d i w h) :
    HandlerOk d i w' h where
  lock := fun hl => hf.locks _ (hok.lock hl)
  text := hok.text
  staged := by
    intro row hpc
    obtain ⟨hborn, hby, hnew⟩ := hok.staged row hpc
    refine ⟨hf.born _ hborn, hby, ?_⟩
    intro hmem
    rcases hf.committedBy _ hmem with hold | ⟨j, r, hji, hj, hid⟩
    · exact hnew hold
    · have heq := eq_of_uniqueKey hw.bornUnique hj hborn hid
      exact hji (congrArg Prod.fst heq)
  own := by
    intro row hj
    obtain ⟨hborn, hby, hmem⟩ := hok.own row hj
    exact ⟨hf.born _ hborn, hby, hf.committed _ hmem⟩
  noJob := hok.noJob
  hasJob := hok.hasJob

theorem callOk_frame
    {w w' : World} {c : Call}
    (hborn : ∀ b, b ∈ w.born → b ∈ w'.born)
    (hcommitted : ∀ id, id ∈ w.everCommitted → id ∈ w'.everCommitted)
    (hok : CallOk w c) :
    CallOk w' c where
  row := by
    intro row hrow
    obtain ⟨hid, hmem, i, b, hb, hrest⟩ := hok.row row hrow
    exact ⟨hid, hcommitted _ hmem, i, b, hborn _ hb, hrest⟩
  key := hok.key

end Frames

section Moves

/-- A step that only moves the program counter stays inside the same part of the
route, or leaves it. -/
structure MoveShape (d : Deps) (h : Handler) (pc pc' : HandlerPc) : Prop where
  holdsLock : pc'.holdsLock = true → pc.holdsLock = true
  text : ∀ text, pc'.text? = some text →
    pc.text? = some text ∨
      (validate submitSchema h.body = .ok text ∧
        validateTtsText text d.config.TTS_MAX_TEXT_LENGTH = .ok ())
  notInserted : ∀ row, pc' ≠ .inserted row
  beforeCommit : pc'.beforeCommit = true → pc.beforeCommit = true
  afterCommit : pc'.afterCommit = true → pc.afterCommit = true

theorem moveShape_answered
    (d : Deps) (h : Handler) (pc : HandlerPc) (response : SubmitResponse) :
    MoveShape d h pc (.answered response) where
  holdsLock := by simp [HandlerPc.holdsLock]
  text := by simp [HandlerPc.text?]
  notInserted := by simp
  beforeCommit := by simp [HandlerPc.beforeCommit]
  afterCommit := by simp [HandlerPc.afterCommit]

theorem moveShape_aborting
    (d : Deps) (h : Handler) {pc : HandlerPc} (thrown : Thrown)
    (hpc : pc.beforeCommit = true) :
    MoveShape d h pc (.aborting thrown) where
  holdsLock := by simp [HandlerPc.holdsLock]
  text := by simp [HandlerPc.text?]
  notInserted := by simp
  beforeCommit := fun _ => hpc
  afterCommit := by simp [HandlerPc.afterCommit]

theorem moveShape_afterToken
    (d : Deps) (h : Handler) (allowed retryAfterMs : Nat) :
    MoveShape d h .rateGate (afterToken d h allowed retryAfterMs) := by
  rcases afterToken_cases d h allowed retryAfterMs with
    ⟨error, _, ha⟩ | ⟨text, ha, hv, ht⟩
  · rw [ha]
    exact moveShape_answered d h _ _
  · rw [ha]
    constructor
    · simp [HandlerPc.holdsLock]
    · intro text' htext
      simp only [HandlerPc.text?, Option.some.injEq] at htext
      subst htext
      exact Or.inr ⟨hv, ht⟩
    · simp
    · simp [HandlerPc.beforeCommit]
    · simp [HandlerPc.afterCommit]

/-- Only calls made before the commit are answered as faults of a store. -/
theorem beforeCommit_of_afterFault
    {pc pc' : HandlerPc}
    (hf : afterFault pc = some pc') :
    pc.beforeCommit = true := by
  cases pc <;> first | rfl | cases hf

theorem moveShape_afterFault
    (d : Deps) (h : Handler) {pc pc' : HandlerPc}
    (hf : afterFault pc = some pc') :
    MoveShape d h pc pc' := by
  rcases afterFault_cases hf with rfl | rfl
  · exact moveShape_answered d h _ _
  · exact moveShape_aborting d h _ (beforeCommit_of_afterFault hf)

theorem moveShape_of_move
    {d : Deps} {w : World} {h : Handler} {pc pc' : HandlerPc} {e : HandlerEvent}
    (hm : HandlerMove d w h pc e pc') :
    MoveShape d h pc pc' := by
  cases hm
  case answerReplay => exact moveShape_answered d h _ _
  case takeToken => exact moveShape_afterToken d h _ _
  case pendingCap => exact moveShape_aborting d h _ rfl
  case queueFull => exact moveShape_aborting d h _ rfl
  case rejectNul => exact moveShape_aborting d h _ rfl
  case rejectDuplicate => exact moveShape_aborting d h _ rfl
  case winnerMissing => exact moveShape_answered d h _ _
  case answerWinner => exact moveShape_answered d h _ _
  case deleteRaises => exact moveShape_answered d h _ _
  case accept => exact moveShape_answered d h _ _
  case fault hf => exact moveShape_afterFault d h hf
  all_goals
    constructor <;>
      simp [HandlerPc.holdsLock, HandlerPc.text?, HandlerPc.beforeCommit,
        HandlerPc.afterCommit]

theorem handlerOk_of_move
    {d : Deps} {i : Nat} {w : World} {h : Handler} {pc' : HandlerPc}
    (hshape : MoveShape d h h.pc pc')
    (hok : HandlerOk d i w h) :
    HandlerOk d i w { h with pc := pc' } where
  lock := fun hl => hok.lock (hshape.holdsLock hl)
  text := by
    intro text ht
    rcases hshape.text text ht with ht' | hvalid
    · exact hok.text text ht'
    · exact hvalid
  staged := fun row hpc => absurd hpc (hshape.notInserted row)
  own := hok.own
  noJob := fun hb => hok.noJob (hshape.beforeCommit hb)
  hasJob := fun ha => hok.hasJob (hshape.afterCommit ha)

end Moves

section Steps

variable {d : Deps} {i : Nat} {w w' : World}

@[simp] theorem releaseLocks_jobs (w : World) (i : Nat) :
    (w.releaseLocks i).jobs = w.jobs := rfl

@[simp] theorem releaseLocks_born (w : World) (i : Nat) :
    (w.releaseLocks i).born = w.born := rfl

@[simp] theorem releaseLocks_everCommitted (w : World) (i : Nat) :
    (w.releaseLocks i).everCommitted = w.everCommitted := rfl

@[simp] theorem releaseLocks_bucket (w : World) (i : Nat) :
    (w.releaseLocks i).bucket = w.bucket := rfl

@[simp] theorem releaseLocks_synthesized (w : World) (i : Nat) :
    (w.releaseLocks i).synthesized = w.synthesized := rfl

@[simp] theorem releaseLocks_now (w : World) (i : Nat) :
    (w.releaseLocks i).now = w.now := rfl

@[simp] theorem releaseLocks_added (w : World) (i : Nat) :
    (w.releaseLocks i).added = w.added := rfl

@[simp] theorem releaseLocks_addCalls (w : World) (i : Nat) :
    (w.releaseLocks i).addCalls = w.addCalls := rfl

@[simp] theorem releaseLocks_queue (w : World) (i : Nat) :
    (w.releaseLocks i).queue = w.queue := rfl

/-- The end of a transaction leaves the locks of other transactions alone. -/
theorem releaseLocks_of_ne
    {w : World} {i j : Nat} {k : Int}
    (hij : i ≠ j)
    (h : w.locks k = some j) :
    (w.releaseLocks i).locks k = some j := by
  have hne : w.locks k ≠ some i := by
    rw [h]
    intro he
    exact hij (Option.some.inj he).symm
  simp only [World.releaseLocks, if_neg hne]
  exact h

/-- Rows after a guarded update come from rows of the same submission. -/
theorem exists_of_mem_guardedUpdate
    {now : Nat} {jobId : Uuid} {f : Job → Job} {jobs : List Job} {r : Job}
    (hf : StatusWrite now jobId f)
    (h : r ∈ guardedUpdate jobId f jobs) :
    ∃ q, q ∈ jobs ∧ SameSubmission q r :=
  exists_of_mem_updateWhere SameSubmission.refl hf.sameSubmission h

theorem worldOk_congr
    {w₁ w₂ : World}
    (hborn : w₂.born = w₁.born)
    (hjobs : w₂.jobs = w₁.jobs)
    (hcommitted : w₂.everCommitted = w₁.everCommitted)
    (hw : WorldOk w₁) :
    WorldOk w₂ where
  bornUnique := by
    rw [hborn]
    exact hw.bornUnique
  rowsUnique := by
    rw [hjobs]
    exact hw.rowsUnique
  rowsBorn := by
    rw [hjobs, hborn]
    exact hw.rowsBorn
  rowsCommitted := by
    rw [hjobs, hcommitted]
    exact hw.rowsCommitted
  committedBorn := by
    rw [hborn, hcommitted]
    exact hw.committedBorn

/-- The COMMIT of a staged row keeps the world's invariant. -/
theorem worldOk_of_commit
    {h : Handler} {row : Job}
    (hstaged : (i, row) ∈ w.born ∧ InsertedBy d h row ∧ row.id ∉ w.everCommitted)
    (hw : WorldOk w) :
    WorldOk ((w.commitRow row).releaseLocks i) := by
  obtain ⟨hborn, _, hnew⟩ := hstaged
  refine ⟨hw.bornUnique, uniqueKey_cons ?_ hw.rowsUnique, ?_, ?_, ?_⟩
  · intro r hr hid
    exact hnew (hid ▸ hw.rowsCommitted r hr)
  · intro r hr
    rcases List.mem_cons.mp hr with rfl | hr
    · exact ⟨i, r, hborn, SameSubmission.refl r⟩
    · exact hw.rowsBorn r hr
  · intro r hr
    rcases List.mem_cons.mp hr with rfl | hr
    · exact List.mem_cons_self
    · exact List.mem_cons_of_mem _ (hw.rowsCommitted r hr)
  · intro id hid
    rcases List.mem_cons.mp hid with rfl | hid
    · exact ⟨(i, row), hborn, rfl⟩
    · exact hw.committedBorn id hid

/-- The step of a submission keeps the world's invariant. -/
theorem worldOk_of_handlerStep
    {h h' : Handler} {pc : HandlerPc} {e : HandlerEvent}
    (hs : HandlerStep d i w h pc e w' h')
    (hpc : h.pc = pc)
    (hw : WorldOk w)
    (hok : HandlerOk d i w h) :
    WorldOk w' := by
  have hsame : ∀ w₁ : World, w₁.born = w.born → w₁.jobs = w.jobs →
      w₁.everCommitted = w.everCommitted → WorldOk w₁ :=
    fun w₁ h₁ h₂ h₃ => worldOk_congr h₁ h₂ h₃ hw
  cases hs with
  | move => exact hw
  | lock => exact hsame _ rfl rfl rfl
  | insert text id createdAt hfresh =>
      refine ⟨uniqueKey_cons hfresh hw.bornUnique, hw.rowsUnique, ?_, hw.rowsCommitted, ?_⟩
      · intro r hr
        obtain ⟨j, b, hb, hbr⟩ := hw.rowsBorn r hr
        exact ⟨j, b, List.mem_cons_of_mem _ hb, hbr⟩
      · intro id' hid
        obtain ⟨b, hb, hbid⟩ := hw.committedBorn id' hid
        exact ⟨b, List.mem_cons_of_mem _ hb, hbid⟩
  | commit row => exact worldOk_of_commit (hok.staged row hpc) hw
  | commitReplyLost row => exact worldOk_of_commit (hok.staged row hpc) hw
  | rollback => exact hsame _ rfl rfl rfl
  | callAdd => exact hsame _ rfl rfl rfl
  | addTakesEffect => exact hsame _ rfl rfl rfl
  | deleteRow =>
      refine ⟨hw.bornUnique, uniqueKey_deleteWhere hw.rowsUnique, ?_, ?_, hw.committedBorn⟩
      · intro r hr
        exact hw.rowsBorn r (mem_deleteWhere.mp hr).1
      · intro r hr
        exact hw.rowsCommitted r (mem_deleteWhere.mp hr).1
  | stop => exact hsame _ rfl rfl rfl

/-- The step of a submission keeps what is known of that submission. -/
theorem handlerOk_of_handlerStep
    {h h' : Handler} {pc : HandlerPc} {e : HandlerEvent}
    (hs : HandlerStep d i w h pc e w' h')
    (hpc : h.pc = pc)
    (hw : WorldOk w)
    (hok : HandlerOk d i w h) :
    HandlerOk d i w' h' := by
  cases hs with
  | move hm =>
      have hshape := moveShape_of_move hm
      rw [← hpc] at hshape
      exact handlerOk_of_move hshape hok
  | lock text =>
      have hb : h.pc.beforeCommit = true := by simp [hpc, HandlerPc.beforeCommit]
      refine ⟨?_, ?_, by simp, hok.own, fun _ => hok.noJob hb, by simp [HandlerPc.afterCommit]⟩
      · intro _
        simp [World.takeLock, Deps.lockKey]
      · intro text' ht
        exact hok.text text' (by simpa [hpc, HandlerPc.text?] using ht)
  | insert text id createdAt hfresh hnul =>
      have hb : h.pc.beforeCommit = true := by simp [hpc, HandlerPc.beforeCommit]
      have hvalid := hok.text text (by simp [hpc, HandlerPc.text?])
      refine ⟨?_, by simp [HandlerPc.text?], ?_, ?_, fun _ => hok.noJob hb,
        by simp [HandlerPc.afterCommit]⟩
      · intro _
        exact hok.lock (by simp [hpc, HandlerPc.holdsLock])
      · intro row hrow
        simp only [HandlerPc.inserted.injEq] at hrow
        subst hrow
        refine ⟨by simp [World.insertRow], ⟨text, id, createdAt, hvalid.1, hvalid.2, hnul, rfl⟩, ?_⟩
        intro hmem
        obtain ⟨b, hb, hid⟩ := hw.committedBorn _ hmem
        exact hfresh b hb hid
      · intro row hrow
        have hnone := hok.noJob hb
        simp only [hnone, reduceCtorEq] at hrow
  | commit row =>
      obtain ⟨hborn, hby, _⟩ := hok.staged row hpc
      refine ⟨by simp [HandlerPc.holdsLock], by simp [HandlerPc.text?], by simp, ?_,
        by simp [HandlerPc.beforeCommit], by simp⟩
      intro row' hrow'
      simp only [Option.some.injEq] at hrow'
      subst hrow'
      exact ⟨hborn, hby, List.mem_cons_self⟩
  | commitReplyLost row =>
      obtain ⟨hborn, hby, _⟩ := hok.staged row hpc
      refine ⟨by simp [HandlerPc.holdsLock], by simp [HandlerPc.text?], by simp, ?_,
        by simp [HandlerPc.beforeCommit], by simp⟩
      intro row' hrow'
      simp only [Option.some.injEq] at hrow'
      subst hrow'
      exact ⟨hborn, hby, List.mem_cons_self⟩
  | rollback thrown =>
      have hb : h.pc.beforeCommit = true := by simp [hpc, HandlerPc.beforeCommit]
      rcases afterRollback_cases h thrown with ⟨_, _, hr⟩ | hr <;> rw [hr]
      · exact ⟨by simp [HandlerPc.holdsLock], by simp [HandlerPc.text?], by simp, hok.own,
          fun _ => hok.noJob hb, by simp [HandlerPc.afterCommit]⟩
      · exact ⟨by simp [HandlerPc.holdsLock], by simp [HandlerPc.text?], by simp, hok.own,
          by simp [HandlerPc.beforeCommit], by simp [HandlerPc.afterCommit]⟩
  | callAdd job hjob =>
      exact ⟨by simp [HandlerPc.holdsLock], by simp [HandlerPc.text?], by simp, hok.own,
        by simp [HandlerPc.beforeCommit], by simp [hjob]⟩
  | addTakesEffect job hjob =>
      exact ⟨by simp [HandlerPc.holdsLock], by simp [HandlerPc.text?], by simp, hok.own,
        by simp [HandlerPc.beforeCommit], by simp [hjob]⟩
  | deleteRow job hjob =>
      exact ⟨by simp [HandlerPc.holdsLock], by simp [HandlerPc.text?], by simp, hok.own,
        by simp [HandlerPc.beforeCommit], by simp [hjob]⟩
  | stop =>
      exact ⟨by simp [HandlerPc.holdsLock], by simp [HandlerPc.text?], by simp, hok.own,
        by simp [HandlerPc.beforeCommit], by simp [HandlerPc.afterCommit]⟩

/-- The COMMIT of a staged row does not disturb another process. -/
theorem undisturbed_of_commit
    {j : Nat} {row : Job}
    (hborn : (i, row) ∈ w.born)
    (hij : i ≠ j) :
    Undisturbed j w ((w.commitRow row).releaseLocks i) := by
  refine ⟨by simp [World.commitRow], fun k hk => releaseLocks_of_ne hij hk, ?_, ?_⟩
  · intro id hid
    exact List.mem_cons_of_mem _ hid
  · intro id hid
    rcases List.mem_cons.mp hid with rfl | hid
    · exact Or.inr ⟨i, row, hij, hborn, rfl⟩
    · exact Or.inl hid

/-- The step of a submission does not disturb another process. -/
theorem undisturbed_of_handlerStep
    {j : Nat} {h h' : Handler} {pc : HandlerPc} {e : HandlerEvent}
    (hs : HandlerStep d i w h pc e w' h')
    (hpc : h.pc = pc)
    (hok : HandlerOk d i w h)
    (hij : i ≠ j) :
    Undisturbed j w w' := by
  cases hs with
  | move => exact .of_eq rfl rfl rfl
  | lock text hfree =>
      refine ⟨by simp [World.takeLock], ?_, by simp [World.takeLock], fun id hid => Or.inl hid⟩
      intro k hk
      have hne : k ≠ d.lockKey h.user := by
        rintro rfl
        simp [hfree] at hk
      simpa [World.takeLock, hne] using hk
  | insert text id createdAt =>
      refine ⟨?_, by simp [World.insertRow], by simp [World.insertRow], fun id hid => Or.inl hid⟩
      intro b hb
      exact List.mem_cons_of_mem _ hb
  | commit row => exact undisturbed_of_commit (hok.staged row hpc).1 hij
  | commitReplyLost row => exact undisturbed_of_commit (hok.staged row hpc).1 hij
  | rollback =>
      exact ⟨by simp, fun k hk => releaseLocks_of_ne hij hk, by simp, fun id hid => Or.inl hid⟩
  | callAdd => exact .of_eq rfl rfl rfl
  | addTakesEffect => exact .of_eq rfl rfl rfl
  | deleteRow => exact .of_eq rfl rfl rfl
  | stop =>
      exact ⟨by simp, fun k hk => releaseLocks_of_ne hij hk, by simp, fun id hid => Or.inl hid⟩

/-- A submission leaves the clock, the bucket and the engine alone, and a row it
brings into the table is its own new one. -/
structure HandlerFrame (d : Deps) (h : Handler) (w w' : World) : Prop where
  now : w'.now = w.now
  bucket : w'.bucket = w.bucket
  synthesized : w'.synthesized = w.synthesized
  rows : ∀ r', r' ∈ w'.jobs →
    r' ∈ w.jobs ∨ (InsertedBy d h r' ∧ r'.id ∉ w.everCommitted)

theorem handlerFrame_of_commit
    {h : Handler} {row : Job}
    (hstaged : (i, row) ∈ w.born ∧ InsertedBy d h row ∧ row.id ∉ w.everCommitted) :
    HandlerFrame d h w ((w.commitRow row).releaseLocks i) := by
  refine ⟨rfl, rfl, rfl, ?_⟩
  intro r' hr'
  rcases List.mem_cons.mp hr' with rfl | hr'
  · exact Or.inr hstaged.2
  · exact Or.inl hr'

theorem handlerFrame_of_handlerStep
    {h h' : Handler} {pc : HandlerPc} {e : HandlerEvent}
    (hs : HandlerStep d i w h pc e w' h')
    (hpc : h.pc = pc)
    (hok : HandlerOk d i w h) :
    HandlerFrame d h w w' := by
  cases hs with
  | move => exact ⟨rfl, rfl, rfl, fun r' hr' => Or.inl hr'⟩
  | lock => exact ⟨rfl, rfl, rfl, fun r' hr' => Or.inl hr'⟩
  | insert => exact ⟨rfl, rfl, rfl, fun r' hr' => Or.inl hr'⟩
  | commit row => exact handlerFrame_of_commit (hok.staged row hpc)
  | commitReplyLost row => exact handlerFrame_of_commit (hok.staged row hpc)
  | rollback => exact ⟨rfl, rfl, rfl, fun r' hr' => Or.inl hr'⟩
  | callAdd => exact ⟨rfl, rfl, rfl, fun r' hr' => Or.inl hr'⟩
  | addTakesEffect => exact ⟨rfl, rfl, rfl, fun r' hr' => Or.inl hr'⟩
  | deleteRow => exact ⟨rfl, rfl, rfl, fun r' hr' => Or.inl (mem_deleteWhere.mp hr').1⟩
  | stop => exact ⟨rfl, rfl, rfl, fun r' hr' => Or.inl hr'⟩

/-- A call touches neither the record of inserted and committed rows nor the
locks, and the rows it leaves in the table are the old ones up to status writes. -/
structure CallFrame (w w' : World) : Prop where
  born : w'.born = w.born
  locks : w'.locks = w.locks
  committed : w'.everCommitted = w.everCommitted
  unique : UniqueKey Job.id w.jobs → UniqueKey Job.id w'.jobs
  rows : ∀ r', r' ∈ w'.jobs → ∃ r, r ∈ w.jobs ∧ SameSubmission r r'

theorem callFrame_of_callStep
    {job : QueueJob} {pc pc' : CallPc} {e : CallEvent}
    (hs : CallStep d w job pc e w' pc') :
    CallFrame w w' := by
  have hsame : ∀ r', r' ∈ w.jobs → ∃ r, r ∈ w.jobs ∧ SameSubmission r r' :=
    fun r' hr' => ⟨r', hr', SameSubmission.refl r'⟩
  cases hs with
  | quiet => exact ⟨rfl, rfl, rfl, id, hsame⟩
  | write hf =>
      refine ⟨rfl, rfl, rfl, ?_, fun r' hr' => exists_of_mem_guardedUpdate hf.statusWrite hr'⟩
      exact uniqueKey_updateWhere fun r => (hf.statusWrite.sameSubmission r).id.symm
  | synthesizeReturns => exact ⟨rfl, rfl, rfl, id, hsame⟩
  | uploadWav => exact ⟨rfl, rfl, rfl, id, hsame⟩
  | uploadWavRaises => exact ⟨rfl, rfl, rfl, id, hsame⟩

theorem worldOk_of_callStep
    {job : QueueJob} {pc pc' : CallPc} {e : CallEvent}
    (hs : CallStep d w job pc e w' pc')
    (hw : WorldOk w) :
    WorldOk w' := by
  have hf := callFrame_of_callStep hs
  refine ⟨hf.born ▸ hw.bornUnique, hf.unique hw.rowsUnique, ?_, ?_, ?_⟩
  · intro r' hr'
    obtain ⟨r, hr, hsame⟩ := hf.rows r' hr'
    obtain ⟨j, b, hb, hbr⟩ := hw.rowsBorn r hr
    exact ⟨j, b, hf.born ▸ hb, hbr.trans hsame⟩
  · intro r' hr'
    obtain ⟨r, hr, hsame⟩ := hf.rows r' hr'
    rw [hf.committed, ← hsame.id]
    exact hw.rowsCommitted r hr
  · rw [hf.committed, hf.born]
    exact hw.committedBorn

theorem undisturbed_of_callStep
    {j : Nat} {job : QueueJob} {pc pc' : CallPc} {e : CallEvent}
    (hs : CallStep d w job pc e w' pc') :
    Undisturbed j w w' :=
  .of_eq (callFrame_of_callStep hs).born (callFrame_of_callStep hs).locks
    (callFrame_of_callStep hs).committed

/-- What a call read of its row is what the submission inserted. -/
theorem fetchJob_born
    {jobId : Uuid} {row : JobRow}
    (hw : WorldOk w)
    (hf : fetchJob w.jobs jobId = some row) :
    row.id = jobId ∧ row.id ∈ w.everCommitted ∧
      ∃ i b, (i, b) ∈ w.born ∧ b.id = row.id ∧ b.userId = row.userId ∧
        b.inputText = row.inputText := by
  obtain ⟨r, hr, rfl⟩ := Option.map_eq_some_iff.mp hf
  obtain ⟨hmem, hid⟩ := (find?_eq_some_iff_of_unique hw.rowsUnique).mp hr
  obtain ⟨i, b, hb, hsame⟩ := hw.rowsBorn r hmem
  exact ⟨hid, hw.rowsCommitted r hmem, i, b, hb, hsame.id, hsame.userId, hsame.inputText⟩

theorem exceptClause_row?
    {row r : JobRow} {exc : ExcClass}
    (h : (exceptClause row exc).row? = some r) :
    some row = some r := by
  cases exc <;> first | exact h | cases h

theorem exceptClause_key?
    (row : JobRow) (exc : ExcClass) :
    (exceptClause row exc).key? = none := by
  cases exc <;> rfl

/-- A call gets its row from `fetch_job` and keeps it from then on. -/
theorem callStep_row?
    {job : QueueJob} {pc pc' : CallPc} {e : CallEvent} {row : JobRow}
    (hs : CallStep d w job pc e w' pc')
    (hrow : pc'.row? = some row) :
    pc.row? = some row ∨ fetchJob w.jobs job.jobId = some row := by
  cases hs with
  | quiet hq =>
      cases hq
      case fetch hf _ => exact Or.inr (hf.trans hrow)
      case listenerFetches hf _ => exact Or.inr (hf.trans hrow)
      case synthesizeRaises => exact Or.inl (exceptClause_row? hrow)
      case uploadRaises => exact Or.inl (exceptClause_row? hrow)
      case completedRaises => exact Or.inl (exceptClause_row? hrow)
      case synthesize => exact Or.inl hrow
      case timeoutExpires => exact Or.inl hrow
      all_goals cases hrow
  | write _ hafter =>
      cases hafter
      case active => exact Or.inl hrow
      case completed => exact Or.inl hrow
      case completedRaises => exact Or.inl (exceptClause_row? hrow)
      all_goals cases hrow
  | synthesizeReturns => exact Or.inl hrow
  | uploadWav => exact Or.inl hrow
  | uploadWavRaises => exact Or.inl (exceptClause_row? hrow)

/-- A call gets its object key at the upload and keeps it from then on. -/
theorem callStep_key?
    {job : QueueJob} {pc pc' : CallPc} {e : CallEvent} {row : JobRow} {key : String}
    (hs : CallStep d w job pc e w' pc')
    (hkey : pc'.key? = some (row, key)) :
    pc.key? = some (row, key) ∨ key = audioKey row.userId job.jobId := by
  have hclause : ∀ row' exc, (exceptClause row' exc).key? ≠ some (row, key) := by
    intro row' exc
    rw [exceptClause_key?]
    simp
  cases hs with
  | quiet hq =>
      cases hq
      case synthesizeRaises => exact absurd hkey (hclause _ _)
      case uploadRaises => exact absurd hkey (hclause _ _)
      case completedRaises => exact absurd hkey (hclause _ _)
      all_goals cases hkey
  | write _ hafter =>
      cases hafter
      case completed => exact Or.inl hkey
      case completedRaises => exact absurd hkey (hclause _ _)
      all_goals cases hkey
  | synthesizeReturns => cases hkey
  | uploadWav =>
      cases hkey
      exact Or.inr rfl
  | uploadWavRaises => exact absurd hkey (hclause _ _)

/-- The step of a call keeps what is known of that call. -/
theorem callOk_of_callStep
    {c c' : Call} {e : CallEvent}
    (hjob : c'.job = c.job)
    (hs : CallStep d w c.job c.pc e w' c'.pc)
    (hw : WorldOk w)
    (hok : CallOk w c) :
    CallOk w' c' := by
  have hf := callFrame_of_callStep hs
  refine ⟨?_, ?_⟩
  · intro row hrow
    rw [hjob, hf.born, hf.committed]
    rcases callStep_row? hs hrow with hold | hfetch
    · exact hok.row row hold
    · exact fetchJob_born hw hfetch
  · intro row key hkey
    rw [hjob]
    rcases callStep_key? hs hkey with hold | hnew
    · exact hok.key row key hold
    · exact hnew

end Steps

section Runs

variable {d : Deps}

/-- A submission starts before any store was touched. -/
theorem handlerOk_start
    (i : Nat) (w : World) (r : SubmitRequest) :
    HandlerOk d i w (Handler.start r) := by
  unfold Handler.start
  split <;> constructor <;>
    simp [HandlerPc.holdsLock, HandlerPc.text?, HandlerPc.afterCommit]

theorem callOk_boot
    (w : World) (job : QueueJob) :
    CallOk w (Call.process job) ∧ CallOk w (Call.recordBypassedFailure job) := by
  refine ⟨⟨?_, ?_⟩, ⟨?_, ?_⟩⟩
  · simp [Call.process, CallPc.row?]
  · simp [Call.process, CallPc.key?]
  · intro row
    unfold Call.recordBypassedFailure
    split <;> simp [CallPc.row?]
  · intro row key
    unfold Call.recordBypassedFailure
    split <;> simp [CallPc.key?]

theorem procOk_frame
    {i : Nat} {w w' : World} {q : Proc}
    (hw : WorldOk w)
    (hf : Undisturbed i w w')
    (hok : ProcOk d i w q) :
    ProcOk d i w' q := by
  cases q with
  | handler h => exact handlerOk_frame hw hf hok
  | call c => exact callOk_frame hf.born hf.committed hok

theorem undisturbed_of_env
    {i : Nat} {w w' : World} {b : EnvEvent}
    (h : w.env b = some w') :
    Undisturbed i w w' := by
  cases b <;> cases h <;> exact .of_eq rfl rfl rfl

theorem worldOk_of_env
    {w w' : World} {b : EnvEvent}
    (h : w.env b = some w')
    (hw : WorldOk w) :
    WorldOk w' := by
  cases b <;> cases h <;>
    exact ⟨hw.bornUnique, hw.rowsUnique, hw.rowsBorn, hw.rowsCommitted, hw.committedBorn⟩

/-- The proof outline of the service: it holds under every guard. -/
def serviceOutline (d : Deps) (G : Service → ServiceEvent → Prop) :
    Outline (service d) G (fun _ => True) where
  inv := WorldOk
  assert := ProcOk d
  spawn := by
    intro g r _ _
    cases r with
    | submit r => exact handlerOk_start _ _ r
    | deliver job => exact (callOk_boot _ job).1
    | failedEvent job => exact (callOk_boot _ job).2
  act := by
    intro g i a p p' w _ _ hann hp hact
    have hpok := hann.2 i p hp
    cases procStep_of_act hact with
    | handler hs =>
        exact ⟨worldOk_of_handlerStep hs rfl hann.1 hpok,
          handlerOk_of_handlerStep hs rfl hann.1 hpok⟩
    | call hjob hs =>
        exact ⟨worldOk_of_callStep hs hann.1, callOk_of_callStep hjob hs hann.1 hpok⟩
  frame := by
    intro g i j a p p' q w _ _ hann hp hact hij hq
    have hqok := hann.2 j q hq
    cases procStep_of_act hact with
    | handler hs =>
        exact procOk_frame hann.1 (undisturbed_of_handlerStep hs rfl (hann.2 i _ hp) hij) hqok
    | call _ hs =>
        exact procOk_frame hann.1 (undisturbed_of_callStep hs) hqok
  env := by
    intro g b w _ _ hann henv
    refine ⟨worldOk_of_env henv hann.1, ?_⟩
    intro j q hq
    exact procOk_frame hann.1 (undisturbed_of_env henv) (hann.2 j q hq)

theorem serviceOk_initial : ServiceOk d Service.initial := by
  refine ⟨?_, by simp [Service.initial]⟩
  constructor <;> simp [Service.initial, World.empty, UniqueKey]

/-- **The invariant of the service** holds after every run. -/
theorem serviceOk_of_run
    {G : Service → ServiceEvent → Prop} {es : List ServiceEvent} {s : Service}
    (h : ServiceRun d G es s) :
    ServiceOk d s :=
  (serviceOutline d G).run (fun _ _ _ => trivial) serviceOk_initial h

end Runs

section Samples

/-! Parts of the concrete runs that the later modules exhibit. -/

def sampleDeps : Deps where
  config := defaultConfig
  hashtext := fun _ => 0
  timeoutText := "300"

def sampleUser : Uuid :=
  ⟨"8c3bfb1c-95b1-4a3c-9dd6-0a7f1f1d2f01", by decide⟩

def sampleJob : Uuid :=
  ⟨"f2b4c7de-1d47-4c62-8a55-6d1f8b0c7a11", by decide⟩

def otherJob : Uuid :=
  ⟨"f2b4c7de-1d47-4c62-8a55-6d1f8b0c7a12", by decide⟩

/-- The same with room for one unfinished job per user. -/
def tightDeps : Deps :=
  { sampleDeps with
    config := { defaultConfig with TTS_PENDING_CAP := 1, pendingCap_pos := by decide } }

/-- A submission of one Bengali letter. -/
def sampleSubmission (key : Option String) : ServiceEvent :=
  .spawn (.submit
    { user := sampleUser
      idempotencyKey := key.map .single
      body := some (.obj [("text", .str [0x0995])]) })

def handlerEvents (i : Nat) (es : List HandlerEvent) : List ServiceEvent :=
  es.map fun e => .act i (.handler e)

def callEvents (i : Nat) (es : List CallEvent) : List ServiceEvent :=
  es.map fun e => .act i (.call e)

/-- Process `i`, if it is a submission. -/
def place? (s : Service) (i : Nat) : Option Handler :=
  match (s.procs[i]? : Option Proc) with
  | some (.handler h) => some h
  | _ => none

theorem handler_of_place?
    {s : Service} {i : Nat} {h : Handler}
    (hp : place? s i = some h) :
    s.procs[i]? = some (.handler h) := by
  unfold place? at hp
  split at hp
  · next a ha =>
      cases hp
      exact ha
  · cases hp

def Handler.response? (h : Handler) : Option SubmitResponse :=
  match h.pc with
  | .answered response => some response
  | _ => none

/-- The answer of process `i`, if it is an answered submission. -/
def answer? (s : Service) (i : Nat) : Option SubmitResponse :=
  (place? s i).bind Handler.response?

theorem answered_of_answer?
    {s : Service} {i : Nat} {response : SubmitResponse}
    (h : answer? s i = some response) :
    ∃ a, s.procs[i]? = some (.handler a) ∧ a.pc = .answered response := by
  obtain ⟨a, hplace, hof⟩ := Option.bind_eq_some_iff.mp h
  refine ⟨a, handler_of_place? hplace, ?_⟩
  unfold Handler.response? at hof
  split at hof
  · next response' hpc =>
      cases hof
      exact hpc
  · cases hof

/-- The answer that names the sample job. -/
def sampleAnswer (status : Nat) : SubmitResponse :=
  .success status
    { jobId := sampleJob
      status := .queued
      statusUrl := "/v1/jobs/f2b4c7de-1d47-4c62-8a55-6d1f8b0c7a11"
      pollIntervalMs := 2000 }

/-- From the token bucket to the committed row. -/
def insertEvents (id : Uuid) : List HandlerEvent :=
  [.takeToken 1 0, .beginTx, .lock, .count, .readDepth, .create id 0, .commit]

/-- From the committed row to the answer 202. -/
def enqueueEvents : List HandlerEvent :=
  [.callAdd, .addTakesEffect, .addReturns, .accept]

/-- A submission that is accepted and a retry that is answered from its row. -/
def acceptedAndRetried : List ServiceEvent :=
  sampleSubmission (some "key") :: sampleSubmission (some "key") ::
    (handlerEvents 0 (.findReplay :: insertEvents sampleJob ++ enqueueEvents) ++
      handlerEvents 1 [.findReplay, .answerReplay])

/-- The delivery of the sample job for its only attempt. -/
def sampleDelivery : QueueJob where
  jobId := sampleJob
  attemptsMade := 0
  attempts := 1
  deferredFailure := false

end Samples

end BengaliTts
