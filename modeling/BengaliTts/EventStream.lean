import BengaliTts.JobReads
import Mathlib.Data.List.Chain

/-!
# The event stream of a job

`GET /v1/jobs/:id/events` sends the job's status once and then polls the row on an
interval, sending an event when the status differs from the last one sent.  The
interval does not wait for a poll to finish, and clearing it does not stop a poll
that is under way, so several polls may be in flight and their results come in
any order.

A `Stream` is one open response with the variables of the route and the row it
watches.  Its history `versions` lists what the row has been since the snapshot,
and a poll in flight remembers which version its query has read.

Main result:
* `stream_in_order`: in the runs in which no result that is about to be sent is
  older than the event sent last, and none comes after the end of the response,
  the statuses sent are a subsequence of the statuses the row has held.
-/

namespace BengaliTts

open Lib

section Stream

/-- Why `res.end()` was called. -/
inductive EndCause where
  | terminal
  | missing
  | pollError
  | closeAll
deriving DecidableEq

/-- What the route does with the response. -/
inductive ResponseOp where
  /-- `res.write` of a `status` event. -/
  | write (view : JobView)
  /-- `res.end()`. -/
  | ends (cause : EndCause)
deriving DecidableEq

/-- A poll of the row. -/
inductive Poll where
  /-- The query was sent and has not been executed. -/
  | asked
  /-- The query has read this version of the row. -/
  | found (row : Job) (version : Nat)
  | missing
  | failed
  /-- The callback is done. -/
  | settled
deriving DecidableEq

/-- One event stream. -/
structure Stream where
  jobId : Uuid
  /-- History: the versions of the row since the snapshot, oldest first. -/
  versions : List Job
  deleted : Bool
  lastStatus : JobStatus
  /-- The interval is running. -/
  timer : Bool
  /-- The hub of open streams knows the response. -/
  registered : Bool
  polls : List Poll
  /-- What was done with the response, oldest first. -/
  ops : List ResponseOp
  /-- History: the version that the event sent last was read from. -/
  shown : Nat

inductive StreamEvent where
  /-- The row changes. -/
  | change (row : Job)
  | delete
  /-- The interval fires. -/
  | fire
  /-- PostgreSQL executes the query of a poll. -/
  | query (k : Nat)
  | queryRaises (k : Nat)
  /-- The result of a poll arrives and its callback runs. -/
  | settle (k : Nat)
  /-- `closeAll` of the hub, at a shutdown. -/
  | closeAll
  /-- The response is closed, by the client or after its end. -/
  | close
deriving DecidableEq

/-- Clear the interval and leave the hub. -/
def Stream.stop (s : Stream) : Stream :=
  { s with timer := false, registered := false }

/-- `res.end()`. -/
def Stream.endWith (s : Stream) (cause : EndCause) : Stream :=
  { s with ops := s.ops ++ [.ends cause] }

/-- `lastStatus = row.status; send(row)`. -/
def Stream.send (s : Stream) (row : Job) (version : Nat) : Stream :=
  { s with
    lastStatus := row.status
    ops := s.ops ++ [.write (serializeJob row)]
    shown := version }

/-- `isTerminal(row.status)`: the watch is over. -/
def Stream.finish (s : Stream) (row : Job) : Stream :=
  if row.status.terminal then s.stop.endWith .terminal else s

/-- The callback of a poll that found the row. -/
def Stream.show (s : Stream) (row : Job) (version : Nat) : Stream :=
  if row.status ≠ s.lastStatus then
    (s.send row version).finish row
  else
    s.finish row

/-- The route after the lookup: the snapshot, and the watch unless it is over. -/
def Stream.start (job : Job) : Stream :=
  if job.status.terminal then
    ⟨job.id, [job], false, job.status, false, false, [],
      [.write (serializeJob job), .ends .terminal], 0⟩
  else
    ⟨job.id, [job], false, job.status, true, true, [], [.write (serializeJob job)], 0⟩

/-- `GET /v1/jobs/:id/events`. -/
def openStream (w : World) (user : Uuid) (id : String) : Except Thrown Stream :=
  (findOwnedJob w user id).map Stream.start

/-- What a query for the row returns. -/
def Stream.readRow (s : Stream) : Poll :=
  if s.deleted then
    .missing
  else
    match s.versions.getLast? with
    | none => .missing
    | some row => .found row (s.versions.length - 1)

def Stream.step (s : Stream) : StreamEvent → Option Stream
  | .change row =>
      if s.deleted = false ∧ row.id = s.jobId then
        some { s with versions := s.versions ++ [row] }
      else
        none
  | .delete =>
      if s.deleted then none else some { s with deleted := true }
  | .fire =>
      if s.timer then some { s with polls := s.polls ++ [.asked] } else none
  | .query k =>
      match s.polls[k]? with
      | some .asked => some { s with polls := s.polls.set k s.readRow }
      | _ => none
  | .queryRaises k =>
      match s.polls[k]? with
      | some .asked => some { s with polls := s.polls.set k .failed }
      | _ => none
  | .settle k =>
      match s.polls[k]? with
      | some (.found row version) =>
          some (Stream.show { s with polls := s.polls.set k .settled } row version)
      | some .missing =>
          some ((Stream.stop { s with polls := s.polls.set k .settled }).endWith .missing)
      | some .failed =>
          some ((Stream.stop { s with polls := s.polls.set k .settled }).endWith .pollError)
      | _ => none
  | .closeAll =>
      if s.registered then some (Stream.endWith { s with registered := false } .closeAll) else none
  | .close => some s.stop

def streamMachine : Machine Stream StreamEvent where
  step := Stream.step

end Stream

section Statements

/-- The status of the event that is written, if one is. -/
def ResponseOp.status? : ResponseOp → Option JobStatus
  | .write view => some view.status
  | .ends _ => none

def ResponseOp.cause? : ResponseOp → Option EndCause
  | .write _ => none
  | .ends cause => some cause

/-- The statuses written so far. -/
def Stream.statuses (s : Stream) : List JobStatus :=
  s.ops.filterMap ResponseOp.status?

/-- What ended the response. -/
def Stream.endedBy (s : Stream) : Option EndCause :=
  s.ops.findSome? ResponseOp.cause?

/-- The stream tells the history of the row. -/
structure TellsHistory (s : Stream) : Prop where
  inOrder : s.statuses.Sublist (s.versions.map Job.status)
  distinct : s.statuses.IsChain (· ≠ ·)
  nothingAfterEnd : s.ops.Pairwise fun a b => a.status? = none → b.status? = none
  lastIsTerminal : s.endedBy = some .terminal →
    ∃ before last, s.statuses = before ++ [last] ∧ last.terminal = true ∧
      ∀ status, status ∈ before → status.terminal = false

/-- A result that is about to be sent comes before the end of the response, and
its query did not read the row before the query of the event sent last. -/
def SettlesInOrder (s : Stream) : StreamEvent → Prop
  | .settle k =>
      ∀ row version, s.polls[k]? = some (.found row version) → row.status ≠ s.lastStatus →
        s.endedBy = none ∧ s.shown ≤ version
  | _ => True

end Statements

section Invariant

variable {s t : Stream}

/-- What is known of a stream. -/
structure StreamOk (s : Stream) : Prop where
  last : s.statuses.getLast? = some s.lastStatus
  picked : s.statuses.Sublist ((s.versions.take (s.shown + 1)).map Job.status)
  shown : (s.versions[s.shown]?).map Job.status = some s.lastStatus
  reads : ∀ (k : Nat) row version, s.polls[k]? = some (.found row version) →
    s.versions[version]? = some row
  distinct : s.statuses.IsChain (· ≠ ·)
  nothingAfterEnd : s.ops.Pairwise fun a b => a.status? = none → b.status? = none
  early : ∀ status, status ∈ s.statuses.dropLast → status.terminal = false
  cause : s.endedBy = some .terminal → s.lastStatus.terminal = true

/-- The watch does not outlast a terminal status. -/
def EndsWhenTerminal (s : Stream) : Prop :=
  s.lastStatus.terminal = true → s.endedBy ≠ none

@[simp] theorem statuses_endWith
    (s : Stream) (cause : EndCause) :
    (s.endWith cause).statuses = s.statuses := by
  simp [Stream.statuses, Stream.endWith, ResponseOp.status?]

@[simp] theorem endedBy_endWith
    (s : Stream) (cause : EndCause) :
    (s.endWith cause).endedBy = s.endedBy.or (some cause) := by
  simp [Stream.endedBy, Stream.endWith, ResponseOp.cause?]

@[simp] theorem statuses_send
    (s : Stream) (row : Job) (version : Nat) :
    (s.send row version).statuses = s.statuses ++ [row.status] := by
  simp [Stream.statuses, Stream.send, ResponseOp.status?, serializeJob]

@[simp] theorem endedBy_send
    (s : Stream) (row : Job) (version : Nat) :
    (s.send row version).endedBy = s.endedBy := by
  simp [Stream.endedBy, Stream.send, ResponseOp.cause?]

/-- Nothing but ends follows an end when one more is appended. -/
theorem streamOk_of_endWith
    {cause : EndCause}
    (hcause : s.endedBy = none → cause = .terminal → s.lastStatus.terminal = true)
    (hok : StreamOk s) :
    StreamOk (s.endWith cause) where
  last := by rw [statuses_endWith]; exact hok.last
  picked := by rw [statuses_endWith]; exact hok.picked
  shown := hok.shown
  reads := hok.reads
  distinct := by rw [statuses_endWith]; exact hok.distinct
  nothingAfterEnd := by
    refine List.pairwise_append.mpr ⟨hok.nothingAfterEnd, List.pairwise_singleton _ _, ?_⟩
    intro a _ b hb _
    rw [List.mem_singleton] at hb
    subst hb
    rfl
  early := by rw [statuses_endWith]; exact hok.early
  cause := by
    intro hterminal
    rw [endedBy_endWith] at hterminal
    cases hended : s.endedBy with
    | none =>
        rw [hended] at hterminal
        exact hcause hended (Option.some.inj hterminal)
    | some c =>
        rw [hended] at hterminal
        exact hok.cause (hended.trans hterminal)

theorem endsWhenTerminal_endWith
    (s : Stream) (cause : EndCause) :
    EndsWhenTerminal (s.endWith cause) := by
  intro _
  rw [endedBy_endWith]
  cases s.endedBy <;> simp

/-- A result in order is sent as a later version of the row. -/
theorem streamOk_of_send
    {row : Job} {version : Nat}
    (hread : s.versions[version]? = some row)
    (hne : row.status ≠ s.lastStatus)
    (hopen : s.endedBy = none)
    (hle : s.shown ≤ version)
    (hok : StreamOk s)
    (hends : EndsWhenTerminal s) :
    StreamOk (s.send row version) where
  last := by
    rw [statuses_send, List.getLast?_append, List.getLast?_singleton]
    rfl
  picked := by
    -- The version sent before is an earlier one, since its status differs.
    have hlt : s.shown < version := by
      refine lt_of_le_of_ne hle ?_
      rintro rfl
      have hshown := hok.shown
      rw [hread, Option.map_some, Option.some.injEq] at hshown
      exact hne hshown
    have htake : s.versions.take (version + 1) = s.versions.take version ++ [row] := by
      rw [List.take_add_one, hread]
      rfl
    have hsent : (s.versions.take (s.shown + 1)).Sublist (s.versions.take version) :=
      List.take_sublist_take_left (by omega)
    rw [statuses_send]
    simp only [Stream.send, htake, List.map_append, List.map_singleton]
    exact (hok.picked.trans (hsent.map _)).append (List.Sublist.refl _)
  shown := by
    simp [Stream.send, hread]
  reads := hok.reads
  distinct := by
    rw [statuses_send]
    refine hok.distinct.append (List.isChain_singleton _) ?_
    intro x hx y hy
    rw [hok.last, Option.mem_some_iff] at hx
    simp only [List.head?_cons, Option.mem_some_iff] at hy
    subst hx
    subst hy
    exact Ne.symm hne
  nothingAfterEnd := by
    refine List.pairwise_append.mpr ⟨hok.nothingAfterEnd, List.pairwise_singleton _ _, ?_⟩
    intro a ha b _ hend
    have hcause := List.findSome?_eq_none_iff.mp hopen a ha
    cases a with
    | write view => cases hend
    | ends cause => cases hcause
  early := by
    have hnot : s.lastStatus.terminal = false := by
      cases hterm : s.lastStatus.terminal with
      | false => rfl
      | true => exact absurd hopen (hends hterm)
    rw [statuses_send, List.dropLast_concat]
    intro status hmem
    rw [← List.dropLast_append_getLast? _ hok.last] at hmem
    rcases List.mem_append.mp hmem with hmem | hmem
    · exact hok.early status hmem
    · rw [List.mem_singleton] at hmem
      rw [hmem]
      exact hnot
  cause := by
    intro hterminal
    rw [endedBy_send, hopen] at hterminal
    cases hterminal

/-- The end of a callback that found the row with the status sent last. -/
theorem finish_ok
    {row : Job}
    (hrow : row.status = s.lastStatus)
    (hok : StreamOk s) :
    StreamOk (s.finish row) ∧ EndsWhenTerminal (s.finish row) := by
  unfold Stream.finish
  by_cases hterm : row.status.terminal = true
  · rw [if_pos hterm]
    have hstopped : StreamOk s.stop :=
      ⟨hok.last, hok.picked, hok.shown, hok.reads, hok.distinct, hok.nothingAfterEnd, hok.early,
        hok.cause⟩
    refine ⟨streamOk_of_endWith ?_ hstopped, endsWhenTerminal_endWith _ _⟩
    intro _ _
    exact hrow ▸ hterm
  · rw [if_neg hterm]
    refine ⟨hok, ?_⟩
    intro hlast
    exact absurd (hrow ▸ hlast) hterm

theorem show_ok
    {row : Job} {version : Nat}
    (hread : s.versions[version]? = some row)
    (horder : row.status ≠ s.lastStatus → s.endedBy = none ∧ s.shown ≤ version)
    (hok : StreamOk s)
    (hends : EndsWhenTerminal s) :
    StreamOk (s.show row version) ∧ EndsWhenTerminal (s.show row version) := by
  unfold Stream.show
  by_cases hne : row.status ≠ s.lastStatus
  · rw [if_pos hne]
    obtain ⟨hopen, hle⟩ := horder hne
    exact finish_ok rfl (streamOk_of_send hread hne hopen hle hok hends)
  · rw [if_neg hne]
    exact finish_ok (not_not.mp hne) hok

/-- What the polls have read stays a version of the row. -/
theorem reads_set
    {k : Nat} {poll : Poll}
    (hpoll : ∀ row version, poll = .found row version → s.versions[version]? = some row)
    (hok : StreamOk s) :
    StreamOk { s with polls := s.polls.set k poll } where
  last := hok.last
  picked := hok.picked
  shown := hok.shown
  reads := by
    intro j row version hj
    simp only [List.getElem?_set] at hj
    split at hj
    · split at hj
      · exact hpoll row version (Option.some.inj hj)
      · cases hj
    · exact hok.reads j row version hj
  distinct := hok.distinct
  nothingAfterEnd := hok.nothingAfterEnd
  early := hok.early
  cause := hok.cause

theorem readRow_eq_found
    {row : Job} {version : Nat}
    (h : s.readRow = .found row version) :
    s.versions[version]? = some row := by
  unfold Stream.readRow at h
  split at h
  · cases h
  · split at h
    · cases h
    · next r hlast =>
        cases h
        rw [List.getLast?_eq_getElem?] at hlast
        exact hlast

/-- A new version leaves the earlier ones in place. -/
theorem streamOk_of_change
    (row : Job)
    (hok : StreamOk s) :
    StreamOk { s with versions := s.versions ++ [row] } where
  last := hok.last
  picked := by
    refine hok.picked.trans ((List.Sublist.map _ ?_))
    rw [List.take_append]
    exact List.sublist_append_left _ _
  shown := by
    obtain ⟨r, hr, hstatus⟩ := Option.map_eq_some_iff.mp hok.shown
    obtain ⟨hlt, _⟩ := List.getElem?_eq_some_iff.mp hr
    rw [List.getElem?_append_left hlt]
    exact hok.shown
  reads := by
    intro k r version hk
    have hr := hok.reads k r version hk
    obtain ⟨hlt, _⟩ := List.getElem?_eq_some_iff.mp hr
    rw [List.getElem?_append_left hlt]
    exact hr
  distinct := hok.distinct
  nothingAfterEnd := hok.nothingAfterEnd
  early := hok.early
  cause := hok.cause

theorem streamOk_of_step
    {e : StreamEvent}
    (hs : streamMachine.step s e = some t)
    (horder : SettlesInOrder s e)
    (hok : StreamOk s)
    (hends : EndsWhenTerminal s) :
    StreamOk t ∧ EndsWhenTerminal t := by
  cases e with
  | change row =>
      simp only [streamMachine, Stream.step] at hs
      split at hs
      · cases hs
        exact ⟨streamOk_of_change row hok, hends⟩
      · cases hs
  | delete =>
      simp only [streamMachine, Stream.step] at hs
      split at hs
      · cases hs
      · cases hs
        exact ⟨{ hok with }, hends⟩
  | fire =>
      simp only [streamMachine, Stream.step] at hs
      split at hs
      · cases hs
        refine ⟨{ hok with reads := ?_ }, hends⟩
        intro k row version hk
        rcases getElem?_spawn hk with hk | ⟨_, hasked⟩
        · exact hok.reads k row version hk
        · cases hasked
      · cases hs
  | query k =>
      simp only [streamMachine, Stream.step] at hs
      split at hs
      · cases hs
        exact ⟨reads_set (fun _ _ hread => readRow_eq_found hread) hok, hends⟩
      · cases hs
  | queryRaises k =>
      simp only [streamMachine, Stream.step] at hs
      split at hs
      · cases hs
        exact ⟨reads_set (by simp) hok, hends⟩
      · cases hs
  | settle k =>
      have hsettled : StreamOk { s with polls := s.polls.set k .settled } :=
        reads_set (by simp) hok
      simp only [streamMachine, Stream.step] at hs
      split at hs
      · next row version hk =>
          cases hs
          exact show_ok (hok.reads k row version hk) (horder row version hk) hsettled hends
      · cases hs
        refine ⟨streamOk_of_endWith (by simp) ?_, endsWhenTerminal_endWith _ _⟩
        exact { hok with reads := hsettled.reads }
      · cases hs
        refine ⟨streamOk_of_endWith (by simp) ?_, endsWhenTerminal_endWith _ _⟩
        exact { hok with reads := hsettled.reads }
      · cases hs
  | closeAll =>
      simp only [streamMachine, Stream.step] at hs
      split at hs
      · cases hs
        refine ⟨streamOk_of_endWith (by simp) ?_, endsWhenTerminal_endWith _ _⟩
        exact { hok with }
      · cases hs
  | close =>
      cases hs
      exact ⟨{ hok with }, hends⟩

theorem streamOk_start
    (job : Job) :
    StreamOk (Stream.start job) ∧ EndsWhenTerminal (Stream.start job) := by
  unfold Stream.start
  by_cases hterm : job.status.terminal = true
  · rw [if_pos hterm]
    refine ⟨⟨rfl, List.Sublist.refl _, rfl, by simp, List.isChain_singleton _, ?_, ?_,
      fun _ => hterm⟩, ?_⟩
    · simp [ResponseOp.status?]
    · exact fun _ hmem => absurd hmem List.not_mem_nil
    · simp [EndsWhenTerminal, Stream.endedBy, ResponseOp.cause?]
  · rw [if_neg hterm]
    refine ⟨⟨rfl, List.Sublist.refl _, rfl, by simp, List.isChain_singleton _, ?_, ?_, ?_⟩,
      fun hlast => absurd hlast hterm⟩
    · simp
    · exact fun _ hmem => absurd hmem List.not_mem_nil
    · simp [Stream.endedBy, ResponseOp.cause?]

theorem streamOk_of_run
    {job : Job} {es : List StreamEvent}
    (hrun : Machine.Run streamMachine SettlesInOrder (Stream.start job) es s) :
    StreamOk s ∧ EndsWhenTerminal s :=
  Machine.run_invariant (I := fun u => StreamOk u ∧ EndsWhenTerminal u)
    (fun _ _ _ hI horder hs => streamOk_of_step hs horder hI.1 hI.2) hrun (streamOk_start job)

theorem tellsHistory_of_streamOk
    (hok : StreamOk s) :
    TellsHistory s where
  inOrder := hok.picked.trans ((List.take_sublist _ _).map _)
  distinct := hok.distinct
  nothingAfterEnd := hok.nothingAfterEnd
  lastIsTerminal := fun hterminal =>
    ⟨s.statuses.dropLast, s.lastStatus, (List.dropLast_append_getLast? _ hok.last).symm,
      hok.cause hterminal, hok.early⟩

end Invariant

section Results

variable {w : World} {user : Uuid} {id : String} {s₀ s : Stream}

/-- A stream opens with the event that the route answers. -/
theorem openStream_ok
    (hopen : openStream w user id = .ok s₀) :
    ∃ job, findOwnedJob w user id = .ok job ∧ s₀ = Stream.start job ∧
      s₀.ops.head? = some (.write (serializeJob job)) := by
  unfold openStream at hopen
  cases hjob : findOwnedJob w user id with
  | error thrown =>
      rw [hjob] at hopen
      cases hopen
  | ok job =>
      rw [hjob] at hopen
      cases hopen
      refine ⟨job, rfl, rfl, ?_⟩
      unfold Stream.start
      split <;> rfl

/--
**The stream tells the history in order**, in the runs in which a result that is
about to be sent was not read before the event sent last and does not come after
the end of the response.  For any changes of the row, any schedule of polls and
any end of the stream: the statuses sent are a subsequence of those the row has
held since the snapshot, no two consecutive ones are equal, nothing is written
after the end, and a stream that ended with the job has sent one terminal status,
its last.
-/
theorem stream_in_order
    {es : List StreamEvent}
    (hopen : openStream w user id = .ok s₀)
    (hrun : Machine.Run streamMachine SettlesInOrder s₀ es s) :
    TellsHistory s := by
  obtain ⟨job, _, rfl, _⟩ := openStream_ok hopen
  exact tellsHistory_of_streamOk (streamOk_of_run hrun).1

/-- The row of the sample job in `twoJobs`, with a status. -/
def sampleVersion (status : JobStatus) : Job :=
  { newJob sampleJob sampleUser "ক" none 1 with status := status }

/-- Two polls, the second one fired before the result of the first. -/
def overlappingPolls : List StreamEvent :=
  [.fire, .change (sampleVersion .active), .query 0, .fire,
    .change (sampleVersion .completed), .query 1]

theorem openStream_sample :
    openStream twoJobs sampleUser sampleJob.text = .ok (Stream.start (sampleVersion .queued)) := by
  have hfind : findOwnedJob twoJobs sampleUser sampleJob.text = .ok (sampleVersion .queued) := by
    rfl
  rw [openStream, hfind]
  rfl

/-- A check of `SettlesInOrder`. -/
def settlesInOrder (s : Stream) : StreamEvent → Bool
  | .settle k =>
      match s.polls[k]? with
      | some (.found row version) =>
          decide (row.status = s.lastStatus ∨ s.endedBy = none ∧ s.shown ≤ version)
      | _ => true
  | _ => true

theorem settlesInOrder_of_check
    {e : StreamEvent}
    (h : settlesInOrder s e = true) :
    SettlesInOrder s e := by
  cases e with
  | settle k =>
      intro row version hk hne
      simp only [settlesInOrder, hk] at h
      exact (of_decide_eq_true h).resolve_left hne
  | _ => trivial

/-- The results of two polls in flight arrive in the order of their queries. -/
theorem stream_in_order_overlapping :
    ∃ s : Stream,
      Machine.Run streamMachine SettlesInOrder (Stream.start (sampleVersion .queued))
          (overlappingPolls ++ [.settle 0, .settle 1, .close]) s ∧
        s.statuses = [.queued, .active, .completed] ∧ TellsHistory s := by
  have hexec : (streamMachine.exec settlesInOrder (Stream.start (sampleVersion .queued))
      (overlappingPolls ++ [.settle 0, .settle 1, .close])).any
      (fun s => decide (s.statuses = [.queued, .active, .completed])) = true := by
    decide +kernel
  obtain ⟨s, hrun, hs⟩ :=
    Machine.exists_run_of_exec (fun _ _ => settlesInOrder_of_check) hexec
  exact ⟨s, hrun, of_decide_eq_true hs, stream_in_order openStream_sample hrun⟩

/-- The result of the second poll arrives first and ends the response; then the
result of the first one is written after the end. -/
theorem stale_poll_written :
    ∃ (es : List StreamEvent) (s₀ s : Stream),
      openStream twoJobs sampleUser sampleJob.text = .ok s₀ ∧
        Machine.Run streamMachine Machine.anyStep s₀ es s ∧
          s.versions.map Job.status = [.queued, .active, .completed] ∧
            s.statuses = [.queued, .completed, .active] ∧
              s.endedBy = some .terminal ∧ ¬ TellsHistory s := by
  have hexec : (streamMachine.exec (fun _ _ => true)
      (Stream.start (sampleVersion .queued))
      (overlappingPolls ++ [.settle 1, .settle 0])).any
      (fun s => decide (s.versions.map Job.status = [.queued, .active, .completed] ∧
        s.statuses = [.queued, .completed, .active] ∧ s.endedBy = some .terminal)) = true := by
    decide +kernel
  obtain ⟨s, hrun, hs⟩ := Machine.exists_anyRun_of_exec hexec
  obtain ⟨hversions, hstatuses, hended⟩ := of_decide_eq_true hs
  refine ⟨_, _, s, openStream_sample, hrun, hversions, hstatuses, hended, ?_⟩
  intro htells
  have hsub := htells.inOrder
  rw [hversions, hstatuses] at hsub
  exact absurd hsub (by decide)

end Results

end BengaliTts
