import BengaliTts.Answers
import BengaliTts.JobReads
import BengaliTts.RowConsistency

/-!
# Advertised recordings

The gateway decides from the status alone whether a job is shown with an
`audioUrl`, and from the status and the object key whether a GET on that URL is
served.  The worker writes the object before the row, in separate steps.  Between
the two programs stand the invariant of the rows, that a terminal row is never
rewritten, and that a row is deleted only by a submission that is not accepted.

Main result:
* `advertised_recordings`: a job that was accepted and once shown with an
  `audioUrl` can be fetched there by its owner ever after.
-/

namespace BengaliTts

open Lib

section Statements

/-- The jobs that an answer shows. -/
def ReadBody.views : ReadBody → List JobView
  | .history jobs _ => jobs
  | .job view => [view]
  | .event view => [view]
  | .audio _ => []

/-- A client is shown `v`, by the answer of one of the routes or by an event that a
poll of an open stream sends. -/
inductive Shown (report : Query → List Issue) (w : World) (v : JobView) : Prop
  | answer {user : Uuid} {request : ReadRequest} {status : Nat} {body : ReadBody}
      (hresponse : respond report w user request = .success status body)
      (hv : v ∈ body.views)
  | polled {job : Job}
      (hfind : (w.jobs.find? fun r => decide (r.id = v.id)) = some job)
      (hv : v = serializeJob job)

/-- The submission of the job was answered 202. -/
def Accepted (s : Service) (id : Uuid) : Prop :=
  ∃ (i : Nat) (h : Handler) (body : SubmissionBody), s.procs[i]? = some (.handler h) ∧
    h.pc = .answered (.success 202 body) ∧ body.jobId = id

/-- The owner's GET finds the row, passes both status checks, and asks for a key
at which there is an object. -/
def Fetchable (report : Query → List Issue) (w : World) (owner id : Uuid) : Prop :=
  ∃ r key data, findOwnedJob w owner id.text = .ok r ∧ r.status = .completed ∧
    r.audioKey = some key ∧ w.bucket key = some data ∧
      respond report w owner (.audio id.text) = .success 200 (.audio data)

end Statements

section Views

variable {w : World} {user : Uuid} {report : Query → List Issue}

theorem mem_of_findMany
    {jobs : List Job} {take : Nat} {cursor : Option Uuid} {r : Job}
    (h : r ∈ findMany jobs user take cursor) :
    r ∈ jobs := by
  have hordered : ∀ q, q ∈ orderByDesc Job.position (jobs.filter (ownedBy user)) → q ∈ jobs :=
    fun q hq => List.mem_of_mem_filter (mem_orderByDesc.mp hq)
  unfold findMany at h
  split at h
  · exact hordered r (List.mem_of_mem_take h)
  · split at h
    · cases h
    · exact hordered r (List.mem_of_mem_filter (List.mem_of_mem_drop (List.mem_of_mem_take h)))

/-- The routes over one job show the row that their lookup found. -/
theorem row_of_lookup
    {id : String} {wrap : JobView → ReadBody} {body : ReadBody} {v : JobView}
    (hwrap : ∀ view, (wrap view).views = [view])
    (h : ((findOwnedJob w user id).map fun job => wrap (serializeJob job)) = .ok body)
    (hv : v ∈ body.views) :
    ∃ r, r ∈ w.jobs ∧ v = serializeJob r := by
  cases hjob : findOwnedJob w user id with
  | error thrown =>
      rw [hjob] at h
      cases h
  | ok job =>
      rw [hjob] at h
      cases h
      rw [hwrap, List.mem_singleton] at hv
      exact ⟨job, (owned_of_findOwnedJob hjob).1, hv⟩

/-- The audio route after its lookup. -/
theorem getAudio_of_found
    {id : String} {job : Job}
    (hjob : findOwnedJob w user id = .ok job) :
    getAudio w user id =
      if job.status = .failed then
        .error (.domain .jobFailed)
      else if job.status ≠ .completed then
        .error (.domain .jobNotReady)
      else
        match job.audioKey with
        | none => .error (.domain .jobNotReady)
        | some key =>
            if key.length = 0 then
              .error (.domain .jobNotReady)
            else
              match w.bucket key with
              | none => .error .fault
              | some data => .ok (.audio data) := by
  simp only [getAudio, hjob, bind, Except.bind]
  by_cases hfailed : job.status = .failed
  · rw [if_pos hfailed, if_pos hfailed]
    rfl
  · rw [if_neg hfailed, if_neg hfailed]
    by_cases hdone : job.status = .completed
    · cases hkey : job.audioKey with
      | none => simp [hdone]; rfl
      | some key =>
          by_cases hempty : key.length = 0
          · simp [hdone, hempty]; rfl
          · simp [hdone, hempty]; rfl
    · simp [hdone]; rfl

/-- The audio route shows no job. -/
theorem views_of_getAudio
    {id : String} {body : ReadBody}
    (h : getAudio w user id = .ok body) :
    body.views = [] := by
  cases hjob : findOwnedJob w user id with
  | error thrown =>
      simp only [getAudio, hjob, bind, Except.bind] at h
      cases h
  | ok job =>
      rw [getAudio_of_found hjob] at h
      split at h
      · cases h
      · split at h
        · cases h
        · split at h
          · cases h
          · split at h
            · cases h
            · split at h <;> cases h
              rfl

/-- Every job that an answer shows is a row of the table. -/
theorem row_of_view
    {request : ReadRequest} {body : ReadBody} {v : JobView}
    (h : readRoute report w user request = .ok body)
    (hv : v ∈ body.views) :
    ∃ r, r ∈ w.jobs ∧ v = serializeJob r := by
  cases request with
  | history query =>
      cases hparsed : historyQuerySchema report query with
      | error issues => simp [readRoute, getHistory, validate, hparsed] at h
      | ok parsed =>
          rw [readRoute, getHistory_of_parsed w user hparsed] at h
          cases h
          simp only [ReadBody.views, List.mem_map] at hv
          obtain ⟨r, hr, rfl⟩ := hv
          exact ⟨r, mem_of_findMany (List.mem_of_mem_take hr), rfl⟩
  | job id => exact row_of_lookup (fun view => (rfl : (ReadBody.job view).views = [view])) h hv
  | events id => exact row_of_lookup (fun view => (rfl : (ReadBody.event view).views = [view])) h hv
  | audio id =>
      rw [views_of_getAudio h] at hv
      cases hv

theorem row_of_shown
    {v : JobView}
    (h : Shown report w v) :
    ∃ r, r ∈ w.jobs ∧ v = serializeJob r := by
  cases h with
  | @answer user request status body hresponse hv =>
      unfold respond at hresponse
      cases hroute : readRoute report w user request with
      | error thrown =>
          rw [hroute] at hresponse
          exact absurd hresponse (errorHandler_ne_success thrown status body)
      | ok body' =>
          rw [hroute] at hresponse
          cases hresponse
          exact row_of_view hroute hv
  | polled hfind hv => exact ⟨_, List.mem_of_find?_eq_some hfind, hv⟩

end Views

section Later

variable {d : Deps} {report : Query → List Issue} {s t u : Service}
  {es fs gs : List ServiceEvent}

/-- An accepted job keeps its row. -/
theorem hasRow_of_accepted
    {id : Uuid}
    (hrun : ServiceRun d Machine.anyStep es s)
    (haccepted : Accepted s id) :
    HasRow s.world id := by
  obtain ⟨i, h, body, hp, hpc, rfl⟩ := haccepted
  obtain ⟨job, _, hid, hrow⟩ := job_of_accepted hrun hp hpc
  rw [hid]
  exact hrow

/-- The audio route serves a completed row from the object it names. -/
theorem fetchable_of_completed
    {w : World} {r : Job}
    (hunique : UniqueKey Job.id w.jobs)
    (hr : r ∈ w.jobs)
    (hstatus : r.status = .completed)
    (hcompleted : CompletedRow w r) :
    Fetchable report w r.userId r.id := by
  obtain ⟨data, hdata, _⟩ := hcompleted.recording
  have hjob := findOwnedJob_own hunique hr
  have hkey : (audioKey r.userId r.id).length ≠ 0 := by
    simp [audioKey]
  refine ⟨r, _, data, hjob, hstatus, hcompleted.key, hdata, ?_⟩
  simp [respond, readRoute, getAudio_of_found hjob, hstatus, hcompleted.key, hkey, hdata]

/--
**Advertised recordings can be fetched.**  For every interleaving of workers and
requests: no job is ever shown with both an `audioUrl` and an error, or with an
`audioUrl` while its row has no object key; and once a job whose submission is
answered 202, before or after, was shown with an `audioUrl`, every later GET on
that URL by the owner finds the row, passes both status checks and asks for a key
at which an object was uploaded.
-/
theorem advertised_recordings
    {v : JobView}
    (hrun : ServiceRun d Machine.anyStep es s)
    (hshown : Shown report s.world v) :
    ¬ (v.audioUrl.isSome = true ∧ v.error.isSome = true) ∧
      ∀ url, v.audioUrl = some url →
        url = "/v1/jobs/" ++ v.id.text ++ "/audio" ∧
          ∃ r, r ∈ s.world.jobs ∧ r.id = v.id ∧ r.audioKey.isSome = true ∧
            ∀ fs t gs u, Machine.Run (service d).machine Machine.anyStep s fs t →
              Machine.Run (service d).machine Machine.anyStep t gs u → Accepted u v.id →
                Fetchable report t.world r.userId v.id := by
  obtain ⟨r, hr, rfl⟩ := row_of_shown hshown
  constructor
  · rintro ⟨hurl, herror⟩
    simp only [serializeJob] at hurl herror
    split at hurl
    · next hstatus => simp [hstatus] at herror
    · cases hurl
  · intro url hurl
    simp only [serializeJob] at hurl
    split at hurl
    · next hstatus =>
        cases hurl
        have hcompleted := (rowInv_of_run hrun r hr).consistent.completed hstatus
        refine ⟨rfl, r, hr, rfl, by rw [hcompleted.key]; rfl, ?_⟩
        intro fs t gs u hfs hgs haccepted
        have ht := Machine.run_append hrun hfs
        -- The row is still there, since it is at the end, and it is the same.
        have hw := (serviceOk_of_run hrun).1
        have hterm : r.status.terminal = true := by rw [hstatus]; rfl
        have hsettled := rowsSettled_of_run (by rintro q rfl; exact hterm) hrun
          (rowsSettled_self hw hr) hfs
        obtain ⟨q, hq, hid⟩ := hadRow_of_run ht hgs hsettled.1
          (hasRow_of_accepted (Machine.run_append ht hgs) haccepted)
        have hsame := hsettled.2 q hq hid
        subst hsame
        exact fetchable_of_completed (serviceOk_of_run ht).1.rowsUnique hq hstatus
          ((rowInv_of_run ht q hq).consistent.completed hstatus)
    · cases hurl

/-- The sample job as it is shown once its recording is there. -/
def finishedSample : JobView where
  id := sampleJob
  status := .completed
  createdAt := 0
  startedAt := some 0
  completedAt := some 0
  audioUrl := some "/v1/jobs/f2b4c7de-1d47-4c62-8a55-6d1f8b0c7a11/audio"
  error := none

/-- The sample job is accepted, synthesized, shown and fetched. -/
theorem advertised_recordings_sample :
    ∃ (es : List ServiceEvent) (s : Service), ServiceRun sampleDeps Machine.anyStep es s ∧
      Accepted s sampleJob ∧ Shown (fun _ => []) s.world finishedSample ∧
        Fetchable (fun _ => []) s.world sampleUser sampleJob := by
  have hexec : ((service sampleDeps).machine.exec (fun _ _ => true) Service.initial
      (sampleSubmission none ::
        (handlerEvents 0 (insertEvents sampleJob ++ enqueueEvents) ++
          .spawn (.deliver sampleDelivery) ::
            callEvents 1 [.fetchJob, .markActive, .synthesize, .synthesizeReturns [82],
              .uploadWav, .markCompleted, .finish]))).any
      (fun s => decide (answer? s 0 = some (sampleAnswer 202) ∧
        respond (fun _ => []) s.world sampleUser (.job sampleJob.text) =
          .success 200 (.job finishedSample) ∧
        ∀ r, r ∈ s.world.jobs → r.userId = sampleUser)) = true := by
    decide +kernel
  obtain ⟨s, hrun, hs⟩ := Machine.exists_anyRun_of_exec hexec
  obtain ⟨hanswer, hresponse, howner⟩ := of_decide_eq_true hs
  obtain ⟨a, hp, hpc⟩ := answered_of_answer? hanswer
  have haccepted : Accepted s sampleJob := ⟨0, a, _, hp, hpc, rfl⟩
  have hshown : Shown (fun _ => []) s.world finishedSample :=
    .answer hresponse (List.mem_singleton_self _)
  obtain ⟨_, r, hr, _, _, hfetch⟩ := (advertised_recordings hrun hshown).2 _ rfl
  refine ⟨_, s, hrun, haccepted, hshown, ?_⟩
  rw [← howner r hr]
  exact hfetch [] s [] s (.nil s) (.nil s) haccepted

end Later

end BengaliTts
