import BengaliTts.Lib.Paging
import BengaliTts.Service
import Mathlib.Algebra.Order.BigOperators.Group.List
import Mathlib.Algebra.Order.Ring.Nat
import Mathlib.Data.Prod.Lex
import Mathlib.Data.String.Basic

/-!
# Reading jobs

The four GET routes over jobs, for a caller who passed the authentication.  All
of them look at the jobs table; the audio route also fetches the object that the
row names.

Three of the routes share the lookup `findOwnedJob`, which filters by owner.  The
history filters its result by owner as well, but it takes its position from a
cursor that is looked up by id alone.

Main result:
* `own_data_only_iff`: what a caller is answered is a function of the caller's
  own rows and their objects, except for a history request whose cursor is not
  one of the caller's jobs, by a caller with at least two jobs.
-/

namespace BengaliTts

open Lib

section Queries

/-- A value of the query string; a repeated one arrives as a list. -/
inductive QueryValue where
  | single (value : String)
  | many (values : List String)

/-- The query string of the history. The value of `limit` enters as the number
that `Number` makes of it: `some none` is NaN or an infinity. -/
structure Query where
  limit : Option (Option ℚ)
  cursor : Option QueryValue

/-- What `historyQuerySchema` makes of a query string. -/
structure HistoryQuery where
  limit : Nat
  cursor : Option Uuid
  limit_pos : 1 ≤ limit
  limit_le : limit ≤ 100

/-- `z.coerce.number().int().min(1).max(100).default(20)`. -/
def parseLimit : Option (Option ℚ) → Option { n : Nat // 1 ≤ n ∧ n ≤ 100 }
  | none => some ⟨20, by decide⟩
  | some none => none
  | some (some q) =>
      if h : q.den = 1 ∧ 1 ≤ q.num.toNat ∧ q.num.toNat ≤ 100 then
        some ⟨q.num.toNat, h.2⟩
      else
        none

/-- The digits of a UUID and the hyphens between them, with the digits that the
version and the variant may have. -/
def uuidPattern : List (Char → Bool) :=
  let hex := fun c : Char => c.isDigit || ('a' ≤ c && c ≤ 'f') || ('A' ≤ c && c ≤ 'F')
  let hyphen := fun c : Char => decide (c = '-')
  let version := fun c : Char => '1' ≤ c && c ≤ '8'
  let variant := fun c : Char => "89abAB".toList.contains c
  List.replicate 8 hex ++ [hyphen] ++ List.replicate 4 hex ++ [hyphen] ++
    [version] ++ List.replicate 3 hex ++ [hyphen] ++
    [variant] ++ List.replicate 3 hex ++ [hyphen] ++ List.replicate 12 hex

/-- `z.uuid()`: the pattern, or one of the two special values. -/
def uuid? (value : String) : Option Uuid :=
  if h : value.toList.length = 36 ∧ value.toList.all isUuidChar = true then
    if (List.zipWith (fun digit c => digit c) uuidPattern value.toList).all id ||
        decide (value = "00000000-0000-0000-0000-000000000000") ||
        decide (value = "ffffffff-ffff-ffff-ffff-ffffffffffff") then
      some ⟨value, h⟩
    else
      none
  else
    none

/-- `z.uuid().optional()`. -/
def parseCursor : Option QueryValue → Option (Option Uuid)
  | none => some none
  | some (.single value) => (uuid? value).map some
  | some (.many _) => none

/-- The schema of the history's query string. What the validator reports of a
query string it rejects is left to `report`. -/
def historyQuerySchema (report : Query → List Issue) (query : Query) :
    Except (List Issue) HistoryQuery :=
  match parseLimit query.limit, parseCursor query.cursor with
  | some limit, some cursor => .ok ⟨limit.1, cursor, limit.2.1, limit.2.2⟩
  | _, _ => .error (report query)

inductive ReadRequest where
  /-- `GET /v1/jobs`. -/
  | history (query : Query)
  /-- `GET /v1/jobs/:id`. -/
  | job (id : String)
  /-- `GET /v1/jobs/:id/events`, up to the first event. -/
  | events (id : String)
  /-- `GET /v1/jobs/:id/audio`. -/
  | audio (id : String)

end Queries

section Answers

structure JobError where
  code : String
  message : String
deriving DecidableEq

/-- A job as the API shows it. -/
structure JobView where
  id : Uuid
  status : JobStatus
  createdAt : Nat
  startedAt : Option Nat
  completedAt : Option Nat
  audioUrl : Option String
  error : Option JobError
deriving DecidableEq

def serializeJob (job : Job) : JobView where
  id := job.id
  status := job.status
  createdAt := job.createdAt
  startedAt := job.startedAt
  completedAt := job.completedAt
  audioUrl :=
    if job.status = .completed then some ("/v1/jobs/" ++ job.id.text ++ "/audio") else none
  error :=
    if job.status = .failed then
      some ⟨job.errorCode.getD "INTERNAL", job.errorMessage.getD "Job failed"⟩
    else
      none

inductive ReadBody where
  | history (jobs : List JobView) (nextCursor : Option Uuid)
  | job (job : JobView)
  /-- The `status` event that opens the stream. -/
  | event (job : JobView)
  | audio (data : Bytes)
deriving DecidableEq

abbrev ReadResponse := Response ReadBody

end Answers

section Routes

/-- Where a row stands in the history: `createdAt`, and the id within a timestamp. -/
def Job.position (r : Job) : Nat ×ₗ String :=
  toLex (r.createdAt, r.id.text)

/-- `WHERE user_id = ...`. -/
def ownedBy (user : Uuid) (r : Job) : Bool :=
  decide (r.userId = user)

/--
Prisma's `findMany` with the filter and the order of the history.  A cursor
stands for the position of the row with that id, whoever owns it; the result
starts there and its first row is skipped.  Without such a row it is empty.
-/
def findMany (jobs : List Job) (user : Uuid) (take : Nat) (cursor : Option Uuid) : List Job :=
  let rows := orderByDesc Job.position (jobs.filter (ownedBy user))
  match cursor with
  | none => rows.take take
  | some c =>
      match jobs.find? fun r => decide (r.id = c) with
      | none => []
      | some row => ((rows.filter fun r => decide (r.position ≤ row.position)).drop 1).take take

/-- `GET /v1/jobs`. -/
def getHistory (report : Query → List Issue) (w : World) (user : Uuid) (query : Query) :
    Except Thrown ReadBody :=
  match validate (historyQuerySchema report) query with
  | .error error => .error (.domain error)
  | .ok parsed =>
      let rows := findMany w.jobs user (parsed.limit + 1) parsed.cursor
      let page := rows.take parsed.limit
      .ok (.history (page.map serializeJob)
        (if rows.length > parsed.limit then page.getLast?.map Job.id else none))

/-- The value of a path parameter; it must not be empty. -/
def requireParam (name value : String) : Except Thrown String :=
  if value.length = 0 then
    .error (.domain (.invalidParameter name))
  else
    .ok value

/-- The lookup that the routes over one job share. PostgreSQL rejects a string
that contains NUL. -/
def findOwnedJob (w : World) (user : Uuid) (id : String) : Except Thrown Job := do
  let id ← requireParam "id" id
  if id.toList.contains '\x00' then
    throw .fault
  match w.jobs.find? fun r => decide (r.id.text = id) && ownedBy user r with
  | none => throw (.domain .notFound)
  | some job => return job

/-- `GET /v1/jobs/:id/audio`. -/
def getAudio (w : World) (user : Uuid) (id : String) : Except Thrown ReadBody := do
  let job ← findOwnedJob w user id
  if job.status = .failed then
    throw (.domain .jobFailed)
  if job.status ≠ .completed then
    throw (.domain .jobNotReady)
  match job.audioKey with
  | none => throw (.domain .jobNotReady)
  | some key =>
      if key.length = 0 then
        throw (.domain .jobNotReady)
      match w.bucket key with
      | none => throw .fault
      | some data => return .audio data

def readRoute (report : Query → List Issue) (w : World) (user : Uuid) :
    ReadRequest → Except Thrown ReadBody
  | .history query => getHistory report w user query
  | .job id => (findOwnedJob w user id).map fun job => .job (serializeJob job)
  | .events id => (findOwnedJob w user id).map fun job => .event (serializeJob job)
  | .audio id => getAudio w user id

/-- What a caller is answered. -/
def respond (report : Query → List Issue) (w : World) (user : Uuid) (request : ReadRequest) :
    ReadResponse :=
  match readRoute report w user request with
  | .ok body => .success 200 body
  | .error thrown => errorHandler thrown

end Routes

section Statements

/-- Two states that show a user the same: the user's own rows, and the objects
they name. -/
structure AgreeFor (user : Uuid) (w w' : World) : Prop where
  rows : ∀ r, r.userId = user → (r ∈ w.jobs ↔ r ∈ w'.jobs)
  objects : ∀ r key, r ∈ w.jobs → r.userId = user → r.audioKey = some key →
    w'.bucket key = w.bucket key

/-- The request names a job. -/
def ReadRequest.names (report : Query → List Issue) : ReadRequest → Uuid → Prop
  | .history query, id =>
      ∃ parsed, historyQuerySchema report query = .ok parsed ∧ parsed.cursor = some id
  | .job text, id => text = id.text
  | .events text, id => text = id.text
  | .audio text, id => text = id.text

/-- What a request is answered that names a job that does not exist. -/
def ReadRequest.absent : ReadRequest → ReadResponse
  | .history _ => .success 200 (.history [] none)
  | _ => errorHandler (.domain .notFound)

/-- Other users' data make no difference to the answer, and a job of another
user is answered as one that does not exist. -/
structure OwnDataOnly (report : Query → List Issue) (w : World) (user : Uuid)
    (request : ReadRequest) : Prop where
  same : ∀ w', UniqueKey Job.id w'.jobs → AgreeFor user w w' →
    respond report w' user request = respond report w user request
  foreign : ∀ r, r ∈ w.jobs → r.userId ≠ user → request.names report r.id →
    respond report w user request = request.absent

/-- A history request with a cursor that is not one of the caller's jobs, by a
caller with at least two jobs. -/
def ForeignCursor (report : Query → List Issue) (w : World) (user : Uuid) :
    ReadRequest → Prop
  | .history query =>
      ∃ parsed c, historyQuerySchema report query = .ok parsed ∧ parsed.cursor = some c ∧
        (∀ r, r ∈ w.jobs → r.userId = user → r.id ≠ c) ∧
          2 ≤ (w.jobs.filter (ownedBy user)).length
  | _ => False

end Statements

section Lookups

variable {w w' : World} {user : Uuid}

theorem ownedBy_iff
    {r : Job} :
    ownedBy user r = true ↔ r.userId = user := by
  simp [ownedBy]

/-- The shared lookup finds the caller's own row with that id. -/
theorem find?_owned_iff
    {id : String} {r : Job}
    (hunique : UniqueKey Job.id w.jobs) :
    (w.jobs.find? fun r => decide (r.id.text = id) && ownedBy user r) = some r ↔
      r ∈ w.jobs ∧ r.id.text = id ∧ r.userId = user := by
  constructor
  · intro h
    have hp := List.find?_some h
    rw [Bool.and_eq_true, decide_eq_true_eq, ownedBy_iff] at hp
    exact ⟨List.mem_of_find?_eq_some h, hp⟩
  · rintro ⟨hr, hid, huser⟩
    cases hf : w.jobs.find? fun r => decide (r.id.text = id) && ownedBy user r with
    | none =>
        have hnot := List.find?_eq_none.mp hf r hr
        simp [hid, ownedBy, huser] at hnot
    | some q =>
        have hq := List.find?_some hf
        rw [Bool.and_eq_true, decide_eq_true_eq, ownedBy_iff] at hq
        have hsame : q.id = r.id := Uuid.ext (hq.1.trans hid.symm)
        rw [eq_of_uniqueKey hunique (List.mem_of_find?_eq_some hf) hr hsame]

/-- A lookup depends on the caller's own rows only. -/
theorem find?_owned_congr
    {id : String}
    (hunique : UniqueKey Job.id w.jobs)
    (hunique' : UniqueKey Job.id w'.jobs)
    (hagree : AgreeFor user w w') :
    (w'.jobs.find? fun r => decide (r.id.text = id) && ownedBy user r) =
      w.jobs.find? fun r => decide (r.id.text = id) && ownedBy user r := by
  apply Option.ext
  intro r
  rw [find?_owned_iff hunique, find?_owned_iff hunique']
  constructor
  · rintro ⟨hr, hid, huser⟩
    exact ⟨(hagree.rows r huser).mpr hr, hid, huser⟩
  · rintro ⟨hr, hid, huser⟩
    exact ⟨(hagree.rows r huser).mp hr, hid, huser⟩

theorem findOwnedJob_congr
    (id : String)
    (hunique : UniqueKey Job.id w.jobs)
    (hunique' : UniqueKey Job.id w'.jobs)
    (hagree : AgreeFor user w w') :
    findOwnedJob w' user id = findOwnedJob w user id := by
  unfold findOwnedJob
  simp only [find?_owned_congr hunique hunique' hagree]

/-- What the shared lookup returns is a row of the caller. -/
theorem owned_of_findOwnedJob
    {id : String} {job : Job}
    (h : findOwnedJob w user id = .ok job) :
    job ∈ w.jobs ∧ job.userId = user := by
  unfold findOwnedJob at h
  cases hid : requireParam "id" id with
  | error thrown =>
      rw [hid] at h
      cases h
  | ok id =>
      rw [hid] at h
      simp only [bind, Except.bind] at h
      split at h
      · cases h
      · cases hf : w.jobs.find? fun r => decide (r.id.text = id) && ownedBy user r with
        | none =>
            simp only [hf] at h
            cases h
        | some r =>
            simp only [hf] at h
            cases h
            have hp := List.find?_some hf
            rw [Bool.and_eq_true, ownedBy_iff] at hp
            exact ⟨List.mem_of_find?_eq_some hf, hp.2⟩

theorem getAudio_congr
    (id : String)
    (hunique : UniqueKey Job.id w.jobs)
    (hunique' : UniqueKey Job.id w'.jobs)
    (hagree : AgreeFor user w w') :
    getAudio w' user id = getAudio w user id := by
  unfold getAudio
  rw [findOwnedJob_congr id hunique hunique' hagree]
  cases hjob : findOwnedJob w user id with
  | error thrown => rfl
  | ok job =>
      obtain ⟨hmem, huser⟩ := owned_of_findOwnedJob hjob
      cases hkey : job.audioKey with
      | none => simp only [bind, Except.bind, hkey]
      | some key =>
          have hobject := hagree.objects job key hmem huser hkey
          simp only [bind, Except.bind, hkey, hobject]

/-- The id of a job is a value that the shared lookup accepts. -/
theorem length_text_ne_zero
    (id : Uuid) :
    id.text.length ≠ 0 := by
  rw [← String.length_toList, id.canonical.1]
  decide

theorem text_no_nul
    (id : Uuid) :
    id.text.toList.contains '\x00' = false := by
  by_contra hcontains
  have hmem : '\x00' ∈ id.text.toList := by simpa using hcontains
  have hchar := List.all_eq_true.mp id.canonical.2 _ hmem
  exact absurd hchar (by decide)

/-- The owner's lookup of a row finds it. -/
theorem findOwnedJob_own
    {r : Job}
    (hunique : UniqueKey Job.id w.jobs)
    (hr : r ∈ w.jobs) :
    findOwnedJob w r.userId r.id.text = .ok r := by
  have hfind := (find?_owned_iff hunique).mpr ⟨hr, rfl, rfl⟩
  unfold findOwnedJob requireParam
  simp only [length_text_ne_zero, text_no_nul, hfind, if_false, bind, Except.bind]
  rfl

/-- The id of another user's row is answered as unknown. -/
theorem findOwnedJob_foreign
    {r : Job}
    (hunique : UniqueKey Job.id w.jobs)
    (hr : r ∈ w.jobs)
    (hother : r.userId ≠ user) :
    findOwnedJob w user r.id.text = .error (.domain .notFound) := by
  have hnone : (w.jobs.find? fun q => decide (q.id.text = r.id.text) && ownedBy user q) =
      none := by
    rw [List.find?_eq_none]
    intro q hq hp
    rw [Bool.and_eq_true, decide_eq_true_eq, ownedBy_iff] at hp
    have hsame := eq_of_uniqueKey hunique hq hr (Uuid.ext hp.1)
    exact hother (hsame ▸ hp.2)
  unfold findOwnedJob requireParam
  simp only [length_text_ne_zero, text_no_nul, hnone, if_false, bind, Except.bind]
  rfl

end Lookups

section History

variable {w w' : World} {user : Uuid} {jobs : List Job}

theorem uniqueKey_position
    (h : UniqueKey Job.id jobs) :
    UniqueKey Job.position jobs := by
  refine uniqueKey_of_determines ?_ h
  intro a b hab
  have hpair : (a.createdAt, a.id.text) = (b.createdAt, b.id.text) := toLex.injective hab
  exact Uuid.ext (congrArg Prod.snd hpair)

theorem ordered_congr
    (hunique : UniqueKey Job.id w.jobs)
    (hunique' : UniqueKey Job.id w'.jobs)
    (hagree : AgreeFor user w w') :
    orderByDesc Job.position (w'.jobs.filter (ownedBy user)) =
      orderByDesc Job.position (w.jobs.filter (ownedBy user)) := by
  refine orderByDesc_congr (uniqueKey_position (uniqueKey_filter _ hunique'))
    (uniqueKey_position (uniqueKey_filter _ hunique)) ?_
  intro r
  rw [List.mem_filter, List.mem_filter, ownedBy_iff]
  constructor
  · rintro ⟨hr, huser⟩
    exact ⟨(hagree.rows r huser).mpr hr, huser⟩
  · rintro ⟨hr, huser⟩
    exact ⟨(hagree.rows r huser).mp hr, huser⟩

/-- With at most one row to skip, a cursor leaves nothing, wherever it points. -/
theorem findMany_of_few
    (take : Nat) (c : Uuid)
    (hfew : (jobs.filter (ownedBy user)).length < 2) :
    findMany jobs user take (some c) = [] := by
  unfold findMany
  dsimp only
  split
  · rfl
  · next row _ =>
      have hle := List.length_filter_le (fun r : Job => decide (r.position ≤ row.position))
        (orderByDesc Job.position (jobs.filter (ownedBy user)))
      rw [length_orderByDesc] at hle
      rw [List.drop_eq_nil_of_le (by omega), List.take_nil]

/-- Without its row a cursor leaves nothing. -/
theorem findMany_of_missing
    (take : Nat) {c : Uuid}
    (hmissing : ∀ r, r ∈ jobs → r.id ≠ c) :
    findMany jobs user take (some c) = [] := by
  have hnone : (jobs.find? fun r => decide (r.id = c)) = none := by
    rw [List.find?_eq_none]
    intro r hr hp
    exact hmissing r hr (by simpa using hp)
  simp only [findMany, hnone]

theorem findMany_of_row
    (take : Nat) {row : Job}
    (hunique : UniqueKey Job.id jobs)
    (hrow : row ∈ jobs) :
    findMany jobs user take (some row.id) =
      (((orderByDesc Job.position (jobs.filter (ownedBy user))).filter
        fun r => decide (r.position ≤ row.position)).drop 1).take take := by
  have hfind := (find?_eq_some_iff_of_unique hunique).mpr ⟨hrow, rfl⟩
  simp only [findMany, hfind]

theorem findMany_congr
    (take : Nat) {cursor : Option Uuid}
    (hunique : UniqueKey Job.id w.jobs)
    (hunique' : UniqueKey Job.id w'.jobs)
    (hagree : AgreeFor user w w')
    (hcursor : ∀ c, cursor = some c →
      (∃ r, r ∈ w.jobs ∧ r.userId = user ∧ r.id = c) ∨
        (w.jobs.filter (ownedBy user)).length < 2) :
    findMany w'.jobs user take cursor = findMany w.jobs user take cursor := by
  have hordered := ordered_congr hunique hunique' hagree
  cases cursor with
  | none => simp only [findMany, hordered]
  | some c =>
      rcases hcursor c rfl with ⟨r, hr, huser, rfl⟩ | hfew
      · rw [findMany_of_row take hunique hr,
          findMany_of_row take hunique' ((hagree.rows r huser).mp hr), hordered]
      · have hfew' : (w'.jobs.filter (ownedBy user)).length < 2 := by
          have hlen := congrArg List.length hordered
          rw [length_orderByDesc, length_orderByDesc] at hlen
          rw [hlen]
          exact hfew
        rw [findMany_of_few take c hfew, findMany_of_few take c hfew']

variable {report : Query → List Issue} {query : Query} {parsed : HistoryQuery}

theorem getHistory_of_parsed
    (w : World) (user : Uuid)
    (hparsed : historyQuerySchema report query = .ok parsed) :
    getHistory report w user query =
      .ok (.history
        (((findMany w.jobs user (parsed.limit + 1) parsed.cursor).take parsed.limit).map
          serializeJob)
        (if (findMany w.jobs user (parsed.limit + 1) parsed.cursor).length > parsed.limit then
          ((findMany w.jobs user (parsed.limit + 1) parsed.cursor).take
            parsed.limit).getLast?.map Job.id
        else
          none)) := by
  simp only [getHistory, validate, hparsed]

/-- An empty result is answered with the empty page. -/
theorem respond_of_empty
    (hparsed : historyQuerySchema report query = .ok parsed)
    (hempty : findMany w.jobs user (parsed.limit + 1) parsed.cursor = []) :
    respond report w user (.history query) = .success 200 (.history [] none) := by
  simp [respond, readRoute, getHistory_of_parsed w user hparsed, hempty]

/-- A result with rows is not answered with the empty page. -/
theorem respond_of_rows
    (hparsed : historyQuerySchema report query = .ok parsed)
    (hrows : findMany w.jobs user (parsed.limit + 1) parsed.cursor ≠ []) :
    respond report w user (.history query) ≠ .success 200 (.history [] none) := by
  have hlimit := parsed.limit_pos
  simp only [respond, readRoute, getHistory_of_parsed w user hparsed, ne_eq,
    Response.success.injEq, true_and, ReadBody.history.injEq, List.map_eq_nil_iff,
    List.take_eq_nil_iff, not_and]
  intro hnil
  rcases hnil with hzero | hnil
  · omega
  · exact absurd hnil hrows

theorem respond_history_congr
    (hunique : UniqueKey Job.id w.jobs)
    (hunique' : UniqueKey Job.id w'.jobs)
    (hagree : AgreeFor user w w')
    (hown : ¬ ForeignCursor report w user (.history query)) :
    respond report w' user (.history query) = respond report w user (.history query) := by
  cases hparsed : historyQuerySchema report query with
  | error issues => simp only [respond, readRoute, getHistory, validate, hparsed]
  | ok parsed =>
      have hrows : findMany w'.jobs user (parsed.limit + 1) parsed.cursor =
          findMany w.jobs user (parsed.limit + 1) parsed.cursor := by
        refine findMany_congr _ hunique hunique' hagree ?_
        intro c hc
        by_contra hnot
        obtain ⟨hforeign, hmany⟩ := not_or.mp hnot
        refine hown ⟨parsed, c, hparsed, hc, ?_, by omega⟩
        intro r hr huser hid
        exact hforeign ⟨r, hr, huser, hid⟩
      simp only [respond, readRoute, getHistory_of_parsed _ _ hparsed, hrows]

end History

section Independence

variable {w : World} {user : Uuid} {report : Query → List Issue}

/-- The state without other users' rows. -/
def World.onlyOwn (w : World) (user : Uuid) : World :=
  { w with jobs := w.jobs.filter (ownedBy user) }

/-- A row of somebody else that stands before all rows of the user. -/
def newestForeign (w : World) (user c other : Uuid) : Job :=
  newJob c other "" none (((w.onlyOwn user).jobs.map Job.createdAt).sum + 1)

/-- The same state with such a row. -/
def World.withForeign (w : World) (user c other : Uuid) : World :=
  { w with jobs := newestForeign w user c other :: (w.onlyOwn user).jobs }

theorem agreeFor_onlyOwn
    (w : World) (user : Uuid) :
    AgreeFor user w (w.onlyOwn user) := by
  constructor
  · intro r huser
    simp [World.onlyOwn, ownedBy, huser]
  · intro r key _ _ _
    rfl

theorem agreeFor_withForeign
    {c other : Uuid}
    (hother : other ≠ user) :
    AgreeFor user w (w.withForeign user c other) := by
  constructor
  · intro r huser
    have hne : r ≠ newestForeign w user c other := by
      rintro rfl
      exact hother huser
    simp [World.withForeign, World.onlyOwn, ownedBy, huser, hne]
  · intro r key _ _ _
    rfl

theorem exists_other_user
    (user : Uuid) :
    ∃ other : Uuid, other ≠ user := by
  by_cases h : sampleUser = user
  · refine ⟨sampleJob, ?_⟩
    rw [← h]
    decide
  · exact ⟨sampleUser, h⟩

/-- With a newer foreign row as its cursor, a user with two rows gets a page. -/
theorem findMany_withForeign
    {c other : Uuid} {take : Nat}
    (hunique : UniqueKey Job.id (w.withForeign user c other).jobs)
    (hother : other ≠ user)
    (htake : 0 < take)
    (hmany : 2 ≤ (w.jobs.filter (ownedBy user)).length) :
    findMany (w.withForeign user c other).jobs user take (some c) ≠ [] := by
  have hfilter : (w.withForeign user c other).jobs.filter (ownedBy user) =
      w.jobs.filter (ownedBy user) := by
    have hnot : ownedBy user (newestForeign w user c other) = false := decide_eq_false hother
    simp [World.withForeign, World.onlyOwn, hnot]
  have hbefore : ∀ r, r ∈ w.jobs.filter (ownedBy user) →
      r.position ≤ (newestForeign w user c other).position := by
    intro r hr
    have hle : r.createdAt ≤ ((w.onlyOwn user).jobs.map Job.createdAt).sum :=
      List.le_sum_of_mem (List.mem_map_of_mem hr)
    refine le_of_lt (Prod.Lex.toLex_lt_toLex.mpr (Or.inl ?_))
    exact Nat.lt_succ_of_le hle
  have hall : ∀ r, r ∈ orderByDesc Job.position (w.jobs.filter (ownedBy user)) →
      decide (r.position ≤ (newestForeign w user c other).position) = true := by
    intro r hr
    exact decide_eq_true (hbefore r (mem_orderByDesc.mp hr))
  have hrow : newestForeign w user c other ∈ (w.withForeign user c other).jobs :=
    List.mem_cons_self
  intro hnil
  have hpage : findMany (w.withForeign user c other).jobs user take (some c) = _ :=
    findMany_of_row take hunique hrow
  rw [hfilter, List.filter_eq_self.mpr hall] at hpage
  have hlen := congrArg List.length (hpage.symm.trans hnil)
  simp only [List.length_take, List.length_drop, length_orderByDesc, List.length_nil] at hlen
  omega

/-- A foreign cursor tells whether there is a row with that id. -/
theorem not_same_of_foreignCursor
    {request : ReadRequest}
    (hunique : UniqueKey Job.id w.jobs)
    (hforeign : ForeignCursor report w user request) :
    ¬ OwnDataOnly report w user request := by
  cases request with
  | history query =>
      obtain ⟨parsed, c, hparsed, hc, hnot, hmany⟩ := hforeign
      intro hown
      obtain ⟨other, hother⟩ := exists_other_user user
      have hmissing : ∀ r, r ∈ (w.onlyOwn user).jobs → r.id ≠ c := by
        intro r hr
        obtain ⟨hr, huser⟩ := List.mem_filter.mp hr
        exact hnot r hr (ownedBy_iff.mp huser)
      have hunique₁ : UniqueKey Job.id (w.onlyOwn user).jobs := uniqueKey_filter _ hunique
      have hunique₂ : UniqueKey Job.id (w.withForeign user c other).jobs :=
        uniqueKey_cons hmissing hunique₁
      have hempty : findMany (w.onlyOwn user).jobs user (parsed.limit + 1) parsed.cursor = [] := by
        rw [hc]
        exact findMany_of_missing _ hmissing
      have hpage : findMany (w.withForeign user c other).jobs user (parsed.limit + 1)
          parsed.cursor ≠ [] := by
        rw [hc]
        exact findMany_withForeign hunique₂ hother (Nat.succ_pos _) hmany
      have h₁ := hown.same _ hunique₁ (agreeFor_onlyOwn w user)
      have h₂ := hown.same _ hunique₂ (agreeFor_withForeign hother)
      exact respond_of_rows hparsed hpage
        (h₂.trans (h₁.symm.trans (respond_of_empty hparsed hempty)))
  | job => exact hforeign.elim
  | events => exact hforeign.elim
  | audio => exact hforeign.elim

/-- Without a foreign cursor a job of another user is answered as an unknown one. -/
theorem respond_foreign
    {request : ReadRequest} {r : Job}
    (hunique : UniqueKey Job.id w.jobs)
    (hnot : ¬ ForeignCursor report w user request)
    (hr : r ∈ w.jobs)
    (hother : r.userId ≠ user)
    (hnames : request.names report r.id) :
    respond report w user request = request.absent := by
  cases request with
  | history query =>
      obtain ⟨parsed, hparsed, hc⟩ := hnames
      have hfew : (w.jobs.filter (ownedBy user)).length < 2 := by
        by_contra hmany
        refine hnot ⟨parsed, r.id, hparsed, hc, ?_, by omega⟩
        intro q hq huser hid
        exact hother (eq_of_uniqueKey hunique hq hr hid ▸ huser)
      refine respond_of_empty hparsed ?_
      rw [hc]
      exact findMany_of_few _ _ hfew
  | job id =>
      cases hnames
      simp only [respond, readRoute, findOwnedJob_foreign hunique hr hother]
      rfl
  | events id =>
      cases hnames
      simp only [respond, readRoute, findOwnedJob_foreign hunique hr hother]
      rfl
  | audio id =>
      cases hnames
      simp only [respond, readRoute, getAudio, findOwnedJob_foreign hunique hr hother]
      rfl

/--
**Reads depend on own data.**  For every caller, every state with unique ids and
every request of the four routes: the answer is the same in every state that
agrees on the caller's rows and their objects, and another user's job is answered
as one that does not exist, exactly if the request is not a history request with
a foreign cursor by a caller with at least two jobs.
-/
theorem own_data_only_iff
    {request : ReadRequest}
    (hunique : UniqueKey Job.id w.jobs) :
    OwnDataOnly report w user request ↔ ¬ ForeignCursor report w user request := by
  constructor
  · intro hown hforeign
    exact not_same_of_foreignCursor hunique hforeign hown
  · intro hnot
    constructor
    · intro w' hunique' hagree
      cases request with
      | history query => exact respond_history_congr hunique hunique' hagree hnot
      | job id => simp only [respond, readRoute, findOwnedJob_congr id hunique hunique' hagree]
      | events id => simp only [respond, readRoute, findOwnedJob_congr id hunique hunique' hagree]
      | audio id => simp only [respond, readRoute, getAudio_congr id hunique hunique' hagree]
    · intro r hr hother hnames
      exact respond_foreign hunique hnot hr hother hnames

/-- A third job id. -/
def foreignJob : Uuid :=
  ⟨"f2b4c7de-1d47-4c62-8a55-6d1f8b0c7a13", by decide⟩

/-- Two jobs of the caller. -/
def twoJobs : World :=
  { World.empty with
    jobs := [newJob sampleJob sampleUser "ক" none 1, newJob otherJob sampleUser "খ" none 2] }

/-- The same with a newer job of somebody else. -/
def twoJobsAndForeign : World :=
  { twoJobs with jobs := newJob foreignJob otherJob "গ" none 3 :: twoJobs.jobs }

/-- The caller's own newer job as the cursor leads to the older one, whatever
other users' rows there are. -/
theorem own_data_only_page :
    OwnDataOnly (fun _ => []) twoJobsAndForeign sampleUser
      (.history ⟨none, some (.single otherJob.text)⟩) := by
  refine (own_data_only_iff ?_).mpr ?_
  · unfold UniqueKey
    decide
  · rintro ⟨parsed, c, hparsed, hc, hnot, _⟩
    have hcursor : (historyQuerySchema (fun _ => [])
        ⟨none, some (.single otherJob.text)⟩).toOption.bind HistoryQuery.cursor =
          some otherJob := by
      decide +kernel
    rw [hparsed] at hcursor
    have hown : c = otherJob := Option.some.inj (hc.symm.trans hcursor)
    exact hnot (newJob otherJob sampleUser "খ" none 2)
      (by simp [twoJobsAndForeign, twoJobs]) rfl hown.symm

/-- The id of another user's newer job as the cursor. -/
def foreignCursorRequest : ReadRequest :=
  .history ⟨none, some (.single foreignJob.text)⟩

/-- With another user's job as the cursor the caller is answered with a page of
the caller's own jobs, and without that job with the empty page. -/
theorem foreign_cursor_observed :
    AgreeFor sampleUser twoJobs twoJobsAndForeign ∧
      respond (fun _ => []) twoJobs sampleUser foreignCursorRequest =
        .success 200 (.history [] none) ∧
      respond (fun _ => []) twoJobsAndForeign sampleUser foreignCursorRequest =
        .success 200
          (.history [serializeJob (newJob sampleJob sampleUser "ক" none 1)] none) := by
  refine ⟨⟨?_, fun _ _ _ _ _ => rfl⟩, by decide +kernel, by decide +kernel⟩
  intro r huser
  have hne : r ≠ newJob foreignJob otherJob "গ" none 3 := by
    rintro rfl
    exact absurd huser (by decide)
  simp [twoJobsAndForeign, hne]

end Independence

end BengaliTts
