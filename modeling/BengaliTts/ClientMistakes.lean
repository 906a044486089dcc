import BengaliTts.HttpApi
import BengaliTts.Recordings
import BengaliTts.StreamHub

/-!
# What a client's mistake is answered

The error handler answers refusals of its table and the parser's `SyntaxError`, and
everything else with 500.  That is meant for faults of the service, but some mistakes of
a client arrive there too: the other refusals of the body parser, a malformed escape in
a path parameter, and NUL in a text that is handed to PostgreSQL.

Main results:
* `client_mistake_iff`: in every state and for every request alone, the status is below
  500 or the answer is QUEUE_FULL, exactly if the request is none of those that
  `AnsweredAsFault` lists, and a text that is too long is rejected with a 4xx status
  exactly if the body parser takes the body;
* `recording_of_reachable`: in a state that the service reaches, the recording of a
  completed job is there;
* `client_mistakes_answered_500`: a text whose body is larger than 64kb, a malformed
  escape and NUL in a path.
-/

namespace BengaliTts

open Lib

section Statements

/-- The caller's job is completed, and its object is not in the bucket. -/
def RecordingMissing (w : World) (user : Uuid) (id : String) : Prop :=
  ∃ job key, findOwnedJob w user id = .ok job ∧ job.status = .completed ∧
    job.audioKey = some key ∧ key.length ≠ 0 ∧ w.bucket key = none

/-- A path that `basicAuth` stands in front of. -/
def ApiPath.guardedByPassword : ApiPath → Bool
  | .keys => true
  | .key _ => true
  | .belowKeys => true
  | _ => false

/-- The requests that are answered like a fault of the service. -/
inductive AnsweredAsFault (d : ApiDeps) (s : ApiState) (r : HttpRequest) (draws : Draws d s) :
    Prop
  /-- The body parser refuses the body, other than for its syntax. -/
  | body {status : Nat}
      (hbody : expressJson r.body = .refused status)
  /-- Below `/v1/jobs`, a malformed escape, before the authentication. -/
  | jobEscape {body : Option Json} {raw : String} {route : JobRoute}
      (hbody : expressJson r.body = .parsed body)
      (hpath : r.path = .job raw route)
      (hraw : decodeURIComponent raw = none)
  /-- NUL in the id of a job. -/
  | jobNul {body : Option Json} {raw id : String} {route : JobRoute} {user : AuthedUser}
      (hbody : expressJson r.body = .parsed body)
      (hpath : r.path = .job raw route)
      (hmethod : r.method = .get)
      (hid : decodeURIComponent raw = some id)
      (huser : userByKey d s r = .ok user)
      (hnul : '\x00' ∈ id.toList)
  /-- A malformed escape in the id of a key, by an authenticated user. -/
  | keyEscape {body : Option Json} {raw : String} {user : AuthedUser}
      (hbody : expressJson r.body = .parsed body)
      (hpath : r.path = .key raw)
      (huser : userByPassword d s r draws.salt = .ok user)
      (hraw : decodeURIComponent raw = none)
  /-- NUL in the id of a key that is to be revoked. -/
  | keyNul {body : Option Json} {raw id : String} {user : AuthedUser}
      (hbody : expressJson r.body = .parsed body)
      (hpath : r.path = .key raw)
      (hmethod : r.method = .delete)
      (huser : userByPassword d s r draws.salt = .ok user)
      (hid : decodeURIComponent raw = some id)
      (hnul : '\x00' ∈ id.toList)
  /-- NUL in the address of a Basic header. -/
  | emailNul {body : Option Json} {token : JsString}
      (hbody : expressJson r.body = .parsed body)
      (hpath : r.path.guardedByPassword = true)
      (hheader : r.authorization = some (literal "Basic " ++ token))
      (hnul : 0 ∈ (basicCredentials (decodeBasic token)).1)
  /-- NUL in a text that every gate lets pass. -/
  | textNul {body : Option Json} {user : AuthedUser} {text : JsString}
      (hbody : expressJson r.body = .parsed body)
      (hpath : r.path = .tts)
      (hmethod : r.method = .post)
      (huser : userByKey d s r = .ok user)
      (hreach : ReachesInsert d.gateway s.world ⟨user.id, r.idempotencyKey, body⟩ draws.allowed
        text)
      (hnul : hasNul text = true)
  /-- The object of a completed job is not in the bucket. -/
  | recordingMissing {body : Option Json} {raw id : String} {user : AuthedUser}
      (hbody : expressJson r.body = .parsed body)
      (hpath : r.path = .job raw .audio)
      (hmethod : r.method = .get)
      (hid : decodeURIComponent raw = some id)
      (huser : userByKey d s r = .ok user)
      (hmissing : RecordingMissing s.world user.id id)

/-- A submission, valid but for the length of its text, that passes the authentication
and the rate limit. -/
structure TooLong (d : ApiDeps) (s : ApiState) (r : HttpRequest) (draws : Draws d s)
    (text : JsString) : Prop where
  path : r.path = .tts
  method : r.method = .post
  content : ∃ members, r.body.content = .json (.obj members) ∧
    submitSchema (some (.obj members)) = .ok text
  nonempty : text ≠ []
  long : (codePoints text).length > d.gateway.config.TTS_MAX_TEXT_LENGTH
  authenticated : ∃ user, userByKey d s r = .ok user ∧
    ∃ key, readIdempotencyKey r.idempotencyKey = .ok key ∧
      key.bind (findByKey s.world.jobs user.id) = none
  token : draws.allowed = 1

/-- A response came, with a status below 500 or QUEUE_FULL. -/
def Served (answer : Option AppResponse) : Prop :=
  ∃ response, answer = some response ∧ BelowServerError response

/-- A response came, with a 4xx status. -/
def Rejected (answer : Option AppResponse) : Prop :=
  ∃ response, answer = some response ∧ 400 ≤ response.status ∧ response.status < 500

end Statements

section Layers

variable {d : ApiDeps} {s : ApiState} {r : HttpRequest} {draws : Draws d s}

theorem belowServerError_map
    {β γ : Type} {f : β → γ} {response : Response β}
    (h : BelowServerError response) :
    BelowServerError (Response.map f response) := by
  rcases h with hlt | rfl
  · cases response
    · exact Or.inl hlt
    · exact Or.inl hlt
  · exact Or.inr rfl

theorem map_errorHandler
    {β γ : Type} (f : β → γ) (thrown : Thrown) :
    Response.map f (errorHandler thrown) = errorHandler thrown := by
  cases thrown <;> rfl

theorem served_of_below
    {response : AppResponse}
    (h : BelowServerError response) :
    Served (some response) :=
  ⟨response, rfl, h⟩

theorem served_map
    {β : Type} {f : β → AppBody} {response : Response β}
    (h : BelowServerError response) :
    Served (some (Response.map f response)) :=
  served_of_below (belowServerError_map h)

theorem served_notFound : Served (some notFoundHandler) :=
  served_of_below (Or.inl (by decide))

/-- A fault is not served. -/
theorem not_served_fault :
    ¬ Served (some (errorHandler .fault)) := by
  rintro ⟨response, ⟨⟩, hbelow⟩
  exact not_belowServerError_fault hbelow

/-- The authentication by a key refuses; it does not fail. -/
theorem userByKey_error
    {thrown : Thrown}
    (h : userByKey d s r = .error thrown) :
    ∃ error, thrown = .domain error := by
  unfold userByKey at h
  cases hauth : s.keys.authenticate d.keys r.authorization with
  | ok user =>
      rw [hauth] at h
      cases h
  | error error =>
      rw [hauth] at h
      cases h
      exact ⟨error, rfl⟩

/-- Behind the authentication by a key, a request that is not served is a user's. -/
theorem served_withKey
    {route : AuthedUser → Option AppResponse}
    (h : ¬ Served (withUser (userByKey d s r) route)) :
    ∃ user, userByKey d s r = .ok user ∧ ¬ Served (route user) := by
  unfold withUser at h
  split at h
  · next user huser => exact ⟨user, huser, h⟩
  · next thrown hthrown =>
      obtain ⟨error, rfl⟩ := userByKey_error hthrown
      exact absurd (served_of_below (belowServerError_domain error)) h

/-- Basic authentication refuses, unless the address contains NUL. -/
theorem userByPassword_error
    {thrown : Thrown} {salt : Bytes}
    (h : userByPassword d s r salt = .error thrown) :
    (∃ error, thrown = .domain error) ∨
      thrown = .fault ∧ ∃ token, r.authorization = some (literal "Basic " ++ token) ∧
        0 ∈ (basicCredentials (decodeBasic token)).1 := by
  unfold userByPassword at h
  cases hheader : r.authorization with
  | none =>
      rw [hheader] at h
      cases h
      exact Or.inl ⟨_, rfl⟩
  | some value =>
      rw [hheader] at h
      by_cases hbasic : (literal "Basic ").isPrefixOf value = true
      · obtain ⟨token, rfl⟩ := List.isPrefixOf_iff_prefix.mp hbasic
        rw [basicAuth_token, checkCredentials] at h
        split at h
        · next hnul =>
            cases h
            exact Or.inr ⟨rfl, token, rfl, by simpa [hasNul] using hnul⟩
        · left
          split at h
          · split at h
            · cases h
            · cases h
              exact ⟨_, rfl⟩
          · rw [ite_self] at h
            cases h
            exact ⟨_, rfl⟩
      · rw [basicAuth] at h
        simp only [hbasic] at h
        cases h
        exact Or.inl ⟨_, rfl⟩

/-- NUL in the address of a Basic header is a fault. -/
theorem userByPassword_nul
    {token : JsString} {salt : Bytes}
    (hheader : r.authorization = some (literal "Basic " ++ token))
    (hnul : 0 ∈ (basicCredentials (decodeBasic token)).1) :
    userByPassword d s r salt = .error .fault := by
  rw [userByPassword, hheader, basicAuth_token, checkCredentials]
  exact if_pos (by simpa [hasNul] using hnul)

/-- Behind Basic authentication, a request that is not served is a user's, or its
address contains NUL. -/
theorem served_withPassword
    {route : AuthedUser → Option AppResponse} {salt : Bytes}
    (h : ¬ Served (withUser (userByPassword d s r salt) route)) :
    (∃ user, userByPassword d s r salt = .ok user ∧ ¬ Served (route user)) ∨
      ∃ token, r.authorization = some (literal "Basic " ++ token) ∧
        0 ∈ (basicCredentials (decodeBasic token)).1 := by
  unfold withUser at h
  split at h
  · next user huser => exact Or.inl ⟨user, huser, h⟩
  · next thrown hthrown =>
      rcases userByPassword_error hthrown with ⟨error, rfl⟩ | ⟨_, hnul⟩
      · exact absurd (served_of_below (belowServerError_domain error)) h
      · exact Or.inr hnul

end Layers

section Reads

variable {w : World} {user : Uuid} {report : Query → List Issue}

/-- The shared lookup, as a case distinction. -/
theorem findOwnedJob_eq
    (w : World) (user : Uuid) (id : String) :
    findOwnedJob w user id =
      if id.length = 0 then
        .error (.domain (.invalidParameter "id"))
      else if id.toList.contains '\x00' then
        .error .fault
      else
        match w.jobs.find? fun r => decide (r.id.text = id) && ownedBy user r with
        | none => .error (.domain .notFound)
        | some job => .ok job := by
  unfold findOwnedJob requireParam
  by_cases hempty : id.length = 0
  · simp only [hempty, if_true]
    rfl
  · simp only [hempty, if_false, bind, Except.bind]
    by_cases hnul : id.toList.contains '\x00' = true
    · rw [if_pos hnul, if_pos hnul]
      rfl
    · rw [if_neg hnul, if_neg hnul]
      cases w.jobs.find? fun r => decide (r.id.text = id) && ownedBy user r with
      | none => rfl
      | some job => rfl

theorem findOwnedJob_nul
    {id : String}
    (hnul : '\x00' ∈ id.toList) :
    findOwnedJob w user id = .error .fault := by
  have hlength : id.length ≠ 0 := by
    rw [← String.length_toList]
    exact Nat.ne_of_gt (List.length_pos_of_mem hnul)
  rw [findOwnedJob_eq, if_neg hlength, if_pos (by simpa using hnul)]

/-- The shared lookup refuses, unless the id contains NUL. -/
theorem findOwnedJob_error
    {id : String} {thrown : Thrown}
    (h : findOwnedJob w user id = .error thrown) :
    (∃ error, thrown = .domain error) ∨ '\x00' ∈ id.toList := by
  rw [findOwnedJob_eq] at h
  split at h
  · cases h
    exact Or.inl ⟨_, rfl⟩
  · split at h
    · next hnul => exact Or.inr (by simpa using hnul)
    · split at h
      · cases h
        exact Or.inl ⟨_, rfl⟩
      · cases h

theorem readRoute_of_error
    {id : String} {thrown : Thrown}
    (h : findOwnedJob w user id = .error thrown)
    (route : JobRoute) :
    readRoute report w user (route.request id) = .error thrown := by
  cases route with
  | status =>
      simp only [JobRoute.request, readRoute, h]
      rfl
  | events =>
      simp only [JobRoute.request, readRoute, h]
      rfl
  | audio =>
      simp only [JobRoute.request, readRoute, getAudio, h]
      rfl

theorem respond_of_ok
    {request : ReadRequest} {body : ReadBody}
    (h : readRoute report w user request = .ok body) :
    BelowServerError (respond report w user request) := by
  rw [respond, h]
  exact belowServerError_success (by decide)

theorem respond_of_error
    {request : ReadRequest} {thrown : Thrown}
    (h : readRoute report w user request = .error thrown) :
    respond report w user request = errorHandler thrown := by
  rw [respond, h]

theorem respond_of_domain
    {request : ReadRequest} {error : DomainError}
    (h : readRoute report w user request = .error (.domain error)) :
    BelowServerError (respond report w user request) := by
  rw [respond_of_error h]
  exact belowServerError_domain error

/-- The audio of a job that was found is served or refused, unless it is missing. -/
theorem respond_audio_cases
    {id : String} {job : Job}
    (hjob : findOwnedJob w user id = .ok job) :
    BelowServerError (respond report w user (.audio id)) ∨ RecordingMissing w user id := by
  have haudio : readRoute report w user (.audio id) = getAudio w user id := rfl
  rw [getAudio_of_found hjob] at haudio
  split at haudio
  · exact Or.inl (respond_of_domain haudio)
  · split at haudio
    · exact Or.inl (respond_of_domain haudio)
    · next hstatus =>
        split at haudio
        · exact Or.inl (respond_of_domain haudio)
        · next key hkey =>
            split at haudio
            · exact Or.inl (respond_of_domain haudio)
            · next hlength =>
                split at haudio
                · next hbucket =>
                    exact Or.inr ⟨job, key, hjob, not_not.mp hstatus, hkey, hlength, hbucket⟩
                · exact Or.inl (respond_of_ok haudio)

/-- The routes over one job serve or refuse, unless the id contains NUL or the recording
of a completed job is missing. -/
theorem respond_job_cases
    (route : JobRoute) (id : String) :
    BelowServerError (respond report w user (route.request id)) ∨
      '\x00' ∈ id.toList ∨ route = .audio ∧ RecordingMissing w user id := by
  cases hjob : findOwnedJob w user id with
  | error thrown =>
      rcases findOwnedJob_error hjob with ⟨error, rfl⟩ | hnul
      · exact Or.inl (respond_of_domain (readRoute_of_error hjob route))
      · exact Or.inr (Or.inl hnul)
  | ok job =>
      cases route with
      | status =>
          have hread : readRoute report w user (.job id) = .ok (.job (serializeJob job)) := by
            simp only [readRoute, hjob, Except.map]
          exact Or.inl (respond_of_ok hread)
      | events =>
          have hread : readRoute report w user (.events id) = .ok (.event (serializeJob job)) := by
            simp only [readRoute, hjob, Except.map]
          exact Or.inl (respond_of_ok hread)
      | audio =>
          exact (respond_audio_cases hjob).imp_right fun hmissing => Or.inr ⟨rfl, hmissing⟩

theorem respond_job_nul
    {id : String}
    (hnul : '\x00' ∈ id.toList)
    (route : JobRoute) :
    respond report w user (route.request id) = errorHandler .fault :=
  respond_of_error (readRoute_of_error (findOwnedJob_nul hnul) route)

theorem respond_recording_missing
    {id : String}
    (hmissing : RecordingMissing w user id) :
    respond report w user (.audio id) = errorHandler .fault := by
  obtain ⟨job, key, hjob, hstatus, hkey, hlength, hbucket⟩ := hmissing
  simp [respond, readRoute, getAudio_of_found hjob, hstatus, hkey, hlength, hbucket]

/-- The history is served, or its query is refused. -/
theorem respond_history_below
    (query : Query) :
    BelowServerError (respond report w user (.history query)) := by
  cases hread : readRoute report w user (.history query) with
  | ok body => exact respond_of_ok hread
  | error thrown =>
      have hhistory : getHistory report w user query = .error thrown := hread
      unfold getHistory at hhistory
      split at hhistory
      · cases hhistory
        exact respond_of_domain hread
      · cases hhistory

end Reads

section Results

variable {d : ApiDeps} {s : ApiState} {r : HttpRequest} {draws : Draws d s}

theorem createKey_below
    (user : Uuid) :
    BelowServerError
      (s.keys.create d.keys user draws.secret draws.keyId draws.now).2 := by
  have hfresh := draws.keyFresh
  simp only [KeyStore.create, hfresh]
  exact belowServerError_success (by decide)

/-- The revocation of a key is refused or done, unless the id contains NUL. -/
theorem revoke_cases
    (keys : KeyStore) (user : Uuid) (id : String) (now : Nat) :
    BelowServerError (keys.revoke user id now).2 ∨ '\x00' ∈ id.toList := by
  unfold KeyStore.revoke
  split
  · next hnul => exact Or.inr (by simpa using hnul)
  · split
    · exact Or.inl (belowServerError_domain _)
    · exact Or.inl (belowServerError_success (by decide))

theorem revoke_nul
    {id : String}
    (hnul : '\x00' ∈ id.toList)
    (keys : KeyStore) (user : Uuid) (now : Nat) :
    (keys.revoke user id now).2 = errorHandler .fault := by
  rw [KeyStore.revoke, if_pos (by simpa using hnul)]

/-- A request that is not served is one of those that are answered like a fault. -/
theorem answeredAsFault_of_routers
    {body : Option Json}
    (hbody : expressJson r.body = .parsed body)
    (h : ¬ Served (routers d s r draws body)) :
    AnsweredAsFault d s r draws := by
  unfold routers at h
  cases hpath : r.path with
  | register =>
      simp only [hpath] at h
      split at h
      · obtain ⟨response, hresponse, hbelow⟩ := registerAlone_answer (d := d.accounts)
          draws.userFresh body draws.salt draws.now
        rw [hresponse] at h
        exact absurd (served_map hbelow) h
      · exact absurd served_notFound h
  | keys =>
      simp only [hpath] at h
      rcases served_withPassword h with ⟨user, _, h⟩ | ⟨token, hheader, hnul⟩
      · cases hmethod : r.method with
        | post =>
            simp only [hmethod] at h
            exact absurd (served_map (createKey_below user.id)) h
        | get =>
            simp only [hmethod] at h
            exact absurd (served_map (belowServerError_success (by decide))) h
        | delete =>
            simp only [hmethod] at h
            exact absurd served_notFound h
      · exact .emailNul hbody (by rw [hpath]; rfl) hheader hnul
  | key raw =>
      simp only [hpath] at h
      rcases served_withPassword h with ⟨user, huser, h⟩ | ⟨token, hheader, hnul⟩
      · split at h
        · next hraw => exact .keyEscape hbody hpath huser hraw
        · next id hid =>
            split at h
            · next hmethod =>
                rcases revoke_cases s.keys user.id id draws.now with hbelow | hnul
                · exact absurd (served_map hbelow) h
                · exact .keyNul hbody hpath hmethod huser hid hnul
            · exact absurd served_notFound h
      · exact .emailNul hbody (by rw [hpath]; rfl) hheader hnul
  | belowKeys =>
      simp only [hpath] at h
      rcases served_withPassword h with ⟨_, _, h⟩ | ⟨token, hheader, hnul⟩
      · exact absurd served_notFound h
      · exact .emailNul hbody (by rw [hpath]; rfl) hheader hnul
  | me =>
      simp only [hpath] at h
      split at h
      · obtain ⟨user, _, h⟩ := served_withKey h
        exact absurd (served_of_below (belowServerError_success (by decide))) h
      · exact absurd served_notFound h
  | tts =>
      simp only [hpath] at h
      split at h
      · next hmethod =>
          obtain ⟨user, huser, h⟩ := served_withKey h
          obtain ⟨response, hresponse, ⟨hbelow, _⟩ | ⟨_, text, hreach, hnul⟩⟩ :=
            submitAlone_answer (d := d.gateway) s.unlocked draws.jobFresh
              ⟨user.id, r.idempotencyKey, body⟩ draws.allowed draws.retryAfterMs draws.now
          · rw [hresponse] at h
            exact absurd (served_map hbelow) h
          · exact .textNul hbody hpath hmethod huser hreach hnul
      · exact absurd served_notFound h
  | jobs =>
      simp only [hpath] at h
      split at h
      · obtain ⟨user, _, h⟩ := served_withKey h
        exact absurd (served_map (respond_history_below _)) h
      · exact absurd served_notFound h
  | job raw route =>
      simp only [hpath] at h
      split at h
      · next hraw => exact .jobEscape hbody hpath hraw
      · next id hid =>
          split at h
          · next hmethod =>
              obtain ⟨user, huser, h⟩ := served_withKey h
              have hcases := @respond_job_cases s.world user.id d.report route id
              rcases hcases with hbelow | hnul | ⟨rfl, hmissing⟩
              · exact absurd (served_map hbelow) h
              · exact .jobNul hbody hpath hmethod hid huser hnul
              · exact .recordingMissing hbody hpath hmethod hid huser hmissing
          · exact absurd served_notFound h
  | unknown =>
      simp only [hpath] at h
      exact absurd served_notFound h

/-- The listed requests are answered 500. -/
theorem app_of_answeredAsFault
    (h : AnsweredAsFault d s r draws) :
    app d s r draws = some (errorHandler .fault) := by
  cases h with
  | body hbody => simp only [app, hbody]
  | jobEscape hbody hpath hraw => simp only [app, hbody, routers, hpath, hraw]
  | jobNul hbody hpath hmethod hid huser hnul =>
      simp only [app, hbody, routers, hpath, hid, hmethod, huser, withUser, if_true,
        respond_job_nul hnul, map_errorHandler]
  | keyEscape hbody hpath huser hraw =>
      simp only [app, hbody, routers, hpath, huser, withUser, hraw]
  | keyNul hbody hpath hmethod huser hid hnul =>
      simp only [app, hbody, routers, hpath, huser, withUser, hid, hmethod, if_true,
        revoke_nul hnul, map_errorHandler]
  | emailNul hbody hpath hheader hnul =>
      have hfault : userByPassword d s r draws.salt = .error .fault :=
        userByPassword_nul hheader hnul
      cases hp : r.path <;> rw [hp] at hpath <;> cases hpath <;>
        simp only [app, hbody, routers, hp, hfault, withUser]
  | textNul hbody hpath hmethod huser hreach hnul =>
      obtain ⟨response, hresponse, ⟨_, hnone⟩ | ⟨rfl, _⟩⟩ :=
        submitAlone_answer (d := d.gateway) s.unlocked draws.jobFresh _ draws.allowed
          draws.retryAfterMs draws.now
      · exact absurd (hnone _ hreach) (by simp [hnul])
      · simp only [app, hbody, routers, hpath, hmethod, huser, withUser, if_true, hresponse,
          Option.map_some, map_errorHandler]
  | recordingMissing hbody hpath hmethod hid huser hmissing =>
      simp only [app, hbody, routers, hpath, hid, hmethod, huser, withUser, if_true,
        JobRoute.request, respond_recording_missing hmissing, map_errorHandler]

/-- A request is served exactly if it is not one of the listed. -/
theorem served_iff :
    Served (app d s r draws) ↔ ¬ AnsweredAsFault d s r draws := by
  constructor
  · intro hserved hfault
    rw [app_of_answeredAsFault hfault] at hserved
    exact not_served_fault hserved
  · intro hnot
    by_contra hserved
    refine hnot ?_
    unfold app at hserved
    split at hserved
    · next body hbody => exact answeredAsFault_of_routers hbody hserved
    · exact absurd (served_of_below (Or.inl (by decide))) hserved
    · next status hbody => exact .body hbody

/-- A text that is too long is refused, as blank or for its length. -/
theorem validateTtsText_of_long
    {text : JsString} {maxLength : Nat}
    (hlong : (codePoints text).length > maxLength) :
    ∃ error, validateTtsText text maxLength = .error error ∧ (toRendering error).status = 422 := by
  by_cases hblank : (trim text).length = 0
  · exact ⟨_, if_pos hblank, rfl⟩
  · exact ⟨_, (if_neg hblank).trans (if_pos hlong), rfl⟩

/-- A text that is too long is rejected, if the body parser takes the body. -/
theorem rejected_of_tooLong
    {text : JsString}
    (h : TooLong d s r draws text)
    (hsize : r.body.size ≤ JSON_LIMIT) :
    Rejected (app d s r draws) := by
  obtain ⟨members, hcontent, hschema⟩ := h.content
  obtain ⟨user, huser, key, hkey, hnone⟩ := h.authenticated
  obtain ⟨error, herror, hstatus⟩ := validateTtsText_of_long h.long
  have hbody : expressJson r.body = .parsed (some (.obj members)) := by
    rw [expressJson, hcontent]
    exact if_neg (Nat.not_lt.mpr hsize)
  have hvalid : validate submitSchema (some (.obj members)) = .ok text := by
    rw [validate, hschema]
  have hrefused : afterToken d.gateway
      ⟨user.id, key, some (.obj members), none, .rateGate⟩ draws.allowed draws.retryAfterMs =
        .answered (errorHandler (.domain error)) := by
    simp [afterToken, takeRateLimitToken, h.token, hvalid, herror]
  have hanswer := submitAlone_refused (d := d.gateway) (w := s.world)
    (r := ⟨user.id, r.idempotencyKey, some (.obj members)⟩) hkey hnone hrefused draws.jobId
      draws.now
  refine ⟨errorHandler (.domain error), ?_, ?_⟩
  · simp only [app, hbody, routers, h.path, h.method, if_true, huser, withUser, hanswer,
      Option.map_some, map_errorHandler]
  · have hresponse : (errorHandler (.domain error) : AppResponse).status =
        (toRendering error).status := rfl
    rw [hresponse, hstatus]
    decide

/-- A JSON body over the limit is answered 500. -/
theorem not_rejected_of_large
    {value : Json}
    (hcontent : r.body.content = .json value)
    (hsize : ¬ r.body.size ≤ JSON_LIMIT) :
    ¬ Rejected (app d s r draws) := by
  have hbody : expressJson r.body = .refused 413 := by
    rw [expressJson, hcontent]
    exact if_pos (Nat.not_le.mp hsize)
  rintro ⟨response, hresponse, _, hlt⟩
  rw [app_of_answeredAsFault (.body hbody)] at hresponse
  cases hresponse
  exact absurd hlt (by decide)

/--
**What a client's mistake is answered.**  In every state of the stores without another
request under way, for every request: the answer comes with a status below 500, or it is
503 QUEUE_FULL, exactly if the request is none of those that `AnsweredAsFault` lists;
and a submission that is valid but for a text over the maximum length, and passes the
authentication and the rate limit, is rejected with a 4xx status exactly if its body is
not larger than 64kb.
-/
theorem client_mistake_iff
    (d : ApiDeps) (s : ApiState) (r : HttpRequest) (draws : Draws d s) :
    (Served (app d s r draws) ↔ ¬ AnsweredAsFault d s r draws) ∧
      ∀ text, TooLong d s r draws text →
        (Rejected (app d s r draws) ↔ r.body.size ≤ JSON_LIMIT) := by
  refine ⟨served_iff, fun text h => ⟨fun hrejected => ?_, rejected_of_tooLong h⟩⟩
  obtain ⟨members, hcontent, _⟩ := h.content
  by_contra hsize
  exact not_rejected_of_large hcontent hsize hrejected

/-- In a state that the service reaches, the recording of a completed job is there. -/
theorem recording_of_reachable
    {d : Deps} {es : List ServiceEvent} {g : Service}
    (hrun : ServiceRun d Machine.anyStep es g)
    (user : Uuid) (id : String) :
    ¬ RecordingMissing g.world user id := by
  rintro ⟨job, key, hjob, hstatus, hkey, _, hbucket⟩
  have hmem := (owned_of_findOwnedJob hjob).1
  have hcompleted := (rowInv_of_run hrun job hmem).consistent.completed hstatus
  obtain ⟨data, hdata, _⟩ := hcompleted.recording
  cases hkey.symm.trans hcompleted.key
  rw [hbucket] at hdata
  cases hdata

/-- Texts of at most two codepoints. -/
def shortDeps : ApiDeps where
  gateway :=
    { sampleDeps with
      config := { defaultConfig with TTS_MAX_TEXT_LENGTH := 2, maxTextLength_pos := Nat.two_pos } }
  accounts := sampleAccounts
  keys := sampleKeyDeps
  report := fun _ => []

/-- The sample user with a key and two jobs. -/
def sampleState : ApiState where
  accounts := AccountTable.empty
  keys := sampleKeys
  world := twoJobs
  unlocked := fun _ => rfl

theorem sampleSecret_length :
    (List.replicate 32 (0xFB : UInt8)).length = 32 :=
  rfl

def sampleDraws : Draws shortDeps sampleState where
  allowed := 1
  retryAfterMs := 0
  salt := []
  secret := ⟨List.replicate 32 0xFB, sampleSecret_length⟩
  userId := sampleUserId
  keyId := foreignKey
  jobId := foreignJob
  now := 5
  userFresh := rfl
  keyFresh := by decide +kernel
  jobFresh := rfl

/-- A submission of the sample user, with a body of this size. -/
def submission (text : JsString) (size : Nat) : HttpRequest where
  method := .post
  path := .tts
  authorization := some ownerHeader
  idempotencyKey := none
  query := ⟨none, none⟩
  body := ⟨size, .json (.obj [("text", .str text)])⟩

/-- A GET of the sample user on a job. -/
def readJob (authorization : Option JsString) (raw : String) : HttpRequest where
  method := .get
  path := .job raw .status
  authorization := authorization
  idempotencyKey := none
  query := ⟨none, none⟩
  body := ⟨0, .absent⟩

theorem userByKey_sample
    {r : HttpRequest}
    (h : r.authorization = some ownerHeader) :
    userByKey shortDeps sampleState r = .ok ⟨sampleUser, "user@example.com"⟩ := by
  have hauth : sampleKeys.authenticate sampleKeyDeps (some ownerHeader) =
      .ok ⟨sampleUser, "user@example.com"⟩ := by
    decide +kernel
  have hstate : sampleState.keys.authenticate shortDeps.keys r.authorization =
      .ok ⟨sampleUser, "user@example.com"⟩ := by
    rw [h]
    exact hauth
  rw [userByKey, hstate]
  rfl

/-- Three letters. -/
def threeLetters : JsString := [0x0995, 0x0996, 0x0997]

/-- Three letters are too long for a maximum of two, and rejected. -/
theorem client_mistake_rejected :
    Rejected (app shortDeps sampleState (submission threeLetters 20) sampleDraws) := by
  refine ((client_mistake_iff shortDeps sampleState (submission threeLetters 20)
    sampleDraws).2 threeLetters ?_).mpr (by decide)
  exact
    { path := rfl
      method := rfl
      content := ⟨_, rfl, rfl⟩
      nonempty := by decide
      long := by decide
      authenticated := ⟨_, userByKey_sample rfl, none, rfl, rfl⟩
      token := rfl }

/-- Four mistakes that are answered 500: a text whose body is larger than 64kb, a
malformed escape, NUL in a path, and NUL in a text. -/
theorem client_mistakes_answered_500 :
    ¬ Served (app shortDeps sampleState (submission (List.replicate 30000 0x0995) 90011)
        sampleDraws) ∧
      ¬ Served (app shortDeps sampleState (readJob none "%E0%A4%A") sampleDraws) ∧
        ¬ Served (app shortDeps sampleState (readJob (some ownerHeader) "%00") sampleDraws) ∧
          ¬ Served (app shortDeps sampleState (submission [0x0995, 0] 25) sampleDraws) := by
  refine ⟨fun h => served_iff.mp h ?_, fun h => served_iff.mp h ?_, fun h => served_iff.mp h ?_,
    fun h => served_iff.mp h ?_⟩
  · have hbody : expressJson (submission (List.replicate 30000 0x0995) 90011).body =
        .refused 413 := rfl
    exact .body hbody
  · exact .jobEscape rfl rfl (by decide +kernel)
  · have hid : decodeURIComponent "%00" = some "\x00" := by decide +kernel
    exact .jobNul rfl rfl rfl hid (userByKey_sample rfl) (by decide +kernel)
  · refine .textNul rfl rfl rfl (userByKey_sample rfl) ?_ (rfl : hasNul [0x0995, 0] = true)
    exact
      { newKey := ⟨none, rfl, rfl⟩
        token := rfl
        schema := rfl
        rules := by decide +kernel
        pending := by decide +kernel
        depth := by decide +kernel }

end Results

end BengaliTts
