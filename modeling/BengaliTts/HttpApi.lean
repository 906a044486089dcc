import BengaliTts.BasicAuth
import BengaliTts.JobReads
import BengaliTts.RequestAlone

/-!
# The routes under /v1

`createApp` puts the JSON body parser in front, then the routers, then the handler for
unknown paths and the error handler.  A request goes through these layers in order: the
body parser, the router, which decodes the path parameter of a pattern as soon as the
path has its shape and whatever the method is, the authentication, and the route.

Which pattern a path matches is the router's part: an `ApiPath` is a pattern with its
parameter as it stands in the URL.  Likewise a body comes with what the parser finds in
it.  An error that the parser or the router refuses a request with carries a 4xx status
of its own; the error handler knows only the parser's `SyntaxError`.
-/

namespace BengaliTts

open Lib

section Requests

/-- The methods of the API. -/
inductive Method where
  | get
  | post
  | delete
deriving DecidableEq

/-- The routes over one job. -/
inductive JobRoute where
  | status
  | events
  | audio
deriving DecidableEq

/-- The patterns of the routers; a path parameter is given as it stands in the URL. -/
inductive ApiPath where
  | register
  | keys
  /-- `/v1/keys/:id`. -/
  | key (raw : String)
  /-- A longer path below `/v1/keys`. -/
  | belowKeys
  | me
  | tts
  | jobs
  /-- `/v1/jobs/:id`, and with `/events` or `/audio`. -/
  | job (raw : String) (route : JobRoute)
  | unknown

/-- What the body parser finds in a body. -/
inductive BodyContent where
  /-- No body, or one of another content type. -/
  | absent
  | json (value : Json)
  | notJson
  /-- A charset or a content encoding that the parser does not support. -/
  | unsupported
  /-- A body that is not encoded as it says. -/
  | corrupt

structure HttpBody where
  /-- The number of bytes, once inflated. -/
  size : Nat
  content : BodyContent

structure HttpRequest where
  method : Method
  path : ApiPath
  authorization : Option JsString
  /-- The `Idempotency-Key` header; the HTTP parser admits no NUL in it. -/
  idempotencyKey : Option HeaderValue
  query : Query
  body : HttpBody

end Requests

section Parsing

/-- The limit of `express.json`, 64kb. -/
def JSON_LIMIT : Nat := 65536

inductive ParsedBody where
  | parsed (body : Option Json)
  /-- A `SyntaxError` with status 400. -/
  | malformed
  /-- Another error, with this status. -/
  | refused (status : Nat)
deriving Inhabited

/-- `JSON.parse`; the parser is strict and takes objects and arrays only. -/
def strictJson : Json → ParsedBody
  | .obj members => .parsed (some (.obj members))
  | .arr items => .parsed (some (.arr items))
  | _ => .malformed

/-- `express.json({ limit: '64kb' })`. -/
def expressJson (body : HttpBody) : ParsedBody :=
  match body.content with
  | .absent => .parsed none
  | .unsupported => .refused 415
  | .corrupt => if body.size > JSON_LIMIT then .refused 413 else .refused 400
  | .notJson => if body.size > JSON_LIMIT then .refused 413 else .malformed
  | .json value => if body.size > JSON_LIMIT then .refused 413 else strictJson value

/-- The characters of a parameter and the bytes that its escapes stand for. -/
def percentDecode : List Char → Option (List (Char ⊕ UInt8))
  | [] => some []
  | '%' :: hi :: lo :: rest =>
      match hexDigit? hi, hexDigit? lo, percentDecode rest with
      | some a, some b, some parts => some (.inr (UInt8.ofNat (16 * a + b)) :: parts)
      | _, _, _ => none
  | c :: rest => if c = '%' then none else (percentDecode rest).map (.inl c :: ·)

/-- The escaped bytes must be complete sequences of UTF-8. -/
def strictUtf8 : Option Utf8Pending → List (Char ⊕ UInt8) → Option (List Char)
  | none, [] => some []
  | some _, [] => none
  | none, .inl c :: rest => (strictUtf8 none rest).map (c :: ·)
  | some _, .inl _ :: _ => none
  | none, .inr b :: rest =>
      match utf8Lead b with
      | ([], some pending) => strictUtf8 (some pending) rest
      | (chars, _) => if b < 0x80 then (strictUtf8 none rest).map (chars ++ ·) else none
  | some pending, .inr b :: rest =>
      if pending.lower ≤ b ∧ b ≤ pending.upper then
        if pending.missing = 1 then
          (strictUtf8 none rest).map (Char.ofNat (pending.value * 64 + b.toNat % 64) :: ·)
        else
          strictUtf8
            (some ⟨pending.missing - 1, pending.value * 64 + b.toNat % 64, 0x80, 0xBF⟩) rest
      else
        none

/-- `decodeURIComponent`; `none` is the `URIError`. -/
def decodeURIComponent (raw : String) : Option String :=
  ((percentDecode raw.toList).bind (strictUtf8 none)).map String.ofList

/-- An escape of three bytes is decoded; one that is cut short is malformed. -/
example : decodeURIComponent "a%E0%A6%95" = some "aক" ∧ decodeURIComponent "%E0%A6" = none ∧
    decodeURIComponent "100%" = none := by
  decide +kernel

end Parsing

section App

/-- What the gateway is run with: its settings, bcrypt, the address pattern, the digest
of keys, and what the validator reports of a query. -/
structure ApiDeps where
  gateway : Deps
  accounts : AccountDeps
  keys : KeyDeps
  report : Query → List Issue

/-- The stores while no other request runs: no transaction is open. -/
structure ApiState where
  accounts : AccountTable
  keys : KeyStore
  world : World
  unlocked : ∀ k, world.locks k = none

/-- What a request draws besides the rows: the verdict of the token bucket, and ids and
random bytes that occur in no row yet. -/
structure Draws (d : ApiDeps) (s : ApiState) where
  allowed : Nat
  retryAfterMs : Nat
  salt : Bytes
  secret : Secret
  userId : Uuid
  keyId : Uuid
  jobId : Uuid
  now : Nat
  userFresh : (s.accounts.users.any fun u => decide (u.id = userId)) = false
  keyFresh : keyExists s.keys.rows keyId (generateApiKey d.keys secret).keyHash = false
  jobFresh : (s.world.born.any fun b => decide (b.2.id = jobId)) = false

inductive AppBody where
  | registered (body : RegisteredBody)
  | keys (body : KeysBody)
  /-- `GET /v1/me`. -/
  | me (user : AuthedUser)
  | submission (body : SubmissionBody)
  | read (body : ReadBody)

abbrev AppResponse := Response AppBody

def Response.map {β γ : Type} (f : β → γ) : Response β → Response γ
  | .success status body => .success status (f body)
  | .failure status retryAfter error => .failure status retryAfter error

def notFoundHandler : AppResponse :=
  .failure 404 none ⟨"NOT_FOUND", "Resource not found", none⟩

/-- A route behind an authentication; `none` is a request that is never answered. -/
def withUser (auth : Except Thrown AuthedUser) (route : AuthedUser → Option AppResponse) :
    Option AppResponse :=
  match auth with
  | .ok user => route user
  | .error thrown => some (errorHandler thrown)

def JobRoute.request : JobRoute → String → ReadRequest
  | .status => .job
  | .events => .events
  | .audio => .audio

/-- `apiKeyAuth` of a request. -/
def userByKey (d : ApiDeps) (s : ApiState) (r : HttpRequest) : Except Thrown AuthedUser :=
  (s.keys.authenticate d.keys r.authorization).mapError .domain

/-- `basicAuth` of a request. -/
def userByPassword (d : ApiDeps) (s : ApiState) (r : HttpRequest) (salt : Bytes) :
    Except Thrown AuthedUser :=
  basicAuth d.accounts s.accounts salt r.authorization

/-- The route that a request reaches once its body is parsed. -/
def routers (d : ApiDeps) (s : ApiState) (r : HttpRequest) (draws : Draws d s)
    (body : Option Json) : Option AppResponse :=
  match r.path with
  | .register =>
      if r.method = .post then
        (registerAlone d.accounts s.accounts body draws.salt draws.userId
          draws.now).2.response?.map (Response.map .registered)
      else
        some notFoundHandler
  | .keys =>
      withUser (userByPassword d s r draws.salt) fun user =>
        match r.method with
        | .post =>
            some (Response.map .keys
              (s.keys.create d.keys user.id draws.secret draws.keyId draws.now).2)
        | .get => some (Response.map .keys (s.keys.list user.id))
        | .delete => some notFoundHandler
  | .key raw =>
      withUser (userByPassword d s r draws.salt) fun user =>
        match decodeURIComponent raw with
        | none => some (errorHandler .fault)
        | some id =>
            if r.method = .delete then
              some (Response.map .keys (s.keys.revoke user.id id draws.now).2)
            else
              some notFoundHandler
  | .belowKeys =>
      withUser (userByPassword d s r draws.salt) fun _ => some notFoundHandler
  | .me =>
      if r.method = .get then
        withUser (userByKey d s r) fun user => some (.success 200 (.me user))
      else
        some notFoundHandler
  | .tts =>
      if r.method = .post then
        withUser (userByKey d s r) fun user =>
          (submitAlone d.gateway s.world ⟨user.id, r.idempotencyKey, body⟩ draws.allowed
            draws.retryAfterMs draws.jobId draws.now).2.response?.map (Response.map .submission)
      else
        some notFoundHandler
  | .jobs =>
      if r.method = .get then
        withUser (userByKey d s r) fun user =>
          some (Response.map .read (respond d.report s.world user.id (.history r.query)))
      else
        some notFoundHandler
  | .job raw route =>
      match decodeURIComponent raw with
      | none => some (errorHandler .fault)
      | some id =>
          if r.method = .get then
            withUser (userByKey d s r) fun user =>
              some (Response.map .read (respond d.report s.world user.id (route.request id)))
          else
            some notFoundHandler
  | .unknown => some notFoundHandler

/-- `createApp`, for one request alone. -/
def app (d : ApiDeps) (s : ApiState) (r : HttpRequest) (draws : Draws d s) :
    Option AppResponse :=
  match expressJson r.body with
  | .parsed body => routers d s r draws body
  | .malformed => some (errorHandler .bodySyntax)
  | .refused _ => some (errorHandler .fault)

end App

end BengaliTts
