import Mathlib.Data.Rat.Defs

/-!
# Refusals and how they are answered

`DomainError` lists every way a request can be refused, `toRendering` is the
table of the answers, and `errorHandler` turns whatever a handler throws into a
response: a refusal by the table, a body that is not JSON as 400, anything else
as a sanitized 500.
-/

namespace BengaliTts

/-- One issue of a failed schema validation. -/
structure Issue where
  path : String
  message : String
deriving DecidableEq, Repr

/-- Every way a request can be refused, one constructor per reason. -/
inductive DomainError where
  | unauthenticated
  | missingCredentials
  | invalidCredentials
  | missingApiKey
  | invalidApiKey
  | revokedApiKey
  | emailTaken
  | notFound
  | invalidParameter (name : String)
  | validationFailed (message : String) (details : Option (List Issue))
  | rateLimited (retryAfterSeconds : Nat)
  | pendingCapExceeded
  | queueFull
  | idempotencyConflict
  | jobFailed
  | jobNotReady
  | textEmpty
  | textTooLong (maxLength actualLength : Nat)
  | textNotBengali (ratio minimumRatio : ℚ)
deriving DecidableEq

/-- The `details` member of an error body. -/
inductive Details where
  | issues (issues : List Issue)
  | lengths (maxLength actualLength : Nat)
deriving DecidableEq, Repr

structure Rendering where
  status : Nat
  code : String
  message : String
  details : Option Details
deriving DecidableEq, Repr

/-- The table `RENDERERS`. -/
def toRendering : DomainError → Rendering
  | .unauthenticated =>
      ⟨401, "UNAUTHENTICATED", "Authentication required", none⟩
  | .missingCredentials =>
      ⟨401, "MISSING_CREDENTIALS", "Provide email and password via Basic auth", none⟩
  | .invalidCredentials =>
      ⟨401, "INVALID_CREDENTIALS", "Email or password is incorrect", none⟩
  | .missingApiKey =>
      ⟨401, "MISSING_API_KEY", "Provide an API key via Bearer auth", none⟩
  | .invalidApiKey =>
      ⟨401, "INVALID_API_KEY", "API key is not recognized", none⟩
  | .revokedApiKey =>
      ⟨401, "REVOKED_API_KEY", "API key has been revoked", none⟩
  | .emailTaken =>
      ⟨409, "EMAIL_TAKEN", "A user with this email already exists", none⟩
  | .notFound =>
      ⟨404, "NOT_FOUND", "Resource not found", none⟩
  | .invalidParameter name =>
      ⟨400, "INVALID_PARAMETER", "Missing or invalid path parameter: " ++ name, none⟩
  | .validationFailed message details =>
      ⟨422, "VALIDATION_ERROR", message, details.map .issues⟩
  | .rateLimited _ =>
      ⟨429, "RATE_LIMITED", "Request rate limit exceeded; retry later", none⟩
  | .pendingCapExceeded =>
      ⟨429, "PENDING_CAP_EXCEEDED",
        "Too many unfinished jobs; wait for them to complete instead of retrying", none⟩
  | .queueFull =>
      ⟨503, "QUEUE_FULL", "Service is at capacity; retry later", none⟩
  | .idempotencyConflict =>
      ⟨409, "IDEMPOTENCY_CONFLICT",
        "This Idempotency-Key was already used with different input text", none⟩
  | .jobFailed =>
      ⟨409, "JOB_FAILED", "Job failed; no audio was produced", none⟩
  | .jobNotReady =>
      ⟨409, "JOB_NOT_READY", "Job has not completed yet; keep polling", none⟩
  | .textEmpty =>
      ⟨422, "TEXT_EMPTY", "Text must not be empty", none⟩
  | .textTooLong maxLength actualLength =>
      ⟨422, "TEXT_TOO_LONG",
        "Text exceeds the maximum length of " ++ toString maxLength ++ " characters",
        some (.lengths maxLength actualLength)⟩
  | .textNotBengali _ _ =>
      ⟨422, "TEXT_NOT_BENGALI",
        "Text must be predominantly Bengali (at least half of non-whitespace characters)", none⟩

/-- What a handler can throw into the error middleware. -/
inductive Thrown where
  /-- A refusal of the table. -/
  | domain (error : DomainError)
  /-- The body parser's `SyntaxError` with status 400. -/
  | bodySyntax
  /-- Prisma's known request error P2002. -/
  | uniqueViolation
  /-- Anything else: a dependency that did not answer, a rejected parameter. -/
  | fault
deriving DecidableEq

structure ErrorBody where
  code : String
  message : String
  details : Option Details
deriving DecidableEq, Repr

/-- An answer: a success with a body of type `β`, or the error envelope. -/
inductive Response (β : Type) where
  | success (status : Nat) (body : β)
  | failure (status : Nat) (retryAfter : Option Nat) (error : ErrorBody)
deriving DecidableEq, Repr

/-- The seconds the `Retry-After` header names; only a rate limit sets it. -/
def retryAfterHeader : DomainError → Option Nat
  | .rateLimited seconds => some seconds
  | _ => none

def errorHandler {β : Type} : Thrown → Response β
  | .domain error =>
      .failure (toRendering error).status (retryAfterHeader error)
        ⟨(toRendering error).code, (toRendering error).message, (toRendering error).details⟩
  | .bodySyntax =>
      .failure 400 none ⟨"MALFORMED_JSON", "Request body is not valid JSON", none⟩
  | .uniqueViolation =>
      .failure 500 none ⟨"INTERNAL", "Internal server error", none⟩
  | .fault =>
      .failure 500 none ⟨"INTERNAL", "Internal server error", none⟩

/-- Every refusal is answered with a client error or with 503. -/
theorem toRendering_status
    (error : DomainError) :
    400 ≤ (toRendering error).status ∧
      ((toRendering error).status < 500 ∨ (toRendering error).status = 503) := by
  cases error <;> simp [toRendering]

/-- The error middleware never answers with a success. -/
theorem errorHandler_ne_success
    {β : Type} (thrown : Thrown) (status : Nat) (body : β) :
    errorHandler thrown ≠ .success status body := by
  cases thrown <;> simp [errorHandler]

end BengaliTts
