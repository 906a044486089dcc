import BengaliTts.JsString
import BengaliTts.Errors

/-!
# Validating the parts of a submission

The JSON body and the `Idempotency-Key` header of `POST /v1/tts`, as the route
reads them before it does anything else with them.
-/

namespace BengaliTts

/-- A parsed JSON value; an object lists its members. -/
inductive Json where
  | null
  | bool (value : Bool)
  | num (value : Int)
  | str (value : JsString)
  | arr (items : List Json)
  | obj (members : List (String × Json))

/-- The value of a member of an object. -/
def member (name : String) (members : List (String × Json)) : Option Json :=
  (members.find? fun m => m.1 = name).map Prod.snd

/-- How the validator names the type it received; nothing there is `undefined`. -/
def receivedType : Option Json → String
  | none => "undefined"
  | some .null => "null"
  | some (.bool _) => "boolean"
  | some (.num _) => "number"
  | some (.str _) => "string"
  | some (.arr _) => "array"
  | some (.obj _) => "object"

/-- `submitSchema`: an object with a string member `text`. -/
def submitSchema : Option Json → Except (List Issue) JsString
  | some (.obj members) =>
      match member "text" members with
      | some (.str text) => .ok text
      | other =>
          .error [⟨"text", "Invalid input: expected string, received " ++ receivedType other⟩]
  | other =>
      .error [⟨"", "Invalid input: expected object, received " ++ receivedType other⟩]

/-- Run a schema on a body or a query; its issues become one refusal. -/
def validate {σ τ : Type}
    (schema : σ → Except (List Issue) τ)
    (body : σ) : Except DomainError τ :=
  match schema body with
  | .ok value => .ok value
  | .error issues => .error (.validationFailed "Request validation failed" (some issues))

/-- A request header as the server hands it over. -/
inductive HeaderValue where
  | single (value : String)
  | many (values : List String)

/-- The `Idempotency-Key` of a request: absent, or 1 to 255 characters. -/
def readIdempotencyKey : Option HeaderValue → Except DomainError (Option String)
  | none => .ok none
  | some (.single raw) =>
      if raw.length = 0 ∨ raw.length > 255 then
        .error (.validationFailed "Idempotency-Key must be 1-255 characters" none)
      else
        .ok (some raw)
  | some (.many _) =>
      .error (.validationFailed "Idempotency-Key must be 1-255 characters" none)

end BengaliTts
