import BengaliTts.BasicHeader
import BengaliTts.JobReads
import BengaliTts.ApiKeys
import BengaliTts.Lib.Calendar
import BengaliTts.Lib.JsonText

/-!
# The JSON of a job

`serializeJob` answers an object; the response writes it as JSON, dates as ISO texts, what
is absent left out.  `null` stands for a time that has not come yet.

Main results:
* `job_texts_told_apart`: jobs with different contents have different texts;
* `survivesColumn_text`: a JSON text goes through UTF-8 unchanged, whatever it contains.
-/

namespace BengaliTts

open Lib

section Values

def JobStatus.text : JobStatus → JsString
  | .queued => literal "QUEUED"
  | .active => literal "ACTIVE"
  | .completed => literal "COMPLETED"
  | .failed => literal "FAILED"

/-- `Date.prototype.toJSON`: `null` for what is no date. -/
def dateJson (ms : Nat) : JsonText.Value :=
  if ms ≤ Calendar.MAX_TIME then .string (Calendar.isoText ms) else .null

def nullableDateJson : Option Nat → JsonText.Value
  | none => .null
  | some ms => dateJson ms

def JobError.toJson (error : JobError) : JsonText.Value :=
  .object [(literal "code", .string (fromColumn error.code)),
    (literal "message", .string (fromColumn error.message))]

/-- A member that is spread into the object, if there is one. -/
def optionalMember (name : JsString) : Option JsonText.Value → List (JsString × JsonText.Value)
  | none => []
  | some value => [(name, value)]

/-- The object that `serializeJob` returns. -/
def JobView.toJson (v : JobView) : JsonText.Value :=
  .object ((literal "id", .string (fromColumn v.id.text)) ::
    (literal "status", .string v.status.text) ::
    (literal "createdAt", dateJson v.createdAt) ::
    (literal "startedAt", nullableDateJson v.startedAt) ::
    (literal "completedAt", nullableDateJson v.completedAt) ::
    (optionalMember (literal "audioUrl") (v.audioUrl.map fun url => .string (fromColumn url)) ++
      optionalMember (literal "error") (v.error.map JobError.toJson)))

end Values

section Injective

theorem fromColumn_injective
    {a b : String}
    (h : fromColumn a = fromColumn b) :
    a = b := by
  rw [← toColumn_fromColumn a, h, toColumn_fromColumn]

theorem statusText_injective
    {a b : JobStatus}
    (h : a.text = b.text) :
    a = b := by
  have hall : ∀ a b : JobStatus, a.text = b.text → a = b := by
    intro a b
    cases a <;> cases b <;> decide
  exact hall a b h

theorem dateJson_injective
    {a b : Nat}
    (ha : a ≤ Calendar.MAX_TIME)
    (hb : b ≤ Calendar.MAX_TIME)
    (h : dateJson a = dateJson b) :
    a = b := by
  rw [dateJson, dateJson, if_pos ha, if_pos hb] at h
  exact Calendar.isoText_injective ha hb (JsonText.Value.string.inj h)

theorem nullableDateJson_injective
    {a b : Option Nat}
    (ha : ∀ ms, ms ∈ a → ms ≤ Calendar.MAX_TIME)
    (hb : ∀ ms, ms ∈ b → ms ≤ Calendar.MAX_TIME)
    (h : nullableDateJson a = nullableDateJson b) :
    a = b := by
  cases a with
  | none =>
      cases b with
      | none => rfl
      | some y =>
          rw [nullableDateJson, nullableDateJson, dateJson, if_pos (hb y rfl)] at h
          cases h
  | some x =>
      cases b with
      | none =>
          rw [nullableDateJson, nullableDateJson, dateJson, if_pos (ha x rfl)] at h
          cases h
      | some y => rw [dateJson_injective (ha x rfl) (hb y rfl) h]

theorem errorJson_injective
    {a b : JobError}
    (h : a.toJson = b.toJson) :
    a = b := by
  simp only [JobError.toJson, JsonText.Value.object.injEq, List.cons.injEq, Prod.mk.injEq,
    JsonText.Value.string.injEq, true_and, and_true] at h
  cases a
  cases b
  rw [JobError.mk.injEq]
  exact ⟨fromColumn_injective h.1, fromColumn_injective h.2⟩

/-- Two members with different names are told apart even if both may be absent. -/
theorem optionalMembers_inj
    {first second : JsString} {a b c d : Option JsonText.Value}
    (hne : first ≠ second)
    (h : optionalMember first a ++ optionalMember second b =
      optionalMember first c ++ optionalMember second d) :
    a = c ∧ b = d := by
  have hne' : second ≠ first := hne.symm
  cases a <;> cases b <;> cases c <;> cases d <;>
    simp_all [optionalMember]

/-- The dates of a view can be named. -/
structure JobView.Dated (v : JobView) : Prop where
  createdAt : v.createdAt ≤ Calendar.MAX_TIME
  startedAt : ∀ ms, ms ∈ v.startedAt → ms ≤ Calendar.MAX_TIME
  completedAt : ∀ ms, ms ∈ v.completedAt → ms ≤ Calendar.MAX_TIME

theorem jobView_toJson_injective
    {v w : JobView}
    (hv : v.Dated)
    (hw : w.Dated)
    (h : v.toJson = w.toJson) :
    v = w := by
  simp only [JobView.toJson, JsonText.Value.object.injEq, List.cons.injEq, Prod.mk.injEq,
    true_and, JsonText.Value.string.injEq] at h
  obtain ⟨hid, hstatus, hcreated, hstarted, hcompleted, hoptional⟩ := h
  have hnames : literal "audioUrl" ≠ literal "error" := by decide
  obtain ⟨hurl, herror⟩ := optionalMembers_inj hnames hoptional
  have hurls : v.audioUrl = w.audioUrl :=
    Option.map_injective
      (fun _ _ heq => fromColumn_injective (JsonText.Value.string.inj heq)) hurl
  have herrors : v.error = w.error := Option.map_injective (fun _ _ => errorJson_injective) herror
  have hcreatedAt := dateJson_injective hv.createdAt hw.createdAt hcreated
  have hstartedAt := nullableDateJson_injective hv.startedAt hw.startedAt hstarted
  have hcompletedAt := nullableDateJson_injective hv.completedAt hw.completedAt hcompleted
  have hids : v.id = w.id := Uuid.ext (fromColumn_injective hid)
  have hstatuses := statusText_injective hstatus
  cases v
  cases w
  simp only [JobView.mk.injEq]
  exact ⟨hids, hstatuses, hcreatedAt, hstartedAt, hcompletedAt, hurls, herrors⟩

/-- A job is read from its text as it was written, also one with a time that is no date. -/
theorem parse_jobText
    (v : JobView) :
    JsonText.parse v.toJson.text = some v.toJson :=
  JsonText.parse_text v.toJson

/--
**The JSON of a job.**  A job is read from its text as it was written, and jobs with
different contents have different texts: the status, every date to the millisecond, the
error and its message.
-/
theorem job_texts_told_apart
    {v w : JobView}
    (hv : v.Dated)
    (hw : w.Dated) :
    JsonText.parse v.toJson.text = some v.toJson ∧ (v.toJson.text = w.toJson.text ↔ v = w) := by
  refine ⟨parse_jobText v, fun h => ?_, fun h => by rw [h]⟩
  have hparse := congrArg JsonText.parse h
  rw [parse_jobText, parse_jobText] at hparse
  exact jobView_toJson_injective hv hw (Option.some.inj hparse)

/-- A failed job with a line feed in its message. -/
def failedView (completedAt : Nat) : JobView :=
  serializeJob { newJob sampleJob sampleUser "ক" none 5 with
    status := .failed
    errorMessage := some "first\nsecond"
    completedAt := some completedAt }

theorem dated_failedView
    {completedAt : Nat}
    (h : completedAt ≤ Calendar.MAX_TIME) :
    (failedView completedAt).Dated := by
  refine ⟨by change 5 ≤ Calendar.MAX_TIME; decide, (fun ms hms => by cases hms), fun ms hms => ?_⟩
  cases hms
  exact h

/-- One that took a millisecond longer has another text. -/
theorem job_texts_told_apart_failed :
    JsonText.parse (failedView 1709164800000).toJson.text =
        some (failedView 1709164800000).toJson ∧
      (failedView 1709164800000).toJson.text ≠ (failedView 1709164800001).toJson.text := by
  have hfirst : 1709164800000 ≤ Calendar.MAX_TIME := by decide
  have hsecond : 1709164800001 ≤ Calendar.MAX_TIME := by decide
  obtain ⟨hparse, htexts⟩ :=
    job_texts_told_apart (dated_failedView hfirst) (dated_failedView hsecond)
  refine ⟨hparse, fun h => ?_⟩
  have hcompleted := congrArg JobView.completedAt (htexts.mp h)
  exact absurd (Option.some.inj hcompleted) (by decide)

end Injective

section Transport

theorem wellFormed_flatten
    {chars : List JsString}
    (h : ∀ char, char ∈ chars → isScalar char = true) :
    WellFormed chars.flatten := by
  rw [WellFormed, codePoints_flatten h]
  exact h

theorem wellFormed_append
    {first second : JsString}
    (hfirst : WellFormed first)
    (hsecond : WellFormed second) :
    WellFormed (first ++ second) := by
  rw [← flatten_codePoints first, ← flatten_codePoints second, ← List.flatten_append]
  apply wellFormed_flatten
  intro char hchar
  rcases List.mem_append.mp hchar with hchar | hchar
  · exact hfirst char hchar
  · exact hsecond char hchar

theorem closed_wellFormed : JsonText.Closed WellFormed where
  nil := fun _ h => by cases h
  append := fun _ _ => wellFormed_append
  plain := by
    intro u hu char hchar
    simp only [JsonText.isPlain, Bool.and_eq_true] at hu
    rw [codePoints, List.mem_singleton] at hchar
    rw [hchar, isScalar, Bool.and_eq_true]
    exact ⟨hu.1.2, hu.2⟩
  pair := by
    intro u v hlead htrail
    have hscalar : isScalar [u, v] = true := (Bool.and_eq_true _ _).mpr ⟨hlead, htrail⟩
    have hpair : WellFormed [[u, v]].flatten := by
      apply wellFormed_flatten
      intro char hchar
      rw [List.mem_singleton.mp hchar]
      exact hscalar
    exact hpair

/-- A JSON text goes through UTF-8 unchanged. -/
theorem survivesColumn_text
    (v : JsonText.Value) :
    SurvivesColumn v.text :=
  (survivesColumn_iff v.text).mpr (closed_wellFormed.text v)

end Transport

end BengaliTts
