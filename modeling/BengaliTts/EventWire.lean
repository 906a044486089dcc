import BengaliTts.EventStream
import BengaliTts.JobJson
import BengaliTts.Lib.Decoder
import Mathlib.Data.List.Chain

/-!
# The events of a stream as a subscriber reads them

A status event is written as two lines and an empty one, the object of the job in JSON on
the second line.  A subscriber receives the bytes in chunks that the network cuts where it
likes, inside a character or between the two line feeds that end an event.

The decoders of the subscriber are machines over single bytes, characters and units
(`textDecoder`, `frameCutter`); the loop of the code, which works on a whole buffer, is
proved to agree with them.

Main facts:
* `takeFrames_eq`: the loop over a buffer cuts it like the machine over its units;
* `textDecoder_utf8`: text that UTF-8 can carry is decoded from its bytes.
-/

namespace BengaliTts

open Lib

section Wire

/-- The event that `send` writes. -/
def eventFrame (view : JobView) : JsString :=
  literal "event: status\ndata: " ++ view.toJson.text ++ literal "\n\n"

/-- The bytes that events take. -/
def eventBytes (views : List JobView) : Bytes :=
  views.flatMap fun view => utf8 (eventFrame view)

def ResponseOp.view? : ResponseOp → Option JobView
  | .write view => some view
  | .ends _ => none

/-- What is written before the end of the response; a write after it is refused. -/
def Stream.sent (s : Stream) : List JobView :=
  (s.ops.takeWhile fun op => op.view?.isSome).filterMap ResponseOp.view?

/-- The body of the response so far. -/
def Stream.body (s : Stream) : Bytes :=
  eventBytes s.sent

end Wire

section Reader

/-- `TextDecoder`: the bytes of UTF-8, one after another. -/
def utf8Decoder : Decoder (Option Utf8Pending) UInt8 Char where
  step := fun pending b =>
    match pending with
    | none => utf8Lead b
    | some p =>
        if p.lower ≤ b ∧ b ≤ p.upper then
          if p.missing = 1 then
            ([Char.ofNat (p.value * 64 + b.toNat % 64)], none)
          else
            ([], some ⟨p.missing - 1, p.value * 64 + b.toNat % 64, 0x80, 0xBF⟩)
        else
          (replacementChar :: (utf8Lead b).1, (utf8Lead b).2)

/-- The byte order mark, which is dropped at the start of a stream. -/
def byteOrderMark : Char :=
  Char.ofNat 0xFEFF

/-- The state tells whether a character was seen. -/
def markDecoder : Decoder Bool Char Char where
  step := fun seen c => (if seen = false ∧ c = byteOrderMark then [] else [c], true)

/-- `decoder.decode(chunk, { stream: true })`, in units. -/
def textDecoder : Decoder ((Option Utf8Pending × Bool) × Unit) UInt8 UInt16 :=
  (utf8Decoder.andThen markDecoder).andThen (Decoder.ofFun encodeChar)

/-- The empty line. -/
def boundary : JsString :=
  [10, 10]

/-- `text.indexOf(pattern)`. -/
def indexOfText (pattern : JsString) : JsString → Option Nat
  | [] => if pattern.isPrefixOf [] then some 0 else none
  | u :: rest =>
      if pattern.isPrefixOf (u :: rest) then some 0
      else (indexOfText pattern rest).map (· + 1)

theorem indexOfText_lt
    {text : JsString} {i : Nat}
    (h : indexOfText boundary text = some i) :
    i < text.length := by
  induction text generalizing i with
  | nil => cases h
  | cons u rest ih =>
      rw [indexOfText] at h
      split at h
      · cases h
        exact Nat.succ_pos _
      · obtain ⟨j, hj, rfl⟩ := Option.map_eq_some_iff.mp h
        exact Nat.succ_lt_succ (ih hj)

/-- The events of a buffer as long as it holds an empty line, and what is left. -/
def takeFrames (buffer : JsString) : List JsString × JsString :=
  match _h : indexOfText boundary buffer with
  | none => ([], buffer)
  | some i =>
      (buffer.take i :: (takeFrames (buffer.drop (i + 2))).1,
        (takeFrames (buffer.drop (i + 2))).2)
termination_by buffer.length
decreasing_by
  all_goals
    have hlt := indexOfText_lt _h
    rw [List.length_drop]
    omega

structure StatusEvent where
  event : JsString
  data : JsonText.Value

/-- An event before its lines are read. -/
def StatusEvent.empty : StatusEvent where
  event := []
  data := .object [(literal "id", .string []), (literal "status", .string [])]

/-- One line of an event; `none` is a `SyntaxError` of `JSON.parse`. -/
def readLine (event : StatusEvent) (line : JsString) : Option StatusEvent :=
  let event :=
    if (literal "event: ").isPrefixOf line then
      { event with event := line.drop (literal "event: ").length }
    else
      event
  if (literal "data: ").isPrefixOf line then
    (JsonText.parse (line.drop (literal "data: ").length)).map fun data =>
      { event with data := data }
  else
    some event

def readEvent (raw : JsString) : Option StatusEvent :=
  (raw.splitOn 10).foldlM readLine StatusEvent.empty

/-- `openStream` of the subscriber: what the reader of the body still returns, the decoder
and the variables of the closure. -/
structure Subscriber where
  chunks : List Bytes
  /-- The body ends after the chunks; otherwise nothing more comes, or the reader throws. -/
  ended : Bool
  decoder : (Option Utf8Pending × Bool) × Unit
  buffer : JsString
  pending : List StatusEvent
  done : Bool

def Subscriber.start (chunks : List Bytes) (ended : Bool) : Subscriber where
  chunks := chunks
  ended := ended
  decoder := ((none, false), ())
  buffer := []
  pending := []
  done := false

/-- The loop of `next`, while nothing is pending and the body goes on. -/
def fill (ended : Bool) (decoder : (Option Utf8Pending × Bool) × Unit) (buffer : JsString) :
    List Bytes → Option Subscriber
  | [] => if ended then some ⟨[], ended, decoder, buffer, [], true⟩ else none
  | chunk :: chunks =>
      let (units, decoder) := textDecoder.feed decoder chunk
      let (frames, buffer) := takeFrames (buffer ++ units)
      match frames.mapM readEvent with
      | none => none
      | some [] => fill ended decoder buffer chunks
      | some (event :: events) => some ⟨chunks, ended, decoder, buffer, event :: events, false⟩

/-- `pending.shift() ?? null`. -/
def Subscriber.shift (r : Subscriber) : Option StatusEvent × Subscriber :=
  (r.pending.head?, { r with pending := r.pending.tail })

/-- `next()`; `none` if it throws or does not return. -/
def Subscriber.next (r : Subscriber) : Option (Option StatusEvent × Subscriber) :=
  if r.pending.isEmpty ∧ r.done = false then
    (fill r.ended r.decoder r.buffer r.chunks).map Subscriber.shift
  else
    some r.shift

/-- What so many calls of `next` return. -/
def Subscriber.reads : Nat → Subscriber → Option (List (Option StatusEvent))
  | 0, _ => some []
  | n + 1, r =>
      match r.next with
      | none => none
      | some (event, r) => (r.reads n).map (event :: ·)

end Reader

section Frames

/-- The event ends at the second of two line feeds. -/
def frameCutter : Decoder JsString UInt16 JsString where
  step := fun buffer u =>
    if u = 10 ∧ buffer.getLast? = some 10 then ([buffer.dropLast], []) else ([], buffer ++ [u])

/-- Two neighbours are not an empty line. -/
def Apart (u v : UInt16) : Prop :=
  ¬ (u = 10 ∧ v = 10)

/-- The text holds no empty line. -/
def Unbroken (text : JsString) : Prop :=
  text.IsChain Apart

theorem frameCutter_quiet
    {buffer text : JsString}
    (h : Unbroken (buffer ++ text)) :
    frameCutter.feed buffer text = ([], buffer ++ text) := by
  induction text generalizing buffer with
  | nil => rw [Decoder.feed_nil, List.append_nil]
  | cons u text ih =>
      have hlast : ¬ (u = 10 ∧ buffer.getLast? = some 10) := by
        rintro ⟨rfl, hlast⟩
        exact (List.isChain_append.mp h).2.2 10 hlast 10 rfl ⟨rfl, rfl⟩
      have hstep : frameCutter.step buffer u = ([], buffer ++ [u]) := if_neg hlast
      have hnext : Unbroken ((buffer ++ [u]) ++ text) := by
        rw [List.append_assoc]
        exact h
      rw [Decoder.feed_cons, hstep, ih hnext, List.append_assoc]
      rfl

/-- A text without an empty line is cut at the one that follows it. -/
theorem frameCutter_frame
    {raw : JsString}
    (h : Unbroken (raw ++ [10])) :
    frameCutter.feed [] (raw ++ boundary) = ([raw], []) := by
  have hquiet : frameCutter.feed [] (raw ++ [10]) = ([], raw ++ [10]) := frameCutter_quiet h
  have hstep : frameCutter.step (raw ++ [10]) 10 = ([raw], []) := by
    have hlast : (raw ++ [10]).getLast? = some 10 := List.getLast?_concat
    change (if _ then _ else _) = _
    rw [if_pos ⟨rfl, hlast⟩, List.dropLast_concat]
  rw [boundary, List.append_cons raw 10 [10], Decoder.feed_append, hquiet, List.nil_append,
    Decoder.feed_singleton, hstep]

theorem indexOfText_unbroken
    {text : JsString}
    (h : Unbroken text) :
    indexOfText boundary text = none := by
  induction text with
  | nil => rfl
  | cons u rest ih =>
      have hrest : Unbroken rest := (List.isChain_cons.mp h).2
      have hprefix : boundary.isPrefixOf (u :: rest) = false := by
        rw [← Bool.not_eq_true, List.isPrefixOf_iff_prefix]
        rintro ⟨later, hlater⟩
        cases hlater
        exact (List.isChain_cons.mp h).1 10 rfl ⟨rfl, rfl⟩
      rw [indexOfText, hprefix, if_neg Bool.false_ne_true, ih hrest]
      rfl

/-- The first empty line is the one behind a text without any. -/
theorem indexOfText_boundary
    {raw : JsString} (rest : JsString)
    (h : Unbroken (raw ++ [10])) :
    indexOfText boundary (raw ++ 10 :: 10 :: rest) = some raw.length := by
  induction raw with
  | nil => rfl
  | cons u raw ih =>
      have hrest : Unbroken (raw ++ [10]) := (List.isChain_cons.mp h).2
      have hprefix : boundary.isPrefixOf (u :: (raw ++ 10 :: 10 :: rest)) = false := by
        rw [← Bool.not_eq_true, List.isPrefixOf_iff_prefix]
        rintro ⟨later, hlater⟩
        rw [boundary, List.cons_append, List.cons_append, List.cons.injEq] at hlater
        obtain ⟨rfl, hlater⟩ := hlater
        refine (List.isChain_cons.mp h).1 10 ?_ ⟨rfl, rfl⟩
        cases raw with
        | nil => rfl
        | cons v raw =>
            rw [List.cons_append, List.cons.injEq] at hlater
            rw [← hlater.1]
            rfl
      rw [List.cons_append, indexOfText, hprefix, if_neg Bool.false_ne_true, ih hrest]
      rfl

/-- The loop over a buffer cuts it like the machine over its units. -/
theorem takeFrames_eq
    {buffer : JsString} (text : JsString)
    (h : Unbroken buffer) :
    takeFrames (buffer ++ text) = frameCutter.feed buffer text := by
  induction text generalizing buffer with
  | nil =>
      rw [List.append_nil, Decoder.feed_nil, takeFrames]
      split
      · rfl
      · next i hi =>
          rw [indexOfText_unbroken h] at hi
          cases hi
  | cons u text ih =>
      by_cases hcut : u = 10 ∧ buffer.getLast? = some 10
      · obtain ⟨rfl, hlast⟩ := hcut
        have hstep : frameCutter.step buffer 10 = ([buffer.dropLast], []) := if_pos ⟨rfl, hlast⟩
        have hbuffer : buffer = buffer.dropLast ++ [10] :=
          (List.dropLast_append_getLast? 10 hlast).symm
        have hindex : indexOfText boundary (buffer ++ 10 :: text) =
            some buffer.dropLast.length := by
          conv_lhs => rw [hbuffer, List.append_assoc, List.singleton_append]
          exact indexOfText_boundary text (hbuffer ▸ h)
        have hsplit : buffer ++ 10 :: text = buffer.dropLast ++ 10 :: 10 :: text := by
          conv_lhs => rw [hbuffer, List.append_assoc, List.singleton_append]
        have hrest : takeFrames text = frameCutter.feed [] text := ih List.isChain_nil
        rw [Decoder.feed_cons, hstep, takeFrames]
        split
        · next hnone =>
            rw [hindex] at hnone
            cases hnone
        · next i hi =>
            rw [hindex, Option.some.injEq] at hi
            subst hi
            rw [hsplit, List.take_left, ← List.drop_drop, List.drop_left]
            simp only [List.drop_succ_cons, List.drop_zero, hrest]
            rfl
      · have hstep : frameCutter.step buffer u = ([], buffer ++ [u]) := if_neg hcut
        have hnext : Unbroken (buffer ++ [u]) := by
          refine List.isChain_append.mpr ⟨h, List.isChain_singleton _, ?_⟩
          intro x hx y hy hboth
          cases hy
          obtain ⟨rfl, rfl⟩ := hboth
          exact hcut ⟨rfl, hx⟩
        rw [Decoder.feed_cons, hstep, ← ih hnext, List.append_assoc]
        rfl

/-- What is left in the buffer holds no empty line. -/
theorem unbroken_left
    {buffer : JsString} (text : JsString)
    (h : Unbroken buffer) :
    Unbroken (frameCutter.feed buffer text).2 := by
  induction text generalizing buffer with
  | nil => exact h
  | cons u text ih =>
      by_cases hcut : u = 10 ∧ buffer.getLast? = some 10
      · have hstep : frameCutter.step buffer u = ([buffer.dropLast], []) := if_pos hcut
        rw [Decoder.feed_cons, hstep]
        exact ih List.isChain_nil
      · have hstep : frameCutter.step buffer u = ([], buffer ++ [u]) := if_neg hcut
        rw [Decoder.feed_cons, hstep]
        refine ih (List.isChain_append.mpr ⟨h, List.isChain_singleton _, ?_⟩)
        intro x hx y hy hboth
        cases hy
        obtain ⟨rfl, rfl⟩ := hboth
        exact hcut ⟨rfl, hx⟩

end Frames

section Characters

/-- What is decoded so far does not depend on what follows. -/
theorem decodeUtf8_feed
    (pending : Option Utf8Pending) (first second : Bytes) :
    decodeUtf8 pending (first ++ second) =
      (utf8Decoder.feed pending first).1 ++
        decodeUtf8 (utf8Decoder.feed pending first).2 second := by
  induction first generalizing pending with
  | nil => rfl
  | cons b first ih =>
      rw [List.cons_append, Decoder.feed_cons]
      cases pending with
      | none =>
          rw [decodeUtf8_lead, ih, List.append_assoc]
          rfl
      | some p =>
          by_cases hin : p.lower ≤ b ∧ b ≤ p.upper
          · by_cases hone : p.missing = 1
            · have hstep : utf8Decoder.step (some p) b =
                  ([Char.ofNat (p.value * 64 + b.toNat % 64)], none) := by
                simp only [utf8Decoder, if_pos hin, if_pos hone]
              rw [decodeUtf8, if_pos hin, if_pos hone, hstep, ih]
              rfl
            · have hstep : utf8Decoder.step (some p) b =
                  ([], some ⟨p.missing - 1, p.value * 64 + b.toNat % 64, 0x80, 0xBF⟩) := by
                simp only [utf8Decoder, if_pos hin, if_neg hone]
              rw [decodeUtf8, if_pos hin, if_neg hone, hstep, ih]
              rfl
          · have hstep : utf8Decoder.step (some p) b =
                (replacementChar :: (utf8Lead b).1, (utf8Lead b).2) := by
              simp only [utf8Decoder, if_neg hin]
            rw [decodeUtf8, if_neg hin, hstep, ih]
            simp only [List.cons_append, List.append_assoc]

/-- The bytes of a character give it, and nothing is pending after them. -/
theorem utf8Decoder_encodeChar
    (c : Char) :
    utf8Decoder.feed none (String.utf8EncodeChar c) = ([c], none) := by
  by_cases hc : c = replacementChar
  · have hreplaced : (utf8Decoder.feed none (String.utf8EncodeChar replacementChar)).1 =
        [replacementChar] ∧
          (utf8Decoder.feed none (String.utf8EncodeChar replacementChar)).2.isNone = true := by
      decide +kernel
    rw [hc]
    exact Prod.ext hreplaced.1 (Option.isNone_iff_eq_none.mp hreplaced.2)
  · have hdecoded := decodeUtf8_encodeChar c []
    rw [decodeUtf8_feed, decodeUtf8] at hdecoded
    cases hfeed : utf8Decoder.feed none (String.utf8EncodeChar c) with
    | mk chars pending =>
        rw [hfeed] at hdecoded
        cases pending with
        | none =>
            rw [decodeUtf8, List.append_nil] at hdecoded
            have hchars : chars = [c] := hdecoded
            rw [hchars]
        | some p =>
            -- Something pending at the end would have been replaced.
            rw [decodeUtf8] at hdecoded
            have hlast := congrArg List.getLast? hdecoded
            rw [List.getLast?_concat] at hlast
            exact absurd (Option.some.inj hlast).symm hc

theorem utf8Decoder_encode
    (chars : List Char) :
    utf8Decoder.feed none (chars.flatMap String.utf8EncodeChar) = (chars, none) := by
  induction chars with
  | nil => rfl
  | cons c chars ih =>
      rw [List.flatMap_cons, Decoder.feed_append, utf8Decoder_encodeChar, ih]
      rfl

theorem markDecoder_seen
    (chars : List Char) :
    markDecoder.feed true chars = (chars, true) := by
  induction chars with
  | nil => rfl
  | cons c chars ih =>
      have hstep : markDecoder.step true c = ([c], true) := by
        simp only [markDecoder, Bool.true_eq_false, false_and, if_false]
      rw [Decoder.feed_cons, hstep, ih]
      rfl

/-- Only a mark at the start is dropped. -/
theorem markDecoder_start
    {c : Char} (seen : Bool) (chars : List Char)
    (h : c ≠ byteOrderMark) :
    markDecoder.feed seen (c :: chars) = (c :: chars, true) := by
  have hstep : markDecoder.step seen c = ([c], true) := by
    simp only [markDecoder, h, and_false, if_false]
  rw [Decoder.feed_cons, hstep, markDecoder_seen]
  rfl

/-- Text that UTF-8 can carry is decoded, unless it starts with a mark. -/
theorem textDecoder_utf8
    {text : JsString} {c : Char} {chars : List Char} (seen : Bool)
    (htext : SurvivesColumn text)
    (hchars : (toColumn text).toList = c :: chars)
    (hmark : c ≠ byteOrderMark) :
    textDecoder.feed ((none, seen), ()) (utf8 text) = (text, ((none, true), ())) := by
  have hunits : (toColumn text).toList.flatMap encodeChar = text := htext
  rw [textDecoder, Decoder.feed_andThen, Decoder.feed_andThen, utf8, utf8Decoder_encode, hchars,
    markDecoder_start seen chars hmark, ← hchars, Decoder.feed_ofFun, hunits]

end Characters

end BengaliTts
