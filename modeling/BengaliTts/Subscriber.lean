import BengaliTts.EventWire

/-!
# What a subscriber reads

However the body of a stream is cut into chunks, and wherever it breaks off, the subscriber
reads the events that arrived completely, each as the job that was serialized.  The text of
a job is data: whatever an error message contains, it neither ends an event nor begins one,
since JSON escapes line feeds.

Main result:
* `events_arrive_whole`: so for every stream, in every run.
-/

namespace BengaliTts

open Lib

section Events

variable (view : JobView)

/-- An event without the line feeds that end it. -/
def rawEvent : JsString :=
  literal "event: status\ndata: " ++ view.toJson.text

theorem eventFrame_eq :
    eventFrame view = rawEvent view ++ boundary := by
  have hboundary : literal "\n\n" = boundary := by decide
  rw [eventFrame, rawEvent, hboundary]

theorem not_feed_of_printable
    {u : UInt16}
    (h : (32 : UInt16) ≤ u) :
    u ≠ 10 := by
  rintro rfl
  exact absurd h (by decide)

theorem apart_of_ne
    {u v : UInt16}
    (h : u ≠ 10 ∨ v ≠ 10) :
    Apart u v := by
  rintro ⟨rfl, rfl⟩
  rcases h with h | h <;> exact h rfl

/-- A text without line feeds is unbroken. -/
theorem unbroken_of_printable
    {text : JsString}
    (h : ∀ u, u ∈ text → u ≠ 10) :
    Unbroken text := by
  induction text with
  | nil => exact List.isChain_nil
  | cons u text ih =>
      refine List.isChain_cons.mpr ⟨?_, ih fun v hv => h v (List.mem_cons_of_mem _ hv)⟩
      exact fun _ _ => apart_of_ne (Or.inl (h u List.mem_cons_self))

theorem json_ne_feed :
    ∀ u, u ∈ view.toJson.text → u ≠ 10 :=
  fun u hu => not_feed_of_printable (JsonText.text_printable view.toJson u hu)

/-- The only empty line of an event is its last. -/
theorem unbroken_rawEvent :
    Unbroken (rawEvent view ++ [10]) := by
  have hhead : Unbroken (literal "event: status\ndata: ") := by
    have hcheck : (literal "event: status\ndata: ").IsChain fun u v => ¬ (u = 10 ∧ v = 10) := by
      decide +kernel
    exact hcheck
  have hlast : (literal "event: status\ndata: ").getLast? = some 32 := by decide
  obtain ⟨u, rest, htext, _, _⟩ := JsonText.text_start view.toJson
  have hjson := json_ne_feed view
  rw [rawEvent, List.append_assoc]
  refine List.isChain_append.mpr ⟨hhead, List.isChain_append.mpr
    ⟨unbroken_of_printable hjson, List.isChain_singleton _, ?_⟩, ?_⟩
  · intro x hx y _
    exact apart_of_ne (Or.inl (hjson x (List.mem_of_getLast? hx)))
  · intro x hx y _
    rw [hlast, Option.mem_some_iff] at hx
    exact apart_of_ne (Or.inl (by rw [← hx]; decide))

theorem survivesColumn_rawEvent
    {rest : JsString}
    (hrest : WellFormed rest) :
    SurvivesColumn (rawEvent view ++ rest) := by
  have hhead : WellFormed (literal "event: status\ndata: ") := by decide +kernel
  have hjson : WellFormed view.toJson.text := (survivesColumn_iff _).mp (survivesColumn_text _)
  exact (survivesColumn_iff _).mpr (wellFormed_append (wellFormed_append hhead hjson) hrest)

/-- An event starts with a letter. -/
theorem toColumn_rawEvent
    (rest : JsString) :
    ∃ chars, (toColumn (rawEvent view ++ rest)).toList = 'e' :: chars := by
  have hletter : literal "event: status\ndata: " = 101 :: literal "vent: status\ndata: " := by
    decide
  have hhigh : ∀ u, u ∈ [(101 : UInt16)] → isHighSurrogate u = false := by
    intro u hu
    rw [List.mem_singleton.mp hu]
    decide
  have hfirst : (toColumn [101]).toList = ['e'] := by decide +kernel
  have hsplit :=
    toColumn_append ((literal "vent: status\ndata: " ++ view.toJson.text) ++ rest) hhigh
  refine ⟨(toColumn ((literal "vent: status\ndata: " ++ view.toJson.text) ++ rest)).toList, ?_⟩
  rw [rawEvent, hletter, List.cons_append, List.cons_append]
  rw [List.singleton_append, hfirst] at hsplit
  exact hsplit

theorem textDecoder_rawEvent
    {rest : JsString} (seen : Bool)
    (hrest : WellFormed rest) :
    textDecoder.feed ((none, seen), ()) (utf8 (rawEvent view ++ rest)) =
      (rawEvent view ++ rest, ((none, true), ())) := by
  obtain ⟨chars, hchars⟩ := toColumn_rawEvent view rest
  exact textDecoder_utf8 seen (survivesColumn_rawEvent view hrest) hchars (by decide)

end Events

section Arrival

/-- The machine of the whole subscriber, from bytes to events without their lines read. -/
def frameDecoder :
    Decoder (((Option Utf8Pending × Bool) × Unit) × JsString) UInt8 JsString :=
  textDecoder.andThen frameCutter

/-- Between two events. -/
def betweenEvents (seen : Bool) : ((Option Utf8Pending × Bool) × Unit) × JsString :=
  (((none, seen), ()), [])

theorem utf8_append
    {first : JsString} (second : JsString)
    (h : WellFormed first) :
    utf8 (first ++ second) = utf8 first ++ utf8 second := by
  have hpoints : codePoints (first ++ second) = codePoints first ++ codePoints second := by
    rcases codePoints_append first second with heq | ⟨before, u, v, after, hu, _, hfirst, _, _⟩
    · exact heq
    · have hscalar : isScalar [u] = true := h [u] (by simp [hfirst])
      simp [isScalar, hu] at hscalar
  simp only [utf8, toColumn, String.toList_ofList, hpoints, List.map_append, List.flatMap_append]

theorem wellFormed_rawEvent
    (view : JobView) {rest : JsString}
    (hrest : WellFormed rest) :
    WellFormed (rawEvent view ++ rest) :=
  (survivesColumn_iff _).mp (survivesColumn_rawEvent view hrest)

/-- An event is cut out of its bytes. -/
theorem frameDecoder_event
    (view : JobView) (seen : Bool) :
    frameDecoder.feed (betweenEvents seen) (utf8 (eventFrame view)) =
      ([rawEvent view], betweenEvents true) := by
  have hboundary : WellFormed boundary := by decide
  rw [frameDecoder, betweenEvents, Decoder.feed_andThen, eventFrame_eq,
    textDecoder_rawEvent view seen hboundary, frameCutter_frame (unbroken_rawEvent view)]
  rfl

/-- Nothing comes out before the last byte of an event. -/
theorem frameDecoder_part
    {view : JobView} {part : Bytes} (seen : Bool)
    (h : part <+: utf8 (eventFrame view))
    (hne : part ≠ utf8 (eventFrame view)) :
    (frameDecoder.feed (betweenEvents seen) part).1 = [] := by
  have hfeed : WellFormed [10] := by decide
  have hlast : utf8 [10] = [10] := by decide
  have hbytes : utf8 (eventFrame view) = utf8 (rawEvent view ++ [10]) ++ [10] := by
    rw [eventFrame_eq, boundary, List.append_cons, utf8_append _ (wellFormed_rawEvent view hfeed),
      hlast]
  have hquiet : (frameDecoder.feed (betweenEvents seen) (utf8 (rawEvent view ++ [10]))).1 = [] := by
    rw [frameDecoder, betweenEvents, Decoder.feed_andThen, textDecoder_rawEvent view seen hfeed]
    have hunbroken : Unbroken ([] ++ (rawEvent view ++ [10])) := unbroken_rawEvent view
    rw [frameCutter_quiet hunbroken]
  rw [hbytes] at h hne
  have hprefix := frameDecoder.feed_prefix (betweenEvents seen)
    ((List.prefix_concat_iff.mp h).resolve_left hne)
  rw [hquiet] at hprefix
  exact List.prefix_nil.mp hprefix

/-- So many of the events have arrived completely. -/
def Arrived (views : List JobView) (bytes : Bytes) (k : Nat) : Prop :=
  k ≤ views.length ∧
    ∀ j, j ≤ views.length → (j ≤ k ↔ eventBytes (views.take j) <+: bytes)

/-- From the beginning of the bytes come the events that have arrived completely. -/
theorem frameDecoder_prefix
    {views : List JobView} {bytes : Bytes} (seen : Bool)
    (h : bytes <+: eventBytes views) :
    ∃ k, Arrived views bytes k ∧
      (frameDecoder.feed (betweenEvents seen) bytes).1 = (views.take k).map rawEvent := by
  induction views generalizing bytes seen with
  | nil =>
      have hnone : bytes = [] := List.prefix_nil.mp h
      subst hnone
      refine ⟨0, ⟨Nat.le_refl 0, fun j hj => ?_⟩, rfl⟩
      have hzero : j = 0 := Nat.le_zero.mp hj
      subst hzero
      exact iff_of_true (Nat.le_refl 0) (List.nil_prefix)
  | cons view views ih =>
      have hcons : ∀ later,
          eventBytes (view :: later) = utf8 (eventFrame view) ++ eventBytes later :=
        fun _ => List.flatMap_cons
      rw [hcons] at h
      by_cases hwhole : utf8 (eventFrame view) <+: bytes
      · obtain ⟨rest, rfl⟩ := hwhole
        rw [List.prefix_append_right_inj] at h
        obtain ⟨k, ⟨hk, harrived⟩, hfeed⟩ := ih true h
        refine ⟨k + 1, ⟨Nat.succ_le_succ hk, fun j hj => ?_⟩, ?_⟩
        · cases j with
          | zero => exact iff_of_true (Nat.zero_le _) List.nil_prefix
          | succ j =>
              rw [List.take_succ_cons, hcons, List.prefix_append_right_inj, Nat.succ_le_succ_iff]
              exact harrived j (Nat.le_of_succ_le_succ hj)
        · rw [Decoder.feed_append, frameDecoder_event, hfeed, List.take_succ_cons, List.map_cons]
          rfl
      · have hpart : bytes <+: utf8 (eventFrame view) :=
          (List.prefix_or_prefix_of_prefix h (List.prefix_append _ _)).resolve_right hwhole
        have hne : bytes ≠ utf8 (eventFrame view) := by
          intro heq
          rw [heq] at hwhole
          exact hwhole List.prefix_rfl
        refine ⟨0, ⟨Nat.zero_le _, fun j _ => ?_⟩, frameDecoder_part seen hpart hne⟩
        cases j with
        | zero => exact iff_of_true (Nat.le_refl 0) List.nil_prefix
        | succ j =>
            rw [List.take_succ_cons, hcons]
            refine iff_of_false (Nat.not_succ_le_zero j) fun hprefix => hwhole ?_
            exact (List.prefix_append _ _).trans hprefix

end Arrival

section Reading

/-- The event of a view as the subscriber reads it. -/
def JobView.event (view : JobView) : StatusEvent where
  event := literal "status"
  data := view.toJson

theorem readLine_event
    (event : StatusEvent) :
    readLine event (literal "event: status") = some { event with event := literal "status" } := by
  have hevent : (literal "event: ").isPrefixOf (literal "event: status") = true := by decide
  have hdata : (literal "data: ").isPrefixOf (literal "event: status") = false := by decide
  have hname : (literal "event: status").drop (literal "event: ").length = literal "status" := by
    decide
  simp only [readLine, hevent, hdata, hname, if_true, Bool.false_eq_true, if_false]

theorem readLine_data
    (event : StatusEvent) (data : JsonText.Value) :
    readLine event (literal "data: " ++ data.text) = some { event with data := data } := by
  have hevent : (literal "event: ").isPrefixOf (literal "data: " ++ data.text) = false := by
    have hletter : literal "event: " = 101 :: literal "vent: " := by decide
    have hother : literal "data: " = 100 :: literal "ata: " := by decide
    have hne : ((101 : UInt16) == 100) = false := by decide
    rw [hletter, hother, List.cons_append, List.isPrefixOf, hne, Bool.false_and]
  have hdata : (literal "data: ").isPrefixOf (literal "data: " ++ data.text) = true :=
    List.isPrefixOf_iff_prefix.mpr (List.prefix_append _ _)
  simp only [readLine, hevent, hdata, if_true, Bool.false_eq_true, if_false, List.drop_left,
    JsonText.parse_text, Option.map_some]

/-- **One event.**  It is read as it was written. -/
theorem readEvent_rawEvent
    (view : JobView) :
    readEvent (rawEvent view) = some view.event := by
  have hlines : rawEvent view =
      literal "event: status" ++ 10 :: (literal "data: " ++ view.toJson.text) := by
    have hhead : literal "event: status\ndata: " =
        literal "event: status" ++ 10 :: literal "data: " := by
      decide
    rw [rawEvent, hhead, List.append_assoc, List.cons_append]
  have hfirst : (10 : UInt16) ∉ literal "event: status" := by decide
  have hsecond : (10 : UInt16) ∉ literal "data: " ++ view.toJson.text := by
    intro hmem
    rcases List.mem_append.mp hmem with hmem | hmem
    · exact absurd hmem (by decide)
    · exact json_ne_feed view 10 hmem rfl
  rw [readEvent, hlines, List.splitOn_append_cons_self_of_not_mem hfirst,
    List.splitOn_eq_singleton hsecond, List.foldlM_cons, readLine_event]
  change (some _).bind _ = _
  rw [Option.bind_some, List.foldlM_cons, readLine_data]
  rfl

theorem mapM_rawEvent
    (views : List JobView) :
    (views.map rawEvent).mapM readEvent = some (views.map JobView.event) := by
  induction views with
  | nil => rfl
  | cons view views ih =>
      rw [List.map_cons, List.mapM_cons, readEvent_rawEvent, ih]
      rfl

/-- What the calls of `next` have yet to return. -/
structure Remaining (r : Subscriber) (events : List StatusEvent) : Prop where
  unbroken : Unbroken r.buffer
  done : r.done = true → r.chunks = []
  later : ∃ later,
    (frameDecoder.feed (r.decoder, r.buffer) r.chunks.flatten).1.mapM readEvent = some later ∧
      events = r.pending ++ later

/-- The loop reads on until an event is complete or the body ends. -/
theorem fill_remaining
    {ended : Bool} {chunks : List Bytes} {decoder : (Option Utf8Pending × Bool) × Unit}
    {buffer : JsString} {later : List StatusEvent}
    (hbuffer : Unbroken buffer)
    (h : (frameDecoder.feed (decoder, buffer) chunks.flatten).1.mapM readEvent = some later)
    (hends : ended = true ∨ later ≠ []) :
    ∃ r, fill ended decoder buffer chunks = some r ∧ Remaining r later ∧
      (r.pending = [] → later = []) ∧ r.ended = ended := by
  induction chunks generalizing decoder buffer with
  | nil =>
      have hlater : later = [] := (Option.some.inj h).symm
      subst hlater
      have hended : ended = true := hends.resolve_right fun hne => hne rfl
      exact ⟨_, if_pos hended, ⟨hbuffer, fun _ => rfl, ⟨[], rfl, rfl⟩⟩, fun _ => rfl, rfl⟩
  | cons chunk chunks ih =>
      have hfeed := Decoder.feed_andThen textDecoder frameCutter decoder buffer chunk
      cases htext : textDecoder.feed decoder chunk with
      | mk units decoder' =>
          have hframes := takeFrames_eq units hbuffer
          have hleft := unbroken_left units hbuffer
          rw [htext] at hfeed
          cases hcut : frameCutter.feed buffer units with
          | mk frames buffer' =>
              rw [hcut] at hframes hleft hfeed
              have hchunk : frameDecoder.feed (decoder, buffer) chunk =
                  (frames, (decoder', buffer')) := hfeed
              rw [List.flatten_cons, Decoder.feed_append, hchunk, List.mapM_append] at h
              obtain ⟨events, hevents, h⟩ := Option.bind_eq_some_iff.mp h
              obtain ⟨rest, hrest, h⟩ := Option.bind_eq_some_iff.mp h
              have hlater : later = events ++ rest := (Option.some.inj h).symm
              subst hlater
              simp only [fill, htext, hframes, hevents]
              cases events with
              | nil => exact ih hleft hrest
              | cons event events =>
                  refine ⟨_, rfl, ⟨hleft, fun hdone => ?_, ⟨rest, hrest, rfl⟩⟩, fun hnone => ?_,
                    rfl⟩
                  · cases hdone
                  · cases hnone

theorem shift_remaining
    {r : Subscriber} {events : List StatusEvent}
    (h : Remaining r events)
    (hnone : r.pending = [] → events = []) :
    r.shift.1 = events.head? ∧ Remaining r.shift.2 events.tail := by
  obtain ⟨hunbroken, hdone, later, hlater, hevents⟩ := h
  obtain ⟨chunks, ended, decoder, buffer, pending, done⟩ := r
  cases pending with
  | nil =>
      have hempty := hnone rfl
      subst hempty
      exact ⟨rfl, hunbroken, hdone, later, hlater, hevents⟩
  | cons event pending =>
      subst hevents
      exact ⟨rfl, hunbroken, hdone, later, hlater, rfl⟩

theorem next_remaining
    {r : Subscriber} {events : List StatusEvent}
    (h : Remaining r events)
    (hends : r.ended = true ∨ events ≠ []) :
    ∃ r', r.next = some (events.head?, r') ∧ Remaining r' events.tail ∧ r'.ended = r.ended := by
  rw [Subscriber.next]
  by_cases hwait : r.pending.isEmpty ∧ r.done = false
  · have hpending : r.pending = [] := List.isEmpty_iff.mp hwait.1
    obtain ⟨later, hlater, hevents⟩ := h.later
    rw [hpending, List.nil_append] at hevents
    subst hevents
    obtain ⟨r', hfill, hremaining, hnone, hended⟩ := fill_remaining h.unbroken hlater hends
    obtain ⟨hhead, htail⟩ := shift_remaining hremaining hnone
    rw [if_pos hwait, hfill]
    exact ⟨r'.shift.2, congrArg some (Prod.ext hhead rfl), htail, hended⟩
  · have hnone : r.pending = [] → events = [] := by
      intro hpending
      have hdone : r.done = true := by
        by_contra hopen
        exact hwait ⟨List.isEmpty_iff.mpr hpending, Bool.eq_false_iff.mpr hopen⟩
      obtain ⟨later, hlater, hevents⟩ := h.later
      rw [h.done hdone] at hlater
      have hempty : later = [] := (Option.some.inj hlater).symm
      rw [hevents, hpending, hempty]
      rfl
    obtain ⟨hhead, htail⟩ := shift_remaining h hnone
    rw [if_neg hwait]
    exact ⟨r.shift.2, congrArg some (Prod.ext hhead rfl), htail, rfl⟩

/-- The calls of `next` return the events one after another, and `null` from then on if
the body ends. -/
theorem reads_remaining
    {r : Subscriber} {events : List StatusEvent} {n : Nat}
    (h : Remaining r events)
    (hends : r.ended = true ∨ n ≤ events.length) :
    r.reads n = some ((List.range n).map fun i => events[i]?) := by
  induction n generalizing r events with
  | zero => rfl
  | succ n ih =>
      have hmore : r.ended = true ∨ events ≠ [] := by
        rcases hends with hended | hlength
        · exact Or.inl hended
        · exact Or.inr (List.ne_nil_of_length_pos (by omega))
      obtain ⟨r', hnext, hremaining, hended⟩ := next_remaining h hmore
      have htail : r'.ended = true ∨ n ≤ events.tail.length := by
        rw [hended, List.length_tail]
        exact hends.imp_right fun hlength => by omega
      rw [Subscriber.reads, hnext]
      simp only [ih hremaining htail, Option.map_some]
      rw [List.range_succ_eq_map, List.map_cons, List.map_map]
      cases events with
      | nil => rfl
      | cons event events => rfl

end Reading

section Statements

/-- Statuses that tell a history. -/
structure SeesHistory (seen history : List JobStatus) : Prop where
  inOrder : seen.Sublist history
  distinct : seen.IsChain (· ≠ ·)
  terminalLast : ∀ status, status ∈ seen.dropLast → status.terminal = false

end Statements

section Streams

variable {s t : Stream}

/-- What the stream writes are versions of the one row. -/
structure ShowsRow (s : Stream) : Prop where
  written : ∀ view, .write view ∈ s.ops → ∃ row, row ∈ s.versions ∧ view = serializeJob row
  read : ∀ (k : Nat) row version, s.polls[k]? = some (.found row version) → row ∈ s.versions
  own : ∀ row, row ∈ s.versions → row.id = s.jobId

theorem showsRow_start
    (job : Job) :
    ShowsRow (Stream.start job) := by
  unfold Stream.start
  split
  · refine ⟨fun view hview => ⟨job, List.mem_singleton_self job, ?_⟩, by simp, by simp⟩
    simp only [List.mem_cons, ResponseOp.write.injEq, List.not_mem_nil, or_false] at hview
    rcases hview with hview | hview
    · exact hview
    · cases hview
  · refine ⟨fun view hview => ⟨job, List.mem_singleton_self job, ?_⟩, by simp, by simp⟩
    exact ResponseOp.write.inj (List.mem_singleton.mp hview)

theorem showsRow_endWith
    (cause : EndCause)
    (h : ShowsRow s) :
    ShowsRow (s.endWith cause) where
  written := by
    intro view hview
    rcases List.mem_append.mp hview with hview | hview
    · exact h.written view hview
    · cases List.mem_singleton.mp hview
  read := h.read
  own := h.own

theorem showsRow_finish
    (row : Job)
    (h : ShowsRow s) :
    ShowsRow (s.finish row) := by
  unfold Stream.finish
  split
  · exact showsRow_endWith _ ⟨h.written, h.read, h.own⟩
  · exact h

theorem showsRow_show
    {row : Job} (version : Nat)
    (hrow : row ∈ s.versions)
    (h : ShowsRow s) :
    ShowsRow (s.show row version) := by
  unfold Stream.show
  split
  · refine showsRow_finish row ⟨fun view hview => ?_, h.read, h.own⟩
    rcases List.mem_append.mp hview with hview | hview
    · exact h.written view hview
    · exact ⟨row, hrow, ResponseOp.write.inj (List.mem_singleton.mp hview)⟩
  · exact showsRow_finish row h

theorem showsRow_polls
    {polls : List Poll}
    (hpolls : ∀ (k : Nat) row version, polls[k]? = some (.found row version) → row ∈ s.versions)
    (h : ShowsRow s) :
    ShowsRow { s with polls := polls } :=
  ⟨h.written, hpolls, h.own⟩

/-- A poll that has not found a row reads nothing. -/
theorem read_set
    {k : Nat} {poll : Poll}
    (hpoll : ∀ row version, poll = .found row version → row ∈ s.versions)
    (h : ShowsRow s) :
    ∀ (j : Nat) row version, (s.polls.set k poll)[j]? = some (.found row version) →
      row ∈ s.versions := by
  intro j row version hj
  rcases getElem?_set_cases hj with ⟨_, hset⟩ | ⟨_, hold⟩
  · exact hpoll row version hset.symm
  · exact h.read j row version hold

theorem showsRow_of_step
    {e : StreamEvent}
    (hs : streamMachine.step s e = some t)
    (h : ShowsRow s) :
    ShowsRow t := by
  cases e with
  | change row =>
      simp only [streamMachine, Stream.step] at hs
      split at hs
      · next hrow =>
          cases hs
          refine ⟨fun view hview => ?_, fun k r version hk => ?_, fun r hr => ?_⟩
          · obtain ⟨r, hr, hview⟩ := h.written view hview
            exact ⟨r, List.mem_append_left _ hr, hview⟩
          · exact List.mem_append_left _ (h.read k r version hk)
          · rcases List.mem_append.mp hr with hr | hr
            · exact h.own r hr
            · rw [List.mem_singleton.mp hr]
              exact hrow.2
      · cases hs
  | delete =>
      simp only [streamMachine, Stream.step] at hs
      split at hs
      · cases hs
      · cases hs
        exact ⟨h.written, h.read, h.own⟩
  | fire =>
      simp only [streamMachine, Stream.step] at hs
      split at hs
      · cases hs
        refine showsRow_polls (fun k row version hk => ?_) h
        rcases getElem?_spawn hk with hk | ⟨_, hasked⟩
        · exact h.read k row version hk
        · cases hasked
      · cases hs
  | query k =>
      simp only [streamMachine, Stream.step] at hs
      split at hs
      · cases hs
        refine showsRow_polls (read_set (fun row version hread => ?_) h) h
        exact List.mem_of_getElem? (readRow_eq_found hread)
      · cases hs
  | queryRaises k =>
      simp only [streamMachine, Stream.step] at hs
      split at hs
      · cases hs
        exact showsRow_polls (read_set (by simp) h) h
      · cases hs
  | settle k =>
      have hsettled : ShowsRow { s with polls := s.polls.set k .settled } :=
        showsRow_polls (read_set (by simp) h) h
      simp only [streamMachine, Stream.step] at hs
      split at hs
      · next row version hk =>
          cases hs
          exact showsRow_show version (h.read k row version hk) hsettled
      · cases hs
        exact showsRow_endWith _ ⟨hsettled.written, hsettled.read, hsettled.own⟩
      · cases hs
        exact showsRow_endWith _ ⟨hsettled.written, hsettled.read, hsettled.own⟩
      · cases hs
  | closeAll =>
      simp only [streamMachine, Stream.step] at hs
      split at hs
      · cases hs
        exact showsRow_endWith _ ⟨h.written, h.read, h.own⟩
      · cases hs
  | close =>
      cases hs
      exact ⟨h.written, h.read, h.own⟩

theorem showsRow_of_run
    {job : Job} {es : List StreamEvent}
    (hrun : Machine.Run streamMachine Machine.anyStep (Stream.start job) es s) :
    ShowsRow s :=
  Machine.run_invariant (fun _ _ _ hI _ hs => showsRow_of_step hs hI) hrun (showsRow_start job)

theorem mem_sent
    {view : JobView}
    (h : view ∈ s.sent) :
    .write view ∈ s.ops := by
  obtain ⟨op, hop, hview⟩ := List.mem_filterMap.mp h
  cases op with
  | write w =>
      cases hview
      exact (List.takeWhile_sublist _).subset hop
  | ends cause => cases hview

/-- What is sent is the beginning of what was written. -/
theorem sent_statuses
    (s : Stream) :
    s.sent.map JobView.status <+: s.statuses := by
  have hstatus : ∀ op : ResponseOp, op.status? = op.view?.map JobView.status := by
    intro op
    cases op <;> rfl
  have hstatuses : s.statuses = (s.ops.filterMap ResponseOp.view?).map JobView.status := by
    rw [Stream.statuses, List.map_filterMap]
    exact List.filterMap_congr fun op _ => hstatus op
  rw [hstatuses]
  exact ((List.takeWhile_prefix _).filterMap _).map _

/-- Views of rows are the rows, serialized. -/
theorem rows_of_views
    {views : List JobView} {versions : List Job}
    (h : ∀ view, view ∈ views → ∃ row, row ∈ versions ∧ view = serializeJob row) :
    ∃ rows : List Job, views = rows.map serializeJob ∧ ∀ row, row ∈ rows → row ∈ versions := by
  induction views with
  | nil => exact ⟨[], rfl, fun row hrow => by cases hrow⟩
  | cons view views ih =>
      obtain ⟨row, hrow, rfl⟩ := h view List.mem_cons_self
      obtain ⟨rows, rfl, hrows⟩ := ih fun v hv => h v (List.mem_cons_of_mem _ hv)
      refine ⟨row :: rows, rfl, fun r hr => ?_⟩
      rcases List.mem_cons.mp hr with rfl | hr
      · exact hrow
      · exact hrows r hr

/-- Statuses sent in order are a history up to any of them. -/
theorem seesHistory_of_prefix
    {seen : List JobStatus}
    (hok : StreamOk s)
    (h : seen <+: s.statuses) :
    SeesHistory seen (s.versions.map Job.status) where
  inOrder := h.sublist.trans (hok.picked.trans ((List.take_sublist _ _).map _))
  distinct := hok.distinct.prefix h
  terminalLast := by
    intro status hstatus
    obtain ⟨rest, hrest⟩ := h
    refine hok.early status ?_
    rw [← hrest]
    cases rest with
    | nil =>
        rw [List.append_nil]
        exact hstatus
    | cons next rest =>
        rw [List.dropLast_append_cons]
        exact List.mem_append_left _ ((List.dropLast_sublist _).subset hstatus)

end Streams

section Results

variable {w : World} {user : Uuid} {id : String} {s₀ s : Stream}

/--
**What a subscriber reads.**  For any changes of the row, any schedule of polls and any end
of the stream, and for a body that the network cuts into chunks anywhere and may break off
anywhere: the calls of `next` return the events that have arrived completely, in order and
without throwing, and `null` from then on if the body ends there.  The events are those
that the stream sent, each the job of the stream as it has been, serialized; no text in it
can end the event or begin another one.  In the runs in which the stream keeps to the order
of its polls, the statuses read tell the history of the row.
-/
theorem events_arrive_whole
    {es : List StreamEvent} {chunks : List Bytes} {ended : Bool}
    (hopen : openStream w user id = .ok s₀)
    (hrun : Machine.Run streamMachine Machine.anyStep s₀ es s)
    (hchunks : chunks.flatten <+: s.body) :
    ∃ rows : List Job, (∀ row, row ∈ rows → row ∈ s.versions ∧ row.id = s.jobId) ∧
      rows.map serializeJob = s.sent.take rows.length ∧
        Arrived s.sent chunks.flatten rows.length ∧
          (∀ n, ended = true ∨ n ≤ rows.length → (Subscriber.start chunks ended).reads n =
            some ((List.range n).map fun i =>
              (rows[i]?).map fun row => (serializeJob row).event)) ∧
            (Machine.Run streamMachine SettlesInOrder s₀ es s →
              SeesHistory (rows.map Job.status) (s.versions.map Job.status)) := by
  obtain ⟨job, _, rfl, _⟩ := openStream_ok hopen
  have hshows := showsRow_of_run hrun
  obtain ⟨k, harrived, hfeed⟩ := frameDecoder_prefix false hchunks
  have hviews : ∀ view, view ∈ s.sent.take k → ∃ row, row ∈ s.versions ∧ view = serializeJob row :=
    fun view hview => hshows.written view (mem_sent (List.mem_of_mem_take hview))
  obtain ⟨rows, hviews, hrows⟩ := rows_of_views hviews
  have hlength : rows.length = k := by
    rw [← List.length_map serializeJob, ← hviews, List.length_take, Nat.min_eq_left harrived.1]
  refine ⟨rows, fun row hrow => ⟨hrows row hrow, hshows.own row (hrows row hrow)⟩, ?_, ?_, ?_, ?_⟩
  · rw [hlength]
    exact hviews.symm
  · rw [hlength]
    exact harrived
  · intro n hends
    have hremaining : Remaining (Subscriber.start chunks ended)
        (rows.map fun row => (serializeJob row).event) := by
      refine ⟨List.isChain_nil, (fun hdone => by cases hdone), _, ?_, rfl⟩
      change ((frameDecoder.feed (betweenEvents false) chunks.flatten).1).mapM readEvent = _
      rw [hfeed, hviews, mapM_rawEvent, List.map_map]
      rfl
    rw [reads_remaining hremaining (hends.imp_right fun hn => by rw [List.length_map]; exact hn)]
    simp only [List.getElem?_map]
  · intro horder
    have hstatus : rows.map Job.status = (s.sent.take k).map JobView.status := by
      rw [hviews, List.map_map]
      rfl
    rw [hstatus]
    exact seesHistory_of_prefix (streamOk_of_run horder).1
      (((List.take_prefix k s.sent).map _).trans (sent_statuses s))

/-- Three events in two chunks, the first of which ends inside an event. -/
theorem events_arrive_whole_overlapping :
    ∃ s : Stream,
      Machine.Run streamMachine Machine.anyStep (Stream.start (sampleVersion .queued))
          (overlappingPolls ++ [.settle 0, .settle 1, .close]) s ∧
        ∃ rows : List Job,
          rows.map serializeJob = s.sent ∧
            rows.map Job.status = [.queued, .active, .completed] ∧
              (Subscriber.start [s.body.take 40, s.body.drop 40] true).reads 4 =
                some ((List.range 4).map fun i =>
                  (rows[i]?).map fun row => (serializeJob row).event) := by
  have hexec : (streamMachine.exec (fun _ _ => true) (Stream.start (sampleVersion .queued))
      (overlappingPolls ++ [.settle 0, .settle 1, .close])).any
      (fun s => decide (s.sent.map JobView.status = [.queued, .active, .completed])) = true := by
    decide +kernel
  obtain ⟨s, hrun, hs⟩ := Machine.exists_anyRun_of_exec hexec
  have hstatus : s.sent.map JobView.status = [.queued, .active, .completed] :=
    of_decide_eq_true hs
  have hthree : s.sent.length = 3 :=
    (List.length_map JobView.status).symm.trans (congrArg List.length hstatus)
  have hbody : [s.body.take 40, s.body.drop 40].flatten = s.body := by
    rw [List.flatten_cons, List.flatten_singleton, List.take_append_drop]
  have hchunks : [s.body.take 40, s.body.drop 40].flatten <+: s.body :=
    ⟨[], (List.append_nil _).trans hbody⟩
  obtain ⟨rows, _, hsent, harrived, hreads, _⟩ :=
    events_arrive_whole openStream_sample hrun hchunks
  have hall : 3 ≤ rows.length := by
    refine (harrived.2 3 (Nat.le_of_eq hthree.symm)).mpr ⟨[], ?_⟩
    rw [hbody, List.take_of_length_le (Nat.le_of_eq hthree), Stream.body, List.append_nil]
  have hrows : rows.map serializeJob = s.sent := by
    rw [hsent, List.take_of_length_le (hthree.trans_le hall)]
  refine ⟨s, hrun, rows, hrows, ?_, hreads 4 (Or.inl rfl)⟩
  calc rows.map Job.status = (rows.map serializeJob).map JobView.status := by
        rw [List.map_map]
        rfl
    _ = s.sent.map JobView.status := by rw [hrows]
    _ = _ := hstatus

end Results

end BengaliTts
