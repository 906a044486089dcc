import BengaliTts.ApiKeys
import BengaliTts.EventStream

/-!
# Event streams, disconnects and the shutdown

Each request for an event stream passes two awaits, the authentication and the lookup
of the job, before its response is registered in the hub, its interval is started and
the listener for `close` is attached.  The client may leave at any moment, and a
shutdown ends the responses that the hub knows and then waits until no connection is
left.

A `Subscription` is one such request.  Its stream is a `Stream` as before; the
flag `registered` of a stream says that the hub contains its response.  `close` is
emitted once for a response, and calls the listener only if it is attached by then.
After `res.end()` it is still to come, so the interval of a response that `closeAll`
ended runs until then.

Main results:
* `no_watcher_outlives_iff`: in every state of a run no watcher outlives its stream,
  exactly if every response is registered while it is open and before the shutdown;
* `drained_of_leaves`: then the shutdown waits for no open stream;
* `watcher_outlives`: a client that leaves during the lookup, and a shutdown during it.
-/

namespace BengaliTts

open Lib

section Gateway

/-- Where a request for an event stream stands. -/
inductive SubscriptionPc where
  | authenticating
  /-- The lookup of the job is next. -/
  | looking (user : Uuid)
  /-- Answered by the error handler. -/
  | refused (thrown : Thrown)
  /-- The headers are out, and the snapshot was sent. -/
  | opened (stream : Stream)

/-- `GET /v1/jobs/:id/events`. -/
structure Subscription where
  header : Option JsString
  jobId : String
  /-- The response has emitted `close`. -/
  closed : Bool
  pc : SubscriptionPc

inductive SubscriptionEvent where
  /-- The keys as the authentication finds them. -/
  | authenticate (keys : KeyStore)
  /-- The stores as the lookup finds them; the route registers the response. -/
  | lookup (w : World)
  /-- The awaited query raises. -/
  | raises
  /-- The row, the interval or a poll of an open stream. -/
  | stream (e : StreamEvent)

/-- The requests for event streams of one gateway process. -/
structure SseGateway where
  subscriptions : List Subscription
  /-- `sse.closeAll()` and `gracefulShutdown` were called. -/
  shutDown : Bool
  /-- The exit code of the process. -/
  exitCode : Option Nat

inductive SseEvent where
  | request (header : Option JsString) (jobId : String)
  | act (i : Nat) (e : SubscriptionEvent)
  /-- A response emits `close`: the client left, or its end was flushed. -/
  | close (i : Nat)
  | shutdown
  /-- No connection is left; the cleanup succeeds or not. -/
  | drained (cleanedUp : Bool)
  /-- The failsafe timer of `gracefulShutdown`. -/
  | failsafe

/-- The events of a stream other than the two that this module delivers itself. -/
def StreamEvent.own : StreamEvent → Bool
  | .closeAll => false
  | .close => false
  | _ => true

def Subscription.act (d : KeyDeps) (p : Subscription) :
    SubscriptionEvent → Option Subscription
  | .authenticate keys =>
      match p.pc with
      | .authenticating =>
          match keys.authenticate d p.header with
          | .ok user => some { p with pc := .looking user.id }
          | .error error => some { p with pc := .refused (.domain error) }
      | _ => none
  | .lookup w =>
      match p.pc with
      | .looking user =>
          match openStream w user p.jobId with
          | .ok stream => some { p with pc := .opened stream }
          | .error thrown => some { p with pc := .refused thrown }
      | _ => none
  | .raises =>
      match p.pc with
      | .authenticating => some { p with pc := .refused .fault }
      | .looking _ => some { p with pc := .refused .fault }
      | _ => none
  | .stream e =>
      match p.pc with
      | .opened stream =>
          if e.own then (stream.step e).map fun next => { p with pc := .opened next } else none
      | _ => none

/-- `close`: the listener of an open stream is `stop`. -/
def Subscription.emitClose (p : Subscription) : Subscription :=
  match p.pc with
  | .opened stream => { p with closed := true, pc := .opened stream.stop }
  | _ => { p with closed := true }

/-- What `closeAll` does to a request: its response is ended if the hub contains it. -/
def Subscription.sweep (p : Subscription) : Subscription :=
  match p.pc with
  | .opened stream => { p with pc := .opened ((stream.step .closeAll).getD stream) }
  | _ => p

def SseGateway.step (d : KeyDeps) (g : SseGateway) : SseEvent → Option SseGateway
  | .request header jobId =>
      some { g with subscriptions := g.subscriptions ++ [⟨header, jobId, false, .authenticating⟩] }
  | .act i e =>
      match g.subscriptions[i]? with
      | some p => (p.act d e).map fun p' => { g with subscriptions := g.subscriptions.set i p' }
      | none => none
  | .close i =>
      match g.subscriptions[i]? with
      | some p =>
          if p.closed then
            none
          else
            some { g with subscriptions := g.subscriptions.set i p.emitClose }
      | none => none
  | .shutdown =>
      if g.shutDown then
        none
      else
        some { g with subscriptions := g.subscriptions.map Subscription.sweep, shutDown := true }
  | .drained cleanedUp =>
      if g.shutDown ∧ g.exitCode = none ∧ ∀ p, p ∈ g.subscriptions → p.closed = true then
        some { g with exitCode := some (if cleanedUp then 0 else 1) }
      else
        none
  | .failsafe =>
      if g.shutDown ∧ g.exitCode = none then some { g with exitCode := some 1 } else none

def sseMachine (d : KeyDeps) : Machine SseGateway SseEvent where
  step := SseGateway.step d

def SseGateway.start : SseGateway :=
  ⟨[], false, none⟩

end Gateway

section Statements

/-- `res.end()` was called. -/
def Stream.ended (s : Stream) : Prop :=
  s.endedBy ≠ none

/--
An opened stream whose response has emitted `close` is not in the hub, and its interval
is cleared.  Once `closeAll` has run, an opened stream is not in the hub, and its
response was ended, which leads to `close` and so to the first, or it is closed.
-/
structure NoWatcherOutlives (g : SseGateway) : Prop where
  closed : ∀ (i : Nat) p stream, g.subscriptions[i]? = some p → p.pc = .opened stream →
    p.closed = true → stream.registered = false ∧ stream.timer = false
  swept : ∀ (i : Nat) p stream, g.subscriptions[i]? = some p → p.pc = .opened stream →
    g.shutDown = true → stream.registered = false ∧ (stream.ended ∨ p.closed = true)

/-- A response is registered while it is open, and before the shutdown. -/
def RegistersOpen (g : SseGateway) : SseEvent → Prop
  | .act i (.lookup w) => ∀ p user stream, g.subscriptions[i]? = some p → p.pc = .looking user →
      openStream w user p.jobId = .ok stream → stream.registered = true →
        p.closed = false ∧ g.shutDown = false
  | _ => True

end Statements

section Steps

variable {d : KeyDeps} {g g' : SseGateway} {p p' : Subscription} {s t : Stream}

/-- A poll leaves the watch as it is, or it stops it and ends the response. -/
inductive WatchStep (s t : Stream) : Prop
  | goesOn
      (hregistered : t.registered = s.registered)
      (htimer : t.timer = s.timer)
      (hended : t.endedBy = none → s.endedBy = none)
  | stops
      (hregistered : t.registered = false)
      (htimer : t.timer = false)
      (hended : t.ended)

theorem endedBy_append_ends
    (ops : List ResponseOp) (cause : EndCause) :
    (ops ++ [ResponseOp.ends cause]).findSome? ResponseOp.cause? ≠ none := by
  simp [ResponseOp.cause?]

theorem watchStep_finish
    {u : Stream}
    (hregistered : u.registered = s.registered)
    (htimer : u.timer = s.timer)
    (hended : u.endedBy = none → s.endedBy = none)
    (row : Job) :
    WatchStep s (u.finish row) := by
  unfold Stream.finish
  split
  · exact .stops rfl rfl (endedBy_append_ends _ _)
  · exact .goesOn hregistered htimer hended

/-- The callback of a poll that found the row, once the poll is settled. -/
theorem watchStep_show
    (polls : List Poll) (row : Job) (version : Nat) :
    WatchStep s (Stream.show { s with polls := polls } row version) := by
  unfold Stream.show
  split
  · refine watchStep_finish (s := s) (u := Stream.send { s with polls := polls } row version)
      rfl rfl ?_ row
    rw [endedBy_send]
    exact id
  · exact watchStep_finish (s := s) (u := { s with polls := polls }) rfl rfl id row

theorem watchStep_of_step
    {e : StreamEvent}
    (hown : e.own = true)
    (hs : s.step e = some t) :
    WatchStep s t := by
  cases e with
  | change row =>
      simp only [Stream.step] at hs
      split at hs
      · cases hs
        exact .goesOn rfl rfl id
      · cases hs
  | delete =>
      simp only [Stream.step] at hs
      split at hs
      · cases hs
      · cases hs
        exact .goesOn rfl rfl id
  | fire =>
      simp only [Stream.step] at hs
      split at hs
      · cases hs
        exact .goesOn rfl rfl id
      · cases hs
  | query k =>
      simp only [Stream.step] at hs
      split at hs
      · cases hs
        exact .goesOn rfl rfl id
      · cases hs
  | queryRaises k =>
      simp only [Stream.step] at hs
      split at hs
      · cases hs
        exact .goesOn rfl rfl id
      · cases hs
  | settle k =>
      simp only [Stream.step] at hs
      split at hs
      · next row version _ =>
          cases hs
          exact watchStep_show _ row version
      · cases hs
        exact .stops rfl rfl (endedBy_append_ends _ _)
      · cases hs
        exact .stops rfl rfl (endedBy_append_ends _ _)
      · cases hs
  | closeAll => cases hown
  | close => cases hown

/-- What every run keeps of a request. -/
structure WatchOk (shutDown : Bool) (p : Subscription) (s : Stream) : Prop where
  closed : p.closed = true → s.registered = false ∧ s.timer = false
  /-- The hub contains no response after the sweep. -/
  swept : s.registered = true → shutDown = false
  /-- A response that is open and was not ended is in the hub. -/
  watching : p.closed = false → s.endedBy = none → s.registered = true

def SubscriptionOk (shutDown : Bool) (p : Subscription) : Prop :=
  ∀ s, p.pc = .opened s → WatchOk shutDown p s

def SseOk (g : SseGateway) : Prop :=
  ∀ (i : Nat) p, g.subscriptions[i]? = some p → SubscriptionOk g.shutDown p

theorem watchOk_of_watchStep
    {shutDown : Bool}
    (hok : WatchOk shutDown p s)
    (hclosed : p'.closed = p.closed)
    (hs : WatchStep s t) :
    WatchOk shutDown p' t := by
  cases hs with
  | goesOn hregistered htimer hended =>
      refine ⟨?_, ?_, ?_⟩
      · intro h
        rw [hregistered, htimer]
        exact hok.closed (hclosed ▸ h)
      · intro h
        exact hok.swept (hregistered ▸ h)
      · intro h hnone
        rw [hregistered]
        exact hok.watching (hclosed ▸ h) (hended hnone)
  | stops hregistered htimer hended =>
      refine ⟨fun _ => ⟨hregistered, htimer⟩, ?_, fun _ hnone => absurd hnone hended⟩
      intro h
      rw [hregistered] at h
      cases h

/-- A stream is opened with its response in the hub, or it is over with the snapshot. -/
theorem opened_cases
    {w : World} {user : Uuid} {jobId : String}
    (h : openStream w user jobId = .ok s) :
    (s.registered = true ∧ s.timer = true ∧ s.endedBy = none) ∨
      (s.registered = false ∧ s.timer = false ∧ s.ended) := by
  obtain ⟨job, _, rfl, _⟩ := openStream_ok h
  unfold Stream.start
  split
  · exact Or.inr ⟨rfl, rfl, by simp [Stream.ended, Stream.endedBy, ResponseOp.cause?]⟩
  · exact Or.inl ⟨rfl, rfl, rfl⟩

theorem subscriptionOk_of_act
    {e : SubscriptionEvent} {shutDown : Bool}
    (hok : SubscriptionOk shutDown p)
    (hopen : ∀ w user stream, e = .lookup w → p.pc = .looking user →
      openStream w user p.jobId = .ok stream → stream.registered = true →
        p.closed = false ∧ shutDown = false)
    (hact : p.act d e = some p') :
    SubscriptionOk shutDown p' := by
  cases e with
  | authenticate keys =>
      simp only [Subscription.act] at hact
      split at hact
      · split at hact
        · cases hact
          intro s hs
          cases hs
        · cases hact
          intro s hs
          cases hs
      · cases hact
  | lookup w =>
      simp only [Subscription.act] at hact
      split at hact
      · next user hpc =>
          split at hact
          · next stream hstream =>
              cases hact
              intro s hs
              cases hs
              rcases opened_cases hstream with ⟨hregistered, _, _⟩ | ⟨hregistered, htimer, hended⟩
              · obtain ⟨hclosed, hshut⟩ := hopen w user stream rfl hpc hstream hregistered
                refine ⟨fun h => ?_, fun _ => hshut, fun _ _ => hregistered⟩
                exact absurd (hclosed.symm.trans h) Bool.false_ne_true
              · refine ⟨fun _ => ⟨hregistered, htimer⟩, fun h => ?_, fun _ h => absurd h hended⟩
                exact absurd (hregistered.symm.trans h) Bool.false_ne_true
          · cases hact
            intro s hs
            cases hs
      · cases hact
  | raises =>
      simp only [Subscription.act] at hact
      split at hact
      · cases hact
        intro s hs
        cases hs
      · cases hact
        intro s hs
        cases hs
      · cases hact
  | stream e =>
      simp only [Subscription.act] at hact
      split at hact
      · next stream hpc =>
          split at hact
          · next hown =>
              obtain ⟨next, hnext, rfl⟩ := Option.map_eq_some_iff.mp hact
              intro s hs
              cases hs
              exact watchOk_of_watchStep (hok stream hpc) rfl (watchStep_of_step hown hnext)
          · cases hact
      · cases hact

theorem subscriptionOk_emitClose
    {shutDown : Bool} :
    SubscriptionOk shutDown p.emitClose := by
  intro s hs
  unfold Subscription.emitClose at hs ⊢
  split at hs
  · next stream hpc =>
      cases hs
      exact ⟨fun _ => ⟨rfl, rfl⟩, nofun, nofun⟩
  · next hpc => exact absurd hs (hpc s)

theorem subscriptionOk_sweep
    (hok : SubscriptionOk false p) :
    SubscriptionOk true p.sweep := by
  intro s hs
  unfold Subscription.sweep at hs ⊢
  split at hs
  · next stream hpc =>
      cases hs
      have hold := hok stream hpc
      simp only [Stream.step]
      split
      · next hregistered =>
          refine ⟨fun h => ?_, fun h => absurd h Bool.false_ne_true,
            fun _ hnone => absurd hnone (endedBy_append_ends _ _)⟩
          exact absurd ((hold.closed h).1.symm.trans hregistered) Bool.false_ne_true
      · next hregistered =>
          refine ⟨hold.closed, fun h => absurd h hregistered, fun hopen hnone => ?_⟩
          exact absurd (hold.watching hopen hnone) hregistered
  · next hpc => exact absurd hs (hpc s)

theorem sseOk_set
    (hok : SseOk g)
    (i : Nat)
    (hp : SubscriptionOk g.shutDown p) :
    SseOk { g with subscriptions := g.subscriptions.set i p } := by
  intro j q hq
  rcases getElem?_set_cases hq with ⟨rfl, rfl⟩ | ⟨_, hq⟩
  · exact hp
  · exact hok j q hq

theorem sseOk_of_step
    {e : SseEvent}
    (hok : SseOk g)
    (hG : RegistersOpen g e)
    (hs : (sseMachine d).step g e = some g') :
    SseOk g' := by
  cases e with
  | request header jobId =>
      cases hs
      intro i p hp s hpc
      rcases getElem?_spawn hp with hp | ⟨_, rfl⟩
      · exact hok i p hp s hpc
      · cases hpc
  | act i e =>
      simp only [sseMachine, SseGateway.step] at hs
      split at hs
      · next p hp =>
          obtain ⟨p', hact, rfl⟩ := Option.map_eq_some_iff.mp hs
          refine sseOk_set hok i (subscriptionOk_of_act (hok i p hp) ?_ hact)
          rintro w user stream rfl hpc hstream hregistered
          exact hG p user stream hp hpc hstream hregistered
      · cases hs
  | close i =>
      simp only [sseMachine, SseGateway.step] at hs
      split at hs
      · next p hp =>
          split at hs
          · cases hs
          · cases hs
            exact sseOk_set hok i subscriptionOk_emitClose
      · cases hs
  | shutdown =>
      simp only [sseMachine, SseGateway.step] at hs
      split at hs
      · cases hs
      · next hnot =>
          cases hs
          intro i p hp
          rw [List.getElem?_map] at hp
          obtain ⟨q, hq, rfl⟩ := Option.map_eq_some_iff.mp hp
          have hold := hok i q hq
          rw [Bool.eq_false_iff.mpr hnot] at hold
          exact subscriptionOk_sweep hold
  | drained cleanedUp =>
      simp only [sseMachine, SseGateway.step] at hs
      split at hs
      · cases hs
        exact hok
      · cases hs
  | failsafe =>
      simp only [sseMachine, SseGateway.step] at hs
      split at hs
      · cases hs
        exact hok
      · cases hs

/-- After the sweep a stream that was not ended is one whose response is closed. -/
theorem ended_of_swept
    (hwatch : WatchOk true p s)
    (hopen : p.closed = false) :
    s.registered = false ∧ s.ended := by
  have hregistered : s.registered = false := by
    by_contra h
    exact absurd (hwatch.swept (eq_true_of_ne_false h)) (by decide)
  exact ⟨hregistered, fun hnone =>
    absurd (hregistered.symm.trans (hwatch.watching hopen hnone)) Bool.false_ne_true⟩

theorem noWatcherOutlives_of_ok
    (hok : SseOk g) :
    NoWatcherOutlives g := by
  constructor
  · intro i p stream hp hpc hclosed
    exact (hok i p hp stream hpc).closed hclosed
  · intro i p stream hp hpc hshut
    have hwatch := hok i p hp stream hpc
    rw [hshut] at hwatch
    rcases Bool.eq_false_or_eq_true p.closed with hclosed | hopen
    · exact ⟨(hwatch.closed hclosed).1, Or.inr hclosed⟩
    · obtain ⟨hregistered, hended⟩ := ended_of_swept hwatch hopen
      exact ⟨hregistered, Or.inl hended⟩

end Steps

section Results

variable {d : KeyDeps} {g : SseGateway} {es : List SseEvent}

theorem sseOk_of_run
    (hrun : Machine.Run (sseMachine d) RegistersOpen SseGateway.start es g) :
    SseOk g := by
  refine Machine.run_invariant (fun _ _ _ hok hG hs => sseOk_of_step hok hG hs) hrun ?_
  intro i p hp
  cases hp

/-- A response that is registered too late stays in the hub with its interval. -/
theorem registersOpen_of_leaves
    {g' : SseGateway} {e : SseEvent}
    (hs : (sseMachine d).step g e = some g')
    (hleaves : NoWatcherOutlives g') :
    RegistersOpen g e := by
  cases e with
  | act i e =>
      cases e with
      | lookup w =>
          intro p user stream hp hpc hstream hregistered
          simp only [sseMachine, SseGateway.step, hp, Subscription.act, hpc, hstream,
            Option.map_some, Option.some.injEq] at hs
          subst hs
          have hmem : (g.subscriptions.set i { p with pc := .opened stream })[i]? =
              some { p with pc := .opened stream } :=
            getElem?_set_self_of_some hp
          constructor
          · refine Bool.eq_false_iff.mpr fun hclosed => ?_
            have hout := hleaves.closed i _ stream hmem rfl hclosed
            exact absurd (hout.1.symm.trans hregistered) Bool.false_ne_true
          · refine Bool.eq_false_iff.mpr fun hshut => ?_
            have hout := hleaves.swept i _ stream hmem rfl hshut
            exact absurd (hout.1.symm.trans hregistered) Bool.false_ne_true
      | _ => trivial
  | _ => trivial

/--
**No watcher outlives its stream.**  For any interleaving of requests for event streams,
disconnects, polls and one shutdown: in every state of the run, an opened stream whose
response has emitted `close` is not in the hub and its interval is cleared, and once
`closeAll` has run, the hub contains no opened stream and each of them was ended or is
closed, exactly if every response that the run registers is open at that moment and the
shutdown has not begun.
-/
theorem no_watcher_outlives_iff
    (hrun : Machine.Run (sseMachine d) Machine.anyStep SseGateway.start es g) :
    (∀ before after u, es = before ++ after →
        Machine.Run (sseMachine d) Machine.anyStep SseGateway.start before u →
          NoWatcherOutlives u) ↔
      Machine.Run (sseMachine d) RegistersOpen SseGateway.start es g := by
  constructor
  · intro hleaves
    induction hrun with
    | nil => exact .nil _
    | @snoc t u es e hbefore _ hstep ih =>
        have hopen := ih fun before after v hes hv =>
          hleaves before (after ++ [e]) v (by rw [hes, List.append_assoc]) hv
        have hlast := hleaves (es ++ [e]) [] u (by simp) (.snoc hbefore trivial hstep)
        exact .snoc hopen (registersOpen_of_leaves hstep hlast) hstep
  · rintro hopen before after u rfl hu
    obtain ⟨v, hv, _⟩ := Machine.run_split hopen
    cases Machine.run_unique hu hv
    exact noWatcherOutlives_of_ok (sseOk_of_run hv)

/-- Nothing more is sent to the client: its response was ended, or an error was sent. -/
def Subscription.answered (p : Subscription) : Prop :=
  match p.pc with
  | .opened stream => stream.ended
  | .refused _ => True
  | _ => False

/-- In a state where no watcher outlives its stream, the shutdown waits for no open
stream: once the requests still under way are done and every response that was ended
has emitted `close`, the process exits by itself. -/
theorem drained_of_leaves
    (hleaves : NoWatcherOutlives g)
    (hshut : g.shutDown = true)
    (hrunning : g.exitCode = none)
    (hdone : ∀ p, p ∈ g.subscriptions →
      (∃ stream, p.pc = .opened stream) ∨ ∃ thrown, p.pc = .refused thrown)
    (hclosed : ∀ p, p ∈ g.subscriptions → p.answered → p.closed = true)
    (cleanedUp : Bool) :
    (sseMachine d).step g (.drained cleanedUp) =
      some { g with exitCode := some (if cleanedUp then 0 else 1) } := by
  have hall : ∀ p, p ∈ g.subscriptions → p.closed = true := by
    intro p hmem
    obtain ⟨i, hp⟩ := List.mem_iff_getElem?.mp hmem
    rcases hdone p hmem with ⟨stream, hpc⟩ | ⟨thrown, hpc⟩
    · rcases (hleaves.swept i p stream hp hpc hshut).2 with hended | hover
      · refine hclosed p hmem ?_
        rw [Subscription.answered, hpc]
        exact hended
      · exact hover
    · refine hclosed p hmem ?_
      rw [Subscription.answered, hpc]
      trivial
  simp only [sseMachine, SseGateway.step]
  rw [if_pos ⟨hshut, hrunning, hall⟩]

/-- The key of the sample user. -/
def sampleKeys : KeyStore :=
  { KeyStore.empty with
    rows := [⟨ownedKey, sampleUser,
      "5647bdab3eff6c5d42956a5199554c4a9b22c23748447c87729bd3f0adc62d22",
      literal "sk_live_AAAAAAAA", 1, none, none⟩] }

/-- A request for the events of the sample job, up to its lookup. -/
def untilLookup : List SseEvent :=
  [.request (some ownerHeader) sampleJob.text, .act 0 (.authenticate sampleKeys)]

/-- A stream that a shutdown ends, and the end of the process. -/
def streamThroughShutdown : List SseEvent :=
  untilLookup ++ [.act 0 (.lookup twoJobs), .act 0 (.stream .fire), .shutdown, .close 0,
    .drained true]

/-- A response is registered only while every request is open and no shutdown began. -/
def registersOpen (g : SseGateway) : SseEvent → Bool
  | .act _ (.lookup _) => !g.shutDown && g.subscriptions.all fun p => !p.closed
  | _ => true

theorem registersOpen_of_check
    {e : SseEvent}
    (h : registersOpen g e = true) :
    RegistersOpen g e := by
  cases e with
  | act i e =>
      cases e with
      | lookup w =>
          intro p user stream hp _ _ _
          obtain ⟨hshut, hall⟩ := (Bool.and_eq_true _ _).mp h
          have hclosed := List.all_eq_true.mp hall p (List.mem_of_getElem? hp)
          exact ⟨Bool.not_eq_true' _ ▸ hclosed, Bool.not_eq_true' _ ▸ hshut⟩
      | _ => trivial
  | _ => trivial

/-- The shutdown ends the stream, and the process exits by itself. -/
theorem no_watcher_outlives_shutdown :
    ∃ g : SseGateway,
      Machine.Run (sseMachine sampleKeyDeps) Machine.anyStep SseGateway.start
          streamThroughShutdown g ∧ g.exitCode = some 0 ∧
      ∀ before after u, streamThroughShutdown = before ++ after →
        Machine.Run (sseMachine sampleKeyDeps) Machine.anyStep SseGateway.start before u →
          NoWatcherOutlives u := by
  have hexec : ((sseMachine sampleKeyDeps).exec registersOpen SseGateway.start
      streamThroughShutdown).any
      (fun g => decide (g.exitCode = some 0)) = true := by
    decide +kernel
  obtain ⟨g, hopen, hg⟩ := Machine.exists_run_of_exec (fun _ _ => registersOpen_of_check) hexec
  have hrun := Machine.run_weaken (fun _ _ _ => trivial) hopen
  exact ⟨g, hrun, of_decide_eq_true hg, (no_watcher_outlives_iff hrun).mpr hopen⟩

/-- A response is in the hub, with its interval, that is closed or was not swept. -/
def Subscription.outlives (shutDown : Bool) (p : Subscription) : Bool :=
  match p.pc with
  | .opened stream => stream.registered && stream.timer && (p.closed || shutDown)
  | _ => false

theorem not_noWatcherOutlives
    (h : (g.subscriptions.any (Subscription.outlives g.shutDown)) = true) :
    ¬ NoWatcherOutlives g := by
  intro hleaves
  obtain ⟨p, hmem, hp⟩ := List.any_eq_true.mp h
  obtain ⟨i, hi⟩ := List.mem_iff_getElem?.mp hmem
  unfold Subscription.outlives at hp
  split at hp
  · next stream hpc =>
      simp only [Bool.and_eq_true, Bool.or_eq_true] at hp
      obtain ⟨⟨hregistered, _⟩, hclosed | hshut⟩ := hp
      · have hout := hleaves.closed i p stream hi hpc hclosed
        exact absurd (hout.1.symm.trans hregistered) Bool.false_ne_true
      · have hout := hleaves.swept i p stream hi hpc hshut
        exact absurd (hout.1.symm.trans hregistered) Bool.false_ne_true
  · cases hp

/-- The client leaves during the lookup, and the shutdown comes during the lookup: the
response is registered afterwards, with its interval. -/
theorem watcher_outlives :
    (∃ g : SseGateway,
      Machine.Run (sseMachine sampleKeyDeps) Machine.anyStep SseGateway.start
          (untilLookup ++ [.close 0, .act 0 (.lookup twoJobs)]) g ∧
        ¬ NoWatcherOutlives g) ∧
      ∃ g : SseGateway,
        Machine.Run (sseMachine sampleKeyDeps) Machine.anyStep SseGateway.start
            (untilLookup ++ [.shutdown, .act 0 (.lookup twoJobs)]) g ∧
          ¬ NoWatcherOutlives g := by
  have hleft : ((sseMachine sampleKeyDeps).exec (fun _ _ => true) SseGateway.start
      (untilLookup ++ [.close 0, .act 0 (.lookup twoJobs)])).any
      (fun g => g.subscriptions.any (Subscription.outlives g.shutDown)) = true := by
    decide +kernel
  have hshut : ((sseMachine sampleKeyDeps).exec (fun _ _ => true) SseGateway.start
      (untilLookup ++ [.shutdown, .act 0 (.lookup twoJobs)])).any
      (fun g => g.subscriptions.any (Subscription.outlives g.shutDown)) = true := by
    decide +kernel
  obtain ⟨g, hrun, hg⟩ := Machine.exists_anyRun_of_exec hleft
  obtain ⟨g', hrun', hg'⟩ := Machine.exists_anyRun_of_exec hshut
  exact ⟨⟨g, hrun, not_noWatcherOutlives hg⟩, g', hrun', not_noWatcherOutlives hg'⟩

end Results

end BengaliTts
