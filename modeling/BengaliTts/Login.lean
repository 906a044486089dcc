import BengaliTts.BasicHeader
import BengaliTts.Provenance

/-!
# Whoever registered can log in

A registration stores the address as the database keeps text and a bcrypt hash of the
password; a login brings both back through Base64, UTF-8 and a split at a colon, in a
request whose lookup and comparison other requests interleave with.

Main result:
* `registered_accounts_log_in`: after a registration was answered 201, a request over keys
  with the header made from the registered strings is never refused as unauthenticated.
-/

namespace BengaliTts

open Lib

section Statements

/-- The header of a client with the credentials. -/
def Credentials.header (c : Credentials) : Option JsString :=
  some (clientHeader c.email c.password)

/-- Request `j` is answered what its route makes, for the account, of the table of keys at
the moment of its statement in the course of the run, or as one of which an await has
raised or the statement has lost its reply. -/
def AnsweredFor (d : PlatformDeps) (p : Platform) (fs : List PlatformEvent) (q : Platform)
    (j : Nat) (u : User) (route : KeyRoute) (response : KeysResponse) : Prop :=
  (∃ (v w : Platform) (secret : Secret) (id : Uuid) (now : Nat),
    Machine.Through (platform d) Machine.anyStep p fs q v
      (.keyStep j (.execute secret id now false)) w ∧
        response = (v.keys.run d.keys u.id secret id now route).2) ∨
  (response = errorHandler .fault ∧ (.keyStep j .fault ∈ fs ∨
    ∃ secret id now, .keyStep j (.execute secret id now true) ∈ fs))

/-- What a registration knows of its account, by where it stands. -/
def Registration.Knows (d : AccountDeps) (t : AccountTable) (p : Registration) : Prop :=
  match p.pc with
  | .looking c => registerSchema d p.body = .ok c
  | .hashing c => registerSchema d p.body = .ok c
  | .creating c passwordHash => registerSchema d p.body = .ok c ∧
      ∃ salt, passwordHash = d.hash salt c.password
  | .answered (.success _ body) => ∃ (c : Credentials) (salt : Bytes) (u : User),
      registerSchema d p.body = .ok c ∧ t.findUnique (toColumn c.email) = some u ∧
        u.passwordHash = d.hash salt c.password ∧ body = registeredBody u
  | .answered (.failure _ _ _) => True

/-- A request with the credentials of an account, by where it stands; `good` says how it
may be answered. -/
def KeyRequest.LogsIn (c : Credentials) (u : User) (good : KeysResponse → Prop)
    (r : KeyRequest) : Prop :=
  match r.pc with
  | .looking email password => email = c.email ∧ password = fromColumn (toColumn c.password)
  | .comparing found password => found = some u ∧ password = fromColumn (toColumn c.password)
  | .authenticated user => user = ⟨u.id, u.email⟩
  | .answered response => good response

end Statements

section Registered

variable {d : AccountDeps} {t t' : AccountTable} {p p' : Registration} {e : RegisterEvent}

theorem knows_start
    (body : Option Json) :
    (Registration.start d body).Knows d t := by
  unfold Registration.start validate
  split
  · next c hc =>
      split at hc
      · next hschema =>
          cases hc
          exact hschema
      · cases hc
  · exact True.intro

theorem knows_frame
    (hkept : ∀ email u, t.findUnique email = some u → t'.findUnique email = some u)
    (h : p.Knows d t) :
    p.Knows d t' := by
  obtain ⟨body, pc⟩ := p
  cases pc with
  | looking c => exact h
  | hashing c => exact h
  | creating c passwordHash => exact h
  | answered response =>
      cases response with
      | success status body =>
          obtain ⟨c, salt, u, hschema, hu, hhash, hbody⟩ := h
          exact ⟨c, salt, u, hschema, hkept _ _ hu, hhash, hbody⟩
      | failure => trivial

theorem knows_of_step
    (h : p.Knows d t)
    (hs : RegisterStep d t p e t' p'.pc)
    (hbody : p'.body = p.body) :
    p'.Knows d t' := by
  obtain ⟨body, pc⟩ := p'
  cases hbody
  cases hs with
  | found hpc => exact True.intro
  | free hpc =>
      rw [Registration.Knows, hpc] at h
      exact h
  | hashed salt hpc =>
      rw [Registration.Knows, hpc] at h
      exact ⟨h, salt, rfl⟩
  | @created c passwordHash id now hpc hu =>
      rw [Registration.Knows, hpc] at h
      obtain ⟨hschema, salt, rfl⟩ := h
      refine ⟨c, salt, newUser c _ id now, hschema, ?_, rfl, rfl⟩
      exact AccountTable.findUnique_eq_some.mpr ⟨List.mem_cons_self, rfl⟩
  | violated hpc => exact True.intro
  | createdReplyLost hpc => exact True.intro
  | fault hpc => exact True.intro

def knowsOutline (d : AccountDeps) :
    Outline (registrations d) Machine.anyStep (fun _ => True) where
  inv := fun _ => True
  assert := fun _ t p => p.Knows d t
  spawn := fun _ body _ _ => knows_start body
  act := by
    intro g i e p p' t _ _ hall hp hact
    obtain ⟨hstep, hbody⟩ := registerStep_of_act hact
    exact ⟨trivial, knows_of_step (hall.2 i p hp) hstep hbody⟩
  frame := by
    intro g i j e p p' q t _ _ hall hp hact _ hq
    have hstep := (registerStep_of_act hact).1
    exact knows_frame (fun _ _ => findUnique_kept hstep) (hall.2 j q hq)
  env := fun _ b _ _ _ _ _ => b.elim

theorem knows_of_run
    {es : List RegistrationsEvent} {g : Registrations}
    (hrun : Machine.Run (registrations d).machine Machine.anyStep
      (Registrations.start AccountTable.empty) es g) :
    ∀ (i : Nat) p, g.procs[i]? = some p → p.Knows d g.world := by
  refine ((knowsOutline d).run (fun _ _ _ => trivial) ⟨trivial, ?_⟩ hrun).2
  intro i p hp
  cases hp

end Registered

section Requests

variable {d : PlatformDeps} {p q : Platform} {c : Credentials} {u : User}

/-- What a step does to the requests over keys. -/
theorem keyRequests_of_step
    {e : PlatformEvent}
    (hs : (platform d).step p e = some q) :
    q.keyRequests = p.keyRequests ∨
      (∃ header route, q.keyRequests = p.keyRequests ++ [KeyRequest.start header route]) ∨
        ∃ (i : Nat) (r r' : KeyRequest) (e' : KeyRequestEvent) (s : KeyStore),
          e = .keyStep i e' ∧ p.keyRequests[i]? = some r ∧
            r.act d p.registrations.world p.keys e' = some (s, r') ∧
              q.keyRequests = p.keyRequests.set i r' := by
  cases e with
  | keyRequest header route =>
      cases hs
      exact Or.inr (Or.inl ⟨header, route, rfl⟩)
  | keyStep i e' =>
      simp only [platform, platformStep] at hs
      split at hs
      · cases hs
      · next r hr =>
          obtain ⟨⟨s, r'⟩, hact, hq⟩ := Option.map_eq_some_iff.mp hs
          cases hq
          exact Or.inr (Or.inr ⟨i, r, r', e', s, rfl, hr, hact, rfl⟩)
  | _ =>
      left
      cases platformStep_of_step hs <;> rfl

theorem basicHeader_of_credentials
    {d : AccountDeps}
    (hc : c.Valid d) :
    basicHeader c.header = some (c.email, fromColumn (toColumn c.password)) := by
  have hprefix : (literal "Basic ").isPrefixOf (clientHeader c.email c.password) = true :=
    List.isPrefixOf_iff_prefix.mpr ⟨_, rfl⟩
  rw [Credentials.header, basicHeader, if_pos hprefix, (credentials_of_clientHeader hc).1]

/-- The password that is decoded compares with the hash. -/
theorem compare_of_credentials
    {d : AccountDeps} {passwordHash : String}
    (hc : c.Valid d)
    (hhash : ∃ salt, passwordHash = d.hash salt c.password) :
    d.compare (fromColumn (toColumn c.password)) passwordHash = true := by
  obtain ⟨salt, rfl⟩ := hhash
  rw [d.compare_hash, (credentials_of_clientHeader hc).2]

theorem hasNul_email
    {d : AccountDeps}
    (hc : c.Valid d) :
    hasNul c.email = false := by
  rw [← Bool.not_eq_true, hasNul, List.contains_iff_mem]
  exact fun h => absurd (d.isEmail_units c.email hc.email 0 h) (by decide)

variable {good good' : KeysResponse → Prop}

/-- The request of a client with the credentials starts at the lookup. -/
theorem logsIn_start
    {d : AccountDeps}
    (hc : c.Valid d)
    (route : KeyRoute) :
    (KeyRequest.start c.header route).LogsIn c u good := by
  rw [start_of_header, basicHeader_of_credentials hc]
  exact ⟨rfl, rfl⟩

theorem logsIn_mono
    {r : KeyRequest}
    (hgood : ∀ response, good response → good' response)
    (h : r.LogsIn c u good) :
    r.LogsIn c u good' := by
  obtain ⟨header, route, pc, outcome⟩ := r
  cases pc with
  | answered response => exact hgood response h
  | _ => exact h

/-- A step of a request that logs in is answered by its statement, or has failed. -/
theorem logsIn_of_act
    {t : AccountTable} {s s' : KeyStore} {r r' : KeyRequest} {e : KeyRequestEvent}
    (hc : c.Valid d.accounts)
    (hu : t.findUnique (toColumn c.email) = some u)
    (hhash : ∃ salt, u.passwordHash = d.accounts.hash salt c.password)
    (h : r.LogsIn c u good)
    (hact : r.act d t s e = some (s', r'))
    (hdone : ∀ secret id now, e = .execute secret id now false →
      good' (s.run d.keys u.id secret id now r.route).2)
    (hfails : (e = .fault ∨ ∃ secret id now, e = .execute secret id now true) →
      good' (errorHandler .fault)) :
    r'.LogsIn c u good' := by
  obtain ⟨header, route, pc, outcome⟩ := r
  cases e with
  | findUnique =>
      cases pc with
      | looking email password =>
          obtain ⟨rfl, rfl⟩ := h
          simp only [KeyRequest.act, hasNul_email hc, hu] at hact
          cases hact
          exact ⟨rfl, rfl⟩
      | comparing => cases hact
      | authenticated => cases hact
      | answered => cases hact
  | compare decoySalt =>
      cases pc with
      | comparing found password =>
          obtain ⟨rfl, rfl⟩ := h
          have hverdict : passwordVerdict d.accounts (some u) decoySalt
              (fromColumn (toColumn c.password)) = .ok ⟨u.id, u.email⟩ := by
            simp only [passwordVerdict, compare_of_credentials hc hhash]
          simp only [KeyRequest.act, hverdict] at hact
          cases hact
          rfl
      | looking => cases hact
      | authenticated => cases hact
      | answered => cases hact
  | execute secret id now replyLost =>
      cases pc with
      | authenticated user =>
          cases h
          cases hact
          cases replyLost with
          | false => exact hdone secret id now rfl
          | true => exact hfails (Or.inr ⟨secret, id, now, rfl⟩)
      | looking => cases hact
      | comparing => cases hact
      | answered => cases hact
  | fault =>
      cases pc with
      | answered => cases hact
      | looking =>
          cases hact
          exact hfails (Or.inl rfl)
      | comparing =>
          cases hact
          exact hfails (Or.inl rfl)
      | authenticated =>
          cases hact
          exact hfails (Or.inl rfl)

/-- Requests that arrived later and carry the credentials log in. -/
def LaterRequestsLogIn (d : PlatformDeps) (p : Platform) (c : Credentials) (u : User)
    (fs : List PlatformEvent) (q : Platform) : Prop :=
  ∀ (j : Nat) (r : KeyRequest), p.keyRequests.length ≤ j → q.keyRequests[j]? = some r →
    r.header = c.header → r.LogsIn c u (AnsweredFor d p fs q j u r.route)

theorem request_of_act
    {t : AccountTable} {s s' : KeyStore} {r r' : KeyRequest} {e : KeyRequestEvent}
    (hact : r.act d t s e = some (s', r')) :
    r'.header = r.header ∧ r'.route = r.route := by
  cases keyRequestStep_of_act hact <;> exact ⟨rfl, rfl⟩

/-- An answer stays what it was while the run goes on. -/
theorem answeredFor_snoc
    {v w : Platform} {fs : List PlatformEvent} {e : PlatformEvent} {j : Nat} {route : KeyRoute}
    {response : KeysResponse}
    (hs : (platform d).step v e = some w)
    (h : AnsweredFor d p fs v j u route response) :
    AnsweredFor d p (fs ++ [e]) w j u route response := by
  rcases h with ⟨v', w', secret, id, now, hthrough, hresponse⟩ |
    ⟨hresponse, hfault | ⟨secret, id, now, hlost⟩⟩
  · exact Or.inl ⟨v', w', secret, id, now, Machine.through_snoc hthrough trivial hs, hresponse⟩
  · exact Or.inr ⟨hresponse, Or.inl (List.mem_append_left _ hfault)⟩
  · exact Or.inr ⟨hresponse, Or.inr ⟨secret, id, now, List.mem_append_left _ hlost⟩⟩

theorem laterRequestsLogIn_of_step
    {v w : Platform} {fs : List PlatformEvent} {e : PlatformEvent}
    (hc : c.Valid d.accounts)
    (hu : v.registrations.world.findUnique (toColumn c.email) = some u)
    (hhash : ∃ salt, u.passwordHash = d.accounts.hash salt c.password)
    (hrun : Machine.Run (platform d) Machine.anyStep p fs v)
    (h : LaterRequestsLogIn d p c u fs v)
    (hs : (platform d).step v e = some w) :
    LaterRequestsLogIn d p c u (fs ++ [e]) w := by
  intro j r hj hr hheader
  have hold : v.keyRequests[j]? = some r →
      r.LogsIn c u (AnsweredFor d p (fs ++ [e]) w j u r.route) := fun hr =>
    logsIn_mono (fun _ => answeredFor_snoc hs) (h j r hj hr hheader)
  rcases keyRequests_of_step hs with hsame | ⟨header, route, hnew⟩ |
    ⟨i, r₀, r₁, e', s, rfl, hr₀, hact, hset⟩
  · rw [hsame] at hr
    exact hold hr
  · rw [hnew] at hr
    rcases getElem?_spawn hr with hr | ⟨_, rfl⟩
    · exact hold hr
    · have hgiven : header = c.header := by
        rw [start_of_header] at hheader
        split at hheader <;> exact hheader
      rw [hgiven]
      exact logsIn_start hc route
  · rw [hset] at hr
    rcases getElem?_set_cases hr with ⟨rfl, rfl⟩ | ⟨_, hr⟩
    · obtain ⟨hsame, hroute⟩ := request_of_act hact
      rw [hroute]
      refine logsIn_of_act hc hu hhash (h i r₀ hj hr₀ (hsame.symm.trans hheader)) hact ?_ ?_
      · rintro secret id now rfl
        exact Or.inl ⟨v, w, secret, id, now, Machine.through_last hrun trivial hs, rfl⟩
      · have hlast : PlatformEvent.keyStep i e' ∈ fs ++ [.keyStep i e'] :=
          List.mem_append_right _ (List.mem_singleton_self _)
        rintro (rfl | ⟨secret, id, now, rfl⟩)
        · exact Or.inr ⟨rfl, Or.inl hlast⟩
        · exact Or.inr ⟨rfl, Or.inr ⟨secret, id, now, hlast⟩⟩
    · exact hold hr

end Requests

section Results

variable {d : PlatformDeps} {p q : Platform} {es fs : List PlatformEvent}

/--
**Login.**  Once a registration is answered with a success, its body had an address and a
password, and however the platform goes on: Basic authentication accepts the header made
from the two as the account of the answer, whatever the password is made of, colons and
unpaired surrogates included; and a request over keys with this header that arrives later,
whatever happens between its lookup, its comparison and its statement, is answered what
the route makes, for that account, of the table of keys at the moment of its statement,
unless something that this very request awaits raises or loses its reply.
-/
theorem registered_accounts_log_in
    {i status : Nat} {r : Registration} {body : RegisteredBody}
    (hrun : PlatformRun d es p)
    (hr : p.registrations.procs[i]? = some r)
    (hpc : r.pc = .answered (.success status body))
    (hfs : Machine.Run (platform d) Machine.anyStep p fs q) :
    ∃ c u, registerSchema d.accounts r.body = .ok c ∧ registeredBody u = body ∧
      AcceptedAs d.accounts q.registrations.world c.header u ∧
        ∀ (j : Nat) k response, p.keyRequests.length ≤ j → q.keyRequests[j]? = some k →
          k.header = c.header → k.pc = .answered response →
            AnsweredFor d p fs q j u k.route response := by
  obtain ⟨_, hregistrations⟩ := registrations_of_run hrun
  have hknows := knows_of_run hregistrations i r hr
  rw [Registration.Knows, hpc] at hknows
  obtain ⟨c, salt, u, hschema, hu, hhash, rfl⟩ := hknows
  have hc := valid_of_registerSchema hschema
  have hlater := later_of_run hrun hfs
  refine ⟨c, u, hschema, rfl, ?_, ?_⟩
  · refine acceptedAs_later hlater.accounts (acceptedAs_of_compare
      (basicHeader_of_credentials hc) (hasNul_email hc) hu ?_)
    exact compare_of_credentials hc ⟨salt, hhash⟩
  · have hlogins : LaterRequestsLogIn d p c u fs q := by
      refine Machine.run_trace_invariant (I := LaterRequestsLogIn d p c u) ?_ hfs ?_
      · intro gs v e w hgs hI _ hs
        exact laterRequestsLogIn_of_step hc ((later_of_run hrun hgs).accounts _ _ hu)
          ⟨salt, hhash⟩ hgs hI hs
      · intro j k hj hk
        rw [List.getElem?_eq_none hj] at hk
        cases hk
    intro j k response hj hk hheader hanswered
    have hlogs := hlogins j k hj hk hheader
    rw [KeyRequest.LogsIn, hanswered] at hlogs
    exact hlogs

end Results

section Samples

theorem success_of_registered
    {email : String} {r : Registration}
    (h : r.registered email = true) :
    ∃ status body, r.pc = .answered (.success status body) := by
  unfold Registration.registered at h
  split at h
  · next status body hpc => exact ⟨status, body, hpc⟩
  · cases h

/-- A registration with a colon in its password. -/
def colonRegistration : List RegistrationsEvent :=
  registration "পাস:ওয়ার্ড" :: untilCreate 0 ++ [.act 0 (.create sampleUserId 5)]

/-- A request over keys with its credentials. -/
def loginEvents : List PlatformEvent :=
  [.keyRequest (Credentials.header ⟨fromColumn "mitu@example.com", fromColumn "পাস:ওয়ার্ড"⟩)
      .list,
    .keyStep 0 .findUnique, .keyStep 0 (.compare []),
    .keyStep 0 (.execute ownerSecret ownedKey 1 false)]

theorem registered_accounts_log_in_sample :
    ∃ (p q : Platform) (c : Credentials) (u : User),
      PlatformRun samplePlatform (colonRegistration.map .registration) p ∧
        Machine.Run (platform samplePlatform) Machine.anyStep p loginEvents q ∧
          q.keyRequests.length = 1 ∧ AcceptedAs sampleAccounts q.registrations.world c.header u ∧
            ∀ (j : Nat) k response, q.keyRequests[j]? = some k → k.header = c.header →
              k.pc = .answered response →
                AnsweredFor samplePlatform p loginEvents q j u k.route response := by
  have hexec : ((platform samplePlatform).exec (fun _ _ => true) Platform.initial
      (colonRegistration.map PlatformEvent.registration)).any
      (fun p => decide (p.keyRequests.length = 0) &&
        (p.registrations.procs[0]?.any fun r => r.registered "mitu@example.com") &&
          ((platform samplePlatform).exec (fun _ _ => true) p loginEvents).any
            fun q => decide (q.keyRequests.length = 1)) = true := by
    decide +kernel
  obtain ⟨p, hrun, hp⟩ := Machine.exists_anyRun_of_exec hexec
  obtain ⟨hfirst, hlater⟩ := (Bool.and_eq_true _ _).mp hp
  obtain ⟨hnone, hregistered⟩ := (Bool.and_eq_true _ _).mp hfirst
  obtain ⟨r, hr, hsuccess⟩ := (Option.any_eq_true _ _).mp hregistered
  obtain ⟨status, body, hpc⟩ := success_of_registered hsuccess
  obtain ⟨q, hfs, hq⟩ := Machine.exists_anyRun_of_exec hlater
  obtain ⟨c, u, _, _, haccepted, hlogins⟩ := registered_accounts_log_in hrun hr hpc hfs
  refine ⟨p, q, c, u, hrun, hfs, of_decide_eq_true hq, haccepted, fun j k response hk => ?_⟩
  have hstart : p.keyRequests.length ≤ j := by
    rw [of_decide_eq_true hnone]
    exact Nat.zero_le j
  exact hlogins j k response hstart hk

end Samples

end BengaliTts
