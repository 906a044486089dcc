import BengaliTts.Lib.ProcessPool
import BengaliTts.Accounts

/-!
# Concurrent registrations

`POST /v1/auth/register` looks the address up, hashes the password and inserts the
account, with an await at each of the three.  Any number of requests stand at these
awaits at the same time.  The hash is slow on purpose, so many requests pass the lookup
before the first of them inserts; the unique index then refuses the others, and the
error handler does not know that refusal.

Main results:
* `register_once_iff`: in runs in which the stores answer, each address is registered
  exactly once and every other request for it is told EMAIL_TAKEN, exactly if no
  insert runs into an account with its address;
* `register_race`: two requests for one address, of which the second is answered 500.
-/

namespace BengaliTts

open Lib

section Route

structure RegisteredBody where
  id : Uuid
  email : String
  createdAt : Nat
deriving DecidableEq

abbrev RegisterResponse := Response RegisteredBody

/-- Where a registration stands. -/
inductive RegisterPc where
  /-- The lookup of the address is next. -/
  | looking (credentials : Credentials)
  /-- The address was free; `bcrypt.hash` is under way. -/
  | hashing (credentials : Credentials)
  /-- The INSERT is next. -/
  | creating (credentials : Credentials) (passwordHash : String)
  | answered (response : RegisterResponse)
deriving DecidableEq

structure Registration where
  body : Option Json
  pc : RegisterPc

inductive RegisterEvent where
  | findUnique
  | hash (salt : List UInt8)
  /-- The INSERT, with an id that was never generated before. -/
  | create (id : Uuid) (now : Nat)
  /-- The INSERT takes effect, and its reply is lost. -/
  | createReplyLost (id : Uuid) (now : Nat)
  /-- The awaited call raises without effect. -/
  | fault

/-- The route up to its first await. -/
def Registration.start (d : AccountDeps) (body : Option Json) : Registration :=
  match validate (registerSchema d) body with
  | .ok credentials => ⟨body, .looking credentials⟩
  | .error error => ⟨body, .answered (errorHandler (.domain error))⟩

/-- The account that a registration inserts. -/
def newUser (c : Credentials) (passwordHash : String) (id : Uuid) (now : Nat) : User where
  id := id
  email := toColumn c.email
  passwordHash := passwordHash
  createdAt := now

def registeredBody (u : User) : RegisteredBody where
  id := u.id
  email := u.email
  createdAt := u.createdAt

/-- One atomic step of a registration. -/
def Registration.act (d : AccountDeps) (t : AccountTable) (p : Registration) :
    RegisterEvent → Option (AccountTable × Registration)
  | .findUnique =>
      match p.pc with
      | .looking c =>
          match t.findUnique (toColumn c.email) with
          | some _ => some (t, { p with pc := .answered (errorHandler (.domain .emailTaken)) })
          | none => some (t, { p with pc := .hashing c })
      | _ => none
  | .hash salt =>
      match p.pc with
      | .hashing c => some (t, { p with pc := .creating c (d.hash salt c.password) })
      | _ => none
  | .create id now =>
      match p.pc with
      | .creating c passwordHash =>
          if t.users.any fun u => decide (u.id = id) then
            none
          else if h : t.findUnique (newUser c passwordHash id now).email = none then
            some (t.insert (newUser c passwordHash id now) h,
              { p with
                pc := .answered (.success 201 (registeredBody (newUser c passwordHash id now))) })
          else
            some (t, { p with pc := .answered (errorHandler .uniqueViolation) })
      | _ => none
  | .createReplyLost id now =>
      match p.pc with
      | .creating c passwordHash =>
          if t.users.any fun u => decide (u.id = id) then
            none
          else if h : t.findUnique (newUser c passwordHash id now).email = none then
            some (t.insert (newUser c passwordHash id now) h,
              { p with pc := .answered (errorHandler .fault) })
          else
            none
      | _ => none
  | .fault =>
      match p.pc with
      | .answered _ => none
      | _ => some (t, { p with pc := .answered (errorHandler .fault) })

/-- The registrations of a gateway, which share the users table. -/
def registrations (d : AccountDeps) :
    Program AccountTable Registration (Option Json) RegisterEvent Empty where
  boot := Registration.start d
  act := fun _ t p e => p.act d t e
  env := fun _ b => nomatch b

abbrev Registrations := Pool AccountTable Registration
abbrev RegistrationsEvent := PoolEvent (Option Json) RegisterEvent Empty

/-- The table with no request under way. -/
def Registrations.start (t : AccountTable) : Registrations :=
  ⟨t, []⟩

end Route

section Statements

/-- The address of a request with a valid body. -/
def Registration.email? (d : AccountDeps) (p : Registration) : Option String :=
  match registerSchema d p.body with
  | .ok c => some (toColumn c.email)
  | .error _ => none

/-- A request with a valid body for this address. -/
def Registration.asksFor (d : AccountDeps) (email : String) (p : Registration) : Bool :=
  decide (p.email? d = some email)

/-- It was answered 201 with this address. -/
def Registration.registered (email : String) (p : Registration) : Bool :=
  match p.pc with
  | .answered (.success status body) => decide (status = 201) && decide (body.email = email)
  | _ => false

/--
Every address is registered exactly once, unless it was taken before, and all other
requests for it are told EMAIL_TAKEN.
-/
structure RegisteredOnce (d : AccountDeps) (t : AccountTable) (g : Registrations) : Prop where
  /-- A request for an address is answered 201 or 409 EMAIL_TAKEN. -/
  answer : ∀ (i : Nat) p r email, g.procs[i]? = some p → p.asksFor d email = true →
    p.pc = .answered r →
      p.registered email = true ∨ r = errorHandler (.domain .emailTaken)
  /-- Of an address that was taken before, none is answered 201. -/
  taken : ∀ email u, t.findUnique email = some u →
    g.procs.countP (Registration.registered email) = 0
  /-- Never are two requests for an address answered 201. -/
  atMostOnce : ∀ email, g.procs.countP (Registration.registered email) ≤ 1
  /-- Once all requests for a free address are answered, one was answered 201. -/
  once : ∀ (i : Nat) p email, t.findUnique email = none → g.procs[i]? = some p →
    p.asksFor d email = true →
    (∀ (j : Nat) (q : Registration), g.procs[j]? = some q → q.asksFor d email = true →
        ∃ r, q.pc = .answered r) →
      g.procs.countP (Registration.registered email) = 1

/-- The awaited call answers. -/
def RegisterEvent.answers : RegisterEvent → Bool
  | .createReplyLost _ _ => false
  | .fault => false
  | _ => true

/-- Every awaited call answers. -/
def StoresAnswer (_ : Registrations) : RegistrationsEvent → Prop
  | .act _ e => e.answers = true
  | _ => True

/-- No INSERT runs into an account with its address. -/
def NoAccountYet (g : Registrations) : RegistrationsEvent → Prop
  | .act i (.create _ _) => ∀ p c passwordHash, g.procs[i]? = some p →
      p.pc = .creating c passwordHash → g.world.findUnique (toColumn c.email) = none
  | _ => True

end Statements

section Steps

variable {d : AccountDeps} {t t' : AccountTable} {p p' : Registration} {e : RegisterEvent}

/-- What a step of a registration does. -/
inductive RegisterStep (d : AccountDeps) (t : AccountTable) (p : Registration) :
    RegisterEvent → AccountTable → RegisterPc → Prop
  | found {c : Credentials} {u : User}
      (hpc : p.pc = .looking c)
      (hu : t.findUnique (toColumn c.email) = some u) :
      RegisterStep d t p .findUnique t (.answered (errorHandler (.domain .emailTaken)))
  | free {c : Credentials}
      (hpc : p.pc = .looking c)
      (hu : t.findUnique (toColumn c.email) = none) :
      RegisterStep d t p .findUnique t (.hashing c)
  | hashed {c : Credentials} (salt : List UInt8)
      (hpc : p.pc = .hashing c) :
      RegisterStep d t p (.hash salt) t (.creating c (d.hash salt c.password))
  | created {c : Credentials} {passwordHash : String} {id : Uuid} {now : Nat}
      (hpc : p.pc = .creating c passwordHash)
      (hu : t.findUnique (toColumn c.email) = none) :
      RegisterStep d t p (.create id now) (t.insert (newUser c passwordHash id now) hu)
        (.answered (.success 201 (registeredBody (newUser c passwordHash id now))))
  | violated {c : Credentials} {passwordHash : String} {id : Uuid} {now : Nat} {u : User}
      (hpc : p.pc = .creating c passwordHash)
      (hu : t.findUnique (toColumn c.email) = some u) :
      RegisterStep d t p (.create id now) t (.answered (errorHandler .uniqueViolation))
  | createdReplyLost {c : Credentials} {passwordHash : String} {id : Uuid} {now : Nat}
      (hpc : p.pc = .creating c passwordHash)
      (hu : t.findUnique (toColumn c.email) = none) :
      RegisterStep d t p (.createReplyLost id now)
        (t.insert (newUser c passwordHash id now) hu) (.answered (errorHandler .fault))
  | fault
      (hpc : ∀ r, p.pc ≠ .answered r) :
      RegisterStep d t p .fault t (.answered (errorHandler .fault))

theorem registerStep_of_act
    (h : p.act d t e = some (t', p')) :
    RegisterStep d t p e t' p'.pc ∧ p'.body = p.body := by
  cases e with
  | findUnique =>
      simp only [Registration.act] at h
      split at h
      · next c hpc =>
          split at h
          · next u hu =>
              cases h
              exact ⟨.found hpc hu, rfl⟩
          · next hu =>
              cases h
              exact ⟨.free hpc hu, rfl⟩
      · cases h
  | hash salt =>
      simp only [Registration.act] at h
      split at h
      · next c hpc =>
          cases h
          exact ⟨.hashed salt hpc, rfl⟩
      · cases h
  | create id now =>
      simp only [Registration.act] at h
      split at h
      · next c passwordHash hpc =>
          split at h
          · cases h
          · split at h
            · next hu =>
                cases h
                exact ⟨.created hpc hu, rfl⟩
            · next hu =>
                cases h
                obtain ⟨u, hu⟩ := Option.ne_none_iff_exists'.mp hu
                exact ⟨.violated hpc hu, rfl⟩
      · cases h
  | createReplyLost id now =>
      simp only [Registration.act] at h
      split at h
      · next c passwordHash hpc =>
          split at h
          · cases h
          · split at h
            · next hu =>
                cases h
                exact ⟨.createdReplyLost hpc hu, rfl⟩
            · cases h
      · cases h
  | fault =>
      simp only [Registration.act] at h
      split at h
      · cases h
      · next hpc =>
          cases h
          exact ⟨.fault hpc, rfl⟩

theorem email?_of_schema
    {c : Credentials}
    (h : registerSchema d p.body = .ok c) :
    p.email? d = some (toColumn c.email) := by
  rw [Registration.email?, h]

/-- What every run keeps of a request, by where it stands. -/
def RegistrationOk (d : AccountDeps) (t : AccountTable) (p : Registration) : Prop :=
  match p.pc with
  | .looking c => registerSchema d p.body = .ok c
  | .hashing c => registerSchema d p.body = .ok c
  | .creating c _ => registerSchema d p.body = .ok c
  | .answered r =>
      (p.email? d = none ∧ ∃ error, r = errorHandler (.domain error)) ∨
        ∃ email u, p.email? d = some email ∧ t.findUnique email = some u ∧
          (p.registered email = true ∨ r = errorHandler (.domain .emailTaken) ∨
            r = errorHandler .uniqueViolation)

theorem registrationOk_start
    (body : Option Json) :
    RegistrationOk d t (Registration.start d body) := by
  unfold Registration.start validate
  split
  · next c hc =>
      split at hc
      · next hschema =>
          cases hc
          exact hschema
      · cases hc
  · next error herror =>
      split at herror
      · cases herror
      · next hschema =>
          cases herror
          left
          exact ⟨by rw [Registration.email?, hschema], _, rfl⟩

/-- An account stays in the table. -/
theorem findUnique_insert
    {u v : User} {email : String}
    (hu : t.findUnique u.email = none)
    (h : t.findUnique email = some v) :
    (t.insert u hu).findUnique email = some v := by
  obtain ⟨hv, rfl⟩ := AccountTable.findUnique_eq_some.mp h
  exact AccountTable.findUnique_eq_some.mpr ⟨List.mem_cons_of_mem _ hv, rfl⟩

theorem findUnique_kept
    {pc : RegisterPc} {email : String} {u : User}
    (hs : RegisterStep d t p e t' pc)
    (h : t.findUnique email = some u) :
    t'.findUnique email = some u := by
  cases hs
  case created => exact findUnique_insert _ h
  case createdReplyLost => exact findUnique_insert _ h
  all_goals exact h

theorem registrationOk_frame
    (hkept : ∀ email u, t.findUnique email = some u → t'.findUnique email = some u)
    (h : RegistrationOk d t p) :
    RegistrationOk d t' p := by
  unfold RegistrationOk at h ⊢
  split
  all_goals
    next hpc =>
      rw [hpc] at h
      first
        | exact h
        | exact h.imp_right fun ⟨email, u, hemail, hu, hr⟩ => ⟨email, u, hemail, hkept _ _ hu, hr⟩

theorem registrationOk_step
    (hok : RegistrationOk d t p)
    (hs : RegisterStep d t p e t' p'.pc)
    (hbody : p'.body = p.body)
    (hanswer : e.answers = true) :
    RegistrationOk d t' p' := by
  obtain ⟨body, pc⟩ := p'
  cases hbody
  cases hs with
  | found hpc hu =>
      rw [RegistrationOk, hpc] at hok
      exact Or.inr ⟨_, _, email?_of_schema hok, hu, Or.inr (Or.inl rfl)⟩
  | free hpc =>
      rw [RegistrationOk, hpc] at hok
      exact hok
  | hashed salt hpc =>
      rw [RegistrationOk, hpc] at hok
      exact hok
  | @created c passwordHash id now hpc hu =>
      rw [RegistrationOk, hpc] at hok
      refine Or.inr ⟨_, newUser c passwordHash id now, email?_of_schema hok, ?_, Or.inl ?_⟩
      · exact AccountTable.findUnique_eq_some.mpr ⟨List.mem_cons_self, rfl⟩
      · simp [Registration.registered, registeredBody, newUser]
  | violated hpc hu =>
      rw [RegistrationOk, hpc] at hok
      exact Or.inr ⟨_, _, email?_of_schema hok, hu, Or.inr (Or.inr rfl)⟩
  | createdReplyLost => cases hanswer
  | fault => cases hanswer

/-- The requests that a step answers 201 are the accounts that it inserts. -/
theorem registered_of_step
    (email : String)
    (hs : RegisterStep d t p e t' p'.pc)
    (hanswer : e.answers = true) :
    (p.registered email).toNat = 0 ∧
      t'.users.countP (fun u => decide (u.email = email)) =
        t.users.countP (fun u => decide (u.email = email)) + (p'.registered email).toNat := by
  obtain ⟨body, pc⟩ := p'
  cases hs with
  | found hpc => simp [Registration.registered, hpc, errorHandler]
  | free hpc => simp [Registration.registered, hpc]
  | hashed salt hpc => simp [Registration.registered, hpc]
  | @created c passwordHash id now hpc hu =>
      refine ⟨by simp [Registration.registered, hpc], ?_⟩
      simp only [AccountTable.insert, List.countP_cons, Registration.registered, registeredBody]
      by_cases he : (newUser c passwordHash id now).email = email <;> simp [he]
  | violated hpc => simp [Registration.registered, hpc, errorHandler]
  | createdReplyLost => cases hanswer
  | fault => cases hanswer

end Steps

section Runs

variable {d : AccountDeps} {t : AccountTable} {g g' : Registrations} {e : RegistrationsEvent}

/-- What every run from the table `t` keeps. -/
structure RegistrationsOk (d : AccountDeps) (t : AccountTable) (g : Registrations) : Prop where
  kept : ∀ email u, t.findUnique email = some u → g.world.findUnique email = some u
  procs : ∀ (i : Nat) p, g.procs[i]? = some p → RegistrationOk d g.world p
  /-- The accounts of an address are the old ones and the ones answered 201. -/
  count : ∀ email, g.world.users.countP (fun u => decide (u.email = email)) =
    t.users.countP (fun u => decide (u.email = email)) +
      g.procs.countP (Registration.registered email)

theorem registered_start
    (body : Option Json) (email : String) :
    (Registration.start d body).registered email = false := by
  unfold Registration.start
  split <;> rfl

theorem registrationsOk_of_step
    (hok : RegistrationsOk d t g)
    (hanswer : StoresAnswer g e)
    (hs : (registrations d).machine.step g e = some g') :
    RegistrationsOk d t g' := by
  cases Program.step_of_machine hs with
  | spawn body =>
      refine ⟨hok.kept, ?_, ?_⟩
      · intro i p hp
        rcases getElem?_spawn hp with hp | ⟨_, rfl⟩
        · exact hok.procs i p hp
        · exact registrationOk_start body
      · intro email
        simp only [registrations, List.countP_append, List.countP_singleton, registered_start]
        exact hok.count email
  | @act i e p p' w hp hact =>
      obtain ⟨hstep, hbody⟩ := registerStep_of_act hact
      have hanswers : e.answers = true := hanswer
      have hkept : ∀ email u, g.world.findUnique email = some u → w.findUnique email = some u :=
        fun _ _ => findUnique_kept hstep
      refine ⟨fun email u hu => hkept email u (hok.kept email u hu), ?_, ?_⟩
      · intro j q hq
        rcases getElem?_set_cases hq with ⟨rfl, rfl⟩ | ⟨_, hq⟩
        · exact registrationOk_step (hok.procs i p hp) hstep hbody hanswers
        · exact registrationOk_frame hkept (hok.procs j q hq)
      · intro email
        obtain ⟨hzero, hmore⟩ := registered_of_step email hstep hanswers
        have hset := countP_set_add (k := p') (Registration.registered email) hp
        have hcount := hok.count email
        dsimp only
        omega
  | @env b w henv => exact b.elim

theorem registrationsOk_of_run
    {es : List RegistrationsEvent}
    (hrun : Machine.Run (registrations d).machine StoresAnswer (Registrations.start t) es g) :
    RegistrationsOk d t g := by
  refine Machine.run_invariant (fun _ _ _ hok hG hs => registrationsOk_of_step hok hG hs) hrun ?_
  refine ⟨fun _ _ hu => hu, ?_, fun _ => rfl⟩
  intro i p hp
  cases hp

/-- A request was answered 500 because its address was registered meanwhile. -/
def Registrations.Refused (g : Registrations) : Prop :=
  ∃ (i : Nat) (p : Registration), g.procs[i]? = some p ∧
    p.pc = .answered (errorHandler .uniqueViolation)

/-- No refusal of the table is answered like a fault. -/
theorem domain_ne_uniqueViolation
    {β : Type} (error : DomainError) :
    (errorHandler (.domain error) : Response β) ≠ errorHandler .uniqueViolation := by
  intro h
  have hstatus : (toRendering error).status = 500 := by
    injection h
  rcases (toRendering_status error).2 with hlt | h503
  · omega
  · omega

theorem start_not_refused
    (body : Option Json) :
    (Registration.start d body).pc ≠ .answered (errorHandler .uniqueViolation) := by
  unfold Registration.start
  split
  · simp
  · next error _ =>
      intro h
      exact domain_ne_uniqueViolation error (RegisterPc.answered.inj h)

/-- An answered request takes no further step. -/
theorem not_answered_of_step
    {w w' : AccountTable} {p : Registration} {e : RegisterEvent} {pc : RegisterPc}
    {r : RegisterResponse}
    (hs : RegisterStep d w p e w' pc) :
    p.pc ≠ .answered r := by
  cases hs
  case fault hpc => exact hpc r
  all_goals simp_all

/-- A step answers 500 exactly if it is an INSERT that runs into an account. -/
theorem refused_of_registerStep
    {w w' : AccountTable} {p : Registration} {e : RegisterEvent} {pc : RegisterPc}
    (hs : RegisterStep d w p e w' pc)
    (hanswer : e.answers = true) :
    pc = .answered (errorHandler .uniqueViolation) ↔
      ∃ id now c passwordHash, e = .create id now ∧ p.pc = .creating c passwordHash ∧
        w.findUnique (toColumn c.email) ≠ none := by
  cases hs with
  | found hpc =>
      refine ⟨fun h => absurd (RegisterPc.answered.inj h) (domain_ne_uniqueViolation _), ?_⟩
      rintro ⟨_, _, _, _, h, _⟩
      cases h
  | free hpc => simp
  | hashed salt hpc => simp
  | @created c passwordHash id now hpc hu =>
      refine ⟨fun h => absurd (RegisterPc.answered.inj h).symm (errorHandler_ne_success _ _ _), ?_⟩
      rintro ⟨_, _, _, _, h, hpc', hne⟩
      cases hpc.symm.trans hpc'
      exact absurd hu hne
  | @violated c passwordHash id now u hpc hu =>
      exact ⟨fun _ => ⟨id, now, c, passwordHash, rfl, hpc, by simp [hu]⟩, fun _ => rfl⟩
  | createdReplyLost => cases hanswer
  | fault => cases hanswer

theorem refused_iff_of_step
    (hanswer : StoresAnswer g e)
    (hs : (registrations d).machine.step g e = some g') :
    ¬ g'.Refused ↔ ¬ g.Refused ∧ NoAccountYet g e := by
  cases Program.step_of_machine hs with
  | spawn body =>
      constructor
      · intro hnot
        exact ⟨fun ⟨i, p, hp, hpc⟩ => hnot ⟨i, p, getElem?_spawn_of_some hp, hpc⟩, trivial⟩
      · rintro ⟨hnot, _⟩ ⟨i, p, hp, hpc⟩
        rcases getElem?_spawn hp with hp | ⟨_, rfl⟩
        · exact hnot ⟨i, p, hp, hpc⟩
        · exact start_not_refused body hpc
  | @act i e p p' w hp hact =>
      obtain ⟨hstep, _⟩ := registerStep_of_act hact
      have hrefused := refused_of_registerStep hstep hanswer
      constructor
      · intro hnot
        have hself : p'.pc ≠ .answered (errorHandler .uniqueViolation) := fun h =>
          hnot ⟨i, p', getElem?_set_self_of_some hp, h⟩
        constructor
        · rintro ⟨j, q, hq, hpc⟩
          by_cases hij : i = j
          · subst hij
            cases hp.symm.trans hq
            exact not_answered_of_step hstep hpc
          · refine hnot ⟨j, q, ?_, hpc⟩
            rw [List.getElem?_set_ne hij]
            exact hq
        · cases e with
          | create id now =>
              intro q c passwordHash hq hpc
              cases hp.symm.trans hq
              by_contra hne
              exact hself (hrefused.mpr ⟨id, now, c, passwordHash, rfl, hpc, hne⟩)
          | _ => trivial
      · rintro ⟨hnot, hnone⟩ ⟨j, q, hq, hpc⟩
        rcases getElem?_set_cases hq with ⟨rfl, rfl⟩ | ⟨_, hq⟩
        · obtain ⟨id, now, c, passwordHash, rfl, hcreating, hne⟩ := hrefused.mp hpc
          exact hne (hnone p c passwordHash hp hcreating)
        · exact hnot ⟨j, q, hq, hpc⟩
  | @env b w henv => exact b.elim

theorem refused_iff_of_run
    {es : List RegistrationsEvent}
    (hrun : Machine.Run (registrations d).machine StoresAnswer (Registrations.start t) es g) :
    ¬ g.Refused ↔
      Machine.Run (registrations d).machine NoAccountYet (Registrations.start t) es g := by
  induction hrun with
  | nil =>
      refine ⟨fun _ => .nil _, ?_⟩
      rintro _ ⟨i, p, hp, _⟩
      cases hp
  | snoc hbefore hG hs ih =>
      rw [Machine.run_snoc_iff hbefore hs, refused_iff_of_step hG hs, ih]

theorem registeredOnce_of_ok
    (hok : RegistrationsOk d t g)
    (hnot : ¬ g.Refused) :
    RegisteredOnce d t g := by
  have hworld := fun email => g.world.countP_email_le_one email
  refine ⟨?_, ?_, ?_, ?_⟩
  · intro i p r email hp hasks hpc
    have hemail : p.email? d = some email := of_decide_eq_true hasks
    have hproc := hok.procs i p hp
    rw [RegistrationOk, hpc] at hproc
    rcases hproc with ⟨hnone, _⟩ | ⟨email', u, hemail', _, hr⟩
    · rw [hnone] at hemail
      cases hemail
    · cases hemail'.symm.trans hemail
      rcases hr with hr | hr | rfl
      · exact Or.inl hr
      · exact Or.inr hr
      · exact absurd ⟨i, p, hp, hpc⟩ hnot
  · intro email u hu
    obtain ⟨hmem, rfl⟩ := AccountTable.findUnique_eq_some.mp hu
    have hpos : 0 < t.users.countP (fun v => decide (v.email = u.email)) :=
      List.countP_pos_iff.mpr ⟨u, hmem, by simp⟩
    have hcount := hok.count u.email
    have hone := hworld u.email
    omega
  · intro email
    have hcount := hok.count email
    have hone := hworld email
    omega
  · intro i p email hfree hp hasks hall
    have hemail : p.email? d = some email := of_decide_eq_true hasks
    obtain ⟨r, hpc⟩ := hall i p hp hasks
    have hproc := hok.procs i p hp
    rw [RegistrationOk, hpc] at hproc
    have hold : t.users.countP (fun u => decide (u.email = email)) = 0 := by
      rw [List.countP_eq_zero]
      intro u hu
      simpa using AccountTable.findUnique_eq_none.mp hfree u hu
    rcases hproc with ⟨hnone, _⟩ | ⟨email', u, hemail', hu, _⟩
    · rw [hnone] at hemail
      cases hemail
    · cases hemail'.symm.trans hemail
      obtain ⟨hmem, hue⟩ := AccountTable.findUnique_eq_some.mp hu
      have hpos : 0 < g.world.users.countP (fun v => decide (v.email = email)) :=
        List.countP_pos_iff.mpr ⟨u, hmem, by simp [hue]⟩
      have hcount := hok.count email
      have hone := hworld email
      omega

/-- A request that was refused so has a valid body, and its answer is neither of the two. -/
theorem not_registeredOnce_of_refused
    (hok : RegistrationsOk d t g)
    (hrefused : g.Refused) :
    ¬ RegisteredOnce d t g := by
  intro honce
  obtain ⟨i, p, hp, hpc⟩ := hrefused
  have hproc := hok.procs i p hp
  rw [RegistrationOk, hpc] at hproc
  rcases hproc with ⟨_, error, herror⟩ | ⟨email, _, hemail, _, _⟩
  · exact domain_ne_uniqueViolation error herror.symm
  · rcases honce.answer i p _ email hp (decide_eq_true hemail) hpc with h | h
    · simp [Registration.registered, hpc, errorHandler] at h
    · exact domain_ne_uniqueViolation _ h.symm

/--
**Registration under races.**  From every users table, for any number of requests and
every interleaving at their awaits in which the stores answer: each address is
registered exactly once, or not at all if it was taken before, and every other request
with a valid body is answered 409 EMAIL_TAKEN, exactly if no INSERT of the run finds an
account with its address.
-/
theorem register_once_iff
    {es : List RegistrationsEvent}
    (hrun : Machine.Run (registrations d).machine StoresAnswer (Registrations.start t) es g) :
    RegisteredOnce d t g ↔
      Machine.Run (registrations d).machine NoAccountYet (Registrations.start t) es g := by
  have hok := registrationsOk_of_run hrun
  rw [← refused_iff_of_run hrun]
  exact ⟨fun honce hrefused => not_registeredOnce_of_refused hok hrefused honce,
    registeredOnce_of_ok hok⟩

/-- A request with the sample address. -/
def registration (password : String) : RegistrationsEvent :=
  .spawn (some (.obj [("email", .str (fromColumn "mitu@example.com")),
    ("password", .str (fromColumn password))]))

/-- The events of one request up to its INSERT, and the INSERT. -/
def untilCreate (i : Nat) : List RegistrationsEvent :=
  [.act i .findUnique, .act i (.hash [])]

/-- The check of `StoresAnswer` on one event. -/
def answering (_ : Registrations) : RegistrationsEvent → Bool
  | .act _ e => e.answers
  | _ => true

theorem storesAnswer_of_answering
    (g : Registrations) (e : RegistrationsEvent)
    (h : answering g e = true) :
    StoresAnswer g e := by
  cases e with
  | act i e => exact h
  | _ => trivial

/-- The second request asks after the first was answered: EMAIL_TAKEN. -/
def oneAfterAnother : List RegistrationsEvent :=
  [registration "password-one", registration "password-two"] ++ untilCreate 0 ++
    [.act 0 (.create sampleUserId 5), .act 1 .findUnique]

theorem register_one_after_another :
    ∃ g : Registrations,
      Machine.Run (registrations sampleAccounts).machine StoresAnswer
          (Registrations.start AccountTable.empty) oneAfterAnother g ∧
      g.procs.length = 2 ∧
      RegisteredOnce sampleAccounts AccountTable.empty g := by
  have hexec : ((registrations sampleAccounts).machine.exec answering
      (Registrations.start AccountTable.empty) oneAfterAnother).any
      (fun g => decide (g.procs.length = 2) &&
        g.procs.all fun p => decide (p.pc ≠ .answered (errorHandler .uniqueViolation))) = true := by
    decide +kernel
  obtain ⟨g, hrun, hg⟩ := Machine.exists_run_of_exec storesAnswer_of_answering hexec
  obtain ⟨hlength, hall⟩ := (Bool.and_eq_true _ _).mp hg
  refine ⟨g, hrun, of_decide_eq_true hlength, (register_once_iff hrun).mpr ?_⟩
  rw [← refused_iff_of_run hrun]
  rintro ⟨i, p, hp, hpc⟩
  exact of_decide_eq_true (List.all_eq_true.mp hall p (List.mem_of_getElem? hp)) hpc

/-- Both requests pass the lookup before the first of them inserts: the second is
answered 500. -/
theorem register_race :
    ∃ (es : List RegistrationsEvent) (g : Registrations),
      Machine.Run (registrations sampleAccounts).machine StoresAnswer
          (Registrations.start AccountTable.empty) es g ∧
        (∃ p, g.procs[1]? = some p ∧ p.asksFor sampleAccounts "mitu@example.com" = true ∧
          p.pc = .answered (errorHandler .uniqueViolation)) ∧
            ¬ RegisteredOnce sampleAccounts AccountTable.empty g := by
  have hexec : ((registrations sampleAccounts).machine.exec answering
      (Registrations.start AccountTable.empty)
      ([registration "password-one", registration "password-two"] ++ untilCreate 0 ++
        untilCreate 1 ++
          [.act 0 (.create sampleUserId 5), .act 1 (.create otherUserId 6)])).any
      (fun g => g.procs[1]?.any fun p =>
        p.asksFor sampleAccounts "mitu@example.com" &&
          decide (p.pc = .answered (errorHandler .uniqueViolation))) = true := by
    decide +kernel
  obtain ⟨g, hrun, hg⟩ := Machine.exists_run_of_exec storesAnswer_of_answering hexec
  obtain ⟨p, hp, hrefused⟩ := (Option.any_eq_true _ _).mp hg
  obtain ⟨hasks, hpc⟩ := (Bool.and_eq_true _ _).mp hrefused
  exact ⟨_, g, hrun, ⟨p, hp, hasks, of_decide_eq_true hpc⟩,
    not_registeredOnce_of_refused (registrationsOk_of_run hrun)
      ⟨1, p, hp, of_decide_eq_true hpc⟩⟩

end Runs

end BengaliTts
