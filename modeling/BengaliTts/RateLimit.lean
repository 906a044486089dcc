import BengaliTts.Lib.Machine
import BengaliTts.Lib.TokenBucket
import BengaliTts.Service
import Mathlib.Data.Rat.Floor

/-!
# The rate limit

Every gateway asks Redis for a token before it opens a submission's transaction.
The bucket is a hash under a key of the user, and the script that takes a token
runs atomically: it reads Redis's clock, refills what it finds, takes a token if
there is one, writes the bucket back in either case and sets the key to expire
a minute later.  A missing key reads as a full bucket.

Arithmetic is exact here.  The clock counts microseconds and never goes back; the
script sees it in whole milliseconds.  A key whose time has come may be removed
at once or later, but after that time it is never read again.

The invariant relates the stored key to a plain bucket that is never written
back, never expires and changes at granted calls only: from now on both hold the
same number of tokens at any time.

Main results:
* `granted_in_window`: a user's granted calls in any window are at most the
  capacity and the refill of the window;
* `script_refines_bucket`: the replies of the script are those of the plain
  bucket, so that nobody can tell an expiry or a refused call.
-/

namespace BengaliTts

open Lib

section Script

/-- The hash at a user's key, and when the key expires. -/
structure RateKey where
  tokens : ℚ
  stampMs : Nat
  expiresAt : Nat
deriving DecidableEq

def rateKey (user : Uuid) : String :=
  "rate:" ++ user.text

/-- `TIME`: seconds and microseconds. -/
def redisTime (clock : Nat) : Nat × Nat :=
  (clock / 1000000, clock % 1000000)

/-- `time[1] * 1000 + math.floor(time[2] / 1000)`. -/
def nowMs (clock : Nat) : Nat :=
  (redisTime clock).1 * 1000 + (redisTime clock).2 / 1000

/-- `TAKE_TOKEN`: from what the key holds to `{allowed, retry_after_ms}` and to
what the key is set to. -/
def takeTokenScript (perMinute now : Nat) (state : Option RateKey) : (Nat × Nat) × RateKey :=
  let capacity : ℚ := perMinute
  let refillPerMs : ℚ := capacity / 60000
  let tokens : ℚ := (state.map RateKey.tokens).getD capacity
  let stampMs : Nat := (state.map RateKey.stampMs).getD now
  let tokens := min capacity (tokens + ((now : ℚ) - (stampMs : ℚ)) * refillPerMs)
  if tokens ≥ 1 then
    ((1, 0), ⟨tokens - 1, now, now + 60000⟩)
  else
    ((0, ⌈(1 - tokens) / refillPerMs⌉.toNat), ⟨tokens, now, now + 60000⟩)

end Script

section Store

/-- A call of `takeRateLimitToken` and what the script replied. -/
structure RateCall where
  user : Uuid
  clock : Nat
  allowed : Nat
  retryAfterMs : Nat
deriving DecidableEq

/-- The part of Redis that the rate limit uses; `calls` is a history, oldest call
first. -/
structure RateStore where
  clock : Nat
  keys : String → Option RateKey
  calls : List RateCall

def RateStore.initial : RateStore :=
  ⟨0, fun _ => none, []⟩

inductive RateEvent where
  | tick (us : Nat)
  /-- Redis removes a key whose time has come. -/
  | expire (key : String)
  | call (user : Uuid)

/-- What a command finds at a key; a key whose time has passed is gone. -/
def RateStore.read (s : RateStore) (key : String) : Option RateKey :=
  (s.keys key).filter fun k => decide (nowMs s.clock ≤ k.expiresAt)

def RateStore.step (config : Config) (s : RateStore) : RateEvent → Option RateStore
  | .tick us =>
      some { s with clock := s.clock + us }
  | .expire key =>
      if (s.keys key).any fun k => decide (k.expiresAt ≤ nowMs s.clock) then
        some { s with keys := Function.update s.keys key none }
      else
        none
  | .call user =>
      let result := takeTokenScript config.TTS_RATE_LIMIT_PER_MINUTE (nowMs s.clock)
        (s.read (rateKey user))
      some
        { s with
          keys := Function.update s.keys (rateKey user) (some result.2)
          calls := s.calls ++ [⟨user, s.clock, result.1.1, result.1.2⟩] }

def rateMachine (config : Config) : Machine RateStore RateEvent where
  step := RateStore.step config

/-- A run of the rate limit from the empty store. -/
abbrev RateRun (config : Config) (es : List RateEvent) (s : RateStore) : Prop :=
  Machine.Run (rateMachine config) Machine.anyStep RateStore.initial es s

/-- The calls of one user. -/
def RateStore.callsOf (s : RateStore) (user : Uuid) : List RateCall :=
  s.calls.filter fun call => decide (call.user = user)

def RateCall.reply (call : RateCall) : Nat × Nat :=
  (call.allowed, call.retryAfterMs)

/-- The time of a call as the script saw it. -/
def RateCall.nowMs (call : RateCall) : Nat :=
  BengaliTts.nowMs call.clock

/-- The gateway lets the request pass. -/
def RateCall.granted (call : RateCall) : Bool :=
  (takeRateLimitToken call.allowed call.retryAfterMs).isOk

end Store

section Reference

/-- Tokens per millisecond. -/
def refillPerMs (perMinute : Nat) : ℚ :=
  (perMinute : ℚ) / 60000

/-- The reply to a call that finds so many tokens. -/
def replyAt (perMinute : Nat) (tokens : ℚ) : Nat × Nat :=
  if 1 ≤ tokens then
    (1, 0)
  else
    (0, ⌈(1 - tokens) / refillPerMs perMinute⌉.toNat)

/-- What a bucket holds at a time. -/
abbrev tokensAt (perMinute : Nat) (b : Bucket ℚ) (now : Nat) : ℚ :=
  b.level (perMinute : ℚ) (refillPerMs perMinute) (now : ℚ)

/-- A full bucket. -/
def fullBucket (perMinute : Nat) : Bucket ℚ :=
  ⟨perMinute, 0⟩

/-- A plain bucket that starts full and changes at granted calls only: the times
of its calls and what they find. -/
def plainTrace (perMinute : Nat) (times : List Nat) : List (ℚ × ℚ) :=
  Bucket.trace (perMinute : ℚ) (refillPerMs perMinute) (fullBucket perMinute)
    (times.map Nat.cast)

/-- The replies of the plain bucket. -/
def plainReplies (perMinute : Nat) (times : List Nat) : List (Nat × Nat) :=
  (plainTrace perMinute times).map fun call => replyAt perMinute call.2

/-- The plain bucket after calls at the given times. -/
def plainAfter (perMinute : Nat) (times : List Nat) : Bucket ℚ :=
  (fullBucket perMinute).after (perMinute : ℚ) (refillPerMs perMinute)
    (times.map Nat.cast)

end Reference

section Arithmetic

variable {perMinute : Nat}

theorem nowMs_eq
    (clock : Nat) :
    nowMs clock = clock / 1000 := by
  unfold nowMs redisTime
  omega

theorem nowMs_mono
    {a b : Nat}
    (h : a ≤ b) :
    nowMs a ≤ nowMs b := by
  rw [nowMs_eq, nowMs_eq]
  omega

theorem refillPerMs_nonneg
    (perMinute : Nat) :
    0 ≤ refillPerMs perMinute :=
  div_nonneg (Nat.cast_nonneg _) (by norm_num)

theorem rateKey_injective
    {u v : Uuid}
    (h : rateKey u = rateKey v) :
    u = v := by
  have hl := congrArg String.toList h
  simp only [rateKey, String.toList_append, List.append_cancel_left_eq] at hl
  exact Uuid.ext (String.toList_inj.mp hl)

/-- The bucket that a key stands for. -/
def RateKey.bucket (k : RateKey) : Bucket ℚ :=
  ⟨k.tokens, k.stampMs⟩

/-- What the script finds: the key's bucket, or a full one. -/
def foundBucket (perMinute now : Nat) (state : Option RateKey) : Bucket ℚ :=
  (state.map RateKey.bucket).getD ⟨perMinute, now⟩

/-- What the script replies and writes, by the level of the bucket it finds. -/
theorem takeTokenScript_eq
    (now : Nat) (state : Option RateKey)
    {level : ℚ}
    (hlevel : tokensAt perMinute (foundBucket perMinute now state) now = level) :
    takeTokenScript perMinute now state =
      (replyAt perMinute level,
        ⟨if 1 ≤ level then level - 1 else level, now, now + 60000⟩) := by
  subst hlevel
  have hcase : ∀ tokens : ℚ,
      (if tokens ≥ 1 then
          (((1, 0) : Nat × Nat), (⟨tokens - 1, now, now + 60000⟩ : RateKey))
        else
          ((0, ⌈(1 - tokens) / ((perMinute : ℚ) / 60000)⌉.toNat), ⟨tokens, now, now + 60000⟩)) =
        (replyAt perMinute tokens, ⟨if 1 ≤ tokens then tokens - 1 else tokens, now, now + 60000⟩) := by
    intro tokens
    unfold replyAt
    by_cases htoken : 1 ≤ tokens
    · rw [if_pos htoken, if_pos htoken, if_pos htoken]
    · rw [if_neg htoken, if_neg htoken, if_neg htoken]
      rfl
  cases state with
  | none => exact hcase _
  | some k => exact hcase _

end Arithmetic

section Invariant

variable {config : Config} {s t : RateStore} {user : Uuid} {perMinute : Nat}

/-- The times of a user's calls. -/
def RateStore.timesOf (s : RateStore) (user : Uuid) : List Nat :=
  (s.callsOf user).map RateCall.nowMs

/-- What a user's key holds at a time. -/
def RateStore.levelAt (s : RateStore) (perMinute : Nat) (user : Uuid) (u : Nat) : ℚ :=
  match s.keys (rateKey user) with
  | none => perMinute
  | some k => tokensAt perMinute k.bucket u

/-- What is known of a key that the script wrote. -/
structure KeyOk (perMinute now : Nat) (k : RateKey) : Prop where
  nonneg : 0 ≤ k.tokens
  le : k.tokens ≤ perMinute
  stamp : k.stampMs ≤ now
  expires : k.expiresAt = k.stampMs + 60000

/-- The stored buckets and the replies given so far agree with the plain bucket
of each user. -/
structure RateOk (perMinute : Nat) (s : RateStore) : Prop where
  keys : ∀ key k, s.keys key = some k → KeyOk perMinute (nowMs s.clock) k
  past : ∀ call, call ∈ s.calls → call.clock ≤ s.clock
  sorted : s.calls.Pairwise fun a b => a.clock ≤ b.clock
  replies : ∀ user, (s.callsOf user).map RateCall.reply = plainReplies perMinute (s.timesOf user)
  level : ∀ user u, nowMs s.clock ≤ u →
    s.levelAt perMinute user u = tokensAt perMinute (plainAfter perMinute (s.timesOf user)) u

/-- A key that expires was full again. -/
theorem level_of_expired
    {now u : Nat} {k : RateKey}
    (hok : KeyOk perMinute now k)
    (hu : k.expiresAt ≤ u) :
    tokensAt perMinute k.bucket u = perMinute := by
  apply Bucket.level_of_filled
  have hminute : (60000 : ℚ) ≤ (u : ℚ) - k.stampMs := by
    have hle : k.stampMs + 60000 ≤ u := hok.expires ▸ hu
    have hcast : ((k.stampMs + 60000 : ℕ) : ℚ) ≤ (u : ℚ) := Nat.cast_le.mpr hle
    push_cast at hcast
    linarith
  have hrefill : 60000 * refillPerMs perMinute = perMinute := by
    unfold refillPerMs
    ring
  have hmul := mul_le_mul_of_nonneg_right hminute (refillPerMs_nonneg perMinute)
  have htokens := hok.nonneg
  simp only [RateKey.bucket]
  linarith

/-- What a call finds is what the key holds, expired or not. -/
theorem level_foundBucket
    {u : Nat}
    (hkeys : ∀ key k, s.keys key = some k → KeyOk perMinute (nowMs s.clock) k)
    (hu : nowMs s.clock ≤ u) :
    tokensAt perMinute (foundBucket perMinute (nowMs s.clock) (s.read (rateKey user))) u =
      s.levelAt perMinute user u := by
  have hfull : tokensAt perMinute ⟨perMinute, nowMs s.clock⟩ u = perMinute := by
    apply Bucket.level_of_filled
    have hcast : ((nowMs s.clock : ℕ) : ℚ) ≤ (u : ℚ) := Nat.cast_le.mpr hu
    have hmul := mul_nonneg (sub_nonneg.mpr hcast) (refillPerMs_nonneg perMinute)
    linarith
  unfold RateStore.levelAt RateStore.read foundBucket
  cases hkey : s.keys (rateKey user) with
  | none => exact hfull
  | some k =>
      dsimp only
      by_cases halive : nowMs s.clock ≤ k.expiresAt
      · rw [Option.filter_some_pos (by simpa using halive)]
        rfl
      · rw [Option.filter_some_neg (by simpa using halive),
          level_of_expired (hkeys _ _ hkey) (by omega)]
        exact hfull

theorem plainAfter_snoc
    (times : List Nat) (now : Nat) :
    plainAfter perMinute (times ++ [now]) =
      (plainAfter perMinute times).take (perMinute : ℚ) (refillPerMs perMinute) (now : ℚ) := by
  unfold plainAfter
  rw [List.map_append, Bucket.after_append]
  rfl

theorem plainReplies_snoc
    (times : List Nat) (now : Nat) :
    plainReplies perMinute (times ++ [now]) =
      plainReplies perMinute times ++
        [replyAt perMinute (tokensAt perMinute (plainAfter perMinute times) now)] := by
  unfold plainReplies plainTrace
  rw [List.map_append, Bucket.trace_append, List.map_append]
  rfl

theorem callsOf_snoc_self
    (s : RateStore) (keys : String → Option RateKey) (call : RateCall) :
    RateStore.callsOf ⟨s.clock, keys, s.calls ++ [call]⟩ call.user =
      s.callsOf call.user ++ [call] := by
  simp [RateStore.callsOf]

theorem callsOf_snoc_of_ne
    (s : RateStore) (keys : String → Option RateKey) {call : RateCall}
    (hne : call.user ≠ user) :
    RateStore.callsOf ⟨s.clock, keys, s.calls ++ [call]⟩ user = s.callsOf user := by
  simp [RateStore.callsOf, hne]

/-- The key that a call leaves holds what the plain bucket holds. -/
theorem level_written
    {B : Bucket ℚ} {now u : Nat} {level : ℚ}
    (hlevel : tokensAt perMinute B now = level)
    (hu : now ≤ u) :
    tokensAt perMinute
        (RateKey.bucket ⟨if 1 ≤ level then level - 1 else level, now, now + 60000⟩) u =
      tokensAt perMinute (B.take (perMinute : ℚ) (refillPerMs perMinute) (now : ℚ)) u := by
  subst hlevel
  unfold Bucket.take RateKey.bucket
  by_cases hgranted : 1 ≤ tokensAt perMinute B now
  · rw [if_pos hgranted, if_pos hgranted]
  · rw [if_neg hgranted, if_neg hgranted]
    exact Bucket.level_write (refillPerMs_nonneg perMinute) (Nat.cast_le.mpr hu)

theorem levelAt_nonneg
    {u : Nat}
    (hkeys : ∀ key k, s.keys key = some k → KeyOk perMinute (nowMs s.clock) k)
    (hu : nowMs s.clock ≤ u) :
    0 ≤ s.levelAt perMinute user u := by
  unfold RateStore.levelAt
  cases hkey : s.keys (rateKey user) with
  | none => exact Nat.cast_nonneg _
  | some k =>
      have hok := hkeys _ _ hkey
      have hcast : ((k.stampMs : ℕ) : ℚ) ≤ (u : ℚ) := Nat.cast_le.mpr (hok.stamp.trans hu)
      have hrefill := mul_nonneg (sub_nonneg.mpr hcast) (refillPerMs_nonneg perMinute)
      refine le_min (Nat.cast_nonneg _) ?_
      exact add_nonneg hok.nonneg hrefill

theorem KeyOk.later
    {now now' : Nat} {k : RateKey}
    (hnow : now ≤ now')
    (hok : KeyOk perMinute now k) :
    KeyOk perMinute now' k :=
  ⟨hok.nonneg, hok.le, hok.stamp.trans hnow, hok.expires⟩

/-- Redis removes keys that were full again. -/
theorem rateOk_of_expire
    {key : String} {k : RateKey}
    (hkey : s.keys key = some k)
    (hexpired : k.expiresAt ≤ nowMs s.clock)
    (hok : RateOk perMinute s) :
    RateOk perMinute { s with keys := Function.update s.keys key none } where
  keys := by
    intro key' k' hk'
    by_cases hsame : key' = key
    · subst hsame
      simp at hk'
    · simp only [Function.update_of_ne hsame] at hk'
      exact hok.keys key' k' hk'
  past := hok.past
  sorted := hok.sorted
  replies := hok.replies
  level := by
    intro user u hu
    refine Eq.trans ?_ (hok.level user u hu)
    unfold RateStore.levelAt
    by_cases hsame : rateKey user = key
    · subst hsame
      have hfull := level_of_expired (hok.keys _ _ hkey) (hexpired.trans hu)
      simp only [Function.update_self, hkey, hfull]
    · simp only [Function.update_of_ne hsame]

/-- A call gets the reply of the plain bucket and leaves an equal one. -/
theorem rateOk_of_call
    (user : Uuid)
    (hok : RateOk perMinute s) :
    RateOk perMinute
      { s with
        keys := Function.update s.keys (rateKey user)
          (some (takeTokenScript perMinute (nowMs s.clock) (s.read (rateKey user))).2)
        calls := s.calls ++ [⟨user, s.clock,
          (takeTokenScript perMinute (nowMs s.clock) (s.read (rateKey user))).1.1,
          (takeTokenScript perMinute (nowMs s.clock) (s.read (rateKey user))).1.2⟩] } := by
  have hfound : tokensAt perMinute
      (foundBucket perMinute (nowMs s.clock) (s.read (rateKey user))) (nowMs s.clock) =
        tokensAt perMinute (plainAfter perMinute (s.timesOf user)) (nowMs s.clock) :=
    (level_foundBucket hok.keys le_rfl).trans (hok.level user _ le_rfl)
  have hnonneg : 0 ≤ s.levelAt perMinute user (nowMs s.clock) :=
    levelAt_nonneg hok.keys le_rfl
  rw [hok.level user _ le_rfl] at hnonneg
  rw [takeTokenScript_eq _ _ hfound]
  generalize hlevel : tokensAt perMinute (plainAfter perMinute (s.timesOf user))
    (nowMs s.clock) = level at hnonneg ⊢
  have hle : level ≤ perMinute := hlevel ▸ Bucket.level_le _ _
  refine ⟨?keys, ?past, ?sorted, ?replies, ?level⟩
  case keys =>
    intro key k hk
    by_cases hsame : key = rateKey user
    · subst hsame
      simp only [Function.update_self, Option.some.injEq] at hk
      subst hk
      refine ⟨?_, ?_, le_rfl, rfl⟩
      · dsimp only
        split <;> linarith
      · dsimp only
        split <;> linarith
    · simp only [Function.update_of_ne hsame] at hk
      exact hok.keys key k hk
  case past =>
    intro call hcall
    rcases List.mem_append.mp hcall with hcall | hcall
    · exact hok.past call hcall
    · rw [List.mem_singleton] at hcall
      subst hcall
      exact le_rfl
  case sorted =>
    rw [List.pairwise_append]
    refine ⟨hok.sorted, List.pairwise_singleton _ _, ?_⟩
    intro call hcall other hother
    rw [List.mem_singleton] at hother
    subst hother
    exact hok.past call hcall
  case replies =>
    intro v
    unfold RateStore.timesOf
    by_cases hv : user = v
    · subst hv
      have hreplies := hok.replies user
      unfold RateStore.timesOf at hreplies hlevel
      rw [callsOf_snoc_self, List.map_append, List.map_append, List.map_singleton,
        List.map_singleton, plainReplies_snoc, ← hreplies, ← hlevel]
      rfl
    · rw [callsOf_snoc_of_ne _ _ hv]
      exact hok.replies v
  case level =>
    intro v u hu
    unfold RateStore.levelAt RateStore.timesOf
    by_cases hv : user = v
    · subst hv
      rw [callsOf_snoc_self, List.map_append, List.map_singleton, plainAfter_snoc]
      simp only [Function.update_self]
      exact level_written hlevel hu
    · have hkey : rateKey v ≠ rateKey user := fun h => hv (rateKey_injective h).symm
      rw [callsOf_snoc_of_ne _ _ hv]
      simp only [Function.update_of_ne hkey]
      exact hok.level v u hu

theorem rateOk_of_step
    {e : RateEvent}
    (hs : (rateMachine config).step s e = some t)
    (hok : RateOk config.TTS_RATE_LIMIT_PER_MINUTE s) :
    RateOk config.TTS_RATE_LIMIT_PER_MINUTE t := by
  cases e with
  | tick us =>
      cases hs
      have hlater : nowMs s.clock ≤ nowMs (s.clock + us) := nowMs_mono (Nat.le_add_right _ _)
      refine ⟨?_, ?_, hok.sorted, hok.replies, ?_⟩
      · exact fun key k hk => (hok.keys key k hk).later hlater
      · exact fun call hcall => (hok.past call hcall).trans (Nat.le_add_right _ _)
      · exact fun user u hu => hok.level user u (hlater.trans hu)
  | expire key =>
      simp only [rateMachine, RateStore.step] at hs
      split at hs
      · next hexpired =>
          cases hs
          obtain ⟨k, hkey, hle⟩ := (Option.any_eq_true _ _).mp hexpired
          exact rateOk_of_expire hkey (of_decide_eq_true hle) hok
      · cases hs
  | call user =>
      cases hs
      exact rateOk_of_call user hok

theorem rateOk_initial : RateOk perMinute RateStore.initial := by
  refine ⟨by simp [RateStore.initial], by simp [RateStore.initial], by simp [RateStore.initial],
    fun _ => rfl, ?_⟩
  intro user u _
  have hcast : (0 : ℚ) ≤ (u : ℚ) := Nat.cast_nonneg u
  have hrefill := mul_nonneg hcast (refillPerMs_nonneg perMinute)
  refine (Bucket.level_of_filled ?_).symm
  have hstart : plainAfter perMinute (RateStore.initial.timesOf user) = fullBucket perMinute := rfl
  have hlevel : RateStore.initial.levelAt perMinute user u = perMinute := rfl
  rw [hstart, hlevel]
  simp only [fullBucket, sub_zero]
  linarith

theorem rateOk_of_run
    {es : List RateEvent}
    (hrun : RateRun config es s) :
    RateOk config.TTS_RATE_LIMIT_PER_MINUTE s :=
  Machine.run_invariant (fun _ _ _ hok _ hs => rateOk_of_step hs hok) hrun rateOk_initial

end Invariant

section Results

variable {config : Config} {s t : RateStore} {perMinute : Nat}

/-- The calls of a user with their replies are the trace of the plain bucket. -/
theorem callsOf_eq_trace
    (user : Uuid)
    (hok : RateOk perMinute s) :
    ((s.callsOf user).map fun call => ((call.nowMs : ℚ), call.reply)) =
      (plainTrace perMinute (s.timesOf user)).map fun x => (x.1, replyAt perMinute x.2) := by
  have htimes : (s.callsOf user).map (fun call => (call.nowMs : ℚ)) =
      (plainTrace perMinute (s.timesOf user)).map Prod.fst := by
    unfold plainTrace RateStore.timesOf
    rw [Bucket.map_fst_trace, List.map_map]
    rfl
  have hreplies := hok.replies user
  unfold plainReplies at hreplies
  calc
    (s.callsOf user).map (fun call => ((call.nowMs : ℚ), call.reply)) =
        ((s.callsOf user).map fun call => (call.nowMs : ℚ)).zip
          ((s.callsOf user).map RateCall.reply) := List.zip_map'.symm
    _ = ((plainTrace perMinute (s.timesOf user)).map Prod.fst).zip
          ((plainTrace perMinute (s.timesOf user)).map fun x => replyAt perMinute x.2) := by
      rw [htimes, hreplies]
    _ = (plainTrace perMinute (s.timesOf user)).map fun x => (x.1, replyAt perMinute x.2) :=
      List.zip_map'

/-- The gateway lets a request pass if its call was replied 1. -/
theorem granted_iff
    (call : RateCall) :
    call.granted = true ↔ call.reply.1 = 1 := by
  unfold RateCall.granted RateCall.reply takeRateLimitToken
  by_cases h : call.allowed = 1
  · simp [h, Except.isOk, Except.toBool]
  · simp [h, Except.isOk, Except.toBool]

theorem replyAt_fst
    (tokens : ℚ) :
    (replyAt perMinute tokens).1 = 1 ↔ 1 ≤ tokens := by
  unfold replyAt
  by_cases h : 1 ≤ tokens
  · simp [h]
  · simp [h]

/-- The granted calls in a window of the script's clock are those of the plain
bucket. -/
theorem countP_callsOf
    (user : Uuid) (a e : ℚ)
    (hok : RateOk perMinute s) :
    ((s.callsOf user).countP fun call =>
        decide (call.granted = true ∧ a ≤ (call.nowMs : ℚ) ∧ (call.nowMs : ℚ) ≤ e)) =
      (plainTrace perMinute (s.timesOf user)).countP (Bucket.grantedIn a e) := by
  have hcount := congrArg
    (List.countP fun x : ℚ × (Nat × Nat) => decide (x.2.1 = 1 ∧ a ≤ x.1 ∧ x.1 ≤ e))
    (callsOf_eq_trace user hok)
  rw [List.countP_map, List.countP_map] at hcount
  have hleft : (fun call : RateCall =>
      decide (call.granted = true ∧ a ≤ (call.nowMs : ℚ) ∧ (call.nowMs : ℚ) ≤ e)) =
      (fun x : ℚ × (Nat × Nat) => decide (x.2.1 = 1 ∧ a ≤ x.1 ∧ x.1 ≤ e)) ∘
        fun call : RateCall => ((call.nowMs : ℚ), call.reply) := by
    funext call
    simp only [Function.comp_apply, granted_iff]
  have hright : Bucket.grantedIn a e =
      (fun x : ℚ × (Nat × Nat) => decide (x.2.1 = 1 ∧ a ≤ x.1 ∧ x.1 ≤ e)) ∘
        fun x : ℚ × ℚ => (x.1, replyAt perMinute x.2) := by
    funext x
    simp only [Function.comp_apply, Bucket.grantedIn, replyAt_fst]
  rw [hleft, hright]
  exact hcount

/-- The window bound on the script's clock. -/
theorem countP_callsOf_le
    (user : Uuid) {a e : ℚ}
    (hae : a ≤ e)
    (hok : RateOk perMinute s) :
    (((s.callsOf user).countP fun call =>
        decide (call.granted = true ∧ a ≤ (call.nowMs : ℚ) ∧ (call.nowMs : ℚ) ≤ e) : ℕ) : ℚ) ≤
      perMinute + (e - a) * perMinute / 60000 := by
  have hsorted : ((s.timesOf user).map (Nat.cast : ℕ → ℚ)).Pairwise (· ≤ ·) := by
    unfold RateStore.timesOf
    rw [List.map_map, List.pairwise_map]
    refine (hok.sorted.sublist List.filter_sublist).imp ?_
    intro x y hxy
    exact Nat.cast_le.mpr (nowMs_mono hxy)
  have hstart : ∀ t, t ∈ (s.timesOf user).map (Nat.cast : ℕ → ℚ) → 0 ≤ t := by
    intro t ht
    obtain ⟨n, _, rfl⟩ := List.mem_map.mp ht
    exact Nat.cast_nonneg n
  have hfull : 0 ≤ (fullBucket perMinute).level (perMinute : ℚ) (refillPerMs perMinute) 0 := by
    simp [Bucket.level, fullBucket]
  have hbound := Bucket.countP_trace_le (Nat.cast_nonneg perMinute)
    (refillPerMs_nonneg perMinute) hae hsorted hstart hfull
  rw [countP_callsOf user a e hok]
  refine hbound.trans (le_of_eq ?_)
  unfold refillPerMs
  ring

/--
**The token bucket bounds every window.**  In every run of the rate limit, with
any number of users and gateways and any expiry of keys, the calls of a user that
are granted in a window are at most the capacity and the refill of the window's
length.  This holds of windows on the script's millisecond clock, with any ends,
and of windows of `T` whole milliseconds on Redis's own clock.  Every stored
token count lies between zero and the capacity.
-/
theorem granted_in_window
    {es : List RateEvent}
    (hrun : RateRun config es s) :
    (∀ (user : Uuid) (a e : ℚ), a ≤ e →
      (((s.callsOf user).countP fun call =>
          decide (call.granted = true ∧ a ≤ (call.nowMs : ℚ) ∧ (call.nowMs : ℚ) ≤ e) : ℕ) : ℚ) ≤
        config.TTS_RATE_LIMIT_PER_MINUTE +
          (e - a) * config.TTS_RATE_LIMIT_PER_MINUTE / 60000) ∧
      (∀ (user : Uuid) (a T : Nat),
        (((s.callsOf user).countP fun call =>
            decide (call.granted = true ∧ a ≤ call.clock ∧ call.clock ≤ a + 1000 * T) : ℕ) : ℚ) ≤
          config.TTS_RATE_LIMIT_PER_MINUTE + T * config.TTS_RATE_LIMIT_PER_MINUTE / 60000) ∧
      ∀ key k, s.keys key = some k →
        0 ≤ k.tokens ∧ k.tokens ≤ config.TTS_RATE_LIMIT_PER_MINUTE := by
  have hok := rateOk_of_run hrun
  refine ⟨fun user a e hae => countP_callsOf_le user hae hok, ?_, ?_⟩
  · intro user a T
    have hbound := countP_callsOf_le user (a := (nowMs a : ℚ)) (e := (nowMs a : ℚ) + T)
      (by simp) hok
    rw [add_sub_cancel_left] at hbound
    refine le_trans (Nat.cast_le.mpr (List.countP_mono_left ?_)) hbound
    intro call _ hcall
    obtain ⟨hgranted, hfrom, hto⟩ := of_decide_eq_true hcall
    have hend : call.nowMs ≤ nowMs a + T := by
      unfold RateCall.nowMs
      rw [nowMs_eq, nowMs_eq]
      omega
    refine decide_eq_true ⟨hgranted, Nat.cast_le.mpr (nowMs_mono hfrom), ?_⟩
    exact_mod_cast hend
  · intro key k hk
    exact ⟨(hok.keys key k hk).nonneg, (hok.keys key k hk).le⟩

/-- One token a minute. -/
def slowConfig : Config :=
  { defaultConfig with TTS_RATE_LIMIT_PER_MINUTE := 1, rateLimit_pos := Nat.one_pos }

/-- A granted call, a refused one after half a minute and a granted one after
another half. -/
def refusedBetween : List RateEvent :=
  [.call sampleUser, .tick 30000000, .call sampleUser, .tick 30000000, .call sampleUser]

/-- Two calls are granted within the minute, which is the bound. -/
theorem granted_in_window_reached :
    ∃ s : RateStore,
      Machine.Run (rateMachine slowConfig) Machine.anyStep RateStore.initial refusedBetween s ∧
      (s.callsOf sampleUser).map RateCall.reply = [(1, 0), (0, 30000), (1, 0)] ∧
        (((s.callsOf sampleUser).countP fun call =>
            decide (call.granted = true ∧ 0 ≤ call.clock ∧ call.clock ≤ 0 + 1000 * 60000) : ℕ) : ℚ) ≤
          (1 : ℕ) + (60000 : ℕ) * (1 : ℕ) / 60000 := by
  have hexec : ((rateMachine slowConfig).exec (fun _ _ => true) RateStore.initial
      refusedBetween).any
      (fun s => decide ((s.callsOf sampleUser).map RateCall.reply =
        [(1, 0), (0, 30000), (1, 0)])) = true := by
    decide +kernel
  obtain ⟨s, hrun, hs⟩ := Machine.exists_anyRun_of_exec hexec
  exact ⟨s, hrun, of_decide_eq_true hs, (granted_in_window hrun).2.1 sampleUser 0 60000⟩

/--
**The script refines a plain bucket.**  In every run the replies to a user's
calls are those of a bucket that starts full, never expires and changes at
granted calls only.  Hence in any other run in which the user's calls come at the
same times, apart from refused ones that are left out, these calls get the same
replies.
-/
theorem script_refines_bucket
    {es : List RateEvent}
    (hrun : RateRun config es s)
    (user : Uuid) :
    (s.callsOf user).map RateCall.reply =
        plainReplies config.TTS_RATE_LIMIT_PER_MINUTE ((s.callsOf user).map RateCall.nowMs) ∧
      ∀ fs t calls, RateRun config fs t →
        LeavesOut (fun call : RateCall => call.granted = false) (s.callsOf user) calls →
          (t.callsOf user).map RateCall.nowMs = calls.map RateCall.nowMs →
            (t.callsOf user).map RateCall.reply = calls.map RateCall.reply := by
  have hok := rateOk_of_run hrun
  refine ⟨hok.replies user, ?_⟩
  intro fs t calls hrun' hleft htimes
  have hleft' := leavesOut_map (f := fun call : RateCall => ((call.nowMs : ℚ), call.reply))
    (q := fun x => x.2.1 ≠ 1) (fun call hcall h => by simp [(granted_iff call).mpr h] at hcall) hleft
  rw [callsOf_eq_trace user hok] at hleft'
  obtain ⟨tr, htr, hcalls⟩ := exists_of_leavesOut_map
    (fun x hx => not_le.mp fun hle => hx (replyAt_fst _ |>.mpr hle)) hleft'
  have hplain := Bucket.trace_of_leavesOut htr
  have htr' : tr.map Prod.fst = ((t.callsOf user).map RateCall.nowMs).map Nat.cast := by
    have hfst := congrArg (List.map Prod.fst) hcalls
    rw [List.map_map, List.map_map] at hfst
    rw [htimes, List.map_map]
    exact hfst.symm
  have hreplies : calls.map RateCall.reply =
      tr.map fun x => replyAt config.TTS_RATE_LIMIT_PER_MINUTE x.2 := by
    have hsnd := congrArg (List.map Prod.snd) hcalls
    rw [List.map_map, List.map_map] at hsnd
    exact hsnd
  rw [(rateOk_of_run hrun').replies user, hreplies, ← hplain, htr']
  rfl

/-- The calls without the refused one; the key expires after each. -/
def grantedOnly : List RateEvent :=
  [.call sampleUser, .tick 60000000, .expire (rateKey sampleUser), .call sampleUser,
    .tick 60000000, .expire (rateKey sampleUser)]

/-- Without the refused call, and with the key expired, the others get the same
replies. -/
theorem script_refines_bucket_without_refused :
    ∃ s t : RateStore,
      Machine.Run (rateMachine slowConfig) Machine.anyStep RateStore.initial refusedBetween s ∧
      Machine.Run (rateMachine slowConfig) Machine.anyStep RateStore.initial grantedOnly t ∧
      (s.callsOf sampleUser).map RateCall.reply = [(1, 0), (0, 30000), (1, 0)] ∧
        (t.callsOf sampleUser).length = 2 ∧ t.keys (rateKey sampleUser) = none ∧
          (t.callsOf sampleUser).map RateCall.reply = [(1, 0), (1, 0)] := by
  have hexec : ((rateMachine slowConfig).exec (fun _ _ => true) RateStore.initial
      refusedBetween).any
      (fun s => decide (s.callsOf sampleUser =
        [⟨sampleUser, 0, 1, 0⟩, ⟨sampleUser, 30000000, 0, 30000⟩,
          ⟨sampleUser, 60000000, 1, 0⟩])) = true := by
    decide +kernel
  have hexec' : ((rateMachine slowConfig).exec (fun _ _ => true) RateStore.initial
      grantedOnly).any
      (fun t => decide ((t.callsOf sampleUser).map RateCall.nowMs = [0, 60000]) &&
        decide (t.keys (rateKey sampleUser) = none)) = true := by
    decide +kernel
  obtain ⟨s, hrun, hs⟩ := Machine.exists_anyRun_of_exec hexec
  obtain ⟨t, hrun', ht⟩ := Machine.exists_anyRun_of_exec hexec'
  obtain ⟨htimes, hkey⟩ := (Bool.and_eq_true _ _).mp ht
  have hcalls := of_decide_eq_true hs
  have hleft : LeavesOut (fun call : RateCall => call.granted = false) (s.callsOf sampleUser)
      [⟨sampleUser, 0, 1, 0⟩, ⟨sampleUser, 60000000, 1, 0⟩] := by
    rw [hcalls]
    exact .keep _ (.drop rfl (.keep _ .nil))
  have hreplies := (script_refines_bucket hrun sampleUser).2 _ t _ hrun' hleft
    (of_decide_eq_true htimes)
  refine ⟨s, t, hrun, hrun', by rw [hcalls]; rfl, ?_, of_decide_eq_true hkey, hreplies⟩
  have hlen := congrArg List.length hreplies
  simpa using hlen

end Results

end BengaliTts
