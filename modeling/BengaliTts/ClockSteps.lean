import BengaliTts.RetryAfter

/-!
# The rate limit on a wall clock

Redis's `TIME` is the wall clock of its host, and nothing keeps a wall clock from going
back.  The script takes the difference of two readings as it is: only the upper end of
the result is clipped.  After a step back the bucket can hold less than nothing, and the
next calls write that back.

Here a call comes with any reading, and a key may be removed at any time, since its
deadline is on the same clock.

Main results:
* `bucket_survives_iff`: the bucket stays between zero and its capacity and the
  `Retry-After` headers within the time of one token, exactly in the runs in which no
  reading falls further behind the last one than the tokens of the key make up for;
* `sound_of_forward`: on a clock that does not go back it does;
* `step_back_overdraws`: a run with a step back.
-/

namespace BengaliTts

open Lib

section Store

/-- A call, and the tokens that the script stored. -/
structure StoredCall where
  call : RateCall
  left : ℚ

/-- The part of Redis that the rate limit uses, without a clock of its own; `calls` is a
history, oldest call first. -/
structure WallStore where
  keys : String → Option RateKey
  calls : List StoredCall

def WallStore.initial : WallStore :=
  ⟨fun _ => none, []⟩

inductive WallEvent where
  /-- Redis removes a key. -/
  | expire (key : String)
  /-- A call that reads the given time. -/
  | call (user : Uuid) (clock : Nat)

def WallStore.step (config : Config) (s : WallStore) : WallEvent → Option WallStore
  | .expire key =>
      some { s with keys := Function.update s.keys key none }
  | .call user clock =>
      let result := takeTokenScript config.TTS_RATE_LIMIT_PER_MINUTE (nowMs clock)
        (s.keys (rateKey user))
      some
        { keys := Function.update s.keys (rateKey user) (some result.2)
          calls := s.calls ++ [⟨⟨user, clock, result.1.1, result.1.2⟩, result.2.tokens⟩] }

def wallMachine (config : Config) : Machine WallStore WallEvent where
  step := WallStore.step config

/-- The stored count is between zero and the capacity, and a header names at most the
seconds of one token. -/
def StoredCall.Sound (perMinute : Nat) (c : StoredCall) : Prop :=
  (0 ≤ c.left ∧ c.left ≤ perMinute) ∧
    ∀ seconds, c.call.sentRetryAfter = some seconds → seconds ≤ ⌈(60 : ℚ) / perMinute⌉₊

/-- The reading of a call is so little behind the stamp of its key that the tokens of the
key make up for it. -/
def ReadingCovered (config : Config) (s : WallStore) : WallEvent → Prop
  | .expire _ => True
  | .call user clock =>
      ∀ k, s.keys (rateKey user) = some k →
        ((k.stampMs : ℚ) - (nowMs clock : ℚ)) *
          refillPerMs config.TTS_RATE_LIMIT_PER_MINUTE ≤ k.tokens

/-- No call reads an earlier time than a call before it. -/
def ReadsForward (s : WallStore) : WallEvent → Prop
  | .expire _ => True
  | .call _ clock => ∀ c, c ∈ s.calls → c.call.clock ≤ clock

end Store

section Steps

variable {config : Config} {perMinute : Nat}

/-- The script stores a count from zero to the capacity exactly if it finds no negative
one, and then its wait is that of at most one token. -/
theorem sound_iff
    (hcapacity : 0 < perMinute)
    (user : Uuid) (clock : Nat) (state : Option RateKey) :
    StoredCall.Sound perMinute
        ⟨⟨user, clock, (takeTokenScript perMinute (nowMs clock) state).1.1,
          (takeTokenScript perMinute (nowMs clock) state).1.2⟩,
          (takeTokenScript perMinute (nowMs clock) state).2.tokens⟩ ↔
      0 ≤ tokensAt perMinute (foundBucket perMinute (nowMs clock) state) (nowMs clock) := by
  rw [takeTokenScript_eq _ _ rfl]
  have hcap : tokensAt perMinute (foundBucket perMinute (nowMs clock) state) (nowMs clock) ≤
      perMinute := Bucket.level_le _ _
  generalize tokensAt perMinute (foundBucket perMinute (nowMs clock) state) (nowMs clock) = level
    at hcap ⊢
  unfold StoredCall.Sound
  by_cases htoken : 1 ≤ level
  · simp only [replyAt, if_pos htoken]
    constructor
    · intro _
      linarith
    · intro _
      refine ⟨⟨by linarith, by linarith⟩, ?_⟩
      intro seconds hsent
      cases hsent
  · simp only [replyAt, if_neg htoken]
    constructor
    · intro h
      exact h.1.1
    · intro hnonneg
      refine ⟨⟨hnonneg, hcap⟩, ?_⟩
      intro seconds hsent
      have hbounds := waitMs_bounds hcapacity hnonneg (not_le.mp htoken)
      rw [sentRetryAfter_of_refused rfl, Option.some.injEq] at hsent
      rw [← hsent]
      exact (seconds_bounds hcapacity hbounds.2).2.1

/-- What a call finds is not negative exactly if the tokens of its key make up for how
far the reading is behind. -/
theorem found_nonneg_iff
    (s : WallStore) (user : Uuid) (clock : Nat) :
    0 ≤ tokensAt config.TTS_RATE_LIMIT_PER_MINUTE
        (foundBucket config.TTS_RATE_LIMIT_PER_MINUTE (nowMs clock) (s.keys (rateKey user)))
        (nowMs clock) ↔
      ReadingCovered config s (.call user clock) := by
  have hcapacity : (0 : ℚ) ≤ config.TTS_RATE_LIMIT_PER_MINUTE := Nat.cast_nonneg _
  unfold foundBucket tokensAt Bucket.level
  rw [le_min_iff]
  cases hkey : s.keys (rateKey user) with
  | none =>
      simp [ReadingCovered, hkey]
  | some k =>
      have hswap : ((k.stampMs : ℚ) - (nowMs clock : ℚ)) *
            refillPerMs config.TTS_RATE_LIMIT_PER_MINUTE =
          -(((nowMs clock : ℚ) - (k.stampMs : ℚ)) *
            refillPerMs config.TTS_RATE_LIMIT_PER_MINUTE) := by ring
      simp only [ReadingCovered, hkey, Option.map_some, Option.getD_some, RateKey.bucket,
        Option.some.injEq, forall_eq', hswap]
      constructor
      · rintro ⟨_, h⟩
        linarith
      · intro h
        exact ⟨hcapacity, by linarith⟩

/-- Whether the calls so far are sound is decided call by call. -/
theorem sound_step_iff
    {s t : WallStore} {e : WallEvent}
    (hs : (wallMachine config).step s e = some t) :
    (∀ c, c ∈ t.calls → c.Sound config.TTS_RATE_LIMIT_PER_MINUTE) ↔
      (∀ c, c ∈ s.calls → c.Sound config.TTS_RATE_LIMIT_PER_MINUTE) ∧ ReadingCovered config s e := by
  cases e with
  | expire key =>
      cases hs
      exact ⟨fun h => ⟨h, trivial⟩, fun h => h.1⟩
  | call user clock =>
      cases hs
      rw [← found_nonneg_iff, ← sound_iff config.rateLimit_pos user clock]
      constructor
      · intro h
        exact ⟨fun c hc => h c (List.mem_append_left _ hc),
          h _ (List.mem_append_right _ List.mem_cons_self)⟩
      · rintro ⟨hold, hnew⟩ c hc
        rcases List.mem_append.mp hc with hc | hc
        · exact hold c hc
        · rw [List.mem_singleton] at hc
          rw [hc]
          exact hnew

/-- What a key holds is what a call stored. -/
def StoredByCalls (s : WallStore) : Prop :=
  ∀ key k, s.keys key = some k →
    ∃ c, c ∈ s.calls ∧ k.tokens = c.left ∧ k.stampMs = nowMs c.call.clock

theorem storedByCalls_of_step
    {s t : WallStore} {e : WallEvent}
    (hstored : StoredByCalls s)
    (hs : (wallMachine config).step s e = some t) :
    StoredByCalls t := by
  cases e with
  | expire key =>
      cases hs
      intro other k hk
      simp only [Function.update_apply] at hk
      split at hk
      · cases hk
      · exact hstored other k hk
  | call user clock =>
      cases hs
      intro key k hk
      simp only [Function.update_apply] at hk
      split at hk
      · cases hk
        refine ⟨_, List.mem_append_right _ List.mem_cons_self, rfl, ?_⟩
        rw [takeTokenScript_eq _ _ rfl]
      · obtain ⟨c, hc, hheld⟩ := hstored key k hk
        exact ⟨c, List.mem_append_left _ hc, hheld⟩

/-- A reading that is not behind any call is covered. -/
theorem readingCovered_of_forward
    {s : WallStore} {e : WallEvent}
    (hstored : StoredByCalls s)
    (hsound : ∀ c, c ∈ s.calls → c.Sound config.TTS_RATE_LIMIT_PER_MINUTE)
    (hforward : ReadsForward s e) :
    ReadingCovered config s e := by
  cases e with
  | expire => trivial
  | call user clock =>
      intro k hk
      obtain ⟨c, hc, htokens, hstamp⟩ := hstored _ k hk
      rw [htokens, hstamp]
      have hle : (nowMs c.call.clock : ℚ) ≤ (nowMs clock : ℚ) :=
        Nat.cast_le.mpr (nowMs_mono (hforward c hc))
      have hbehind := mul_nonpos_of_nonpos_of_nonneg (sub_nonpos.mpr hle)
        (refillPerMs_nonneg config.TTS_RATE_LIMIT_PER_MINUTE)
      exact hbehind.trans (hsound c hc).1.1

end Steps

section Results

variable {config : Config}

/--
**The bucket and the clock.**  Whatever the readings of the calls and whenever keys
disappear: after every call of a run the stored count lies between zero and the capacity
and every `Retry-After` header names at most the seconds of one token, if and only if
the reading of each call that finds a key is no further behind the key's stamp than the
key's tokens make up for.
-/
theorem bucket_survives_iff
    {es : List WallEvent} {s : WallStore}
    (hrun : Machine.Run (wallMachine config) Machine.anyStep WallStore.initial es s) :
    (∀ c, c ∈ s.calls → c.Sound config.TTS_RATE_LIMIT_PER_MINUTE) ↔
      Machine.Run (wallMachine config) (ReadingCovered config) WallStore.initial es s := by
  induction hrun with
  | nil =>
      constructor
      · intro _
        exact .nil _
      · intro _ c hc
        cases hc
  | snoc hbefore _ hs ih =>
      rw [Machine.run_snoc_iff hbefore hs, ← ih]
      exact sound_step_iff hs

/-- On a clock that does not go back all calls are sound. -/
theorem sound_of_forward
    {es : List WallEvent} {s : WallStore}
    (hrun : Machine.Run (wallMachine config) ReadsForward WallStore.initial es s) :
    ∀ c, c ∈ s.calls → c.Sound config.TTS_RATE_LIMIT_PER_MINUTE := by
  have hstored : ∀ es u,
      Machine.Run (wallMachine config) ReadsForward WallStore.initial es u → StoredByCalls u := by
    intro es u hu
    refine Machine.run_invariant (fun _ _ _ hstored _ hs => storedByCalls_of_step hstored hs) hu ?_
    intro key k hk
    cases hk
  refine Machine.run_invariant_of_known
    (I := fun u => ∀ c, c ∈ u.calls → c.Sound config.TTS_RATE_LIMIT_PER_MINUTE) hstored ?_ hrun ?_
  · intro u e v hheld _ hsound hforward hs
    exact (sound_step_iff hs).mpr ⟨hsound, readingCovered_of_forward hheld hsound hforward⟩
  · intro c hc
    cases hc

/-- A check of `ReadingCovered`. -/
def readingCovered (config : Config) (s : WallStore) : WallEvent → Bool
  | .expire _ => true
  | .call user clock => (s.keys (rateKey user)).all fun k =>
      decide (((k.stampMs : ℚ) - (nowMs clock : ℚ)) *
        refillPerMs config.TTS_RATE_LIMIT_PER_MINUTE ≤ k.tokens)

theorem readingCovered_of_check
    {e : WallEvent}
    (h : readingCovered config s e = true) :
    ReadingCovered config s e := by
  cases e with
  | expire => trivial
  | call user clock =>
      intro k hk
      simp only [readingCovered, hk, Option.all_some] at h
      exact of_decide_eq_true h

/-- With thirty tokens a minute a step back of ten seconds is covered: the calls are
sound. -/
theorem bucket_survives_small_step :
    ∃ s : WallStore,
      Machine.Run (wallMachine defaultConfig) (ReadingCovered defaultConfig) WallStore.initial
          [.call sampleUser 100000000, .call sampleUser 90000000] s ∧
        s.calls.length = 2 ∧ ∀ c, c ∈ s.calls → c.Sound 30 := by
  have hexec : ((wallMachine defaultConfig).exec (readingCovered defaultConfig)
      WallStore.initial [.call sampleUser 100000000, .call sampleUser 90000000]).any
      (fun s => decide (s.calls.length = 2)) = true := by
    decide +kernel
  obtain ⟨s, hcovered, hs⟩ :=
    Machine.exists_run_of_exec (fun _ _ => readingCovered_of_check) hexec
  have hrun := Machine.run_weaken (fun _ _ _ => trivial) hcovered
  exact ⟨s, hcovered, of_decide_eq_true hs, (bucket_survives_iff hrun).mpr hcovered⟩

/-- With thirty tokens a minute a step back of 100 seconds leaves a bucket of minus
twenty-one tokens and a client that is told to wait 44 seconds instead of two. -/
theorem step_back_overdraws :
    ∃ s : WallStore,
      Machine.Run (wallMachine defaultConfig) Machine.anyStep WallStore.initial
          [.call sampleUser 100000000, .call sampleUser 0] s ∧
        ∃ c, c ∈ s.calls ∧ c.left = -21 ∧ c.call.sentRetryAfter = some 44 ∧
          ¬ c.Sound defaultConfig.TTS_RATE_LIMIT_PER_MINUTE := by
  have hexec : ((wallMachine defaultConfig).exec (fun _ _ => true) WallStore.initial
      [.call sampleUser 100000000, .call sampleUser 0]).any
      (fun s => s.calls.any fun c =>
        decide (c.left = -21) && decide (c.call.sentRetryAfter = some 44)) = true := by
    decide +kernel
  obtain ⟨s, hrun, hs⟩ := Machine.exists_anyRun_of_exec hexec
  obtain ⟨c, hc, hboth⟩ := List.any_eq_true.mp hs
  obtain ⟨hleft, hsent⟩ := (Bool.and_eq_true _ _).mp hboth
  refine ⟨s, hrun, c, hc, of_decide_eq_true hleft, of_decide_eq_true hsent, ?_⟩
  intro hsound
  have hnonneg := hsound.1.1
  rw [of_decide_eq_true hleft] at hnonneg
  norm_num at hnonneg

end Results

end BengaliTts
