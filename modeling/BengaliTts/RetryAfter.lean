import BengaliTts.RateLimit

/-!
# The time a refused client is told to wait

A refused call is replied the milliseconds until the bucket holds a whole token again,
and the gateway sends the seconds, rounded up, as the `Retry-After` header.  Refused
calls in between write the bucket back and put off its expiry, but the plain bucket
that the replies follow does not change at them.

Main result:
* `retry_after_exact`: a later call, with only refused calls in between, is granted
  exactly when the milliseconds of the reply have passed; the header names an integer
  from 1 to the seconds of one token, and these seconds suffice.
-/

namespace BengaliTts

open Lib

section Wait

variable {config : Config} {s : RateStore} {perMinute : Nat} {user : Uuid}

/-- The seconds in the `Retry-After` header of the answer to a call. -/
def RateCall.sentRetryAfter (call : RateCall) : Option Nat :=
  match takeRateLimitToken call.allowed call.retryAfterMs with
  | .error error => retryAfterHeader error
  | .ok () => none

theorem sentRetryAfter_of_refused
    {call : RateCall}
    (h : call.granted = false) :
    call.sentRetryAfter = some (max 1 ((call.retryAfterMs + 999) / 1000)) := by
  unfold RateCall.granted takeRateLimitToken at h
  unfold RateCall.sentRetryAfter takeRateLimitToken
  split at h
  · next hne => rw [if_pos hne]; rfl
  · cases h

/-- Each call of a user gets the reply of the plain bucket after the calls before it. -/
theorem reply_of_split
    {before after : List RateCall} {call : RateCall}
    (hok : RateOk perMinute s)
    (hcalls : s.callsOf user = before ++ call :: after) :
    call.reply = replyAt perMinute
      (tokensAt perMinute (plainAfter perMinute (before.map RateCall.nowMs)) call.nowMs) := by
  have hreplies := hok.replies user
  unfold RateStore.timesOf at hreplies
  rw [hcalls, List.map_append, List.map_append, List.map_cons, List.map_cons] at hreplies
  unfold plainReplies plainTrace at hreplies
  rw [List.map_append, Bucket.trace_append, List.map_append] at hreplies
  have hlength : (before.map RateCall.reply).length =
      ((Bucket.trace (perMinute : ℚ) (refillPerMs perMinute) (fullBucket perMinute)
        ((before.map RateCall.nowMs).map Nat.cast)).map fun c => replyAt perMinute c.2).length := by
    simp
  have htail := (List.append_inj hreplies hlength).2
  rw [List.map_cons, Bucket.trace, List.map_cons] at htail
  exact (List.cons.inj htail).1

/-- A call is granted exactly if it found a whole token. -/
theorem granted_iff_of_split
    {before after : List RateCall} {call : RateCall}
    (hok : RateOk perMinute s)
    (hcalls : s.callsOf user = before ++ call :: after) :
    call.granted = true ↔
      1 ≤ tokensAt perMinute (plainAfter perMinute (before.map RateCall.nowMs)) call.nowMs := by
  rw [granted_iff, reply_of_split hok hcalls, replyAt_fst]

/-- Refused calls leave the plain bucket as it is. -/
theorem plainAfter_of_refused
    {before refused after : List RateCall}
    (hok : RateOk perMinute s)
    (hcalls : s.callsOf user = before ++ refused ++ after)
    (hrefused : ∀ call, call ∈ refused → call.granted = false) :
    plainAfter perMinute ((before ++ refused).map RateCall.nowMs) =
      plainAfter perMinute (before.map RateCall.nowMs) := by
  induction refused generalizing before with
  | nil => rw [List.append_nil]
  | cons call refused ih =>
      have hsplit : s.callsOf user = before ++ call :: (refused ++ after) := by
        rw [hcalls, List.append_assoc, List.cons_append]
      have hlow := (granted_iff_of_split hok hsplit).not.mp
        (by simp [hrefused call List.mem_cons_self])
      have hstep : plainAfter perMinute ((before ++ [call]).map RateCall.nowMs) =
          plainAfter perMinute (before.map RateCall.nowMs) := by
        rw [List.map_append, List.map_singleton, plainAfter_snoc, Bucket.take_of_refused hlow]
      have hrest : s.callsOf user = (before ++ [call]) ++ refused ++ after := by
        simpa using hcalls
      have hsame := ih hrest fun c hc => hrefused c (List.mem_cons_of_mem _ hc)
      rw [← hstep, ← hsame]
      simp

/-- The calls of a user come in the order of the clock. -/
theorem nowMs_sorted
    (user : Uuid)
    (hok : RateOk perMinute s) :
    (s.timesOf user).Pairwise (· ≤ ·) := by
  unfold RateStore.timesOf
  rw [List.pairwise_map]
  exact (hok.sorted.sublist List.filter_sublist).imp fun h => nowMs_mono h

/-- What a call finds is not negative. -/
theorem found_nonneg
    {before after : List RateCall} {call : RateCall}
    (hok : RateOk perMinute s)
    (hcalls : s.callsOf user = before ++ call :: after) :
    0 ≤ tokensAt perMinute (plainAfter perMinute (before.map RateCall.nowMs)) call.nowMs := by
  have hsorted := nowMs_sorted user hok
  unfold RateStore.timesOf at hsorted
  rw [hcalls, List.map_append, List.map_cons, List.pairwise_append] at hsorted
  have hfull : (0 : ℚ) ≤ (fullBucket perMinute).level (perMinute : ℚ) (refillPerMs perMinute) 0 := by
    simp [Bucket.level, fullBucket]
  refine Bucket.level_after_nonneg (refillPerMs_nonneg perMinute) ?_ ?_ ?_ (Nat.cast_nonneg _) hfull
  · rw [List.pairwise_map]
    exact hsorted.1.imp fun h => Nat.cast_le.mpr h
  · intro t ht
    obtain ⟨n, _, rfl⟩ := List.mem_map.mp ht
    exact Nat.cast_nonneg n
  · intro t ht
    obtain ⟨n, hn, rfl⟩ := List.mem_map.mp ht
    exact Nat.cast_le.mpr (hsorted.2.2 n hn call.nowMs List.mem_cons_self)

end Wait

section Rounding

variable {perMinute : Nat}

theorem refillPerMs_pos
    (hcapacity : 0 < perMinute) :
    0 < refillPerMs perMinute :=
  div_pos (Nat.cast_pos.mpr hcapacity) (by norm_num)

/-- The milliseconds that the script replies to a call that finds so many tokens. -/
def waitMs (perMinute : Nat) (tokens : ℚ) : Nat :=
  ⌈(1 - tokens) / refillPerMs perMinute⌉.toNat

/-- Rounding up to whole milliseconds loses nothing: within `e` milliseconds the missing
part of a token is refilled exactly when `e` is at least the wait. -/
theorem waitMs_le_iff
    (hcapacity : 0 < perMinute)
    (tokens : ℚ) (e : Nat) :
    waitMs perMinute tokens ≤ e ↔ 1 - tokens ≤ (e : ℚ) * refillPerMs perMinute := by
  rw [waitMs, Int.toNat_le, Int.ceil_le, Int.cast_natCast,
    div_le_iff₀ (refillPerMs_pos hcapacity)]

/-- A wait is at least one millisecond and at most the time of one token. -/
theorem waitMs_bounds
    {tokens : ℚ}
    (hcapacity : 0 < perMinute)
    (hnonneg : 0 ≤ tokens)
    (hlow : tokens < 1) :
    1 ≤ waitMs perMinute tokens ∧ waitMs perMinute tokens ≤ ⌈(60000 : ℚ) / perMinute⌉₊ := by
  have hpos := refillPerMs_pos hcapacity
  constructor
  · rw [Nat.one_le_iff_ne_zero]
    intro hzero
    have hle := (waitMs_le_iff hcapacity tokens 0).mp hzero.le
    rw [Nat.cast_zero, zero_mul] at hle
    linarith
  · rw [waitMs_le_iff hcapacity]
    have hceil := Nat.le_ceil ((60000 : ℚ) / perMinute)
    have htoken : (60000 : ℚ) / perMinute * refillPerMs perMinute = 1 := by
      have hne : (perMinute : ℚ) ≠ 0 := Nat.cast_ne_zero.mpr hcapacity.ne'
      unfold refillPerMs
      field_simp
    have hmul := mul_le_mul_of_nonneg_right hceil hpos.le
    linarith

/-- The seconds of a header cover its milliseconds, and one token's worth of them
is rounded up to at most one token's worth of seconds. -/
theorem seconds_bounds
    {ms : Nat}
    (hcapacity : 0 < perMinute)
    (hms : ms ≤ ⌈(60000 : ℚ) / perMinute⌉₊) :
    1 ≤ max 1 ((ms + 999) / 1000) ∧ max 1 ((ms + 999) / 1000) ≤ ⌈(60 : ℚ) / perMinute⌉₊ ∧
      ms ≤ 1000 * max 1 ((ms + 999) / 1000) := by
  have hpos : (0 : ℚ) < perMinute := Nat.cast_pos.mpr hcapacity
  have hone : 1 ≤ ⌈(60 : ℚ) / perMinute⌉₊ := Nat.one_le_ceil_iff.mpr (div_pos (by norm_num) hpos)
  have hceil : ⌈(60000 : ℚ) / perMinute⌉₊ ≤ 1000 * ⌈(60 : ℚ) / perMinute⌉₊ := by
    rw [Nat.ceil_le]
    have hle := Nat.le_ceil ((60 : ℚ) / perMinute)
    have hscale : (60000 : ℚ) / perMinute = 1000 * (60 / perMinute) := by ring
    rw [hscale]
    push_cast
    linarith
  omega

end Rounding

section Results

variable {config : Config} {s : RateStore} {user : Uuid}

/--
**The time to wait is exact.**  In every run of the rate limit, a call of a user that
is refused is replied between one millisecond and the milliseconds of one token, and
its answer carries a `Retry-After` header from one second to the seconds of one token.
Take any later call of the user with only refused calls of the user in between: it is
granted if and only if the milliseconds of the reply have passed on the script's clock,
and it is granted once the seconds of the header have passed.
-/
theorem retry_after_exact
    {es : List RateEvent} {before rest : List RateCall} {rejected : RateCall}
    (hrun : RateRun config es s)
    (hcalls : s.callsOf user = before ++ rejected :: rest)
    (hrejected : rejected.granted = false) :
    (1 ≤ rejected.retryAfterMs ∧
        rejected.retryAfterMs ≤ ⌈(60000 : ℚ) / config.TTS_RATE_LIMIT_PER_MINUTE⌉₊) ∧
      ∃ seconds, rejected.sentRetryAfter = some seconds ∧ 1 ≤ seconds ∧
        seconds ≤ ⌈(60 : ℚ) / config.TTS_RATE_LIMIT_PER_MINUTE⌉₊ ∧
          ∀ between later after, rest = between ++ later :: after →
            (∀ call, call ∈ between → call.granted = false) →
              rejected.nowMs ≤ later.nowMs ∧
                (later.granted = true ↔
                  rejected.retryAfterMs ≤ later.nowMs - rejected.nowMs) ∧
                (1000 * seconds ≤ later.nowMs - rejected.nowMs → later.granted = true) := by
  have hok := rateOk_of_run hrun
  have hcapacity := config.rateLimit_pos
  have hlow := (granted_iff_of_split hok hcalls).not.mp (by simp [hrejected])
  have hreply := reply_of_split hok hcalls
  have hnonneg := found_nonneg hok hcalls
  rw [replyAt, if_neg hlow] at hreply
  have hms : rejected.retryAfterMs = waitMs config.TTS_RATE_LIMIT_PER_MINUTE _ :=
    congrArg Prod.snd hreply
  have hbounds := waitMs_bounds hcapacity hnonneg (not_le.mp hlow)
  rw [← hms] at hbounds
  obtain ⟨hone, hseconds, hcover⟩ := seconds_bounds hcapacity hbounds.2
  refine ⟨hbounds, _, sentRetryAfter_of_refused hrejected, hone, hseconds, ?_⟩
  intro between later after hrest hbetween
  have hsplit : s.callsOf user = (before ++ rejected :: between) ++ later :: after := by
    rw [hcalls, hrest, List.append_assoc, List.cons_append]
  have hle : rejected.nowMs ≤ later.nowMs := by
    have hsorted := nowMs_sorted user hok
    unfold RateStore.timesOf at hsorted
    rw [hsplit, List.map_append, List.pairwise_append] at hsorted
    exact hsorted.2.2 _ (List.mem_map_of_mem (by simp)) _ (by simp)
  have hgranted : later.granted = true ↔
      rejected.retryAfterMs ≤ later.nowMs - rejected.nowMs := by
    -- The refused calls leave the bucket that the rejected call found.
    have hsame := plainAfter_of_refused hok hsplit (by
      intro call hcall
      rcases List.mem_cons.mp hcall with rfl | hcall
      · exact hrejected
      · exact hbetween call hcall)
    rw [granted_iff_of_split hok hsplit, hsame, hms, waitMs_le_iff hcapacity, Nat.cast_sub hle]
    exact Bucket.one_le_level_iff (Nat.one_le_cast.mpr hcapacity) (not_le.mp hlow)
  exact ⟨hle, hgranted, fun hwaited => hgranted.mpr (hcover.trans hwaited)⟩

/-- One token a minute: a call, one refused after half a minute with 30000 milliseconds
to wait, one refused in between, and one granted when they have passed. -/
def refusedTwice : List RateEvent :=
  [.call sampleUser, .tick 30000000, .call sampleUser, .tick 15000000, .call sampleUser,
    .tick 15000000, .call sampleUser]

theorem retry_after_exact_half_minute :
    ∃ s : RateStore,
      Machine.Run (rateMachine slowConfig) Machine.anyStep RateStore.initial refusedTwice s ∧
      (s.callsOf sampleUser).map RateCall.reply = [(1, 0), (0, 30000), (0, 15000), (1, 0)] ∧
        ((⟨sampleUser, 60000000, 1, 0⟩ : RateCall).granted = true ↔ 30000 ≤ 60000 - 30000) := by
  have hexec : ((rateMachine slowConfig).exec (fun _ _ => true) RateStore.initial
      refusedTwice).any
      (fun s => decide (s.callsOf sampleUser =
        [⟨sampleUser, 0, 1, 0⟩, ⟨sampleUser, 30000000, 0, 30000⟩,
          ⟨sampleUser, 45000000, 0, 15000⟩, ⟨sampleUser, 60000000, 1, 0⟩])) = true := by
    decide +kernel
  obtain ⟨s, hrun, hs⟩ := Machine.exists_anyRun_of_exec hexec
  have hcalls := of_decide_eq_true hs
  have hfirst : s.callsOf sampleUser = [⟨sampleUser, 0, 1, 0⟩] ++ ⟨sampleUser, 30000000, 0, 30000⟩ ::
      [⟨sampleUser, 45000000, 0, 15000⟩, ⟨sampleUser, 60000000, 1, 0⟩] := hcalls
  obtain ⟨_, seconds, _, _, _, hlater⟩ := retry_after_exact hrun hfirst (by decide)
  refine ⟨s, hrun, by rw [hcalls]; rfl, ?_⟩
  exact (hlater [⟨sampleUser, 45000000, 0, 15000⟩] _ [] rfl (by decide)).2.1

end Results

end BengaliTts
