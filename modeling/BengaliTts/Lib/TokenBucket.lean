import Mathlib.Algebra.Order.Field.Basic
import Mathlib.Data.List.Count
import Mathlib.Tactic.Linarith
import Mathlib.Tactic.Ring

/-!
# Token buckets

A bucket of capacity `c` is refilled at rate `r` and never holds more than `c`.
A call is granted if the bucket holds at least one token, and takes it.  The
bucket is stored as its content at the time of its last change; what it holds
later is computed (`level`).

A call that is refused changes nothing here.  An implementation may write the
bucket back at a refused call as well: `level_write` says that nobody can tell.

Main facts:
* `countP_trace_le`: the calls granted in a window of length `T` are at most
  `c + T * r`;
* `trace_of_leavesOut`: a refused call that is left out changes the verdict of
  no other call;
* `one_le_level_iff`: when a bucket without a whole token has one.
-/

namespace BengaliTts
namespace Lib

universe u v

section LeavesOut

variable {α : Type u} {β : Type v}

/-- The second list is the first one without some of the members that meet `p`. -/
inductive LeavesOut (p : α → Prop) : List α → List α → Prop
  | nil : LeavesOut p [] []
  | keep {l m : List α} (x : α) (rest : LeavesOut p l m) :
      LeavesOut p (x :: l) (x :: m)
  | drop {l m : List α} {x : α} (hx : p x) (rest : LeavesOut p l m) :
      LeavesOut p (x :: l) m

theorem leavesOut_map
    {p : α → Prop} {q : β → Prop} {f : α → β} {l m : List α}
    (hpq : ∀ x, p x → q (f x))
    (h : LeavesOut p l m) :
    LeavesOut q (l.map f) (m.map f) := by
  induction h with
  | nil => exact .nil
  | keep x _ ih => exact .keep (f x) ih
  | drop hx _ ih => exact .drop (hpq _ hx) ih

/-- What is left of the images are the images of what is left. -/
theorem exists_of_leavesOut_map
    {p : α → Prop} {q : β → Prop} {f : α → β} {l : List α} {m : List β}
    (hqp : ∀ x, q (f x) → p x)
    (h : LeavesOut q (l.map f) m) :
    ∃ k, LeavesOut p l k ∧ m = k.map f := by
  induction l generalizing m with
  | nil =>
      cases h
      exact ⟨[], .nil, rfl⟩
  | cons x l ih =>
      rw [List.map_cons] at h
      cases h with
      | keep _ rest =>
          obtain ⟨k, hk, rfl⟩ := ih rest
          exact ⟨x :: k, .keep x hk, rfl⟩
      | drop hx rest =>
          obtain ⟨k, hk, rfl⟩ := ih rest
          exact ⟨k, .drop (hqp x hx) hk, rfl⟩

end LeavesOut

/-- The content of a bucket when it last changed, and when that was. -/
structure Bucket (𝕜 : Type u) where
  tokens : 𝕜
  stamp : 𝕜

namespace Bucket

variable {𝕜 : Type u} [Field 𝕜] [LinearOrder 𝕜]

/-- What the bucket holds at time `now`. -/
def level (c r : 𝕜) (b : Bucket 𝕜) (now : 𝕜) : 𝕜 :=
  min c (b.tokens + (now - b.stamp) * r)

/-- A call at time `now`: it takes a token, if there is one. -/
def take (c r : 𝕜) (b : Bucket 𝕜) (now : 𝕜) : Bucket 𝕜 :=
  if 1 ≤ b.level c r now then
    ⟨b.level c r now - 1, now⟩
  else
    b

/-- The bucket after calls at the given times. -/
def after (c r : 𝕜) (b : Bucket 𝕜) (times : List 𝕜) : Bucket 𝕜 :=
  times.foldl (take c r) b

/-- Calls at the given times, each with what it finds in the bucket. -/
def trace (c r : 𝕜) : Bucket 𝕜 → List 𝕜 → List (𝕜 × 𝕜)
  | _, [] => []
  | b, now :: rest => (now, b.level c r now) :: trace c r (b.take c r now) rest

variable {c r : 𝕜}

theorem trace_append
    (b : Bucket 𝕜) (ts us : List 𝕜) :
    trace c r b (ts ++ us) = trace c r b ts ++ trace c r (b.after c r ts) us := by
  induction ts generalizing b with
  | nil => rfl
  | cons t ts ih =>
      rw [List.cons_append, trace, trace, ih, List.cons_append]
      rfl

theorem after_append
    (b : Bucket 𝕜) (ts us : List 𝕜) :
    b.after c r (ts ++ us) = (b.after c r ts).after c r us :=
  List.foldl_append

@[simp] theorem map_fst_trace
    (b : Bucket 𝕜) (ts : List 𝕜) :
    (trace c r b ts).map Prod.fst = ts := by
  induction ts generalizing b with
  | nil => rfl
  | cons t ts ih => rw [trace, List.map_cons, ih]

@[simp] theorem length_trace
    (b : Bucket 𝕜) (ts : List 𝕜) :
    (trace c r b ts).length = ts.length := by
  rw [← List.length_map (f := Prod.fst), map_fst_trace]

/-- **Refused calls do not count.**  Without some of its refused calls the trace
is the trace of the calls that are left. -/
theorem trace_of_leavesOut
    {b : Bucket 𝕜} {ts : List 𝕜} {tr : List (𝕜 × 𝕜)}
    (h : LeavesOut (fun call : 𝕜 × 𝕜 => call.2 < 1) (trace c r b ts) tr) :
    trace c r b (tr.map Prod.fst) = tr := by
  induction ts generalizing b tr with
  | nil =>
      cases h
      rfl
  | cons t ts ih =>
      rw [trace] at h
      cases h with
      | keep _ rest =>
          rw [List.map_cons, trace, ih rest]
      | drop hx rest =>
          rw [take, if_neg (not_le.mpr hx)] at rest
          exact ih rest

variable {b : Bucket 𝕜} {t u : 𝕜}

theorem level_le
    (b : Bucket 𝕜) (t : 𝕜) :
    b.level c r t ≤ c :=
  min_le_left _ _

/-- A bucket that had time to fill up is full. -/
theorem level_of_filled
    (h : c ≤ b.tokens + (t - b.stamp) * r) :
    b.level c r t = c :=
  min_eq_left h

theorem take_of_refused
    (hlevel : ¬ 1 ≤ b.level c r t) :
    b.take c r t = b := by
  rw [take, if_neg hlevel]

/-- The call was granted, between the times `a` and `e`. -/
def grantedIn (a e : 𝕜) (call : 𝕜 × 𝕜) : Bool :=
  decide (1 ≤ call.2 ∧ a ≤ call.1 ∧ call.1 ≤ e)

theorem countP_trace_of_late
    {a e : 𝕜} {ts : List 𝕜}
    (hlate : ∀ t, t ∈ ts → e < t) :
    (trace c r b ts).countP (grantedIn a e) = 0 := by
  rw [List.countP_eq_zero]
  intro call hcall hgranted
  have htime : call.1 ∈ ts := by
    have hmem := List.mem_map_of_mem (f := Prod.fst) hcall
    rwa [map_fst_trace] at hmem
  have hle := (of_decide_eq_true hgranted).2.2
  exact absurd (hlate _ htime) (not_lt.mpr hle)

variable [IsStrictOrderedRing 𝕜]

/-- Writing the bucket back at time `t` makes no difference to later levels. -/
theorem level_write
    (hr : 0 ≤ r)
    (htu : t ≤ u) :
    (⟨b.level c r t, t⟩ : Bucket 𝕜).level c r u = b.level c r u := by
  have hrefill : 0 ≤ (u - t) * r := mul_nonneg (sub_nonneg.mpr htu) hr
  have hsplit : b.tokens + (u - b.stamp) * r = b.tokens + (t - b.stamp) * r + (u - t) * r := by
    ring
  unfold level
  rw [hsplit]
  rcases le_total c (b.tokens + (t - b.stamp) * r) with hfull | hroom
  · rw [min_eq_left hfull, min_eq_left (by linarith), min_eq_left (by linarith)]
  · rw [min_eq_right hroom]

theorem level_mono
    (hr : 0 ≤ r)
    (htu : t ≤ u) :
    b.level c r t ≤ b.level c r u := by
  have hrefill : (t - b.stamp) * r ≤ (u - b.stamp) * r :=
    mul_le_mul_of_nonneg_right (by linarith) hr
  exact min_le_min_left c (by linarith)

/-- The level rises at most by the refill. -/
theorem level_le_add
    (hr : 0 ≤ r)
    (htu : t ≤ u) :
    b.level c r u ≤ b.level c r t + (u - t) * r := by
  have hrefill : 0 ≤ (u - t) * r := mul_nonneg (sub_nonneg.mpr htu) hr
  unfold level
  rw [← min_add_add_right]
  refine min_le_min (by linarith) (le_of_eq ?_)
  ring

/-- A granted call leaves one token less. -/
theorem level_take_of_granted
    (hlevel : 1 ≤ b.level c r t) :
    (b.take c r t).level c r t = b.level c r t - 1 := by
  have hle := b.level_le (c := c) (r := r) t
  rw [take, if_pos hlevel, level, sub_self, zero_mul, add_zero]
  exact min_eq_right (by linarith)

theorem level_take_nonneg
    (hlevel : 0 ≤ b.level c r t) :
    0 ≤ (b.take c r t).level c r t := by
  by_cases h : 1 ≤ b.level c r t
  · rw [level_take_of_granted h]
    linarith
  · rw [take_of_refused h]
    exact hlevel

/-- A bucket without a whole token has one as soon as the refill makes up for what is
missing. -/
theorem one_le_level_iff
    (hc : 1 ≤ c)
    (hlow : b.level c r t < 1) :
    1 ≤ b.level c r u ↔ 1 - b.level c r t ≤ (u - t) * r := by
  have huncapped : b.level c r t = b.tokens + (t - b.stamp) * r := by
    refine min_eq_right (le_of_not_ge fun hfull => ?_)
    rw [level_of_filled hfull] at hlow
    exact absurd hc (not_le.mpr hlow)
  have hsplit : b.tokens + (u - b.stamp) * r = b.level c r t + (u - t) * r := by
    rw [huncapped]
    ring
  unfold level at hsplit ⊢
  rw [le_min_iff, hsplit]
  constructor
  · rintro ⟨_, h⟩
    linarith
  · intro h
    exact ⟨hc, by linarith⟩

/-- A bucket that is not negative at first is never negative. -/
theorem level_after_nonneg
    {s : 𝕜} {ts : List 𝕜}
    (hr : 0 ≤ r)
    (hsorted : ts.Pairwise (· ≤ ·))
    (hs : ∀ t, t ∈ ts → s ≤ t)
    (hu : ∀ t, t ∈ ts → t ≤ u)
    (hsu : s ≤ u)
    (hlevel : 0 ≤ b.level c r s) :
    0 ≤ (b.after c r ts).level c r u := by
  induction ts generalizing b s with
  | nil => exact hlevel.trans (level_mono hr hsu)
  | cons t ts ih =>
      obtain ⟨hlater, hsorted⟩ := List.pairwise_cons.mp hsorted
      have hst := hs t List.mem_cons_self
      refine ih (b := b.take c r t) hsorted hlater
        (fun v hv => hu v (List.mem_cons_of_mem _ hv)) (hu t List.mem_cons_self) ?_
      exact level_take_nonneg (hlevel.trans (level_mono hr hst))

section Windows

/-- From time `s` to `e` no more calls are granted than there are tokens at `s`
and tokens refilled since. -/
theorem countP_trace_le_level
    {a s e : 𝕜} {ts : List 𝕜}
    (hr : 0 ≤ r)
    (hse : s ≤ e)
    (hsorted : ts.Pairwise (· ≤ ·))
    (hs : ∀ t, t ∈ ts → s ≤ t)
    (hlevel : 0 ≤ b.level c r s) :
    ((trace c r b ts).countP (grantedIn a e) : 𝕜) ≤ b.level c r s + (e - s) * r := by
  have hroom : 0 ≤ (e - s) * r := mul_nonneg (sub_nonneg.mpr hse) hr
  induction ts generalizing b s with
  | nil =>
      simp only [trace, List.countP_nil, Nat.cast_zero]
      linarith
  | cons t ts ih =>
      have hst := hs t List.mem_cons_self
      obtain ⟨hafter, hsorted⟩ := List.pairwise_cons.mp hsorted
      rcases lt_or_ge e t with hlate | hte
      · rw [countP_trace_of_late]
        · rw [Nat.cast_zero]
          linarith
        · intro u hu
          rcases List.mem_cons.mp hu with rfl | hu
          · exact hlate
          · exact hlate.trans_le (hafter u hu)
      · have hadd := level_le_add (b := b) (c := c) hr hst
        have hsum : (e - s) * r = (t - s) * r + (e - t) * r := by ring
        have hrest : 0 ≤ (e - t) * r := mul_nonneg (sub_nonneg.mpr hte) hr
        have htlevel : 0 ≤ b.level c r t := hlevel.trans (level_mono hr hst)
        have hcount := ih (b := b.take c r t) hte hsorted hafter (level_take_nonneg htlevel) hrest
        rw [trace, List.countP_cons, Nat.cast_add]
        by_cases hgranted : 1 ≤ b.level c r t
        · rw [level_take_of_granted hgranted] at hcount
          have hone : (((if grantedIn a e (t, b.level c r t) = true then 1 else 0) : ℕ) : 𝕜) ≤ 1 := by
            split <;> simp
          linarith
        · rw [take_of_refused hgranted] at hcount ⊢
          have hnot : grantedIn a e (t, b.level c r t) = false := by
            simp [grantedIn, hgranted]
          rw [hnot]
          simp only [Bool.false_eq_true, if_false, Nat.cast_zero]
          linarith

/-- **The window bound.**  In any window no more calls are granted than the
capacity and what is refilled within the window. -/
theorem countP_trace_le
    {a s e : 𝕜} {ts : List 𝕜}
    (hc : 0 ≤ c)
    (hr : 0 ≤ r)
    (hae : a ≤ e)
    (hsorted : ts.Pairwise (· ≤ ·))
    (hs : ∀ t, t ∈ ts → s ≤ t)
    (hlevel : 0 ≤ b.level c r s) :
    ((trace c r b ts).countP (grantedIn a e) : 𝕜) ≤ c + (e - a) * r := by
  have hroom : 0 ≤ (e - a) * r := mul_nonneg (sub_nonneg.mpr hae) hr
  induction ts generalizing b s with
  | nil =>
      simp only [trace, List.countP_nil, Nat.cast_zero]
      linarith
  | cons t ts ih =>
      have hst := hs t List.mem_cons_self
      have htlevel : 0 ≤ b.level c r t := hlevel.trans (level_mono hr hst)
      have hfrom : ∀ u, u ∈ t :: ts → t ≤ u := by
        intro u hu
        rcases List.mem_cons.mp hu with rfl | hu
        · exact le_rfl
        · exact (List.pairwise_cons.mp hsorted).1 u hu
      rcases lt_or_ge t a with hearly | hat
      · -- Calls before the window are not counted and leave a bucket behind.
        have hnot : grantedIn a e (t, b.level c r t) = false := by
          simp [grantedIn, hearly]
        rw [trace, List.countP_cons_of_neg (by simp [hnot])]
        exact ih (List.pairwise_cons.mp hsorted).2 (List.pairwise_cons.mp hsorted).1
          (level_take_nonneg htlevel)
      · rcases lt_or_ge e t with hlate | hte
        · rw [countP_trace_of_late fun u hu => hlate.trans_le (hfrom u hu), Nat.cast_zero]
          linarith
        · have hcount := countP_trace_le_level (a := a) hr hte hsorted hfrom htlevel
          have hcap := b.level_le (c := c) (r := r) t
          have hshort : (e - t) * r ≤ (e - a) * r := mul_le_mul_of_nonneg_right (by linarith) hr
          linarith

end Windows

end Bucket

end Lib
end BengaliTts
