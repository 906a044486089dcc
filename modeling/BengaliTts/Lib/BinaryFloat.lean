import Mathlib.Data.Int.Log
import Mathlib.Data.Rat.Floor
import Mathlib.Tactic.Linarith
import Mathlib.Tactic.Positivity

/-!
# Binary floating point over the rationals

A binary format keeps so many significant bits, down to a least spacing; a number
beyond the largest is kept as an infinity.  A rational is rounded to a nearest number
of the format, to the one with the even significand where two are nearest.  The two
zeros of a format are one here.

Main facts:
* `round_mono`: rounding keeps the order;
* `round_of_representable`: what the format can represent is not changed;
* `le_round`, `round_le`: what lies above or below a representable number is not rounded
  past it.
-/

namespace BengaliTts
namespace Lib

/-- A nearest integer, the even one where two are nearest. -/
def nearestEven (x : ℚ) : ℤ :=
  if x - ⌊x⌋ < 1 / 2 then ⌊x⌋
  else if 1 / 2 < x - ⌊x⌋ then ⌊x⌋ + 1
  else if ⌊x⌋ % 2 = 0 then ⌊x⌋
  else ⌊x⌋ + 1

/-- Toward zero. -/
def truncate (x : ℚ) : ℤ :=
  if x < 0 then -⌊-x⌋ else ⌊x⌋

section Integers

theorem nearestEven_bounds
    (x : ℚ) :
    ⌊x⌋ ≤ nearestEven x ∧ nearestEven x ≤ ⌊x⌋ + 1 := by
  unfold nearestEven
  split
  · omega
  · split
    · omega
    · split <;> omega

theorem nearestEven_intCast
    (n : ℤ) :
    nearestEven n = n := by
  have hhalf : ((n : ℚ) - (n : ℤ)) < 1 / 2 := by
    rw [sub_self]
    norm_num
  rw [nearestEven, Int.floor_intCast, if_pos hhalf]

theorem nearestEven_mono
    {x y : ℚ}
    (h : x ≤ y) :
    nearestEven x ≤ nearestEven y := by
  have hfloor := Int.floor_mono h
  rcases hfloor.lt_or_eq with hlt | heq
  · have hx := (nearestEven_bounds x).2
    have hy := (nearestEven_bounds y).1
    omega
  · -- On one unit interval the fraction decides, and it is no smaller for `y`.
    have hcast : ((⌊x⌋ : ℤ) : ℚ) = (⌊y⌋ : ℤ) := by rw [heq]
    unfold nearestEven
    split_ifs <;> first | omega | linarith

theorem nearestEven_nonneg
    {x : ℚ}
    (h : 0 ≤ x) :
    0 ≤ nearestEven x := by
  have hzero : nearestEven 0 = 0 := by exact_mod_cast nearestEven_intCast 0
  rw [← hzero]
  exact nearestEven_mono h

theorem truncate_of_nonneg
    {x : ℚ}
    (h : 0 ≤ x) :
    truncate x = ⌊x⌋ :=
  if_neg (not_lt.mpr h)

theorem truncate_neg
    (x : ℚ) :
    truncate (-x) = -truncate x := by
  unfold truncate
  rcases lt_trichotomy x 0 with h | rfl | h
  · rw [if_neg (by linarith), if_pos h, neg_neg]
  · simp
  · rw [if_pos (by linarith), if_neg (by linarith), neg_neg]

theorem truncate_intCast
    (n : ℤ) :
    truncate n = n := by
  unfold truncate
  split
  · rw [← Int.cast_neg, Int.floor_intCast, neg_neg]
  · exact Int.floor_intCast n

theorem truncate_mono
    {x y : ℚ}
    (h : x ≤ y) :
    truncate x ≤ truncate y := by
  unfold truncate
  split_ifs with hx hy hy
  · have := Int.floor_mono (neg_le_neg h)
    omega
  · have hneg : 0 ≤ ⌊-x⌋ := Int.floor_nonneg.mpr (by linarith)
    have hpos : 0 ≤ ⌊y⌋ := Int.floor_nonneg.mpr (by linarith)
    omega
  · exact absurd hx (by linarith)
  · exact Int.floor_mono h

/-- A number between two integers is cut off between them. -/
theorem truncate_between
    {x : ℚ} {m n : ℤ}
    (hm : (m : ℚ) ≤ x)
    (hn : x ≤ n) :
    m ≤ truncate x ∧ truncate x ≤ n := by
  constructor
  · rw [← truncate_intCast m]
    exact truncate_mono hm
  · rw [← truncate_intCast n]
    exact truncate_mono hn

end Integers

/-- The significant bits, the exponent of the least spacing, and the exponent of the
first power of two that is too large. -/
structure FloatFormat where
  precision : Nat
  precision_pos : 0 < precision
  emin : ℤ
  emax : ℤ

/-- A number of a format. -/
inductive FloatValue where
  | nan
  | inf (negative : Bool)
  | finite (x : ℚ)
  deriving DecidableEq

namespace FloatValue

/-- The order of the numbers; `nan` is not in it. -/
def Le : FloatValue → FloatValue → Prop
  | .nan, _ => False
  | _, .nan => False
  | .inf true, _ => True
  | _, .inf false => True
  | .finite x, .finite y => x ≤ y
  | _, _ => False

/-- The nearest number between two bounds. -/
def clip (lo hi : ℚ) : FloatValue → FloatValue
  | .nan => .nan
  | .inf negative => .finite (if negative then lo else hi)
  | .finite x => .finite (min (max x lo) hi)

end FloatValue

namespace FloatFormat

variable (F : FloatFormat)

def Representable (x : ℚ) : Prop :=
  ∃ m e : ℤ, |m| < 2 ^ F.precision ∧ F.emin ≤ e ∧ x = m * 2 ^ e

/-- The exponent of the spacing of the format around `x`. -/
def spacing (x : ℚ) : ℤ :=
  max (Int.log 2 x + 1 - F.precision) F.emin

def roundAbs (x : ℚ) : ℚ :=
  nearestEven (x / 2 ^ F.spacing x) * 2 ^ F.spacing x

def round (x : ℚ) : ℚ :=
  if x < 0 then -F.roundAbs (-x) else F.roundAbs x

/-- A rational as a number of the format. -/
def ofRat (x : ℚ) : FloatValue :=
  if |F.round x| < 2 ^ F.emax then .finite (F.round x) else .inf (decide (x < 0))

/-- A number of another format, or of this one, in this format. -/
def convert : FloatValue → FloatValue
  | .nan => .nan
  | .inf negative => .inf negative
  | .finite x => F.ofRat x

/-- A number times a positive constant. -/
def times (c : ℚ) : FloatValue → FloatValue
  | .nan => .nan
  | .inf negative => .inf negative
  | .finite x => F.ofRat (x * c)

variable {F} {x y : ℚ}

section Spacing

theorem two_zpow_pos
    (e : ℤ) :
    (0 : ℚ) < 2 ^ e :=
  zpow_pos (by norm_num) e

/-- A multiple of a spacing is a multiple of every smaller one. -/
theorem exists_mul_zpow
    (m : ℤ) {d e : ℤ}
    (h : d ≤ e) :
    ∃ k : ℤ, (m : ℚ) * 2 ^ e = k * 2 ^ d := by
  obtain ⟨n, hn⟩ := Int.eq_ofNat_of_zero_le (sub_nonneg.mpr h)
  have hsum : e = n + d := by omega
  refine ⟨m * 2 ^ n, ?_⟩
  rw [hsum, zpow_add₀ (by norm_num), zpow_natCast]
  push_cast
  ring

theorem spacing_mono
    (hx : 0 < x)
    (h : x ≤ y) :
    F.spacing x ≤ F.spacing y := by
  have hlog : Int.log 2 x ≤ Int.log 2 y := Int.log_mono_right hx h
  unfold spacing
  omega

theorem roundAbs_zero :
    F.roundAbs 0 = 0 := by
  have hint : nearestEven 0 = 0 := by exact_mod_cast nearestEven_intCast 0
  rw [roundAbs, zero_div, hint, Int.cast_zero, zero_mul]

theorem roundAbs_nonneg
    (h : 0 ≤ x) :
    0 ≤ F.roundAbs x := by
  have hquot : 0 ≤ nearestEven (x / 2 ^ F.spacing x) :=
    nearestEven_nonneg (div_nonneg h (two_zpow_pos _).le)
  exact mul_nonneg (by exact_mod_cast hquot) (two_zpow_pos _).le

/-- A multiple of the spacing around `x` bounds the rounded number if it bounds `x`. -/
theorem roundAbs_le_of_multiple
    {b : ℚ} {k : ℤ}
    (hb : b = k * 2 ^ F.spacing x)
    (h : x ≤ b) :
    F.roundAbs x ≤ b := by
  have hpos := two_zpow_pos (F.spacing x)
  have hquot : x / 2 ^ F.spacing x ≤ k := by
    rw [div_le_iff₀ hpos, ← hb]
    exact h
  have hint : nearestEven (x / 2 ^ F.spacing x) ≤ k := by
    rw [← nearestEven_intCast k]
    exact nearestEven_mono hquot
  rw [hb, roundAbs]
  exact mul_le_mul_of_nonneg_right (by exact_mod_cast hint) hpos.le

theorem le_roundAbs_of_multiple
    {b : ℚ} {k : ℤ}
    (hb : b = k * 2 ^ F.spacing x)
    (h : b ≤ x) :
    b ≤ F.roundAbs x := by
  have hpos := two_zpow_pos (F.spacing x)
  have hquot : (k : ℚ) ≤ x / 2 ^ F.spacing x := by
    rw [le_div_iff₀ hpos, ← hb]
    exact h
  have hint : k ≤ nearestEven (x / 2 ^ F.spacing x) := by
    rw [← nearestEven_intCast k]
    exact nearestEven_mono hquot
  rw [hb, roundAbs]
  exact mul_le_mul_of_nonneg_right (by exact_mod_cast hint) hpos.le

end Spacing

section Order

theorem roundAbs_mono
    (hx : 0 ≤ x)
    (h : x ≤ y) :
    F.roundAbs x ≤ F.roundAbs y := by
  rcases hx.eq_or_lt with rfl | hpos
  · rw [roundAbs_zero]
    exact roundAbs_nonneg h
  · rcases (spacing_mono (F := F) hpos h).lt_or_eq with hlt | heq
    · -- A power of two lies between: the first number with the wider spacing.
      have hy : 0 < y := lt_of_lt_of_le hpos h
      have hspacing : F.spacing y = Int.log 2 y + 1 - F.precision := by
        have hmin : F.emin ≤ F.spacing x := le_max_right _ _
        unfold spacing at hlt hmin ⊢
        omega
      have hlog : Int.log 2 x < Int.log 2 y := by
        unfold spacing at hlt hspacing
        omega
      have hxb : x < (2 : ℚ) ^ Int.log 2 y := by
        have := (Int.lt_zpow_iff_log_lt (b := 2) Nat.one_lt_two hpos).mpr hlog
        exact_mod_cast this
      have hby : (2 : ℚ) ^ Int.log 2 y ≤ y := by
        have := Int.zpow_log_le_self (b := 2) Nat.one_lt_two hy
        exact_mod_cast this
      have hle : F.spacing y ≤ Int.log 2 y := by
        have := F.precision_pos
        omega
      obtain ⟨k, hk⟩ := exists_mul_zpow 1 (hlt.le.trans hle)
      obtain ⟨l, hl⟩ := exists_mul_zpow 1 hle
      rw [Int.cast_one, one_mul] at hk hl
      exact (roundAbs_le_of_multiple hk hxb.le).trans (le_roundAbs_of_multiple hl hby)
    · rw [roundAbs, roundAbs, heq]
      have hint : nearestEven (x / 2 ^ F.spacing y) ≤ nearestEven (y / 2 ^ F.spacing y) :=
        nearestEven_mono (div_le_div_of_nonneg_right h (two_zpow_pos _).le)
      exact mul_le_mul_of_nonneg_right (by exact_mod_cast hint) (two_zpow_pos _).le

theorem round_neg
    (x : ℚ) :
    F.round (-x) = -F.round x := by
  unfold round
  rcases lt_trichotomy x 0 with h | rfl | h
  · rw [if_neg (by linarith), if_pos h, neg_neg]
  · simp [roundAbs, nearestEven]
  · rw [if_pos (by linarith), if_neg (by linarith), neg_neg]

theorem round_of_nonneg
    (h : 0 ≤ x) :
    F.round x = F.roundAbs x :=
  if_neg (not_lt.mpr h)

theorem round_mono
    (h : x ≤ y) :
    F.round x ≤ F.round y := by
  unfold round
  split_ifs with hx hy hy
  · exact neg_le_neg (roundAbs_mono (by linarith) (neg_le_neg h))
  · have hneg := roundAbs_nonneg (F := F) (x := -x) (by linarith)
    have hpos := roundAbs_nonneg (F := F) (x := y) (by linarith)
    linarith
  · exact absurd hx (by linarith)
  · exact roundAbs_mono (by linarith) h

/-- The spacing around a number is no wider than an exponent that represents it. -/
theorem spacing_le
    {m e : ℤ}
    (hm : |m| < 2 ^ F.precision)
    (he : F.emin ≤ e)
    (hx : 0 < (m : ℚ) * 2 ^ e) :
    F.spacing ((m : ℚ) * 2 ^ e) ≤ e := by
  have hlarge : (m : ℚ) * 2 ^ e < (2 : ℚ) ^ ((F.precision : ℤ) + e) := by
    have hcast : (m : ℚ) < 2 ^ F.precision := by
      exact_mod_cast lt_of_le_of_lt (le_abs_self m) hm
    rw [zpow_add₀ (by norm_num), zpow_natCast]
    exact mul_lt_mul_of_pos_right hcast (two_zpow_pos e)
  have hlog : Int.log 2 ((m : ℚ) * 2 ^ e) < F.precision + e :=
    (Int.lt_zpow_iff_log_lt (b := 2) Nat.one_lt_two hx).mp (by exact_mod_cast hlarge)
  unfold spacing
  omega

theorem roundAbs_of_representable
    (h : F.Representable x)
    (hx : 0 ≤ x) :
    F.roundAbs x = x := by
  rcases hx.eq_or_lt with rfl | hpos
  · exact roundAbs_zero
  · obtain ⟨m, e, hm, he, rfl⟩ := h
    obtain ⟨k, hk⟩ := exists_mul_zpow m (spacing_le hm he hpos)
    have hquot : (m : ℚ) * 2 ^ e / 2 ^ F.spacing ((m : ℚ) * 2 ^ e) = k := by
      rw [div_eq_iff (two_zpow_pos _).ne']
      exact hk
    rw [roundAbs, hquot, nearestEven_intCast]
    exact hk.symm

theorem representable_neg
    (h : F.Representable x) :
    F.Representable (-x) := by
  obtain ⟨m, e, hm, he, rfl⟩ := h
  refine ⟨-m, e, ?_, he, ?_⟩
  · rw [abs_neg]
    exact hm
  · rw [Int.cast_neg, neg_mul]

/-- **Exactness.**  What the format can represent is not changed. -/
theorem round_of_representable
    (h : F.Representable x) :
    F.round x = x := by
  rcases le_or_gt 0 x with hx | hx
  · rw [round_of_nonneg hx, roundAbs_of_representable h hx]
  · have hneg := roundAbs_of_representable (representable_neg h) (by linarith)
    rw [round, if_pos hx, hneg, neg_neg]

theorem le_round
    {b : ℚ}
    (hb : F.Representable b)
    (h : b ≤ x) :
    b ≤ F.round x := by
  rw [← round_of_representable hb]
  exact round_mono h

theorem round_le
    {b : ℚ}
    (hb : F.Representable b)
    (h : x ≤ b) :
    F.round x ≤ b := by
  rw [← round_of_representable hb]
  exact round_mono h

theorem representable_intCast
    {n : ℤ}
    (hn : |n| < 2 ^ F.precision)
    (hmin : F.emin ≤ 0) :
    F.Representable n :=
  ⟨n, 0, hn, hmin, by rw [zpow_zero, mul_one]⟩

end Order

section Values

variable {v v' : FloatValue} {lo hi : ℚ}

/-- A number between two bounds, unless it was none. -/
theorem clip_eq
    (hbounds : lo ≤ hi)
    (v : FloatValue) :
    v = .nan ∨ ∃ x, v.clip lo hi = .finite x ∧ lo ≤ x ∧ x ≤ hi := by
  cases v with
  | nan => exact Or.inl rfl
  | inf negative =>
      refine Or.inr ⟨if negative then lo else hi, rfl, ?_⟩
      cases negative
      · exact ⟨hbounds, le_refl hi⟩
      · exact ⟨le_refl lo, hbounds⟩
  | finite x =>
      exact Or.inr ⟨min (max x lo) hi, rfl, le_min (le_max_right x lo) hbounds,
        min_le_right _ hi⟩

theorem clip_mono
    (hbounds : lo ≤ hi)
    (h : v.Le v') :
    ∃ x y, v.clip lo hi = .finite x ∧ v'.clip lo hi = .finite y ∧ x ≤ y := by
  cases v with
  | nan => exact h.elim
  | inf negative =>
      cases v' with
      | nan => cases negative <;> exact h.elim
      | inf negative' =>
          refine ⟨_, _, rfl, rfl, ?_⟩
          cases negative <;> cases negative'
          · exact le_refl hi
          · exact h.elim
          · exact hbounds
          · exact le_refl lo
      | finite y =>
          refine ⟨_, _, rfl, rfl, ?_⟩
          cases negative
          · exact h.elim
          · exact le_min (le_max_right y lo) hbounds
  | finite x =>
      cases v' with
      | nan => exact h.elim
      | inf negative' =>
          refine ⟨_, _, rfl, rfl, ?_⟩
          cases negative'
          · exact min_le_right _ hi
          · exact h.elim
      | finite y =>
          exact ⟨_, _, rfl, rfl, min_le_min_right hi (max_le_max_right lo h)⟩

theorem ofRat_of_lt
    (h : |F.round x| < 2 ^ F.emax) :
    F.ofRat x = .finite (F.round x) :=
  if_pos h

/-- A number no larger than a representable one below the limit stays finite. -/
theorem ofRat_of_abs_le
    {b : ℚ}
    (hb : F.Representable b)
    (hlimit : b < 2 ^ F.emax)
    (h : |x| ≤ b) :
    F.ofRat x = .finite (F.round x) ∧ |F.round x| ≤ b := by
  have hround : |F.round x| ≤ b := by
    obtain ⟨hlower, hupper⟩ := abs_le.mp h
    rw [abs_le]
    exact ⟨le_round (representable_neg hb) hlower, round_le hb hupper⟩
  exact ⟨ofRat_of_lt (lt_of_le_of_lt hround hlimit), hround⟩

theorem ofRat_of_representable
    (h : F.Representable x)
    (hlimit : |x| < 2 ^ F.emax) :
    F.ofRat x = .finite x := by
  have hround := round_of_representable h
  rw [ofRat_of_lt (by rw [hround]; exact hlimit), hround]

/-- What a rational becomes, by where its rounding falls. -/
theorem ofRat_cases
    (x : ℚ) :
    (|F.round x| < 2 ^ F.emax ∧ F.ofRat x = .finite (F.round x)) ∨
    (2 ^ F.emax ≤ F.round x ∧ F.ofRat x = .inf false) ∨
    (F.round x ≤ -2 ^ F.emax ∧ F.ofRat x = .inf true) := by
  have hpos := two_zpow_pos F.emax
  rcases lt_or_ge |F.round x| (2 ^ F.emax) with hlt | hge
  · exact Or.inl ⟨hlt, ofRat_of_lt hlt⟩
  · have hinf : F.ofRat x = .inf (decide (x < 0)) := if_neg (not_lt.mpr hge)
    rcases lt_or_ge x 0 with hx | hx
    · have hround : F.round x = -F.roundAbs (-x) := if_pos hx
      have hnonneg := roundAbs_nonneg (F := F) (x := -x) (by linarith)
      rw [abs_of_nonpos (by linarith)] at hge
      exact Or.inr (Or.inr ⟨by linarith, by rw [hinf, decide_eq_true hx]⟩)
    · have hnonneg := roundAbs_nonneg (F := F) hx
      rw [round_of_nonneg hx, abs_of_nonneg hnonneg] at hge
      refine Or.inr (Or.inl ⟨?_, by rw [hinf, decide_eq_false (not_lt.mpr hx)]⟩)
      rw [round_of_nonneg hx]
      exact hge

/-- Taking numbers into the format keeps their order. -/
theorem convert_mono
    (h : v.Le v') :
    (F.convert v).Le (F.convert v') := by
  have hpos := two_zpow_pos F.emax
  cases v with
  | nan => exact h.elim
  | inf negative =>
      cases v' with
      | nan => cases negative <;> exact h.elim
      | inf negative' => exact h
      | finite y =>
          cases negative
          · exact h.elim
          · rcases ofRat_cases (F := F) y with ⟨_, hy⟩ | ⟨_, hy⟩ | ⟨_, hy⟩ <;>
              (rw [convert, convert, hy]; trivial)
  | finite x =>
      cases v' with
      | nan => exact h.elim
      | inf negative' =>
          cases negative'
          · rcases ofRat_cases (F := F) x with ⟨_, hx⟩ | ⟨_, hx⟩ | ⟨_, hx⟩ <;>
              (rw [convert, convert, hx]; trivial)
          · exact h.elim
      | finite y =>
          have hround : F.round x ≤ F.round y := round_mono h
          rw [convert, convert]
          rcases ofRat_cases (F := F) x with ⟨hltx, hx⟩ | ⟨hgex, hx⟩ | ⟨hlex, hx⟩ <;>
            rcases ofRat_cases (F := F) y with ⟨hlty, hy⟩ | ⟨hgey, hy⟩ | ⟨hley, hy⟩ <;>
              rw [hx, hy]
          · exact hround
          · trivial
          · -- A finite number is not below one that is too small to be finite.
            have := (abs_lt.mp hltx).1
            exact absurd hround (by linarith)
          · have := (abs_lt.mp hlty).2
            exact absurd hround (by linarith)
          · trivial
          · exact absurd hround (by linarith)
          · trivial
          · trivial
          · trivial

end Values

end FloatFormat

end Lib
end BengaliTts
