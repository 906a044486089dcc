import Mathlib.Algebra.Order.Ring.Nat
import Mathlib.Data.Nat.Find
import Mathlib.Data.List.Basic
import Mathlib.Tactic.SplitIfs

/-!
# Dates as ISO 8601 texts

Milliseconds since the beginning of 1970 in the calendar of today, and the text of such a
date in universal time with milliseconds.  A year is the last one that has begun, a month
the last one of the year that has begun; so a date is the beginning of both and what is
left.

Main facts:
* `moment_injective`: the fields of a date determine it;
* `isoText_injective`: different dates have different texts.
-/

namespace BengaliTts
namespace Lib
namespace Calendar

section Years

/-- The days between the beginnings of 1970 and of the year `1970 + n`. -/
def daysBefore (n : Nat) : Nat :=
  365 * n + (n + 1) / 4 + (n + 369) / 400 - (n + 69) / 100

def isLeap (year : Nat) : Bool :=
  year % 4 = 0 && (year % 100 ≠ 0 || year % 400 = 0)

/-- The years since 1970 that are over on a day. -/
def yearOfDay (day : Nat) : Nat :=
  Nat.findGreatest (fun n => daysBefore n ≤ day) (day / 365)

theorem le_daysBefore
    (n : Nat) :
    365 * n ≤ daysBefore n := by
  unfold daysBefore
  omega

theorem isLeap_iff
    (year : Nat) :
    isLeap year = true ↔ year % 4 = 0 ∧ (year % 100 ≠ 0 ∨ year % 400 = 0) := by
  simp only [isLeap, Bool.and_eq_true, Bool.or_eq_true, decide_eq_true_eq]

/-- A year has 365 days, or 366. -/
theorem daysBefore_succ
    (n : Nat) :
    daysBefore (n + 1) = daysBefore n + if isLeap (1970 + n) then 366 else 365 := by
  have hfour : (n + 1 + 1) / 4 = (n + 1) / 4 + if (1970 + n) % 4 = 0 then 1 else 0 := by
    split_ifs <;> omega
  have hhundred : (n + 1 + 69) / 100 = (n + 69) / 100 +
      if (1970 + n) % 100 = 0 then 1 else 0 := by
    split_ifs <;> omega
  have hfourHundred : (n + 1 + 369) / 400 = (n + 369) / 400 +
      if (1970 + n) % 400 = 0 then 1 else 0 := by
    split_ifs <;> omega
  have hcenturies : (n + 69) / 100 ≤ 365 * n := by omega
  have hleap := isLeap_iff (1970 + n)
  rw [daysBefore, daysBefore, hfour, hhundred, hfourHundred]
  generalize (n + 1) / 4 = a, (n + 69) / 100 = b, (n + 369) / 400 = c at hcenturies ⊢
  by_cases h : isLeap (1970 + n) = true
  · have hrule := hleap.mp h
    rw [if_pos h, if_pos hrule.1]
    split_ifs <;> omega
  · have hrule := mt hleap.mpr h
    rw [if_neg h]
    split_ifs <;> omega

theorem daysBefore_yearOfDay
    (day : Nat) :
    daysBefore (yearOfDay day) ≤ day := by
  have hzero : daysBefore 0 ≤ day := Nat.zero_le day
  exact Nat.findGreatest_spec (P := fun n => daysBefore n ≤ day) (Nat.zero_le (day / 365)) hzero

theorem lt_daysBefore
    (day : Nat) :
    day < daysBefore (yearOfDay day + 1) := by
  by_contra hle
  rw [Nat.not_lt] at hle
  have hbound := le_daysBefore (yearOfDay day + 1)
  have hin : yearOfDay day + 1 ≤ day / 365 := by omega
  exact Nat.findGreatest_is_greatest (P := fun n => daysBefore n ≤ day) (Nat.lt_succ_self _) hin hle

end Years

section Months

/-- The days of a year before a month, which counts from zero. -/
def monthStart (leap : Bool) (month : Nat) : Nat :=
  [0, 31, 59, 90, 120, 151, 181, 212, 243, 273, 304, 334].getD month 365 +
    if leap && decide (2 ≤ month) then 1 else 0

/-- The month of a day of a year. -/
def monthOfDay (leap : Bool) (day : Nat) : Nat :=
  Nat.findGreatest (fun m => monthStart leap m ≤ day) 11

theorem monthOfDay_le
    (leap : Bool) (day : Nat) :
    monthOfDay leap day ≤ 11 :=
  Nat.findGreatest_le 11

theorem monthStart_monthOfDay
    (leap : Bool) (day : Nat) :
    monthStart leap (monthOfDay leap day) ≤ day := by
  have hzero : monthStart leap 0 ≤ day := by
    cases leap <;> exact Nat.zero_le day
  exact Nat.findGreatest_spec (P := fun m => monthStart leap m ≤ day) (Nat.zero_le 11) hzero

/-- A month has at most 31 days. -/
theorem monthStart_succ
    (leap : Bool) {month : Nat}
    (h : month ≤ 11) :
    monthStart leap (month + 1) ≤ monthStart leap month + 31 := by
  have hall : ∀ month, month < 12 →
      monthStart leap (month + 1) ≤ monthStart leap month + 31 := by
    cases leap <;> decide
  exact hall month (by omega)

theorem lt_monthStart
    (leap : Bool) {day : Nat}
    (h : day < 365 + if leap then 1 else 0) :
    day < monthStart leap (monthOfDay leap day + 1) := by
  have hmonth := monthOfDay_le leap day
  by_cases hlast : monthOfDay leap day = 11
  · rw [hlast]
    cases leap <;> exact h
  · by_contra hle
    rw [Nat.not_lt] at hle
    have hin : monthOfDay leap day + 1 ≤ 11 := by omega
    exact Nat.findGreatest_is_greatest (P := fun m => monthStart leap m ≤ day)
      (Nat.lt_succ_self _) hin hle

end Months

section Moments

/-- The fields of a date; years count from 1970, months and days from zero. -/
structure Moment where
  year : Nat
  month : Nat
  day : Nat
  hour : Nat
  minute : Nat
  second : Nat
  milli : Nat

/-- The day of the year. -/
def dayInYear (day : Nat) : Nat :=
  day - daysBefore (yearOfDay day)

def leapOfDay (day : Nat) : Bool :=
  isLeap (1970 + yearOfDay day)

def monthIn (day : Nat) : Nat :=
  monthOfDay (leapOfDay day) (dayInYear day)

/-- The fields of a number of milliseconds since 1970. -/
def moment (ms : Nat) : Moment where
  year := yearOfDay (ms / 86400000)
  month := monthIn (ms / 86400000)
  day := dayInYear (ms / 86400000) -
    monthStart (leapOfDay (ms / 86400000)) (monthIn (ms / 86400000))
  hour := ms / 3600000 % 24
  minute := ms / 60000 % 60
  second := ms / 1000 % 60
  milli := ms % 1000

/-- The milliseconds of the fields. -/
def Moment.toMs (m : Moment) : Nat :=
  (((daysBefore m.year + monthStart (isLeap (1970 + m.year)) m.month + m.day) * 24 + m.hour) * 60 +
    m.minute) * 60000 + m.second * 1000 + m.milli

theorem toMs_moment
    (ms : Nat) :
    (moment ms).toMs = ms := by
  have hyear := daysBefore_yearOfDay (ms / 86400000)
  have hmonth := monthStart_monthOfDay (leapOfDay (ms / 86400000)) (dayInYear (ms / 86400000))
  have hday : daysBefore (yearOfDay (ms / 86400000)) +
      monthStart (leapOfDay (ms / 86400000)) (monthIn (ms / 86400000)) +
        (dayInYear (ms / 86400000) -
          monthStart (leapOfDay (ms / 86400000)) (monthIn (ms / 86400000))) = ms / 86400000 := by
    unfold monthIn
    unfold dayInYear at hmonth ⊢
    omega
  unfold leapOfDay at hday
  simp only [moment, Moment.toMs, leapOfDay, hday]
  omega

/-- **Dates.**  The fields of a date determine it. -/
theorem moment_injective
    {a b : Nat}
    (h : moment a = moment b) :
    a = b := by
  rw [← toMs_moment a, h, toMs_moment]

/-- The fields of a date are in their ranges. -/
structure Moment.InRange (m : Moment) : Prop where
  month : m.month < 12
  day : m.day < 31
  hour : m.hour < 24
  minute : m.minute < 60
  second : m.second < 60
  milli : m.milli < 1000

theorem moment_inRange
    (ms : Nat) :
    (moment ms).InRange := by
  have hyear := daysBefore_yearOfDay (ms / 86400000)
  have hnext := lt_daysBefore (ms / 86400000)
  rw [daysBefore_succ] at hnext
  have hlength : dayInYear (ms / 86400000) <
      365 + if leapOfDay (ms / 86400000) then 1 else 0 := by
    unfold dayInYear leapOfDay
    split_ifs at hnext ⊢ <;> omega
  have hmonth := monthOfDay_le (leapOfDay (ms / 86400000)) (dayInYear (ms / 86400000))
  have hend := lt_monthStart (leapOfDay (ms / 86400000)) hlength
  have hsucc := monthStart_succ (leapOfDay (ms / 86400000)) hmonth
  refine ⟨?_, ?_, Nat.mod_lt _ (by decide), Nat.mod_lt _ (by decide), Nat.mod_lt _ (by decide),
    Nat.mod_lt _ (by decide)⟩
  · exact Nat.lt_succ_of_le hmonth
  · simp only [moment, monthIn]
    omega

end Moments

section Texts

/-- A decimal digit. -/
def digit (n : Nat) : UInt16 :=
  UInt16.ofNat (48 + n)

/-- The last digits of a number, as many as the width. -/
def decimal : Nat → Nat → List UInt16
  | 0, _ => []
  | width + 1, n => decimal width (n / 10) ++ [digit (n % 10)]

/-- Four digits, or a plus and six. -/
def yearText (year : Nat) : List UInt16 :=
  if year < 10000 then decimal 4 year else 43 :: decimal 6 year

/-- `YYYY-MM-DDTHH:mm:ss.sssZ`. -/
def Moment.text (m : Moment) : List UInt16 :=
  yearText (1970 + m.year) ++ 45 :: decimal 2 (m.month + 1) ++ 45 :: decimal 2 (m.day + 1) ++
    84 :: decimal 2 m.hour ++ 58 :: decimal 2 m.minute ++ 58 :: decimal 2 m.second ++
      46 :: decimal 3 m.milli ++ [90]

def isoText (ms : Nat) : List UInt16 :=
  (moment ms).text

@[simp] theorem length_decimal
    (width n : Nat) :
    (decimal width n).length = width := by
  induction width generalizing n with
  | zero => rfl
  | succ width ih => rw [decimal, List.length_append, ih, List.length_singleton]

theorem digit_injective
    {a b : Nat}
    (ha : a < 10)
    (hb : b < 10)
    (h : digit a = digit b) :
    a = b := by
  have hnumber := congrArg UInt16.toNat h
  rw [digit, digit, UInt16.toNat_ofNat_of_lt' (by rw [UInt16.size]; omega),
    UInt16.toNat_ofNat_of_lt' (by rw [UInt16.size]; omega)] at hnumber
  omega

/-- A number that fits the width is determined by its digits. -/
theorem decimal_injective
    {width a b : Nat}
    (ha : a < 10 ^ width)
    (hb : b < 10 ^ width)
    (h : decimal width a = decimal width b) :
    a = b := by
  induction width generalizing a b with
  | zero => omega
  | succ width ih =>
      rw [decimal, decimal] at h
      obtain ⟨hfirst, hlast⟩ := List.append_inj h (by simp)
      rw [Nat.pow_succ] at ha hb
      have hquotient := ih (by omega) (by omega) hfirst
      have hdigit := digit_injective (Nat.mod_lt a (by decide)) (Nat.mod_lt b (by decide))
        (List.singleton_inj.mp hlast)
      omega

/-- Digits stand in front of the same separator. -/
theorem append_decimal_inj
    {width a b : Nat} {first second : List UInt16}
    (ha : a < 10 ^ width)
    (hb : b < 10 ^ width)
    (h : decimal width a ++ first = decimal width b ++ second) :
    a = b ∧ first = second := by
  obtain ⟨hdigits, hrest⟩ := List.append_inj h (by simp)
  exact ⟨decimal_injective ha hb hdigits, hrest⟩

theorem digit_ne_plus
    {n : Nat}
    (h : n < 10) :
    digit n ≠ 43 := by
  have hall : ∀ n, n < 10 → digit n ≠ 43 := by decide
  exact hall n h

theorem decimal_four_head
    (n : Nat) (rest : List UInt16) :
    (decimal 4 n ++ rest).head? = some (digit (n / 1000 % 10)) := by
  simp only [decimal, List.nil_append, List.cons_append, List.head?_cons, Nat.div_div_eq_div_mul]

theorem yearText_append_inj
    {a b : Nat} {first second : List UInt16}
    (ha : a < 1000000)
    (hb : b < 1000000)
    (h : yearText a ++ first = yearText b ++ second) :
    a = b ∧ first = second := by
  unfold yearText at h
  split_ifs at h with hfour hfour' hfour'
  · exact append_decimal_inj hfour hfour' h
  · have hhead := congrArg List.head? h
    rw [decimal_four_head] at hhead
    exact absurd (Option.some.inj hhead) (digit_ne_plus (Nat.mod_lt _ (by decide)))
  · have hhead := congrArg List.head? h
    rw [decimal_four_head] at hhead
    exact absurd (Option.some.inj hhead).symm (digit_ne_plus (Nat.mod_lt _ (by decide)))
  · rw [List.cons_append, List.cons_append] at h
    exact append_decimal_inj ha hb (List.cons.inj h).2

/-- A field after its separator. -/
theorem field_inj
    {width a b : Nat} {separator : UInt16} {first second : List UInt16}
    (ha : a < 10 ^ width)
    (hb : b < 10 ^ width)
    (h : separator :: (decimal width a ++ first) = separator :: (decimal width b ++ second)) :
    a = b ∧ first = second :=
  append_decimal_inj ha hb (List.cons.inj h).2

/-- Fields in their ranges are determined by the text. -/
theorem text_injective
    {m n : Moment}
    (hm : m.InRange)
    (hn : n.InRange)
    (hmyear : 1970 + m.year < 1000000)
    (hnyear : 1970 + n.year < 1000000)
    (h : m.text = n.text) :
    m = n := by
  obtain ⟨hm₁, hm₂, hm₃, hm₄, hm₅, hm₆⟩ := hm
  obtain ⟨hn₁, hn₂, hn₃, hn₄, hn₅, hn₆⟩ := hn
  unfold Moment.text at h
  simp only [List.append_assoc, List.cons_append] at h
  obtain ⟨hyear, h⟩ := yearText_append_inj hmyear hnyear h
  obtain ⟨hmonth, h⟩ := field_inj (by omega) (by omega) h
  obtain ⟨hday, h⟩ := field_inj (by omega) (by omega) h
  obtain ⟨hhour, h⟩ := field_inj (by omega) (by omega) h
  obtain ⟨hminute, h⟩ := field_inj (by omega) (by omega) h
  obtain ⟨hsecond, h⟩ := field_inj (by omega) (by omega) h
  obtain ⟨hmilli, _⟩ := field_inj (by omega) (by omega) h
  cases m
  cases n
  simp only at hyear hmonth hday hhour hminute hsecond hmilli
  simp only [Moment.mk.injEq]
  omega

/-- The last millisecond that a date of the language can name. -/
def MAX_TIME : Nat := 8640000000000000

theorem year_of_maxTime
    {ms : Nat}
    (h : ms ≤ MAX_TIME) :
    1970 + (moment ms).year < 1000000 := by
  have hbound := daysBefore_yearOfDay (ms / 86400000)
  have hyears := le_daysBefore (yearOfDay (ms / 86400000))
  unfold MAX_TIME at h
  simp only [moment]
  omega

/-- **ISO texts.**  Different dates have different texts. -/
theorem isoText_injective
    {a b : Nat}
    (ha : a ≤ MAX_TIME)
    (hb : b ≤ MAX_TIME)
    (h : isoText a = isoText b) :
    a = b :=
  moment_injective (text_injective (moment_inRange a) (moment_inRange b) (year_of_maxTime ha)
    (year_of_maxTime hb) h)

/-- The 29th of February 2024. -/
example : (moment 1709164800000).toMs = 1709164800000 ∧ (moment 1709164800000).month = 1 ∧
    (moment 1709164800000).day = 28 := by
  decide +kernel

end Texts

end Calendar
end Lib
end BengaliTts
