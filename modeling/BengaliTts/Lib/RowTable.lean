import Mathlib.Data.List.Nodup
import Mathlib.Data.List.Count

/-!
# Tables of rows

A table is the list of its rows, in no particular order.  `updateWhere` and
`deleteWhere` are the statements UPDATE and DELETE with a WHERE clause; an
INSERT puts the row in front.  A unique column is stated as `UniqueKey`.

Main facts:
* `mem_updateWhere`: the rows after an UPDATE;
* `uniqueKey_updateWhere`, `uniqueKey_deleteWhere`, `uniqueKey_cons`: what keeps
  a column unique;
* `find?_eq_some_iff_of_unique`: a lookup by a unique column;
* `countP_updateWhere_le`: an UPDATE that never makes a row match a condition
  does not raise the number of rows that match it.
-/

namespace BengaliTts
namespace Lib

universe u v

variable {ρ : Type u} {κ : Type v}

/-- `UPDATE ... SET f WHERE p`. -/
def updateWhere (p : ρ → Bool) (f : ρ → ρ) (t : List ρ) : List ρ :=
  t.map fun r => if p r then f r else r

/-- `DELETE ... WHERE p`. -/
def deleteWhere (p : ρ → Bool) (t : List ρ) : List ρ :=
  t.filter fun r => !p r

/-- No two rows agree on the column `key`. -/
def UniqueKey (key : ρ → κ) (t : List ρ) : Prop :=
  (t.map key).Nodup

theorem mem_updateWhere
    {p : ρ → Bool} {f : ρ → ρ} {t : List ρ} {r : ρ} :
    r ∈ updateWhere p f t ↔
      (∃ q, q ∈ t ∧ p q = true ∧ f q = r) ∨ (r ∈ t ∧ p r = false) := by
  simp only [updateWhere, List.mem_map]
  constructor
  · rintro ⟨q, hq, rfl⟩
    by_cases hp : p q = true
    · left
      exact ⟨q, hq, hp, by simp [hp]⟩
    · right
      have hp' : p q = false := by simpa using hp
      simpa [hp'] using hq
  · rintro (⟨q, hq, hp, rfl⟩ | ⟨hr, hp⟩)
    · exact ⟨q, hq, by simp [hp]⟩
    · exact ⟨r, hr, by simp [hp]⟩

@[simp] theorem mem_deleteWhere
    {p : ρ → Bool} {t : List ρ} {r : ρ} :
    r ∈ deleteWhere p t ↔ r ∈ t ∧ p r = false := by
  simp [deleteWhere]

/-- Every row after an UPDATE comes from a row that agrees on what `f` keeps. -/
theorem exists_of_mem_updateWhere
    {p : ρ → Bool} {f : ρ → ρ} {t : List ρ} {r : ρ}
    {R : ρ → ρ → Prop}
    (hrefl : ∀ q, R q q)
    (hf : ∀ q, R q (f q))
    (h : r ∈ updateWhere p f t) :
    ∃ q, q ∈ t ∧ R q r := by
  rcases mem_updateWhere.mp h with ⟨q, hq, _, rfl⟩ | ⟨hr, _⟩
  · exact ⟨q, hq, hf q⟩
  · exact ⟨r, hr, hrefl r⟩

theorem map_key_updateWhere
    {key : ρ → κ} {p : ρ → Bool} {f : ρ → ρ}
    (hf : ∀ r, key (f r) = key r)
    (t : List ρ) :
    (updateWhere p f t).map key = t.map key := by
  simp only [updateWhere, List.map_map]
  apply List.map_congr_left
  intro r _
  by_cases hp : p r = true
  · simp [hp, hf]
  · simp [hp]

theorem uniqueKey_updateWhere
    {key : ρ → κ} {p : ρ → Bool} {f : ρ → ρ} {t : List ρ}
    (hf : ∀ r, key (f r) = key r)
    (h : UniqueKey key t) :
    UniqueKey key (updateWhere p f t) := by
  unfold UniqueKey
  rw [map_key_updateWhere hf]
  exact h

theorem uniqueKey_deleteWhere
    {key : ρ → κ} {p : ρ → Bool} {t : List ρ}
    (h : UniqueKey key t) :
    UniqueKey key (deleteWhere p t) :=
  h.sublist (List.filter_sublist.map key)

theorem uniqueKey_cons
    {key : ρ → κ} {r : ρ} {t : List ρ}
    (hr : ∀ q, q ∈ t → key q ≠ key r)
    (h : UniqueKey key t) :
    UniqueKey key (r :: t) := by
  unfold UniqueKey
  rw [List.map_cons, List.nodup_cons]
  refine ⟨?_, h⟩
  intro hmem
  obtain ⟨q, hq, he⟩ := List.mem_map.mp hmem
  exact hr q hq he

/-- Two rows with the same value of a unique column are one row. -/
theorem eq_of_uniqueKey
    {key : ρ → κ} {t : List ρ} {q r : ρ}
    (h : UniqueKey key t)
    (hq : q ∈ t)
    (hr : r ∈ t)
    (he : key q = key r) :
    q = r :=
  List.inj_on_of_nodup_map h hq hr he

/-- A lookup by a unique column finds exactly the row with that value. -/
theorem find?_eq_some_iff_of_unique
    [DecidableEq κ]
    {key : ρ → κ} {t : List ρ} {k : κ} {r : ρ}
    (h : UniqueKey key t) :
    t.find? (fun q => decide (key q = k)) = some r ↔
      r ∈ t ∧ key r = k := by
  constructor
  · intro hf
    exact ⟨List.mem_of_find?_eq_some hf, by simpa using List.find?_some hf⟩
  · rintro ⟨hr, hk⟩
    cases hf : t.find? (fun q => decide (key q = k)) with
    | none =>
        have hne := List.find?_eq_none.mp hf r hr
        simp [hk] at hne
    | some q =>
        have hq := List.mem_of_find?_eq_some hf
        have hqk : key q = k := by simpa using List.find?_some hf
        rw [eq_of_uniqueKey h hq hr (hqk.trans hk.symm)]

/-- An UPDATE under which matching rows come from matching rows. -/
theorem countP_updateWhere_le
    {p q : ρ → Bool} {f : ρ → ρ}
    (hf : ∀ r, p r = true → q (f r) = true → q r = true)
    (t : List ρ) :
    (updateWhere p f t).countP q ≤ t.countP q := by
  simp only [updateWhere, List.countP_map]
  apply List.countP_mono_left
  intro r _ hr
  by_cases hp : p r = true
  · exact hf r hp (by simpa [hp] using hr)
  · simpa [hp] using hr

theorem countP_deleteWhere_le
    (p q : ρ → Bool)
    (t : List ρ) :
    (deleteWhere p t).countP q ≤ t.countP q :=
  List.filter_sublist.countP_le

end Lib
end BengaliTts
