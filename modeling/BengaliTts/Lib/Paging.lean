import BengaliTts.Lib.RowTable
import Mathlib.Data.List.Sort
import Mathlib.Order.Basic

/-!
# Ordered results

`orderByDesc key` is the clause ORDER BY on a key that is unique in the table,
greatest key first.  The result depends on the rows of the table only, not on
the order in which it stores them.

Main facts:
* `pairwise_orderByDesc`: the keys of the result decrease strictly;
* `orderByDesc_congr`: tables with the same rows have the same result;
* `filter_le_eq_cons`: the rows from a given one on begin with it;
* `mem_take_of_last_le`: a page holds every row that is not below its last one.
-/

namespace BengaliTts
namespace Lib

universe u v w

variable {ρ : Type u} {κ : Type v} {ι : Type w}

section Unique

/-- A column that determines a unique column is unique. -/
theorem uniqueKey_of_determines
    {key : ρ → κ} {key' : ρ → ι} {t : List ρ}
    (hdet : ∀ a b, key' a = key' b → key a = key b)
    (h : UniqueKey key t) :
    UniqueKey key' t := by
  have hpair : t.Pairwise fun a b => key a ≠ key b := List.pairwise_map.mp h
  refine List.pairwise_map.mpr (hpair.imp ?_)
  intro a b hne heq
  exact hne (hdet a b heq)

theorem uniqueKey_filter
    {key : ρ → κ} {t : List ρ} (p : ρ → Bool)
    (h : UniqueKey key t) :
    UniqueKey key (t.filter p) :=
  h.sublist (List.filter_sublist.map key)

end Unique

section Order

variable [LinearOrder κ] {key : ρ → κ} {t t' : List ρ}

/-- `ORDER BY key DESC`. -/
def orderByDesc (key : ρ → κ) (t : List ρ) : List ρ :=
  t.insertionSort fun a b => key b ≤ key a

@[simp] theorem mem_orderByDesc
    {r : ρ} :
    r ∈ orderByDesc key t ↔ r ∈ t :=
  List.mem_insertionSort _

@[simp] theorem length_orderByDesc :
    (orderByDesc key t).length = t.length :=
  List.length_insertionSort _ t

theorem pairwise_orderByDesc
    (h : UniqueKey key t) :
    (orderByDesc key t).Pairwise fun a b => key b < key a := by
  have htotal : Std.Total fun a b : ρ => key b ≤ key a := ⟨fun a b => le_total (key b) (key a)⟩
  have htrans : IsTrans ρ fun a b => key b ≤ key a := ⟨fun _ _ _ hab hbc => hbc.trans hab⟩
  have hsorted : (orderByDesc key t).Pairwise fun a b => key b ≤ key a :=
    List.pairwise_insertionSort _ t
  have hkeys : ((orderByDesc key t).map key).Nodup :=
    (((List.perm_insertionSort _ t).map key).nodup_iff).mpr h
  have hne : (orderByDesc key t).Pairwise fun a b => key a ≠ key b := List.pairwise_map.mp hkeys
  refine (hsorted.and hne).imp ?_
  rintro a b ⟨hle, hab⟩
  exact lt_of_le_of_ne hle (Ne.symm hab)

theorem orderByDesc_congr
    (h : UniqueKey key t)
    (h' : UniqueKey key t')
    (hmem : ∀ r, r ∈ t ↔ r ∈ t') :
    orderByDesc key t = orderByDesc key t' := by
  have hirrefl : Std.Irrefl fun a b : ρ => key b < key a := ⟨fun a => lt_irrefl (key a)⟩
  have hanti : Std.Antisymm fun a b : ρ => key b < key a :=
    ⟨fun a b hab hba => absurd hab (lt_asymm hba)⟩
  refine List.Pairwise.eq_of_mem_iff (pairwise_orderByDesc h) (pairwise_orderByDesc h') ?_
  intro r
  simp only [mem_orderByDesc, hmem]

end Order

section Pages

variable [LinearOrder κ] {key : ρ → κ} {rows : List ρ}

theorem filter_le_eq_cons
    {x : ρ}
    (h : rows.Pairwise fun a b => key b < key a)
    (hx : x ∈ rows) :
    (rows.filter fun r => decide (key r ≤ key x)) =
      x :: rows.filter fun r => decide (key r < key x) := by
  induction rows with
  | nil => cases hx
  | cons a rows ih =>
      obtain ⟨hhead, htail⟩ := List.pairwise_cons.mp h
      rcases List.mem_cons.mp hx with rfl | hmem
      · have hsame : (rows.filter fun r => decide (key r ≤ key x)) =
            rows.filter fun r => decide (key r < key x) := by
          refine List.filter_congr ?_
          intro r hr
          simp [hhead r hr, (hhead r hr).le]
        simp [hsame]
      · have hlt := hhead x hmem
        simp [not_le.mpr hlt, not_lt.mpr hlt.le, ih htail hmem]

theorem mem_take_of_last_le
    {n : Nat} {v x : ρ}
    (h : rows.Pairwise fun a b => key b < key a)
    (hlast : (rows.take n).getLast? = some v)
    (hx : x ∈ rows)
    (hle : key v ≤ key x) :
    x ∈ rows.take n := by
  rw [← List.take_append_drop n rows] at h hx
  rcases List.mem_append.mp hx with hpage | hrest
  · exact hpage
  · have hlt := (List.pairwise_append.mp h).2.2 v (List.mem_of_getLast? hlast) x hrest
    exact absurd hle (not_le.mpr hlt)

end Pages

end Lib
end BengaliTts
