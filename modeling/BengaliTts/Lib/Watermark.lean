import Mathlib.Data.List.Nodup
import Mathlib.Order.Lattice
import Mathlib.Order.MinMax

/-!
# Consuming by a watermark

Items carry a stamp and become visible one after another.  A consumer keeps a mark:
a reader takes the visible items that are stamped later than the mark it found, and
consuming its batch raises the mark to the latest stamp in it.  Batches can be read
while others are still to be consumed.

Nothing is lost as long as an item becomes visible with a stamp later than the mark
and than every batch that was read already.  Nothing is consumed twice as long as a
batch is consumed while the mark is still before all of its items.

Main facts:
* `Batch.read`: what a reader takes;
* `Consumed.publish`, `Batch.publish`: items that become visible late enough;
* `Consumed.consume`: consuming a batch that is still after the mark.
-/

namespace BengaliTts
namespace Lib

universe u v

variable {ι : Type u} {τ : Type v} [LinearOrder τ] {stamp : ι → τ}

section Raise

/-- The mark after a batch: the latest stamp seen. -/
def raise (stamp : ι → τ) (mark : τ) : List ι → τ
  | [] => mark
  | x :: xs => raise stamp (max mark (stamp x)) xs

theorem le_raise
    (mark : τ) (batch : List ι) :
    mark ≤ raise stamp mark batch := by
  induction batch generalizing mark with
  | nil => exact le_rfl
  | cons x xs ih => exact (le_max_left _ _).trans (ih _)

theorem stamp_le_raise
    {mark : τ} {batch : List ι} {x : ι}
    (hx : x ∈ batch) :
    stamp x ≤ raise stamp mark batch := by
  induction batch generalizing mark with
  | nil => cases hx
  | cons y ys ih =>
      rcases List.mem_cons.mp hx with rfl | hx
      · exact (le_max_right _ _).trans (le_raise _ _)
      · exact ih hx

/-- What is later than the old mark and the whole batch is later than the new mark. -/
theorem raise_lt
    {mark c : τ} {batch : List ι}
    (hmark : mark < c)
    (hbatch : ∀ y, y ∈ batch → stamp y < c) :
    raise stamp mark batch < c := by
  induction batch generalizing mark with
  | nil => exact hmark
  | cons x xs ih =>
      refine ih (max_lt hmark (hbatch x List.mem_cons_self)) ?_
      intro y hy
      exact hbatch y (List.mem_cons_of_mem _ hy)

end Raise

variable {start since mark : τ} {visible visible' consumed batch : List ι}

/-- The consumed items are visible ones up to the mark, each consumed once, and all
that are stamped after the start. -/
structure Consumed (stamp : ι → τ) (start mark : τ) (visible consumed : List ι) :
    Prop where
  start_le : start ≤ mark
  nodup : consumed.Nodup
  upTo : ∀ x, x ∈ consumed → x ∈ visible ∧ stamp x ≤ mark
  all : ∀ x, x ∈ visible → start < stamp x → stamp x ≤ mark → x ∈ consumed

/-- What a reader took that found the mark `since`: of the later items only those are
missing that are later than all it took. -/
structure Batch (stamp : ι → τ) (since : τ) (visible batch : List ι) : Prop where
  nodup : batch.Nodup
  taken : ∀ x, x ∈ batch → x ∈ visible
  all : ∀ x, x ∈ visible → since < stamp x →
    x ∈ batch ∨ ∀ y, y ∈ batch → stamp y < stamp x

/-- Nothing is consumed yet. -/
theorem Consumed.nil :
    Consumed stamp start start visible [] where
  start_le := le_rfl
  nodup := List.nodup_nil
  upTo := by simp
  all := fun _ _ hlater hle => absurd hlater hle.not_gt

/-- A reader takes every visible item that is later than the mark it found. -/
theorem Batch.read
    (hvisible : visible.Nodup)
    (since : τ) :
    Batch stamp since visible (visible.filter fun x => decide (since < stamp x)) where
  nodup := hvisible.filter _
  taken := fun _ hx => (List.mem_filter.mp hx).1
  all := fun _ hx hlater => Or.inl (List.mem_filter.mpr ⟨hx, decide_eq_true hlater⟩)

/-- Items become visible with stamps later than the mark. -/
theorem Consumed.publish
    (h : Consumed stamp start mark visible consumed)
    (hold : ∀ x, x ∈ visible → x ∈ visible')
    (hnew : ∀ x, x ∈ visible' → x ∈ visible ∨ (start < stamp x → mark < stamp x)) :
    Consumed stamp start mark visible' consumed where
  start_le := h.start_le
  nodup := h.nodup
  upTo := fun x hx => ⟨hold x (h.upTo x hx).1, (h.upTo x hx).2⟩
  all := by
    intro x hx hlater hle
    rcases hnew x hx with hwas | hafter
    · exact h.all x hwas hlater hle
    · exact absurd hle (hafter hlater).not_ge

/-- Items become visible with stamps later than those of a batch. -/
theorem Batch.publish
    (h : Batch stamp since visible batch)
    (hsince : start ≤ since)
    (hold : ∀ x, x ∈ visible → x ∈ visible')
    (hnew : ∀ x, x ∈ visible' →
      x ∈ visible ∨ (start < stamp x → ∀ y, y ∈ batch → stamp y < stamp x)) :
    Batch stamp since visible' batch where
  nodup := h.nodup
  taken := fun x hx => hold x (h.taken x hx)
  all := by
    intro x hx hlater
    rcases hnew x hx with hwas | hafter
    · exact h.all x hwas hlater
    · exact Or.inr (hafter (hsince.trans_lt hlater))

/-- **Consuming.**  A batch whose items are all after the mark is consumed. -/
theorem Consumed.consume
    (h : Consumed stamp start mark visible consumed)
    (hbatch : Batch stamp since visible batch)
    (hsince : since ≤ mark)
    (hafter : ∀ x, x ∈ batch → mark < stamp x) :
    Consumed stamp start (raise stamp mark batch) visible (consumed ++ batch) where
  start_le := h.start_le.trans (le_raise _ _)
  nodup := by
    refine List.nodup_append.mpr ⟨h.nodup, hbatch.nodup, ?_⟩
    rintro x hx y hy rfl
    exact absurd (h.upTo x hx).2 (hafter x hy).not_ge
  upTo := by
    intro x hx
    rcases List.mem_append.mp hx with hx | hx
    · exact ⟨(h.upTo x hx).1, (h.upTo x hx).2.trans (le_raise _ _)⟩
    · exact ⟨hbatch.taken x hx, stamp_le_raise hx⟩
  all := by
    intro x hx hlater hle
    rw [List.mem_append]
    rcases le_or_gt (stamp x) mark with hbefore | hpast
    · exact Or.inl (h.all x hx hlater hbefore)
    · rcases hbatch.all x hx (hsince.trans_lt hpast) with htaken | hbeyond
      · exact Or.inr htaken
      · exact absurd hle (raise_lt hpast hbeyond).not_ge

end Lib
end BengaliTts
