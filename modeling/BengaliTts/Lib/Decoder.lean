import Mathlib.Data.List.Basic

/-!
# Decoders that are fed in chunks

A decoder reads one symbol after another and gives out what it has decoded so far.
What it gives out does not depend on how its input is cut into chunks, and the output
of one decoder can be the input of another.

Main facts:
* `feed_append`: two chunks are read like their concatenation;
* `feed_prefix`: from the beginning of an input comes the beginning of its output;
* `feed_andThen`: a pipeline of two decoders is fed with what the first one gives out.
-/

namespace BengaliTts
namespace Lib

universe u v w x y

/-- A decoder of symbols of `α` into values of `β`. -/
structure Decoder (σ : Type u) (α : Type v) (β : Type w) where
  step : σ → α → List β × σ

namespace Decoder

variable {σ : Type u} {α : Type v} {β : Type w} {τ : Type x} {γ : Type y}

/-- The output of an input, and the state after it. -/
def feed (D : Decoder σ α β) : σ → List α → List β × σ
  | s, [] => ([], s)
  | s, a :: input =>
      let (output, t) := D.step s a
      let (later, u) := D.feed t input
      (output ++ later, u)

/-- One decoder behind the other. -/
def andThen (D : Decoder σ α β) (E : Decoder τ β γ) : Decoder (σ × τ) α γ where
  step := fun s a =>
    let (middle, s') := D.step s.1 a
    let (output, t') := E.feed s.2 middle
    (output, (s', t'))

/-- Each symbol by itself. -/
def ofFun (f : α → List β) : Decoder Unit α β where
  step := fun _ a => (f a, ())

section Feed

variable (D : Decoder σ α β)

@[simp] theorem feed_nil
    (s : σ) :
    D.feed s [] = ([], s) :=
  rfl

theorem feed_cons
    (s : σ) (a : α) (input : List α) :
    D.feed s (a :: input) =
      ((D.step s a).1 ++ (D.feed (D.step s a).2 input).1, (D.feed (D.step s a).2 input).2) :=
  rfl

@[simp] theorem feed_singleton
    (s : σ) (a : α) :
    D.feed s [a] = D.step s a := by
  rw [feed_cons, feed_nil, List.append_nil]

theorem feed_append
    (s : σ) (first second : List α) :
    D.feed s (first ++ second) =
      ((D.feed s first).1 ++ (D.feed (D.feed s first).2 second).1,
        (D.feed (D.feed s first).2 second).2) := by
  induction first generalizing s with
  | nil => rfl
  | cons a first ih =>
      rw [List.cons_append, feed_cons, feed_cons, ih]
      simp only [List.append_assoc]

/-- What comes out of the beginning of an input stays. -/
theorem feed_prefix
    {first input : List α}
    (s : σ)
    (h : first <+: input) :
    (D.feed s first).1 <+: (D.feed s input).1 := by
  obtain ⟨rest, rfl⟩ := h
  rw [feed_append]
  exact List.prefix_append _ _

end Feed

section Pipelines

/-- **Pipelines.**  The second decoder is fed with what the first one gives out. -/
theorem feed_andThen
    (D : Decoder σ α β) (E : Decoder τ β γ)
    (s : σ) (t : τ) (input : List α) :
    (D.andThen E).feed (s, t) input =
      ((E.feed t (D.feed s input).1).1,
        ((D.feed s input).2, (E.feed t (D.feed s input).1).2)) := by
  induction input generalizing s t with
  | nil => rfl
  | cons a input ih =>
      rw [feed_cons, feed_cons, feed_append]
      have hstep : (D.andThen E).step (s, t) a =
          ((E.feed t (D.step s a).1).1, ((D.step s a).2, (E.feed t (D.step s a).1).2)) :=
        rfl
      rw [hstep, ih]

theorem feed_ofFun
    (f : α → List β) (input : List α) :
    (ofFun f).feed () input = (input.flatMap f, ()) := by
  induction input with
  | nil => rfl
  | cons a input ih =>
      rw [feed_cons, List.flatMap_cons]
      change (f a ++ ((ofFun f).feed () input).1, _) = _
      rw [ih]

end Pipelines

end Decoder

end Lib
end BengaliTts
