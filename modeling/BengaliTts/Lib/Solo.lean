import BengaliTts.Lib.ProcessPool

/-!
# Processes that run by themselves

A schedule may let one process go on while all others stand still.  What the process does
then is a run of a machine of its own, over the world and its local state; it is turned into
a run of the pool, and a run of a part of a machine into a run of the whole.

Main facts:
* `run_lift`: a machine that is embedded in another one brings its runs along;
* `run_of_last`, `run_of_spawned`: a process that runs by itself is a run of the pool.
-/

namespace BengaliTts
namespace Lib

universe u v

namespace Machine

variable {σ : Type u} {ε : Type v} {M : Machine σ ε} {G : σ → ε → Prop}

/-- One more step in front of a run. -/
theorem run_step
    {s t u : σ} {e : ε} {es : List ε}
    (hG : G s e)
    (hs : M.step s e = some t)
    (h : Run M G t es u) :
    Run M G s (e :: es) u :=
  run_append (run_single hG hs) h

/-- **Embeddings.**  If the steps of a machine are steps of another one, so are its runs. -/
theorem run_lift
    {τ : Type*} {φ : Type*} {N : Machine τ φ} {H : τ → φ → Prop}
    (embed : τ → σ) (inject : φ → ε)
    (hstep : ∀ s e t, H s e → N.step s e = some t →
      G (embed s) (inject e) ∧ M.step (embed s) (inject e) = some (embed t))
    {s t : τ} {es : List φ}
    (h : Run N H s es t) :
    Run M G (embed s) (es.map inject) (embed t) := by
  induction h with
  | nil => exact Run.nil _
  | snoc _ hH hs ih =>
      obtain ⟨hG, hfires⟩ := hstep _ _ _ hH hs
      rw [List.map_append]
      exact Run.snoc ih hG hfires

end Machine

/-- The last process of a table is found there. -/
theorem getElem?_last
    {π : Type u} (procs : List π) (p : π) :
    (procs ++ [p])[procs.length]? = some p :=
  List.getElem?_concat_length

theorem set_last
    {π : Type u} (procs : List π) (p q : π) :
    (procs ++ [p]).set procs.length q = procs ++ [q] := by
  rw [List.set_append_right _ _ (Nat.le_refl _), Nat.sub_self, List.set_cons_zero]

namespace Program

variable {ω π ρ α β : Type u} {P : Program ω π ρ α β}
  {G : Pool ω π → PoolEvent ρ α β → Prop} {procs : List π}

/-- Process `i` by itself. -/
def solo (P : Program ω π ρ α β) (i : Nat) : Machine (ω × π) α where
  step := fun s a => P.act i s.1 s.2 a

variable {H : ω × π → α → Prop}

/-- **Solo runs.**  What the last process does by itself it does in the pool. -/
theorem run_of_last
    {s t : ω × π} {as : List α}
    (hG : ∀ u a, H u a → G ⟨u.1, procs ++ [u.2]⟩ (.act procs.length a))
    (h : Machine.Run (P.solo procs.length) H s as t) :
    Machine.Run P.machine G ⟨s.1, procs ++ [s.2]⟩ (as.map (.act procs.length))
      ⟨t.1, procs ++ [t.2]⟩ := by
  refine Machine.run_lift (fun u : ω × π => (⟨u.1, procs ++ [u.2]⟩ : Pool ω π))
    (PoolEvent.act procs.length) ?_ h
  intro u a v hH hact
  refine ⟨hG u a hH, ?_⟩
  simp only [machine, poolStep, getElem?_last]
  rw [show P.act procs.length u.1 u.2 a = some v from hact, Option.map_some, set_last]

/-- A process that is started and then runs by itself. -/
theorem run_of_spawned
    {r : ρ} {w : ω} {t : ω × π} {as : List α}
    (hspawn : G ⟨w, procs⟩ (.spawn r))
    (hG : ∀ u a, H u a → G ⟨u.1, procs ++ [u.2]⟩ (.act procs.length a))
    (h : Machine.Run (P.solo procs.length) H (w, P.boot r) as t) :
    Machine.Run P.machine G ⟨w, procs⟩ (.spawn r :: as.map (.act procs.length))
      ⟨t.1, procs ++ [t.2]⟩ :=
  Machine.run_step hspawn rfl (run_of_last hG h)

end Program

end Lib
end BengaliTts
