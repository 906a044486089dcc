import Mathlib.Data.List.Induction

/-!
# Guarded runs of an event-driven machine

A machine has one partial step function: an event either fires in a state and
gives the next state, or it is not enabled there.  A run is a list of events
that fire one after another.

Statements about a system usually range over a restricted set of runs: those
without a crash, those in which a named race never happens.  Such a restriction
is a *guard*, a predicate on the state before a step and on its event, and
`Run M G s es t` is a run from `s` to `t` all of whose steps meet `G`.

Main facts:
* `run_append`, `run_split`, `run_cons`: runs compose and come apart;
* `run_invariant`: a property kept by every guarded step holds after a run;
* `run_relates`: a reflexive transitive relation that contains every guarded
  step relates the two ends of a run;
* `run_enters`: a run that makes a property true goes through a step that does;
* `run_records`: what holds after a run is what one of its steps put on record;
* `run_projects`: a run of a composed machine is, seen through one of its parts, a run
  of that part;
* `run_simulated`: a machine whose steps another one can match is simulated by it;
* `offer_run`: events offered one after another, of which those that are not enabled
  are skipped, make a run.
-/

namespace BengaliTts
namespace Lib

universe u v

/-- A machine: `step s e` is the state after `e`, if `e` can fire in `s`. -/
structure Machine (σ : Type u) (ε : Type v) where
  step : σ → ε → Option σ

namespace Machine

variable {σ : Type u} {ε : Type v}

/-- Fire a list of events in order, as long as each of them passes `check`. -/
def exec (M : Machine σ ε) (check : σ → ε → Bool) : σ → List ε → Option σ
  | s, [] => some s
  | s, e :: es =>
      if check s e then
        (M.step s e).bind fun t => exec M check t es
      else
        none

/-- The guard that allows every step. -/
def anyStep (_ : σ) (_ : ε) : Prop :=
  True

/-- A run from one state to another whose steps all meet the guard `G`. -/
inductive Run (M : Machine σ ε) (G : σ → ε → Prop) :
    σ → List ε → σ → Prop
  | nil (s : σ) : Run M G s [] s
  | snoc {s t u : σ} {es : List ε} {e : ε}
      (before : Run M G s es t)
      (guard : G t e)
      (fires : M.step t e = some u) :
      Run M G s (es ++ [e]) u

variable {M : Machine σ ε} {G : σ → ε → Prop}

/-- A single guarded step is a run. -/
theorem run_single
    {s t : σ} {e : ε}
    (hG : G s e)
    (hs : M.step s e = some t) :
    Run M G s [e] t :=
  Run.snoc (Run.nil s) hG hs

/-- A run under a guard is a run under every weaker guard. -/
theorem run_weaken
    {H : σ → ε → Prop}
    {s t : σ} {es : List ε}
    (hGH : ∀ s e, G s e → H s e)
    (h : Run M G s es t) :
    Run M H s es t := by
  induction h with
  | nil =>
      exact Run.nil s
  | snoc _ hG hs ih =>
      exact Run.snoc ih (hGH _ _ hG) hs

theorem run_append
    {s t u : σ} {es fs : List ε}
    (h₁ : Run M G s es t)
    (h₂ : Run M G t fs u) :
    Run M G s (es ++ fs) u := by
  induction h₂ with
  | nil =>
      simpa using h₁
  | snoc _ hG hs ih =>
      rw [← List.append_assoc]
      exact Run.snoc ih hG hs

/-- The last step of a nonempty run. -/
theorem run_concat
    {s u : σ} {es : List ε} {e : ε}
    (h : Run M G s (es ++ [e]) u) :
    ∃ t, Run M G s es t ∧ G t e ∧ M.step t e = some u := by
  generalize hfs : es ++ [e] = fs at h
  cases h with
  | nil =>
      simp at hfs
  | snoc hb hG hs =>
      obtain ⟨rfl, he⟩ := List.append_inj' hfs rfl
      cases he
      exact ⟨_, hb, hG, hs⟩

theorem run_nil
    {s t : σ}
    (h : Run M G s [] t) :
    s = t := by
  generalize hes : ([] : List ε) = es at h
  cases h with
  | nil => rfl
  | snoc => simp at hes

/-- A run over `es ++ fs` passes through a state between the two parts. -/
theorem run_split
    {s u : σ} {es : List ε} :
    ∀ {fs : List ε},
      Run M G s (es ++ fs) u →
        ∃ t, Run M G s es t ∧ Run M G t fs u := by
  intro fs
  induction fs using List.reverseRecOn generalizing u with
  | nil =>
      intro h
      exact ⟨u, by simpa using h, Run.nil u⟩
  | append_singleton fs e ih =>
      intro h
      rw [← List.append_assoc] at h
      obtain ⟨v, hv, hG, hs⟩ := run_concat h
      obtain ⟨t, ht, htv⟩ := ih hv
      exact ⟨t, ht, Run.snoc htv hG hs⟩

/-- The first step of a nonempty run. -/
theorem run_cons
    {s u : σ} {e : ε} {es : List ε}
    (h : Run M G s (e :: es) u) :
    ∃ t, G s e ∧ M.step s e = some t ∧ Run M G t es u := by
  have happ : Run M G s ([e] ++ es) u := h
  obtain ⟨t, ht, htu⟩ := run_split happ
  have hlast : Run M G s ([] ++ [e]) t := ht
  obtain ⟨v, hv, hG, hs⟩ := run_concat hlast
  cases run_nil hv
  exact ⟨t, hG, hs, htu⟩

/-- An executed list of events is a run whose steps pass the check. -/
theorem run_of_exec
    {check : σ → ε → Bool}
    (hcheck : ∀ s e, check s e = true → G s e)
    {s t : σ} {es : List ε}
    (h : M.exec check s es = some t) :
    Run M G s es t := by
  induction es generalizing s with
  | nil =>
      simp only [exec, Option.some.injEq] at h
      subst h
      exact Run.nil s
  | cons e es ih =>
      simp only [exec] at h
      split at h
      · next hc =>
          obtain ⟨v, hv, hvt⟩ := Option.bind_eq_some_iff.mp h
          exact run_append (run_single (hcheck s e hc) hv) (ih hvt)
      · cases h

/-- A run is determined by its events, whatever the guards. -/
theorem run_unique
    {H : σ → ε → Prop}
    {s t u : σ} {es : List ε}
    (h₁ : Run M G s es t)
    (h₂ : Run M H s es u) :
    t = u := by
  induction h₁ generalizing u with
  | nil => exact run_nil h₂
  | snoc _ _ hstep ih =>
      obtain ⟨v, hv, _, hs⟩ := run_concat h₂
      cases ih hv
      exact Option.some.inj (hstep.symm.trans hs)

/-- Whether a longer run meets another guard is decided by its last step. -/
theorem run_snoc_iff
    {H : σ → ε → Prop}
    {s t u : σ} {es : List ε} {e : ε}
    (h : Run M G s es t)
    (hs : M.step t e = some u) :
    Run M H s (es ++ [e]) u ↔ Run M H s es t ∧ H t e := by
  constructor
  · intro hrun
    obtain ⟨v, hv, hH, _⟩ := run_concat hrun
    cases run_unique h hv
    exact ⟨hv, hH⟩
  · rintro ⟨hrun, hH⟩
    exact Run.snoc hrun hH hs

/-- To exhibit a run it is enough to execute it and to look at its end. -/
theorem exists_run_of_exec
    {check : σ → ε → Bool}
    (hcheck : ∀ s e, check s e = true → G s e)
    {s : σ} {es : List ε} {p : σ → Bool}
    (h : (M.exec check s es).any p = true) :
    ∃ t, Run M G s es t ∧ p t = true := by
  obtain ⟨t, ht, hp⟩ := (Option.any_eq_true _ _).mp h
  exact ⟨t, run_of_exec hcheck ht, hp⟩

/-- The same for runs without a guard. -/
theorem exists_anyRun_of_exec
    {s : σ} {es : List ε} {p : σ → Bool}
    (h : (M.exec (fun _ _ => true) s es).any p = true) :
    ∃ t, Run M anyStep s es t ∧ p t = true :=
  exists_run_of_exec (fun _ _ _ => trivial) h

/-- **Invariants.**  What every guarded step keeps holds after every run. -/
theorem run_invariant
    {I : σ → Prop}
    (hstep : ∀ t e u, I t → G t e → M.step t e = some u → I u)
    {s t : σ} {es : List ε}
    (h : Run M G s es t)
    (hs : I s) :
    I t := by
  induction h with
  | nil => exact hs
  | snoc _ hG hstep' ih =>
      exact hstep _ _ _ ih hG hstep'

/--
Invariants relative to facts already known of every state of the run: the step
obligation may use the known facts before and after the step.
-/
theorem run_invariant_of_known
    {K I : σ → Prop}
    {s : σ}
    (hK : ∀ es t, Run M G s es t → K t)
    (hstep : ∀ t e u,
      K t → K u → I t → G t e → M.step t e = some u → I u)
    {t : σ} {es : List ε}
    (h : Run M G s es t)
    (hs : I s) :
    I t := by
  induction h with
  | nil => exact hs
  | snoc hb hG hf ih =>
      exact hstep _ _ _ (hK _ _ hb) (hK _ _ (Run.snoc hb hG hf)) ih hG hf

/-- Invariants of the events so far together with the state they led to. -/
theorem run_trace_invariant
    {I : List ε → σ → Prop}
    {s t : σ} {es : List ε}
    (hstep : ∀ es t e u, Run M G s es t → I es t → G t e → M.step t e = some u → I (es ++ [e]) u)
    (h : Run M G s es t)
    (hs : I [] s) :
    I es t := by
  induction h with
  | nil => exact hs
  | snoc hb hG hf ih => exact hstep _ _ _ _ hb ih hG hf

/-- A preorder that contains every guarded step relates the ends of a run. -/
theorem run_relates
    {R : σ → σ → Prop}
    (hrefl : ∀ s, R s s)
    (htrans : ∀ s t u, R s t → R t u → R s u)
    (hstep : ∀ t e u, G t e → M.step t e = some u → R t u)
    {s t : σ} {es : List ε}
    (h : Run M G s es t) :
    R s t := by
  induction h with
  | nil => exact hrefl s
  | snoc _ hG hf ih =>
      exact htrans _ _ _ ih (hstep _ _ _ hG hf)

/-- The run from `s` to `t` takes the step `e` from `u` to `v` on its way. -/
def Through (M : Machine σ ε) (G : σ → ε → Prop)
    (s : σ) (es : List ε) (t u : σ) (e : ε) (v : σ) : Prop :=
  ∃ before after, es = before ++ e :: after ∧
    Run M G s before u ∧ G u e ∧ M.step u e = some v ∧ Run M G v after t

/-- A step taken on the way is still on the way of a longer run. -/
theorem through_snoc
    {s t u v w : σ} {es : List ε} {e f : ε}
    (h : Through M G s es t u e v)
    (hG : G t f)
    (hs : M.step t f = some w) :
    Through M G s (es ++ [f]) w u e v := by
  obtain ⟨before, after, rfl, hb, hGe, he, ha⟩ := h
  exact ⟨before, after ++ [f], by simp, hb, hGe, he, Run.snoc ha hG hs⟩

theorem through_last
    {s t u : σ} {es : List ε} {e : ε}
    (h : Run M G s es t)
    (hG : G t e)
    (hs : M.step t e = some u) :
    Through M G s (es ++ [e]) u t e u :=
  ⟨es, [], rfl, h, hG, hs, Run.nil u⟩

/-- The steps on the way of a longer run are those of the shorter one and the last. -/
theorem through_snoc_iff
    {s t u v w : σ} {es : List ε} {e f : ε}
    (h : Run M G s es t)
    (hG : G t f)
    (hs : M.step t f = some w) :
    Through M G s (es ++ [f]) w u e v ↔
      Through M G s es t u e v ∨ (u = t ∧ e = f ∧ v = w) := by
  constructor
  · rintro ⟨before, after, hes, hb, hGe, he, ha⟩
    induction after using List.reverseRecOn with
    | nil =>
        obtain ⟨rfl, hf⟩ := List.append_inj' hes rfl
        cases hf
        cases run_unique h hb
        exact Or.inr ⟨rfl, rfl, Option.some.inj (he.symm.trans hs)⟩
    | append_singleton after g _ =>
        rw [← List.cons_append, ← List.append_assoc] at hes
        obtain ⟨rfl, hg⟩ := List.append_inj' hes rfl
        cases hg
        obtain ⟨t', ha', _, _⟩ := run_concat ha
        have hfirst : Run M G s (before ++ [e] ++ after) t' :=
          run_append (Run.snoc hb hGe he) ha'
        rw [List.append_assoc] at hfirst
        cases run_unique h hfirst
        exact Or.inl ⟨before, after, rfl, hb, hGe, he, ha'⟩
  · rintro (hold | ⟨rfl, rfl, rfl⟩)
    · exact through_snoc hold hG hs
    · exact through_last h hG hs

/-- **Records.**  If a property is made true by the steps that `Q` describes, by no
other step, and never made false, it holds after a run exactly if one of its steps was
of that kind. -/
theorem run_records
    {P : σ → Prop} {Q : σ → ε → Prop}
    (hstep : ∀ t e u, G t e → M.step t e = some u → (P u ↔ P t ∨ Q t e))
    {s t : σ} {es : List ε}
    (h : Run M G s es t)
    (hs : ¬ P s) :
    P t ↔ ∃ u e v, Through M G s es t u e v ∧ Q u e := by
  induction h with
  | nil =>
      refine iff_of_false hs ?_
      rintro ⟨u, e, v, ⟨before, after, hes, _⟩, _⟩
      cases before <;> cases hes
  | @snoc t w es f hb hG hf ih =>
      rw [hstep _ _ _ hG hf, ih]
      constructor
      · rintro (⟨u, e, v, hthrough, hQ⟩ | hQ)
        · exact ⟨u, e, v, through_snoc hthrough hG hf, hQ⟩
        · exact ⟨t, f, w, through_last hb hG hf, hQ⟩
      · rintro ⟨u, e, v, hthrough, hQ⟩
        rcases (through_snoc_iff hb hG hf).mp hthrough with hold | ⟨rfl, rfl, rfl⟩
        · exact Or.inl ⟨u, e, v, hold, hQ⟩
        · exact Or.inr hQ

/-- **Entering.**  A run that ends with `P` but does not start with it takes a
step that makes `P` true. -/
theorem run_enters
    {P : σ → Prop}
    {s t : σ} {es : List ε}
    (h : Run M G s es t)
    (hs : ¬ P s)
    (ht : P t) :
    ∃ u e v, Through M G s es t u e v ∧ ¬ P u ∧ P v := by
  induction h with
  | nil =>
      exact absurd ht hs
  | @snoc t w es e hb hG hstep ih =>
      by_cases hP : P t
      · obtain ⟨u, f, v, hthrough, hu, hv⟩ := ih hP
        exact ⟨u, f, v, through_snoc hthrough hG hstep, hu, hv⟩
      · exact ⟨t, e, w, through_last hb hG hstep, hP, ht⟩

/-- **Projection.**  If every step of a machine, seen through `view`, is a step of
another machine or no change, every run is, seen so, a run of the other machine. -/
theorem run_projects
    {τ : Type*} {φ : Type*} {N : Machine τ φ} {H : τ → φ → Prop} (view : σ → τ)
    (hstep : ∀ s e t, G s e → M.step s e = some t →
      view t = view s ∨ ∃ f, H (view s) f ∧ N.step (view s) f = some (view t))
    {s t : σ} {es : List ε}
    (h : Run M G s es t) :
    ∃ fs, Run N H (view s) fs (view t) := by
  induction h with
  | nil => exact ⟨[], Run.nil _⟩
  | snoc _ hG hs ih =>
      obtain ⟨fs, hfs⟩ := ih
      rcases hstep _ _ _ hG hs with hsame | ⟨f, hH, hf⟩
      · rw [hsame]
        exact ⟨fs, hfs⟩
      · exact ⟨fs ++ [f], Run.snoc hfs hH hf⟩

/-- **Simulation.**  If every step of a machine is matched by a run of another one that
keeps the two related, so is every run.  What is known of the states of the run may be
used for its steps. -/
theorem run_simulated
    {τ : Type*} {φ : Type*} {N : Machine τ φ} {H : τ → φ → Prop}
    {K : σ → Prop} {R : τ → σ → Prop}
    {a : τ} {s t : σ} {es : List ε}
    (hK : ∀ es t, Run M G s es t → K t)
    (hstep : ∀ b t e u, K t → R b t → G t e → M.step t e = some u →
      ∃ fs c, Run N H b fs c ∧ R c u)
    (h : Run M G s es t)
    (hs : R a s) :
    ∃ fs b, Run N H a fs b ∧ R b t := by
  induction h with
  | nil => exact ⟨[], a, Run.nil a, hs⟩
  | snoc hb hG hfires ih =>
      obtain ⟨fs, b, hfs, hR⟩ := ih
      obtain ⟨gs, c, hgs, hR'⟩ := hstep b _ _ _ (hK _ _ hb) hR hG hfires
      exact ⟨fs ++ gs, c, run_append hfs hgs, hR'⟩

/-- Offer events one after another; those that are not enabled are skipped. -/
def offer (M : Machine σ ε) : List ε → σ → σ
  | [], s => s
  | e :: es, s => offer M es ((M.step s e).getD s)

theorem offer_cons
    {s t : σ} {e : ε}
    (h : M.step s e = some t)
    (es : List ε) :
    M.offer (e :: es) s = M.offer es t := by
  rw [offer, h]
  rfl

theorem offer_append
    (es fs : List ε) (s : σ) :
    M.offer (es ++ fs) s = M.offer fs (M.offer es s) := by
  induction es generalizing s with
  | nil => rfl
  | cons e es ih => exact ih _

/-- Where no event is enabled, nothing that is offered makes a difference. -/
theorem offer_of_stuck
    {s : σ}
    (h : ∀ e, M.step s e = none)
    (es : List ε) :
    M.offer es s = s := by
  induction es with
  | nil => rfl
  | cons e es ih =>
      rw [offer, h e]
      exact ih

/-- The events that were not skipped make a run. -/
theorem offer_run
    (M : Machine σ ε) (es : List ε) (s : σ) :
    ∃ fs, fs.Sublist es ∧ Run M anyStep s fs (M.offer es s) := by
  induction es generalizing s with
  | nil => exact ⟨[], List.Sublist.refl _, .nil s⟩
  | cons e es ih =>
      rw [offer]
      cases hs : M.step s e with
      | none =>
          obtain ⟨fs, hsub, hrun⟩ := ih s
          exact ⟨fs, hsub.cons e, hrun⟩
      | some t =>
          obtain ⟨fs, hsub, hrun⟩ := ih t
          exact ⟨e :: fs, hsub.cons_cons e, run_append (run_single trivial hs) hrun⟩

end Machine
end Lib
end BengaliTts
