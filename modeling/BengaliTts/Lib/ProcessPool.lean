import BengaliTts.Lib.Machine

/-!
# Processes over a shared world

A pool is a shared world together with a table of processes.  Processes are
spawned at any time, are addressed by their place in the table and are never
removed; an atomic action of process `i` reads and writes the world and its own
local state only.  The environment may change the world on its own.  The events
of a pool interleave in any order, so a fact about every run of the pool
machine is a fact about every schedule.

Invariants of a pool are stated as a proof outline: an invariant of the world
and, for each process, an assertion about the world and its own state.  An
outline is valid when every action keeps the invariant and the assertion of the
acting process, and no action of another process or of the environment
falsifies an assertion (interference freedom).

Main fact:
* `Outline.run`: the assertions of a valid outline hold after every run.
-/

namespace BengaliTts
namespace Lib

universe u

/-- A shared world and the processes started so far. -/
structure Pool (ω π : Type u) where
  world : ω
  procs : List π

/-- What one step of a pool does: spawn, an action of one process, or a change
of the world by the environment. -/
inductive PoolEvent (ρ α β : Type u) where
  | spawn (r : ρ)
  | act (i : Nat) (a : α)
  | env (b : β)

/-- The processes of a pool: how a request starts one, how one acts on the
world, and how the environment acts on it. -/
structure Program (ω π ρ α β : Type u) where
  boot : ρ → π
  act : Nat → ω → π → α → Option (ω × π)
  env : ω → β → Option ω

namespace Program

variable {ω π ρ α β : Type u}

/-- One step of the pool. -/
def poolStep (P : Program ω π ρ α β) (g : Pool ω π) :
    PoolEvent ρ α β → Option (Pool ω π)
  | .spawn r =>
      some ⟨g.world, g.procs ++ [P.boot r]⟩
  | .act i a =>
      match g.procs[i]? with
      | none => none
      | some p =>
          (P.act i g.world p a).map fun next =>
            ⟨next.1, g.procs.set i next.2⟩
  | .env b =>
      (P.env g.world b).map fun w => ⟨w, g.procs⟩

/-- The machine of all schedules of the pool. -/
def machine (P : Program ω π ρ α β) :
    Machine (Pool ω π) (PoolEvent ρ α β) where
  step := P.poolStep

/-- Everything a step of the pool can do. -/
inductive Step (P : Program ω π ρ α β) (g : Pool ω π) :
    PoolEvent ρ α β → Pool ω π → Prop
  | spawn (r : ρ) :
      Step P g (.spawn r) ⟨g.world, g.procs ++ [P.boot r]⟩
  | act {i : Nat} {a : α} {p p' : π} {w : ω}
      (hp : g.procs[i]? = some p)
      (hact : P.act i g.world p a = some (w, p')) :
      Step P g (.act i a) ⟨w, g.procs.set i p'⟩
  | env {b : β} {w : ω}
      (henv : P.env g.world b = some w) :
      Step P g (.env b) ⟨w, g.procs⟩

theorem step_of_machine
    {P : Program ω π ρ α β}
    {g g' : Pool ω π} {e : PoolEvent ρ α β}
    (h : P.machine.step g e = some g') :
    P.Step g e g' := by
  cases e with
  | spawn r =>
      simp only [machine, poolStep, Option.some.injEq] at h
      subst h
      exact Step.spawn r
  | act i a =>
      simp only [machine, poolStep] at h
      split at h
      · cases h
      · next p hp =>
          obtain ⟨⟨w, p'⟩, hact, rfl⟩ := Option.map_eq_some_iff.mp h
          exact Step.act hp hact
  | env b =>
      simp only [machine, poolStep] at h
      obtain ⟨w, henv, rfl⟩ := Option.map_eq_some_iff.mp h
      exact Step.env henv

end Program

section Lookup

variable {π : Type u}

/-- After a spawn, a process is an old one or the new one. -/
theorem getElem?_spawn
    {procs : List π} {p q : π} {j : Nat}
    (h : (procs ++ [p])[j]? = some q) :
    procs[j]? = some q ∨ (j = procs.length ∧ q = p) := by
  rw [List.getElem?_append] at h
  split at h
  · exact Or.inl h
  · next hj =>
      right
      obtain ⟨hlt, hq⟩ := List.getElem?_eq_some_iff.mp h
      simp only [List.length_singleton] at hlt
      refine ⟨by omega, ?_⟩
      simpa using hq.symm

/-- After process `i` moved to `p`, a process is that one or an untouched one. -/
theorem getElem?_set_cases
    {procs : List π} {p q : π} {i j : Nat}
    (h : (procs.set i p)[j]? = some q) :
    (i = j ∧ q = p) ∨ (i ≠ j ∧ procs[j]? = some q) := by
  rw [List.getElem?_set] at h
  split at h
  · next hij =>
      left
      split at h
      · exact ⟨hij, (Option.some.inj h).symm⟩
      · cases h
  · next hij =>
      exact Or.inr ⟨hij, h⟩

theorem getElem?_set_self_of_some
    {procs : List π} {p p' : π} {i : Nat}
    (h : procs[i]? = some p) :
    (procs.set i p')[i]? = some p' := by
  obtain ⟨hlt, _⟩ := List.getElem?_eq_some_iff.mp h
  simp [hlt]

theorem getElem?_spawn_of_some
    {procs : List π} {p q : π} {j : Nat}
    (h : procs[j]? = some q) :
    (procs ++ [p])[j]? = some q := by
  obtain ⟨hlt, _⟩ := List.getElem?_eq_some_iff.mp h
  rw [List.getElem?_append_left hlt]
  exact h

/-- Counting processes: only the one that moved makes a difference. -/
theorem countP_set_add
    {procs : List π} {p k : π} {i : Nat}
    (f : π → Bool)
    (h : procs[i]? = some p) :
    (procs.set i k).countP f + (f p).toNat = procs.countP f + (f k).toNat := by
  induction procs generalizing i with
  | nil => simp at h
  | cons q procs ih =>
      cases i with
      | zero =>
          cases Option.some.inj h
          rw [List.set_cons_zero, List.countP_cons, List.countP_cons]
          cases f p <;> cases f k <;> simp
      | succ i =>
          have htail := ih (i := i) (by simpa using h)
          rw [List.set_cons_succ, List.countP_cons, List.countP_cons]
          omega

/-- A property that implies another and fails of a process that has the other holds
of fewer processes. -/
theorem countP_lt_countP
    {procs : List π} {p : π} {i : Nat} {f k : π → Bool}
    (h : procs[i]? = some p)
    (himp : ∀ q, f q = true → k q = true)
    (hf : f p = false)
    (hk : k p = true) :
    procs.countP f < procs.countP k := by
  have hpos : 0 < (procs.filter fun q => !f q).countP k := by
    rw [List.countP_pos_iff]
    exact ⟨p, List.mem_filter.mpr ⟨List.mem_of_getElem? h, by simp [hf]⟩, hk⟩
  have hboth : (procs.filter f).countP k = procs.countP f := by
    rw [List.countP_filter]
    refine List.countP_congr ?_
    intro q _
    simpa using himp q
  have hparts := List.countP_eq_countP_filter_add procs k f
  omega

/-- A step is an action of process `i`, or it leaves process `i` where it is. -/
theorem proc_of_step
    {ω ρ α β : Type u} {P : Program ω π ρ α β}
    {g g' : Pool ω π} {e : PoolEvent ρ α β} {i : Nat} {p : π}
    (hs : P.machine.step g e = some g')
    (hp : g.procs[i]? = some p) :
    (∃ a p', e = .act i a ∧ P.act i g.world p a = some (g'.world, p') ∧
        g'.procs[i]? = some p') ∨
      g'.procs[i]? = some p := by
  cases Program.step_of_machine hs with
  | spawn r => exact Or.inr (getElem?_spawn_of_some hp)
  | @act j a q q' w hq hact =>
      by_cases hij : j = i
      · subst hij
        cases hq.symm.trans hp
        exact Or.inl ⟨a, q', rfl, hact, getElem?_set_self_of_some hq⟩
      · right
        rw [List.getElem?_set_ne hij]
        exact hp
  | env => exact Or.inr hp

end Lookup

section Outlines

variable {ω π ρ α β : Type u}

/-- The world satisfies `inv` and every process its own assertion. -/
def Annotated
    (inv : ω → Prop)
    (assert : Nat → ω → π → Prop)
    (g : Pool ω π) : Prop :=
  inv g.world ∧ ∀ i p, g.procs[i]? = some p → assert i g.world p

/--
A valid proof outline for the runs of `P` under the guard `G`, relative to
facts `K` that hold in every state of these runs.
-/
structure Outline
    (P : Program ω π ρ α β)
    (G : Pool ω π → PoolEvent ρ α β → Prop)
    (K : Pool ω π → Prop) where
  inv : ω → Prop
  assert : Nat → ω → π → Prop
  /-- A new process starts in a state that satisfies its assertion. -/
  spawn :
    ∀ g r, K g → inv g.world →
      assert g.procs.length g.world (P.boot r)
  /-- An action keeps the invariant and the assertion of the acting process. -/
  act :
    ∀ g i a p p' w, K g → G g (.act i a) → Annotated inv assert g →
      g.procs[i]? = some p →
      P.act i g.world p a = some (w, p') →
      inv w ∧ assert i w p'
  /-- An action does not falsify the assertion of another process. -/
  frame :
    ∀ g i j a p p' q w, K g → G g (.act i a) → Annotated inv assert g →
      g.procs[i]? = some p →
      P.act i g.world p a = some (w, p') →
      i ≠ j →
      g.procs[j]? = some q →
      assert j w q
  /-- The environment keeps the invariant and every assertion. -/
  env :
    ∀ g b w, K g → G g (.env b) → Annotated inv assert g →
      P.env g.world b = some w →
      inv w ∧ ∀ j q, g.procs[j]? = some q → assert j w q

namespace Outline

variable {P : Program ω π ρ α β}
  {G : Pool ω π → PoolEvent ρ α β → Prop}
  {K : Pool ω π → Prop}

/-- One step keeps a valid outline. -/
theorem step
    (O : Outline P G K)
    {g g' : Pool ω π} {e : PoolEvent ρ α β}
    (hK : K g)
    (hG : G g e)
    (h : Annotated O.inv O.assert g)
    (hs : P.machine.step g e = some g') :
    Annotated O.inv O.assert g' := by
  cases Program.step_of_machine hs with
  | spawn r =>
      refine ⟨h.1, ?_⟩
      intro j q hq
      rcases getElem?_spawn hq with hq | ⟨rfl, rfl⟩
      · exact h.2 j q hq
      · exact O.spawn g r hK h.1
  | @act i a p p' w hp hact =>
      have hself := O.act g i a p p' w hK hG h hp hact
      refine ⟨hself.1, ?_⟩
      intro j q hq
      rcases getElem?_set_cases hq with ⟨rfl, rfl⟩ | ⟨hij, hq⟩
      · exact hself.2
      · exact O.frame g i j a p p' q w hK hG h hp hact hij hq
  | env henv =>
      exact O.env g _ _ hK hG h henv

/-- **The outline rule.**  A valid outline holds after every guarded run from a
state that satisfies it. -/
theorem run
    (O : Outline P G K)
    {g₀ g : Pool ω π} {es : List (PoolEvent ρ α β)}
    (hK : ∀ es t, Machine.Run P.machine G g₀ es t → K t)
    (h₀ : Annotated O.inv O.assert g₀)
    (h : Machine.Run P.machine G g₀ es g) :
    Annotated O.inv O.assert g :=
  Machine.run_invariant_of_known hK
    (fun _ _ _ hKt _ hI hG hs => O.step hKt hG hI hs) h h₀

end Outline

end Outlines

end Lib
end BengaliTts
