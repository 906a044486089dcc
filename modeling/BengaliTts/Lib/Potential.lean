import BengaliTts.Lib.ProcessPool
import Mathlib.Algebra.BigOperators.Ring.List
import Mathlib.Algebra.Order.Ring.Nat

/-!
# Potentials

A potential is a number read off the state of a machine.  Where every step costs at
most what it takes from the potential and what it brings in, so does every run:
this bounds how long a run can go on by what has come in.  For a table of processes
the potential is a sum over the table, and an action changes one term of it.

Main facts:
* `run_potential`: the balance of one step, added up over a run;
* `sum_set_add`: the balance of the process that moved is that of the table.
-/

namespace BengaliTts
namespace Lib

universe u v

namespace Machine

variable {σ : Type u} {ε : Type v} {M : Machine σ ε} {G : σ → ε → Prop}

/-- **Potentials.**  If every step costs at most what it takes from the potential and
what it brings in, so does every run. -/
theorem run_potential
    (potential : σ → Nat) (cost gain : ε → Nat)
    (hstep : ∀ s e t, G s e → M.step s e = some t →
      potential t + cost e ≤ potential s + gain e)
    {s t : σ} {es : List ε}
    (h : Run M G s es t) :
    potential t + (es.map cost).sum ≤ potential s + (es.map gain).sum := by
  induction h with
  | nil => simp
  | snoc _ hG hs ih =>
      have hlast := hstep _ _ _ hG hs
      rw [List.map_append, List.map_append, List.sum_append, List.sum_append]
      simp only [List.map_cons, List.map_nil, List.sum_cons, List.sum_nil]
      omega

end Machine

section Table

variable {π : Type u}

/-- What the processes add up to changes by the one that moved. -/
theorem sum_set_add
    {procs : List π} {p k : π} {i : Nat}
    (f : π → Nat)
    (h : procs[i]? = some p) :
    ((procs.set i k).map f).sum + f p = (procs.map f).sum + f k := by
  induction procs generalizing i with
  | nil =>
      rw [List.getElem?_nil] at h
      cases h
  | cons q procs ih =>
      cases i with
      | zero =>
          cases Option.some.inj h
          simp only [List.set_cons_zero, List.map_cons, List.sum_cons]
          omega
      | succ i =>
          have htail := ih (i := i) (by simpa using h)
          simp only [List.set_cons_succ, List.map_cons, List.sum_cons]
          omega

end Table

end Lib
end BengaliTts
