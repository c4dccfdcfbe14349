import Mathlib.Logic.Relation
import Mathlib.Algebra.BigOperators.Group.List

/-!
# Transition systems

Every component of the tunnel is modelled as a transition system: a set of
initial states and a step relation, one step being one atomic action of one
thread (an atomic load, store or read-modify-write, or a whole section under
a mutex). Its reachable states are those of its finite runs, under every
interleaving of the threads.

* `System.Reachable`: the states reached from an initial state by steps;
* `System.reachable_induction`: what holds initially and is kept by every
  step from a reachable state holds of every reachable state;
* `System.Reachable.star`: reachability is closed under runs;
* `sum_map_set`: the threads of a component are a list, and a step of one
  thread moves a sum over them by what it changes in its own entry.
-/

namespace HevTunnel

/-- A transition system on the states `σ`. -/
structure System (σ : Type) where
  /-- The initial states. -/
  init : σ → Prop
  /-- One atomic step of one thread. -/
  step : σ → σ → Prop

namespace System

variable {σ : Type} (sys : System σ)

/-- The states reachable from an initial state. -/
inductive Reachable : σ → Prop
  | init {s : σ} : sys.init s → Reachable s
  | step {s s' : σ} : Reachable s → sys.step s s' → Reachable s'

variable {sys}

/-- An invariant holding initially and kept by every step from a reachable
    state holds of every reachable state. -/
theorem reachable_induction {P : σ → Prop} (h₀ : ∀ s, sys.init s → P s)
    (h₁ : ∀ s s', sys.Reachable s → P s → sys.step s s' → P s') {s : σ}
    (hs : sys.Reachable s) : P s := by
  induction hs with
  | init h => exact h₀ _ h
  | step hr hst ih => exact h₁ _ _ hr ih hst

/-- A run from a reachable state ends in a reachable state. -/
theorem Reachable.star {s s' : σ} (hs : sys.Reachable s)
    (h : Relation.ReflTransGen sys.step s s') : sys.Reachable s' := by
  induction h with
  | refl => exact hs
  | tail _ hst ih => exact .step ih hst

end System

/-- Setting the entry `i` of a list from `a` to `x` moves a sum over its
    entries by `f x - f a`. -/
theorem sum_map_set {α M : Type} [AddCommMonoid M] (f : α → M) {l : List α} {i : Nat} {a : α}
    (h : l[i]? = some a) (x : α) : ((l.set i x).map f).sum + f a = (l.map f).sum + f x := by
  induction l generalizing i with
  | nil => simp at h
  | cons b l ih =>
    cases i with
    | zero =>
      obtain rfl : b = a := by simpa using h
      simp only [List.set_cons_zero, List.map_cons, List.sum_cons]
      ac_rfl
    | succ i =>
      simp only [List.set_cons_succ, List.map_cons, List.sum_cons, add_assoc, ih (by simpa using h)]

end HevTunnel
