import WebUiBoot.Lib.Trace

/-!
# Transition systems, and machines that refine them

A transition system says what a component may do, where a machine says what it does.  Both emit
observations, so that one can be compared with the other by what is seen of them.

* `System`, `System.Exec` — a system, and what some steps of it lead to;
* `Exec.invariant` — a relation between trace and state that every step preserves holds after any
  number of steps;
* `run_exec` — a machine each of whose steps is made of steps of the system, seen through an
  abstraction of its states, is made of them over whole runs, with the same trace.

Nothing here depends on what the states and observations are.
-/

namespace WebUiBoot.Transition

open WebUiBoot.Trace

variable {σ τ ι ο : Type*}

/-- A transition system, by the relation between a state, what a step emits, and the next state. -/
structure System (τ ο : Type*) where
  step : τ → List ο → τ → Prop

namespace System

/-- Some steps lead from `t` to a state and emit a trace. -/
inductive Exec (S : System τ ο) (t : τ) : List ο → τ → Prop
  | refl : Exec S t [] t
  | snoc {tr os : List ο} {t' t'' : τ} : Exec S t tr t' → S.step t' os t'' → Exec S t (tr ++ os) t''

variable {S : System τ ο} {t t' t'' : τ} {tr tr' os : List ο}

theorem Exec.single (h : S.step t os t') : S.Exec t os t' := .snoc .refl h

theorem Exec.trans (h : S.Exec t tr t') (h' : S.Exec t' tr' t'') : S.Exec t (tr ++ tr') t'' := by
  induction h' with
  | refl =>
      rw [List.append_nil]
      exact h
  | snoc _ hstep ih =>
      rw [← List.append_assoc]
      exact .snoc ih hstep

/-- **The invariant rule.** -/
theorem Exec.invariant {I : List ο → τ → Prop}
    (hstep : ∀ tr t os t', I tr t → S.step t os t' → I (tr ++ os) t')
    (h : S.Exec t tr' t') (hI : I tr t) : I (tr ++ tr') t' := by
  induction h with
  | refl =>
      rw [List.append_nil]
      exact hI
  | snoc _ hs ih =>
      rw [← List.append_assoc]
      exact hstep _ _ _ _ ih hs

end System

/-- **The refinement rule.**  A machine each of whose steps, from a state in which `I` holds, is made
of steps of the system, is made of them over whole runs. -/
theorem run_exec (m : Machine σ ι ο) (S : System τ ο) (f : σ → τ) {I : List ο → σ → Prop}
    (hinv : ∀ tr s i, I tr s → I (tr ++ (m.step s i).2) (m.step s i).1)
    (hstep : ∀ tr s i, I tr s → S.Exec (f s) (m.step s i).2 (f (m.step s i).1)) (is : List ι) :
    ∀ {tr s}, I tr s → S.Exec (f s) (m.run s is).2 (f (m.run s is).1) := by
  induction is with
  | nil => exact fun {_ _} _ => .refl
  | cons i is ih =>
      intro tr s hI
      rw [Machine.run_cons]
      exact (hstep tr s i hI).trans (ih (hinv tr s i hI))

end WebUiBoot.Transition
