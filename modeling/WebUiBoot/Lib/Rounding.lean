import Mathlib.Algebra.Order.Field.Basic
import Mathlib.Tactic.Linarith
import Mathlib.Tactic.Ring

/-!
# Rounding down in affine steps

Steps `x ↦ c * x + s` with a factor `c` between 0 and 1, each of them carried out with a result that
is rounded down by less than 1.

* `Affine`, `Affine.exact` — such a step, and a list of them without rounding;
* `Affine.RoundsTo`, `Affine.RunsTo` — a step, and a list of them, with rounding;
* `Affine.RunsTo.le`, `Affine.RunsTo.sub_lt` — the error of a run: it has one sign, and it is
  smaller than the number of the steps.
-/

namespace WebUiBoot.Rounding

variable {K : Type*} [Field K] [LinearOrder K]

/-- A step that brings no two values further apart. -/
structure Affine (K : Type*) [Field K] [LinearOrder K] where
  factor : K
  offset : K
  nonneg : 0 ≤ factor
  le_one : factor ≤ 1

namespace Affine

def apply (f : Affine K) (x : K) : K := f.factor * x + f.offset

def exact (fs : List (Affine K)) (x : K) : K := fs.foldl (fun x f => f.apply x) x

/-- The step, rounded down. -/
structure RoundsTo (f : Affine K) (x y : K) : Prop where
  le : y ≤ f.apply x
  lt : f.apply x < y + 1

/-- The steps one after the other, each of them rounded down. -/
inductive RunsTo : List (Affine K) → K → K → Prop
  | nil (x : K) : RunsTo [] x x
  | cons {f : Affine K} {fs : List (Affine K)} {x y z : K} (first : f.RoundsTo x y)
      (rest : RunsTo fs y z) : RunsTo (f :: fs) x z

theorem apply_sub_apply (f : Affine K) (x y : K) : f.apply x - f.apply y = f.factor * (x - y) := by
  unfold apply
  ring

variable [IsStrictOrderedRing K]

theorem apply_mono (f : Affine K) {x y : K} (h : x ≤ y) : f.apply x ≤ f.apply y := by
  have hdiff := mul_nonneg f.nonneg (sub_nonneg.mpr h)
  rw [← apply_sub_apply] at hdiff
  exact sub_nonneg.mp hdiff

/-- A step makes an error no larger. -/
theorem apply_sub_le (f : Affine K) {x y : K} (h : x ≤ y) : f.apply y - f.apply x ≤ y - x := by
  rw [apply_sub_apply]
  exact mul_le_of_le_one_left (sub_nonneg.mpr h) f.le_one

theorem RunsTo.le_of_le {fs : List (Affine K)} {x y : K} (h : RunsTo fs x y) :
    ∀ {x₀ : K}, x ≤ x₀ → y ≤ exact fs x₀ := by
  induction h with
  | nil x => exact fun hx => hx
  | cons first rest ih => exact fun hx => ih (first.le.trans (apply_mono _ hx))

/-- A run adds less than 1 for each step to the error that it starts with. -/
theorem RunsTo.sub_le {fs : List (Affine K)} {x y : K} (h : RunsTo fs x y) :
    ∀ {x₀ : K}, x ≤ x₀ → exact fs x₀ - y ≤ x₀ - x + fs.length := by
  induction h with
  | nil x =>
      intro x₀ hx
      rw [List.length_nil, Nat.cast_zero, add_zero]
      exact le_refl _
  | @cons f fs x y z first rest ih =>
      intro x₀ hx
      have hstep := f.apply_sub_le hx
      have hlt := first.lt
      have hrest := ih (first.le.trans (f.apply_mono hx))
      rw [List.length_cons, Nat.cast_succ]
      show exact fs (f.apply x₀) - z ≤ _
      linarith

theorem RunsTo.le {fs : List (Affine K)} {x y : K} (h : RunsTo fs x y) : y ≤ exact fs x :=
  h.le_of_le (le_refl x)

/-- **The error of a run.** -/
theorem RunsTo.sub_lt {fs : List (Affine K)} {x y : K} (h : RunsTo fs x y) (hne : fs ≠ []) :
    exact fs x - y < fs.length := by
  cases h with
  | nil => exact absurd rfl hne
  | @cons f fs _ _ _ first rest =>
      have hlt := first.lt
      have hrest := rest.sub_le first.le
      rw [List.length_cons, Nat.cast_succ]
      show exact fs (f.apply x) - y < _
      linarith

end Affine

end WebUiBoot.Rounding
