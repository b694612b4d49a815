import Mathlib.Algebra.BigOperators.Group.List.Basic
import Mathlib.Algebra.GroupWithZero.Nat
import Mathlib.Data.List.Nodup
import WebUiBoot.Lib.Trace

/-!
# A queue in buckets

A queue may be stored in pieces, say one to a file.  An element is taken from the first bucket; a
bucket that has become empty is thrown away at once, but one that was empty to begin with costs a
step of its own.

* `pop` / `drain` — one step, and the machine that does nothing else;
* `flatten_run` — what comes out, and what is still there, is always the whole queue, in order;
* `steps_run` / `steps_eq_zero` — how many steps empty it;
* `filterMap_update_of_first` — buckets that are found at given places, after a change of the first.
-/

namespace WebUiBoot.Buckets

open WebUiBoot.Trace

variable {α β κ ι : Type*}

/-- Take an element from the first bucket, or throw the bucket away when there is none. -/
def pop : List (List α) → List (List α) × List α
  | [] => ([], [])
  | [] :: bs => (bs, [])
  | [a] :: bs => (bs, [a])
  | (a :: a' :: as) :: bs => ((a' :: as) :: bs, [a])

/-- The machine that pops, whatever its input is. -/
def drain (ι α : Type*) : Machine (List (List α)) ι α := ⟨fun bs _ => pop bs⟩

/-- The number of steps that empty the buckets. -/
def steps (bs : List (List α)) : ℕ := (bs.map fun b => max 1 b.length).sum

theorem flatten_pop (bs : List (List α)) : (pop bs).2 ++ (pop bs).1.flatten = bs.flatten := by
  match bs with
  | [] => rfl
  | [] :: bs => rfl
  | [a] :: bs => rfl
  | (a :: a' :: as) :: bs => rfl

theorem steps_pop (bs : List (List α)) : steps (pop bs).1 = steps bs - 1 := by
  match bs with
  | [] => rfl
  | [] :: bs =>
      simp only [pop, steps, List.map_cons, List.sum_cons, List.length_nil]
      omega
  | [a] :: bs =>
      simp only [pop, steps, List.map_cons, List.sum_cons, List.length_cons, List.length_nil]
      omega
  | (a :: a' :: as) :: bs =>
      simp only [pop, steps, List.map_cons, List.sum_cons, List.length_cons]
      omega

theorem steps_eq_zero {bs : List (List α)} : steps bs = 0 ↔ bs = [] := by
  cases bs with
  | nil => simp [steps]
  | cons b bs =>
      simp only [steps, List.map_cons, List.sum_cons]
      constructor
      · intro h
        omega
      · intro h
        cases h

/-- **The order is kept.** -/
theorem flatten_run (is : List ι) : ∀ bs : List (List α),
    ((drain ι α).run bs is).2 ++ ((drain ι α).run bs is).1.flatten = bs.flatten := by
  induction is with
  | nil => exact fun bs => List.nil_append _
  | cons i is ih =>
      intro bs
      rw [Machine.run_cons, List.append_assoc, ih]
      exact flatten_pop bs

theorem steps_run (is : List ι) : ∀ bs : List (List α),
    steps ((drain ι α).run bs is).1 = steps bs - is.length := by
  induction is with
  | nil => exact fun bs => rfl
  | cons i is ih =>
      intro bs
      have hpop : steps ((drain ι α).step bs i).1 = steps bs - 1 := steps_pop bs
      rw [Machine.run_cons]
      dsimp only
      rw [ih, hpop, List.length_cons]
      omega

/-! ### Buckets at places -/

/-- **The first place.**  A change of the first place that has a bucket changes the first bucket. -/
theorem filterMap_update_of_first [DecidableEq κ] {f f' : κ → Option β} {front back : List κ}
    {k : κ} {b : β} (hnodup : (front ++ k :: back).Nodup) (hfront : ∀ k' ∈ front, f k' = none)
    (hb : f k = some b) (hf' : ∀ k', k' ≠ k → f' k' = f k') :
    (front ++ k :: back).filterMap f = b :: back.filterMap f
      ∧ (front ++ k :: back).filterMap f' = (f' k).toList ++ back.filterMap f := by
  have hk : k ∉ front ++ back := (List.nodup_cons.mp (List.nodup_middle.mp hnodup)).1
  rw [List.mem_append, not_or] at hk
  have hsame : ∀ places : List κ, k ∉ places → places.filterMap f' = places.filterMap f := by
    intro places hplaces
    refine List.filterMap_congr fun k' hk' => hf' k' ?_
    rintro rfl
    exact hplaces hk'
  have hempty : front.filterMap f = [] := by
    rw [List.filterMap_eq_nil_iff]
    exact hfront
  constructor
  · rw [List.filterMap_append, hempty, List.nil_append, List.filterMap_cons_some hb]
  · rw [List.filterMap_append, hsame front hk.1, hempty, List.nil_append, List.filterMap_cons,
      hsame back hk.2]
    cases f' k with
    | none => rfl
    | some b' => rfl

end WebUiBoot.Buckets
