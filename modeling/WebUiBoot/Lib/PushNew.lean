import Mathlib.Data.List.Basic
import Mathlib.Data.List.Induction
import Mathlib.Data.List.Nodup

/-!
# Queues without duplicates

A queue that is kept free of duplicates by a membership test in front of every insertion:
`pushNew q a` appends `a` unless it is there already, `pushAll q xs` does so for a whole list.

* `pushAll_nodup`, `mem_pushAll` — duplicate freedom and the members;
* `prefix_pushAll` — what is in the queue keeps its place;
* `pushAll_nil_eq_eraseDups` — from an empty queue, pushing removes duplicates;
* `pushAll_of_nodup` — on new, distinct elements the test never bites;
* `findIdx?_pushAll` — a search that succeeds in an early part of the input finds an element of
  that part.
-/

namespace WebUiBoot.PushNew

variable {α β : Type*} [DecidableEq α] [DecidableEq β]

/-- Append `a` unless the queue has it already. -/
def pushNew (q : List α) (a : α) : List α := if a ∈ q then q else q ++ [a]

/-- Push the elements of a list one after the other. -/
def pushAll (q xs : List α) : List α := xs.foldl pushNew q

theorem pushNew_of_mem {q : List α} {a : α} (h : a ∈ q) : pushNew q a = q := if_pos h

theorem pushNew_of_notMem {q : List α} {a : α} (h : a ∉ q) : pushNew q a = q ++ [a] := if_neg h

theorem mem_pushNew {q : List α} {a b : α} : b ∈ pushNew q a ↔ b ∈ q ∨ b = a := by
  unfold pushNew
  split
  · rename_i h
    constructor
    · exact Or.inl
    · rintro (hb | rfl)
      · exact hb
      · exact h
  · simp

theorem pushNew_nodup {q : List α} (h : q.Nodup) (a : α) : (pushNew q a).Nodup := by
  unfold pushNew
  split
  · exact h
  · rename_i ha
    exact List.nodup_append_comm.mp (List.nodup_cons.mpr ⟨ha, h⟩)

@[simp] theorem pushAll_nil (q : List α) : pushAll q [] = q := rfl

@[simp] theorem pushAll_cons (q : List α) (a : α) (xs : List α) :
    pushAll q (a :: xs) = pushAll (pushNew q a) xs := rfl

theorem pushAll_append (q xs ys : List α) :
    pushAll q (xs ++ ys) = pushAll (pushAll q xs) ys := List.foldl_append

theorem mem_pushAll {q xs : List α} {b : α} : b ∈ pushAll q xs ↔ b ∈ q ∨ b ∈ xs := by
  induction xs generalizing q with
  | nil => simp
  | cons a xs ih => rw [pushAll_cons, ih, mem_pushNew, List.mem_cons, or_assoc]

theorem pushAll_nodup {q : List α} (h : q.Nodup) (xs : List α) : (pushAll q xs).Nodup := by
  induction xs generalizing q with
  | nil => exact h
  | cons a xs ih => exact ih (pushNew_nodup h a)

theorem prefix_pushNew (q : List α) (a : α) : q <+: pushNew q a := by
  unfold pushNew
  split
  · exact List.prefix_refl q
  · exact List.prefix_append q [a]

theorem prefix_pushAll (q xs : List α) : q <+: pushAll q xs := by
  induction xs generalizing q with
  | nil => exact List.prefix_refl q
  | cons a xs ih => exact (prefix_pushNew q a).trans (ih _)

/-- On distinct elements that are not in the queue, pushing is appending. -/
theorem pushAll_of_nodup {q xs : List α} (h : (q ++ xs).Nodup) : pushAll q xs = q ++ xs := by
  induction xs generalizing q with
  | nil => simp
  | cons a xs ih =>
      have ha : a ∉ q := fun hq => (List.nodup_append.mp h).2.2 a hq a (by simp) rfl
      rw [pushAll_cons, pushNew_of_notMem ha, ih (by simpa using h)]
      simp

theorem pushNew_map {f : α → β} (hf : Function.Injective f) (q : List α) (a : α) :
    pushNew (q.map f) (f a) = (pushNew q a).map f := by
  by_cases h : a ∈ q
  · rw [pushNew_of_mem h, pushNew_of_mem (List.mem_map_of_mem h)]
  · rw [pushNew_of_notMem h, pushNew_of_notMem ((List.mem_map_of_injective hf).not.mpr h),
      List.map_append, List.map_singleton]

theorem pushAll_map {f : α → β} (hf : Function.Injective f) (q xs : List α) :
    pushAll (q.map f) (xs.map f) = (pushAll q xs).map f := by
  induction xs generalizing q with
  | nil => rfl
  | cons a xs ih => rw [List.map_cons, pushAll_cons, pushNew_map hf, ih, pushAll_cons]

/-- Pushed into an empty queue, the elements are in the order of their first occurrences. -/
theorem pushAll_nil_eq_eraseDups (xs : List α) : pushAll [] xs = xs.eraseDups := by
  induction xs using List.reverseRecOn with
  | nil => rfl
  | append_singleton xs a ih =>
      have hmem : a ∈ xs.eraseDups ↔ a ∈ xs := List.mem_eraseDups
      rw [pushAll_append, ih, List.eraseDups_append]
      show pushNew xs.eraseDups a = xs.eraseDups ++ ([a].removeAll xs).eraseDups
      by_cases ha : a ∈ xs
      · have hnone : [a].removeAll xs = [] := by
          simp [List.removeAll, ha]
        rw [pushNew_of_mem (hmem.mpr ha), hnone]
        exact (List.append_nil _).symm
      · have hone : [a].removeAll xs = [a] := by
          simp [List.removeAll, ha]
        rw [pushNew_of_notMem fun h => ha (hmem.mp h), hone]
        rfl

/-- A search that succeeds among the first elements pushed finds one of them. -/
theorem findIdx?_pushAll {p : α → Bool} {xs : List α} {a : α} (ha : a ∈ xs) (hp : p a)
    (ys : List α) :
    ∃ i b, (pushAll [] (xs ++ ys)).findIdx? p = some i ∧
      (pushAll [] (xs ++ ys))[i]? = some b ∧ b ∈ xs ∧ p b := by
  obtain ⟨zs, hzs⟩ := prefix_pushAll (pushAll [] xs) ys
  rw [pushAll_append, ← hzs]
  have hmem : a ∈ pushAll [] xs := mem_pushAll.mpr (Or.inr ha)
  obtain ⟨i, hi⟩ : ∃ i, (pushAll [] xs).findIdx? p = some i := by
    rw [← Option.isSome_iff_exists, List.findIdx?_isSome]
    exact List.any_eq_true.mpr ⟨a, hmem, hp⟩
  obtain ⟨hlt, hpi, _⟩ := List.findIdx?_eq_some_iff_getElem.mp hi
  refine ⟨i, (pushAll [] xs)[i], ?_, ?_, ?_, hpi⟩
  · rw [List.findIdx?_append, hi]
    rfl
  · rw [List.getElem?_append_left hlt, List.getElem?_eq_getElem hlt]
  · exact (mem_pushAll.mp (List.getElem_mem hlt)).resolve_left List.not_mem_nil

end WebUiBoot.PushNew
