import Mathlib.Data.List.Basic

/-!
# The place of an element in a queue

The elements in front of the first occurrence of `a` in `l` are `l.take (l.idxOf a)`.  Appending
at the end leaves them alone (`List.idxOf_append_of_mem`); removing elements can only move `a`
forward, and does so when one of them stood in front.

* `take_idxOf_append` — the list around the first occurrence;
* `idxOf_filter` — what is left in front after a removal;
* `idxOf_filter_le` / `idxOf_filter_lt` — the place as a measure.
-/

namespace WebUiBoot.Position

variable {α : Type*} [BEq α] [LawfulBEq α]

/-- The list, cut behind the first occurrence of an element of it. -/
theorem take_idxOf_append {l : List α} {a : α} (h : a ∈ l) :
    ∃ rest, l = l.take (l.idxOf a) ++ [a] ++ rest := by
  induction l with
  | nil => simp at h
  | cons b l ih =>
      by_cases hb : b = a
      · exact ⟨l, by simp [hb]⟩
      · obtain ⟨rest, hrest⟩ := ih ((List.mem_cons.mp h).resolve_left fun heq => hb heq.symm)
        refine ⟨rest, ?_⟩
        rw [List.idxOf_cons_ne l hb, List.take_succ_cons, List.cons_append, List.cons_append,
          ← hrest]

/-- After a removal that spares `a`, the elements in front of it are those that are kept. -/
theorem idxOf_filter {p : α → Bool} {a : α} (ha : p a) (l : List α) :
    (l.filter p).idxOf a = (l.take (l.idxOf a)).countP p := by
  induction l with
  | nil => rfl
  | cons b l ih =>
      by_cases hb : b = a
      · rw [hb, List.filter_cons_of_pos ha, List.idxOf_cons_self, List.idxOf_cons_self,
          List.take_zero, List.countP_nil]
      · rw [List.idxOf_cons_ne l hb, List.take_succ_cons]
        by_cases hp : p b
        · rw [List.filter_cons_of_pos hp, List.idxOf_cons_ne _ hb, ih,
            List.countP_cons_of_pos hp]
        · rw [List.filter_cons_of_neg hp, ih, List.countP_cons_of_neg hp]

theorem length_take_idxOf {l : List α} {a : α} (h : a ∈ l) :
    (l.take (l.idxOf a)).length = l.idxOf a := by
  have hlt := List.idxOf_lt_length_of_mem h
  rw [List.length_take]
  omega

/-- A removal never moves an element back. -/
theorem idxOf_filter_le {p : α → Bool} {a : α} (ha : p a) {l : List α} (h : a ∈ l) :
    (l.filter p).idxOf a ≤ l.idxOf a := by
  have hle : (l.take (l.idxOf a)).countP p ≤ (l.take (l.idxOf a)).length :=
    List.countP_le_length
  rw [length_take_idxOf h] at hle
  rwa [idxOf_filter ha]

/-- A removal of an element in front moves an element forward. -/
theorem idxOf_filter_lt {p : α → Bool} {a b : α} (ha : p a) {l : List α} (h : a ∈ l)
    (hb : b ∈ l.take (l.idxOf a)) (hp : ¬ p b) : (l.filter p).idxOf a < l.idxOf a := by
  have hle := idxOf_filter_le ha h
  have hne : (l.filter p).idxOf a ≠ l.idxOf a := by
    intro heq
    have hall : (l.take (l.idxOf a)).countP p = (l.take (l.idxOf a)).length := by
      rw [length_take_idxOf h, ← idxOf_filter ha]
      exact heq
    exact hp (List.countP_eq_length.mp hall b hb)
  omega

end WebUiBoot.Position
