import Mathlib.Data.List.Basic

/-!
# Loops that emit

A `for` loop over a list, whose body emits observations and may return from the function that the
loop stands in.

* `forReturn` — the loop: the value that is returned, if any, and what was emitted;
* `forReturn_cases` — it goes through the list, or stops behind the first element whose body
  returns;
* `exists_of_flatMap_eq` — where an observation of a concatenation comes from.
-/

namespace WebUiBoot.Loop

variable {α β ο : Type*}

/-- `for x in xs { body }`; the body of an element returns when it has a value. -/
def forReturn (body : α → Option β × List ο) : List α → Option β × List ο
  | [] => (none, [])
  | x :: xs =>
      match body x with
      | (some b, os) => (some b, os)
      | (none, os) => ((forReturn body xs).1, os ++ (forReturn body xs).2)

variable {body : α → Option β × List ο}

theorem forReturn_cons_none {x : α} (h : (body x).1 = none) (xs : List α) :
    forReturn body (x :: xs)
      = ((forReturn body xs).1, (body x).2 ++ (forReturn body xs).2) := by
  rw [forReturn]
  cases hbody : body x with
  | mk b os =>
      rw [hbody] at h
      rw [show b = none from h]

theorem forReturn_cons_some {x : α} {b : β} (h : (body x).1 = some b) (xs : List α) :
    forReturn body (x :: xs) = (some b, (body x).2) := by
  rw [forReturn]
  cases hbody : body x with
  | mk b' os =>
      rw [hbody] at h
      rw [show b' = some b from h]

theorem forReturn_map {γ : Type*} (g : γ → α) (xs : List γ) :
    forReturn body (xs.map g) = forReturn (fun x => body (g x)) xs := by
  induction xs with
  | nil => rfl
  | cons x xs ih =>
      rw [List.map_cons, forReturn, forReturn, ih]

/-- **The ways through a loop.** -/
theorem forReturn_cases (body : α → Option β × List ο) (xs : List α) :
    ((∀ x ∈ xs, (body x).1 = none)
        ∧ forReturn body xs = (none, xs.flatMap fun x => (body x).2))
      ∨ ∃ before x after b, xs = before ++ x :: after ∧ (∀ y ∈ before, (body y).1 = none)
          ∧ (body x).1 = some b
          ∧ forReturn body xs = (some b, (before ++ [x]).flatMap fun y => (body y).2) := by
  induction xs with
  | nil => exact Or.inl ⟨fun x hx => absurd hx List.not_mem_nil, rfl⟩
  | cons x xs ih =>
      cases hx : (body x).1 with
      | some b =>
          refine Or.inr ⟨[], x, xs, b, rfl, fun y hy => absurd hy List.not_mem_nil, hx, ?_⟩
          rw [forReturn_cons_some hx, List.nil_append, List.flatMap_singleton]
      | none =>
          rw [forReturn_cons_none hx]
          have hcons : ∀ {before : List α}, (∀ y ∈ before, (body y).1 = none) →
              ∀ y ∈ x :: before, (body y).1 = none := by
            intro before hbefore y hy
            cases hy with
            | head => exact hx
            | tail _ hy => exact hbefore y hy
          rcases ih with ⟨hall, heq⟩ | ⟨before, x', after, b, hxs, hbefore, hb, heq⟩
          · left
            rw [heq]
            exact ⟨hcons hall, rfl⟩
          · right
            refine ⟨x :: before, x', after, b, ?_, hcons hbefore, hb, ?_⟩
            · rw [hxs, List.cons_append]
            · rw [heq, List.cons_append, List.flatMap_cons]

/-- An observation of a concatenation is one of a part, with the rest of the part around it and the
other parts around that. -/
theorem exists_of_flatMap_eq {f : α → List ο} {xs : List α} :
    ∀ {a : List ο} {o : ο} {b : List ο}, xs.flatMap f = a ++ o :: b →
      ∃ before x after c d, xs = before ++ x :: after ∧ f x = c ++ o :: d
        ∧ a = before.flatMap f ++ c ∧ b = d ++ after.flatMap f := by
  induction xs with
  | nil =>
      intro a o b h
      exact absurd h.symm (by simp)
  | cons x xs ih =>
      intro a o b h
      rw [List.flatMap_cons] at h
      rcases List.append_eq_append_iff.mp h with ⟨c, ha, hxs⟩ | ⟨c, hx, hc⟩
      · obtain ⟨before, x', after, c', d, hsplit, hx', hc', hb⟩ := ih hxs
        refine ⟨x :: before, x', after, c', d, ?_, hx', ?_, hb⟩
        · rw [hsplit, List.cons_append]
        · rw [ha, hc', List.flatMap_cons, List.append_assoc]
      · cases c with
        | nil =>
            rw [List.append_nil] at hx
            obtain ⟨before, x', after, c', d, hsplit, hx', hc', hb⟩ := ih (a := []) hc.symm
            refine ⟨x :: before, x', after, c', d, ?_, hx', ?_, hb⟩
            · rw [hsplit, List.cons_append]
            · rw [List.flatMap_cons, List.append_assoc, ← hc', List.append_nil, hx]
        | cons o' c =>
            rw [List.cons_append, List.cons.injEq] at hc
            refine ⟨[], x, xs, a, c, rfl, ?_, rfl, hc.2⟩
            rw [hx, hc.1]

end WebUiBoot.Loop
