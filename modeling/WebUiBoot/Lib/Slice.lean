import Mathlib.Algebra.BigOperators.Group.List.Basic
import Mathlib.Algebra.GroupWithZero.Nat
import WebUiBoot.Lib.Text

/-!
# Slicing texts by bytes

The length of a text and the positions in it count bytes, as in Rust's `str`, and slicing in the
middle of a character is an error.

* `byteLength` / `sliceFrom` / `findByte` — `len`, `&t[i..]` and `find`;
* `sliceFrom_eq_some` — a slice is what is behind a part of that many bytes;
* `findByte_eq_some` — the first occurrence of a character;
* `eq_of_byteLength_eq` — parts of the same text with the same length are the same.
-/

namespace WebUiBoot.Text

/-- `str::len`. -/
def byteLength (t : Str) : ℕ := (t.map Char.utf8Size).sum

/-- `&t[i..]`, when that does not panic. -/
def sliceFrom : ℕ → Str → Option Str
  | 0, t => some t
  | _ + 1, [] => none
  | i + 1, c :: t => if c.utf8Size ≤ i + 1 then sliceFrom (i + 1 - c.utf8Size) t else none

/-- `str::find`, of a character. -/
def findByte (c : Char) : Str → Option ℕ
  | [] => none
  | d :: t => if d = c then some 0 else (findByte c t).map (d.utf8Size + ·)

@[simp] theorem byteLength_nil : byteLength [] = 0 := rfl

@[simp] theorem byteLength_cons (c : Char) (t : Str) :
    byteLength (c :: t) = c.utf8Size + byteLength t := rfl

@[simp] theorem byteLength_append (t t' : Str) :
    byteLength (t ++ t') = byteLength t + byteLength t' := by
  rw [byteLength, List.map_append, List.sum_append]
  rfl

theorem byteLength_eq_zero {t : Str} : byteLength t = 0 ↔ t = [] := by
  cases t with
  | nil => simp
  | cons c t =>
      have hpos := Char.utf8Size_pos c
      rw [byteLength_cons]
      constructor
      · intro h
        omega
      · intro h
        cases h

theorem byteLength_replicate (n : ℕ) (c : Char) :
    byteLength (List.replicate n c) = n * c.utf8Size := by
  induction n with
  | zero => rw [List.replicate_zero, byteLength_nil, Nat.zero_mul]
  | succ n ih => rw [List.replicate_succ, byteLength_cons, ih, Nat.succ_mul, Nat.add_comm]

theorem exists_front_zero {t back : Str} :
    (∃ front, t = front ++ back ∧ byteLength front = 0) ↔ t = back := by
  constructor
  · intro ⟨front, h, hlength⟩
    rw [byteLength_eq_zero.mp hlength] at h
    exact h
  · exact fun h => ⟨[], h, rfl⟩

/-- What is taken off a text, if anything, begins with its first character. -/
theorem exists_front_cons {c : Char} {t back : Str} {i : ℕ} :
    (∃ front, c :: t = front ++ back ∧ byteLength front = i + 1)
      ↔ c.utf8Size ≤ i + 1 ∧ ∃ front, t = front ++ back ∧ byteLength front = i + 1 - c.utf8Size := by
  constructor
  · intro ⟨front, h, hlength⟩
    cases front with
    | nil => cases hlength
    | cons d front =>
        obtain ⟨rfl, rfl⟩ := List.cons.inj h
        rw [byteLength_cons] at hlength
        exact ⟨by omega, front, rfl, by omega⟩
  · intro ⟨hle, front, h, hlength⟩
    refine ⟨c :: front, by rw [h]; rfl, ?_⟩
    rw [byteLength_cons, hlength]
    omega

theorem sliceFrom_eq_some {t back : Str} : ∀ {i : ℕ},
    sliceFrom i t = some back ↔ ∃ front, t = front ++ back ∧ byteLength front = i := by
  induction t with
  | nil =>
      intro i
      cases i with
      | zero => rw [sliceFrom, Option.some.injEq, exists_front_zero]
      | succ i =>
          rw [sliceFrom]
          refine iff_of_false (by simp) ?_
          intro ⟨front, h, hlength⟩
          rw [(List.append_eq_nil_iff.mp h.symm).1] at hlength
          cases hlength
  | cons c t ih =>
      intro i
      cases i with
      | zero => rw [sliceFrom, Option.some.injEq, exists_front_zero]
      | succ i =>
          rw [sliceFrom, exists_front_cons]
          by_cases hle : c.utf8Size ≤ i + 1
          · rw [if_pos hle, ih, and_iff_right hle]
          · rw [if_neg hle]
            exact iff_of_false (by simp) fun h => hle h.1

theorem sliceFrom_append (front back : Str) :
    sliceFrom (byteLength front) (front ++ back) = some back :=
  sliceFrom_eq_some.mpr ⟨front, rfl, rfl⟩

/-- Two ways to take the same number of bytes off a text are one. -/
theorem eq_of_byteLength_eq {front back front' back' : Str} (h : front ++ back = front' ++ back')
    (hlength : byteLength back = byteLength back') : back = back' := by
  have htotal := congrArg byteLength h
  rw [byteLength_append, byteLength_append] at htotal
  have hfront : byteLength front = byteLength front' := by omega
  have hslice := sliceFrom_append front back
  rw [h, hfront, sliceFrom_append, Option.some.injEq] at hslice
  exact hslice.symm

theorem findByte_eq_none {c : Char} {t : Str} : findByte c t = none ↔ c ∉ t := by
  induction t with
  | nil => simp [findByte]
  | cons d t ih =>
      rw [findByte, List.mem_cons, not_or]
      by_cases h : d = c
      · rw [if_pos h]
        constructor
        · intro hnone
          cases hnone
        · intro hne
          exact absurd h.symm hne.1
      · rw [if_neg h, Option.map_eq_none_iff, ih]
        constructor
        · intro hmem
          exact ⟨Ne.symm h, hmem⟩
        · exact And.right

/-- Where a character first occurs. -/
theorem findByte_append {c : Char} {front : Str} (h : c ∉ front) (back : Str) :
    findByte c (front ++ c :: back) = some (byteLength front) := by
  induction front with
  | nil =>
      rw [List.nil_append, findByte, if_pos rfl]
      rfl
  | cons d front ih =>
      rw [List.mem_cons, not_or] at h
      rw [List.cons_append, findByte, if_neg (Ne.symm h.1), ih h.2, byteLength_cons]
      rfl

end WebUiBoot.Text
