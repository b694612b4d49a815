import Mathlib.Data.List.Infix

/-!
# Framing by lines

A head of lines, each with a line end of two symbols, an empty line behind them, and then whatever
there is.

* `frame` — lines and a rest, written one behind the other;
* `readHead` — the lines in front of the first empty one, and what is behind it;
* `readHead_eq_some` — what is read are the lines and the rest of a frame, and every frame is read.
-/

namespace WebUiBoot.Framing

variable {α : Type*} {cr lf : α}

/-- A line as it stands in a head. -/
structure IsHeadLine (cr lf : α) (line : List α) : Prop where
  ne_nil : line ≠ []
  lineEnd : ¬ [cr, lf] <:+: line

def frame (cr lf : α) (lines : List (List α)) (rest : List α) : List α :=
  lines.flatMap (fun line => line ++ [cr, lf]) ++ cr :: lf :: rest

/-- `line` is what has been read of the line that is being read. -/
def readHead [DecidableEq α] (cr lf : α) (line : List α) :
    List α → Option (List (List α) × List α)
  | [] => none
  | [_] => none
  | c :: d :: rest =>
      if c = cr ∧ d = lf then
        if line = [] then some ([], rest)
        else (readHead cr lf [] rest).map fun p => (line :: p.1, p.2)
      else readHead cr lf (line ++ [c]) (d :: rest)

@[simp] theorem frame_nil (rest : List α) : frame cr lf [] rest = cr :: lf :: rest := rfl

@[simp] theorem frame_cons (line : List α) (lines : List (List α)) (rest : List α) :
    frame cr lf (line :: lines) rest = line ++ cr :: lf :: frame cr lf lines rest := by
  rw [frame, List.flatMap_cons, List.append_assoc, List.append_assoc]
  rfl

/-- A line end that is not there before the last symbol is made by the last two. -/
theorem lineEnd_snoc {line : List α} {c d : α} (h : ¬ [cr, lf] <:+: line ++ [c])
    (hne : ¬ (c = cr ∧ d = lf)) : ¬ [cr, lf] <:+: line ++ [c] ++ [d] := by
  intro hwithin
  rcases List.infix_concat_iff.mp hwithin with hlast | hwithin
  · obtain ⟨front, hfront⟩ := hlast
    have hsplit : front ++ [cr] ++ [lf] = line ++ [c] ++ [d] := by
      rw [← hfront, List.append_assoc]
      rfl
    obtain ⟨hinit, hlf⟩ := List.append_inj' hsplit rfl
    obtain ⟨-, hcr⟩ := List.append_inj' hinit rfl
    exact hne ⟨(List.singleton_inj.mp hcr).symm, (List.singleton_inj.mp hlf).symm⟩
  · exact h hwithin

/-- A line end does not begin in symbols other than its first. -/
theorem lineEnd_of_append {front line : List α} (h : cr ∉ front)
    (hwithin : [cr, lf] <:+: front ++ line) : [cr, lf] <:+: line := by
  induction front with
  | nil => exact hwithin
  | cons c front ih =>
      rw [List.mem_cons, not_or] at h
      rcases List.infix_cons_iff.mp hwithin with hfront | hwithin
      · exact absurd (List.cons_prefix_cons.mp hfront).1 h.1
      · exact ih h.2 hwithin

theorem not_lineEnd_take_one (s : List α) : ¬ [cr, lf] <:+: [] ++ s.take 1 := by
  intro hwithin
  have hlength := hwithin.length_le
  rw [List.nil_append, List.length_take, List.length_cons, List.length_singleton] at hlength
  omega

theorem not_lineEnd_of_notMem {line : List α} (h : cr ∉ line) : ¬ [cr, lf] <:+: line :=
  fun hwithin => h (hwithin.subset List.mem_cons_self)

variable [DecidableEq α]

/-- A line is read up to its line end. -/
theorem readHead_line (hne : cr ≠ lf) (rest : List α) :
    ∀ (a line : List α), ¬ [cr, lf] <:+: a → readHead cr lf line (a ++ cr :: lf :: rest)
      = if line ++ a = [] then some ([], rest)
        else (readHead cr lf [] rest).map fun p => ((line ++ a) :: p.1, p.2)
  | [], line, _ => by
      rw [List.nil_append, List.append_nil, readHead, if_pos ⟨rfl, rfl⟩]
  | [c], line, _ => by
      have hstep : ¬ (c = cr ∧ cr = lf) := fun h => hne h.2
      rw [List.singleton_append, readHead, if_neg hstep, readHead, if_pos ⟨rfl, rfl⟩]
  | c :: d :: a, line, h => by
      have hstep : ¬ (c = cr ∧ d = lf) := by
        intro ⟨hc, hd⟩
        exact h ⟨[], a, by rw [hc, hd]; rfl⟩
      have htail : ¬ [cr, lf] <:+: d :: a := fun hwithin => h (List.infix_cons hwithin)
      have ih := readHead_line hne rest (d :: a) (line ++ [c]) htail
      rw [List.append_assoc, List.singleton_append] at ih
      rw [List.cons_append, List.cons_append, readHead, if_neg hstep]
      exact ih

/-- **Reading back.** -/
theorem readHead_frame (hne : cr ≠ lf) {lines : List (List α)}
    (h : ∀ line ∈ lines, IsHeadLine cr lf line) (rest : List α) :
    readHead cr lf [] (frame cr lf lines rest) = some (lines, rest) := by
  induction lines with
  | nil => rw [frame_nil, readHead, if_pos ⟨rfl, rfl⟩, if_pos rfl]
  | cons line lines ih =>
      have hline := h line List.mem_cons_self
      have ih := ih fun line' hline' => h line' (List.mem_cons_of_mem _ hline')
      rw [frame_cons, readHead_line hne _ line [] hline.lineEnd, List.nil_append,
        if_neg hline.ne_nil, ih]
      rfl

/-- What is read is a frame, with the part of a line that was read before. -/
theorem eq_frame_of_readHead {lines : List (List α)} {rest : List α} :
    ∀ (s line : List α), ¬ [cr, lf] <:+: line ++ s.take 1 →
      readHead cr lf line s = some (lines, rest) →
        line ++ s = frame cr lf lines rest ∧ ∀ l ∈ lines, IsHeadLine cr lf l
  | [], _, _, hread => by cases hread
  | [_], _, _, hread => by cases hread
  | c :: d :: s, line, hline, hread => by
      rw [readHead] at hread
      by_cases hend : c = cr ∧ d = lf
      · rw [if_pos hend] at hread
        by_cases hnil : line = []
        · rw [if_pos hnil] at hread
          obtain ⟨rfl, rfl⟩ := Prod.mk.inj (Option.some.inj hread)
          rw [hnil, hend.1, hend.2]
          exact ⟨rfl, fun l hl => absurd hl List.not_mem_nil⟩
        · rw [if_neg hnil] at hread
          obtain ⟨p, hp, hpair⟩ := Option.map_eq_some_iff.mp hread
          obtain ⟨rfl, rfl⟩ := Prod.mk.inj hpair
          obtain ⟨hs, hlines⟩ := eq_frame_of_readHead s [] (not_lineEnd_take_one s) hp
          rw [List.nil_append] at hs
          have hfree : ¬ [cr, lf] <:+: line := fun hwithin =>
            hline (List.infix_append_of_infix_left hwithin)
          refine ⟨by rw [frame_cons, hend.1, hend.2, ← hs], ?_⟩
          intro l hl
          rcases List.mem_cons.mp hl with rfl | hl
          · exact ⟨hnil, hfree⟩
          · exact hlines l hl
      · rw [if_neg hend] at hread
        have hnext := lineEnd_snoc hline hend
        have ih := eq_frame_of_readHead (d :: s) (line ++ [c]) hnext hread
        rw [List.append_assoc, List.singleton_append] at ih
        exact ih

/-- **What is read.**  The lines and the rest of a frame, and every frame is read. -/
theorem readHead_eq_some (hne : cr ≠ lf) {s rest : List α} {lines : List (List α)} :
    readHead cr lf [] s = some (lines, rest)
      ↔ s = frame cr lf lines rest ∧ ∀ line ∈ lines, IsHeadLine cr lf line := by
  constructor
  · exact eq_frame_of_readHead s [] (not_lineEnd_take_one s)
  · intro ⟨hs, hlines⟩
    rw [hs]
    exact readHead_frame hne hlines rest

end WebUiBoot.Framing
