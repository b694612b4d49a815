import WebUiBoot.Log.Visible

/-!
# Does the cut keep as much as it could?

* `KeepsMost` — the text is the longest end of whole lines that fits, or the end of a last line
  that does not fit;
* `CutsInsideLine` — the last 4000 bytes begin inside a line that is not the last one;
* `keepsMost_iff` — of one text;
* `newest_kept_iff` — after any history of ASCII messages;
* `long_line_vanishes` — a message that does not fit leaves an empty log.
-/

namespace WebUiBoot.Log

open WebUiBoot.Text WebUiBoot.Trace

/-- What `text` keeps of `t`. -/
structure KeepsMost (t text : Str) : Prop where
  /-- All ends of whole lines that fit are in it. -/
  longest : ∀ back, LineEnd t back → byteLength back ≤ 4000 → back <:+ text
  /-- Of a last line that does not fit, the last 4000 bytes are kept. -/
  lastLine : ∀ line, LineEnd t line → '\n' ∉ line.dropLast → 4000 < byteLength line →
    text <:+ line ∧ byteLength text = 4000

/-- The text is no longer than 4000 bytes, or its last 4000 bytes do not begin a line and hold a
newline that is not the last character. -/
def CutsInsideLine (t : Str) : Prop :=
  byteLength t ≤ 4000 ∨ ∃ front back, t = front ++ back ∧ byteLength back = 4000
    ∧ front.getLast? ≠ some '\n' ∧ '\n' ∈ back.dropLast

/-! ### One text -/

/-- The beginning of the last line of a text. -/
theorem exists_lineStart (t : Str) :
    ∃ front line, t = front ++ line ∧ (front = [] ∨ front.getLast? = some '\n') ∧ '\n' ∉ line := by
  induction t using List.reverseRecOn with
  | nil => exact ⟨[], [], rfl, Or.inl rfl, List.not_mem_nil⟩
  | append_singleton t c ih =>
      by_cases hc : c = '\n'
      · subst hc
        refine ⟨t ++ ['\n'], [], (List.append_nil _).symm, Or.inr ?_, List.not_mem_nil⟩
        exact List.getLast?_concat
      · obtain ⟨front, line, rfl, hfront, hline⟩ := ih
        refine ⟨front, line ++ [c], List.append_assoc front line [c], hfront, ?_⟩
        intro hmem
        rcases List.mem_append.mp hmem with hmem | hmem
        · exact hline hmem
        · exact hc (List.mem_singleton.mp hmem).symm

/-- Of two ends of a text the one with fewer bytes is an end of the other one. -/
theorem suffix_of_byteLength_le {t back back' : Str} (h : back <:+ t) (h' : back' <:+ t)
    (hle : byteLength back ≤ byteLength back') : back <:+ back' := by
  rcases List.suffix_or_suffix_of_suffix h h' with hsuffix | ⟨front, rfl⟩
  · exact hsuffix
  · rw [byteLength_append] at hle
    have hzero : byteLength front = 0 := by omega
    rw [byteLength_eq_zero.mp hzero]
    exact List.suffix_rfl

/-- The part of an end of whole lines that is in front of another one holds its first newline. -/
theorem suffix_of_line {line rest front back : Str} (hline : '\n' ∉ line)
    (h : line ++ '\n' :: rest = front ++ back) (hfront : front.getLast? = some '\n') :
    back <:+ rest := by
  rcases List.append_eq_append_iff.mp h with ⟨middle, hfront', hmiddle⟩ | ⟨middle, hline', _⟩
  · cases middle with
    | nil =>
        rw [List.append_nil] at hfront'
        rw [hfront'] at hfront
        exact absurd (List.mem_of_getLast? hfront) hline
    | cons c middle =>
        obtain ⟨_, rfl⟩ := List.cons.inj hmiddle
        exact List.suffix_append middle back
  · refine absurd ?_ hline
    rw [hline']
    exact List.mem_append_left middle (List.mem_of_getLast? hfront)

/-- A text that is too long, by its last 4000 bytes. -/
theorem cutsInsideLine_append {front back : Str} (hback : byteLength back = 4000)
    (hlong : ¬ byteLength (front ++ back) ≤ 4000) :
    CutsInsideLine (front ++ back) ↔ front.getLast? ≠ some '\n' ∧ '\n' ∈ back.dropLast := by
  constructor
  · intro hcuts
    obtain ⟨front', back', heq, hback', hcuts⟩ := hcuts.resolve_left hlong
    have hsame := eq_of_byteLength_eq heq (hback.trans hback'.symm)
    subst hsame
    rw [List.append_cancel_right heq]
    exact hcuts
  · intro hcuts
    exact Or.inr ⟨front, _, rfl, hback, hcuts⟩

section
variable {front line text : Str}

/-- What has to be so that as much as possible is kept. -/
theorem KeepsMost.insideLine (hfront : front ≠ [])
    (hback : byteLength (line ++ '\n' :: text) = 4000)
    (hkeeps : KeepsMost (front ++ (line ++ '\n' :: text)) text) :
    front.getLast? ≠ some '\n' ∧ '\n' ∈ (line ++ '\n' :: text).dropLast := by
  have hinside : front.getLast? ≠ some '\n' := by
    intro hstart
    have hsuffix := hkeeps.longest _ ⟨front, rfl, Or.inr hstart⟩ (Nat.le_of_eq hback)
    have hlength := hsuffix.length_le
    simp only [List.length_append, List.length_cons] at hlength
    omega
  refine ⟨hinside, ?_⟩
  -- otherwise the last line begins in front of the last 4000 bytes, and does not fit
  by_contra hnone
  obtain ⟨front', start, hsplit, hstart, hnewline⟩ := exists_lineStart front
  have hnonempty : 0 < byteLength start := by
    rw [Nat.pos_iff_ne_zero]
    intro hzero
    rw [byteLength_eq_zero.mp hzero, List.append_nil] at hsplit
    subst hsplit
    exact hstart.elim hfront hinside
  have hlastLine : '\n' ∉ (start ++ (line ++ '\n' :: text)).dropLast := by
    rw [List.dropLast_append_of_ne_nil (by simp), List.mem_append, not_or]
    exact ⟨hnewline, hnone⟩
  have hlong : 4000 < byteLength (start ++ (line ++ '\n' :: text)) := by
    rw [byteLength_append, hback]
    omega
  have hkept := (hkeeps.lastLine (start ++ (line ++ '\n' :: text))
    ⟨front', by rw [hsplit, List.append_assoc], hstart⟩ hlastLine hlong).2
  have htext : byteLength (line ++ '\n' :: text) = byteLength line + (1 + byteLength text) := by
    rw [byteLength_append, byteLength_cons]
    rfl
  omega

/-- And that it is enough. -/
theorem keepsMost_of_insideLine (hfront : front ≠ []) (hline : '\n' ∉ line)
    (hback : byteLength (line ++ '\n' :: text) = 4000) (hinside : front.getLast? ≠ some '\n')
    (hnewline : '\n' ∈ (line ++ '\n' :: text).dropLast) :
    KeepsMost (front ++ (line ++ '\n' :: text)) text := by
  have hsuffix := List.suffix_append front (line ++ '\n' :: text)
  refine ⟨fun back hend hfits => ?_, fun line' hline' hone hlong => ?_⟩
  · obtain ⟨front', heq, hstart⟩ := hend
    obtain ⟨middle, hmiddle⟩ :=
      suffix_of_byteLength_le ⟨front', heq.symm⟩ hsuffix (by rw [hback]; exact hfits)
    have hfront' : front' = front ++ middle := by
      rw [← hmiddle, ← List.append_assoc] at heq
      exact (List.append_cancel_right heq).symm
    rw [hfront'] at hstart
    rcases hstart with hstart | hstart
    · exact absurd (List.append_eq_nil_iff.mp hstart).1 hfront
    · cases hm : middle with
      | nil =>
          rw [hm, List.append_nil] at hstart
          exact absurd hstart hinside
      | cons c cs =>
          rw [List.getLast?_append_of_ne_nil front (by rw [hm]; exact List.cons_ne_nil c cs)]
            at hstart
          exact suffix_of_line hline hmiddle.symm hstart
  · obtain ⟨front', heq, _⟩ := hline'
    obtain ⟨start, hstart⟩ :=
      suffix_of_byteLength_le hsuffix ⟨front', heq.symm⟩ (by rw [hback]; omega)
    refine absurd ?_ hone
    rw [← hstart, List.dropLast_append_of_ne_nil (by simp)]
    exact List.mem_append_right start hnewline

end

/-- **One text.** -/
theorem keepsMost_iff {t text : Str} (hlast : t.getLast? = some '\n')
    (h : truncate t = some text) : KeepsMost t text ↔ CutsInsideLine t := by
  by_cases hle : byteLength t ≤ 4000
  · rw [truncate_of_le hle, Option.some.injEq] at h
    subst h
    refine iff_of_true ⟨fun back hback _ => ?_, fun line hline _ hlong => ?_⟩ (Or.inl hle)
    · obtain ⟨front, ht, _⟩ := hback
      exact ⟨front, ht.symm⟩
    · obtain ⟨front, ht, _⟩ := hline
      rw [ht, byteLength_append] at hle
      omega
  · obtain ⟨front, line, rfl, hfront, hline, hback⟩ := truncate_long hlast h hle
    rw [cutsInsideLine_append hback hle]
    constructor
    · exact KeepsMost.insideLine hfront hback
    · intro ⟨hinside, hnewline⟩
      exact keepsMost_of_insideLine hfront hline hback hinside hnewline

/-- A text that is too long by a part of an earlier line: that line is dropped, and all behind it
is kept. -/
theorem truncate_earlier {front line text : Str} (hfront : front ≠ []) (hstart : '\n' ∉ front)
    (hline : '\n' ∉ line) (htext : text ≠ [])
    (hback : byteLength (line ++ '\n' :: text) = 4000) :
    truncate (front ++ (line ++ '\n' :: text)) = some text
      ∧ CutsInsideLine (front ++ (line ++ '\n' :: text)) := by
  refine ⟨truncate_line hfront hback hline, Or.inr ⟨front, _, rfl, hback, ?_, ?_⟩⟩
  · intro hlast
    exact hstart (List.mem_of_getLast? hlast)
  · rw [List.dropLast_append_of_ne_nil (List.cons_ne_nil _ _),
      List.dropLast_cons_of_ne_nil htext]
    exact List.mem_append_right line List.mem_cons_self

theorem newline_notMem_replicate (n : ℕ) : '\n' ∉ List.replicate n 'x' := by
  intro h
  exact absurd (List.eq_of_mem_replicate h) (by decide)

/-- A message of one character again and again, with what is logged behind it. -/
theorem message_replicate (n m : ℕ) (c : Char) (text : Str) :
    message .info (List.replicate (n + m) c) ++ text
      = ("[INFO ]: ".toList ++ List.replicate n c) ++ (List.replicate m c ++ '\n' :: text) := by
  unfold message
  rw [List.replicate_add]
  simp only [Level.name, List.append_assoc]
  rfl

/-! ### After a history of ASCII messages -/

theorem visible_withText (s : Logger) (text : Str) : (s.withText text).visible = text := by
  unfold Logger.withText
  cases s.window with
  | none => rfl
  | some logText => rfl

/-- **When the cut keeps as much as it could.**  After any history of ASCII messages, with the
window coming and going, a new ASCII message is logged; what is shown then is the longest end of
whole lines that fits, and the end of the last line when that does not fit, if and only if the last
4000 bytes of the text with the message begin inside a line that is not the last one, or there are
no more bytes than that. -/
theorem newest_kept_iff (ops : List Op) (hops : ∀ op ∈ ops, op.Ascii) (level : Level)
    (henabled : level.enabled = true) (args : Str) (hargs : IsAscii args) :
    ∃ s, (logger.run .new ops).1.log level args = some s
      ∧ (KeepsMost ((logger.run .new ops).1.text ++ message level args) s.visible
        ↔ CutsInsideLine ((logger.run .new ops).1.text ++ message level args)) := by
  have hascii := (ascii_run hops .new ⟨isAscii_nil, isAscii_nil⟩).2
  rw [log_eq _ henabled]
  generalize (logger.run .new ops).1 = s at hascii
  have haligned := aligned_of_isAscii (hascii.logged level hargs)
  obtain ⟨text, htruncate⟩ :=
    Option.ne_none_iff_exists'.mp ((truncate_ne_none_iff _).mpr haligned)
  rw [htruncate]
  refine ⟨_, rfl, ?_⟩
  rw [visible_withText]
  exact keepsMost_iff (getLast?_message s.text level args) htruncate

/-- A message of 2010 bytes behind one of 3010: the last 4000 bytes begin in the middle of the
first line, and the second one is kept. -/
theorem newest_kept_second :
    ∃ s, (logger.run .new [.log .info (List.replicate 3000 'x')]).1.log .info
          (List.replicate 2000 'y') = some s
      ∧ s.visible = message .info (List.replicate 2000 'y')
      ∧ KeepsMost (message .info (List.replicate 3000 'x')
        ++ message .info (List.replicate 2000 'y')) s.visible := by
  have hops : ∀ op ∈ [Op.log .info (List.replicate 3000 'x')], op.Ascii := by
    intro op hop
    rw [List.mem_singleton.mp hop]
    exact isAscii_replicate 3000 rfl
  obtain ⟨s, hs, hiff⟩ := newest_kept_iff [.log .info (List.replicate 3000 'x')] hops .info rfl
    (List.replicate 2000 'y') (isAscii_replicate 2000 rfl)
  have htext : ∀ args, byteLength args ≤ 3990 →
      (logger.run .new [.log .info args]).1.text = message .info args := by
    intro args hfits
    have hle : byteLength (message .info args) ≤ 4000 := by
      rw [byteLength_message]
      omega
    show ((Logger.new.log .info args).getD .new).text = _
    have hnew : Logger.new.text ++ message .info args = message .info args := rfl
    rw [log_eq .new rfl, hnew, truncate_of_le hle]
    rfl
  have hfirst := htext (List.replicate 3000 'x') (by
    rw [byteLength_replicate]
    decide)
  -- the last 4000 bytes begin behind 1011 characters of the first line
  have hsplit : message .info (List.replicate 3000 'x') ++ message .info (List.replicate 2000 'y')
      = ("[INFO ]: ".toList ++ List.replicate 1011 'x')
        ++ (List.replicate 1989 'x' ++ '\n' :: message .info (List.replicate 2000 'y')) :=
    message_replicate 1011 1989 'x' _
  have hback : byteLength (List.replicate 1989 'x' ++ '\n' :: message .info
      (List.replicate 2000 'y')) = 4000 := by
    rw [byteLength_append, byteLength_cons, byteLength_message, byteLength_replicate,
      byteLength_replicate]
    decide
  have hstart : '\n' ∉ "[INFO ]: ".toList ++ List.replicate 1011 'x' := by
    rw [List.mem_append, not_or]
    exact ⟨by decide, newline_notMem_replicate 1011⟩
  have hfront : "[INFO ]: ".toList ++ List.replicate 1011 'x' ≠ [] :=
    List.append_ne_nil_of_left_ne_nil (by decide) _
  have hsecond : message .info (List.replicate 2000 'y') ≠ [] := by
    intro h
    have hzero := byteLength_message .info (List.replicate 2000 'y')
    rw [h, byteLength_nil] at hzero
    omega
  obtain ⟨htruncate, hcuts⟩ :=
    truncate_earlier hfront hstart (newline_notMem_replicate 1989) hsecond hback
  rw [← hsplit] at htruncate hcuts
  rw [hfirst] at hiff
  refine ⟨s, hs, ?_, hiff.mpr hcuts⟩
  rw [log_eq _ rfl, hfirst, htruncate, Option.map_some, Option.some.injEq] at hs
  rw [← hs, visible_withText]

/-- **A long line vanishes.**  The only newline among the last 4000 bytes is the last of them, and
nothing is left behind it. -/
theorem long_line_vanishes :
    Logger.new.log .info (List.replicate 4000 'x') = some ⟨none, some []⟩
      ∧ ¬ KeepsMost (message .info (List.replicate 4000 'x')) [] := by
  have hmessage : ∀ n, message .info (List.replicate (n + 1) 'x')
      = "[INFO ]: x".toList ++ (List.replicate n 'x' ++ '\n' :: []) := fun _ => rfl
  have hsplit := hmessage 3999
  have hlength : byteLength (List.replicate 3999 'x' ++ '\n' :: []) = 4000 := by
    rw [byteLength_append, byteLength_replicate]
    decide
  have hline := newline_notMem_replicate 3999
  have htruncate : truncate (message .info (List.replicate 4000 'x')) = some [] := by
    rw [hsplit]
    exact truncate_line (by decide) hlength hline
  have htext : Logger.new.text = [] := rfl
  constructor
  · rw [log_eq .new rfl, htext, List.nil_append, htruncate]
    rfl
  · intro hkeeps
    have hempty := (hkeeps.lastLine _ (lineEnd_self _)
      (by
        rw [hsplit, ← List.append_assoc, List.dropLast_concat, List.mem_append, not_or]
        exact ⟨by decide, hline⟩)
      (by
        rw [hsplit, byteLength_append, hlength]
        decide)).2
    rw [byteLength_nil] at hempty
    cases hempty

end WebUiBoot.Log
