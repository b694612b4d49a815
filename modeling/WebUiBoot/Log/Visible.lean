import WebUiBoot.Log.Boundary

/-!
# What the log shows

As long as logging returns, the text in the window, or in the buffer while there is no window, is
an end of all that was logged, in whole lines.

* `LineEnd` — an end of a text that begins a line;
* `Recent` — the invariant: what is shown, with what still waits, is the end of the history;
* `next_recent` — every operation keeps it;
* `visible_log_recent` — any sequence of operations that return.
-/

namespace WebUiBoot.Log

open WebUiBoot.Text WebUiBoot.Trace

/-- The log text: that of the window, or the buffer. -/
def Logger.visible (s : Logger) : Str :=
  match s.window with
  | some logText => logText
  | none => s.pending.getD []

/-- A text is the end of another one, and begins a line of it. -/
def LineEnd (t back : Str) : Prop :=
  ∃ front, t = front ++ back ∧ (front = [] ∨ front.getLast? = some '\n')

/-- The history consists of whole lines; the logger's text is the end of it, in whole lines and of
4000 bytes at most; and logs wait behind an empty window only. -/
structure Recent (history : Str) (s : Logger) : Prop where
  lines : history = [] ∨ history.getLast? = some '\n'
  lineEnd : LineEnd history s.text
  length : byteLength s.text ≤ 4000
  waiting : ∀ logText pending, s.window = some logText → s.pending = some pending → logText = []

variable {history : Str} {s : Logger}

/-! ### Ends of a text -/

theorem lineEnd_self (t : Str) : LineEnd t t := ⟨[], rfl, Or.inl rfl⟩

theorem lineEnd_nil (h : history = [] ∨ history.getLast? = some '\n') : LineEnd history [] :=
  ⟨history, (List.append_nil history).symm, h⟩

theorem LineEnd.append {t back : Str} (h : LineEnd t back) (more : Str) :
    LineEnd (t ++ more) (back ++ more) := by
  obtain ⟨front, rfl, hfront⟩ := h
  exact ⟨front, List.append_assoc front back more, hfront⟩

theorem LineEnd.trans {t back back' : Str} (h : LineEnd t back) (h' : LineEnd back back') :
    LineEnd t back' := by
  obtain ⟨front, rfl, hfront⟩ := h
  obtain ⟨front', rfl, hfront'⟩ := h'
  refine ⟨front ++ front', (List.append_assoc front front' back').symm, ?_⟩
  rcases hfront' with rfl | hlast
  · rw [List.append_nil]
    exact hfront
  · rw [List.getLast?_append, hlast]
    exact Or.inr rfl

theorem getLast?_message (t : Str) (level : Level) (args : Str) :
    (t ++ message level args).getLast? = some '\n' := by
  unfold message
  rw [← List.append_assoc]
  exact List.getLast?_concat

/-- A text of lines that is too long: its last 4000 bytes hold a newline, and the cut is behind
the first one. -/
theorem truncate_long {t text : Str} (hlast : t.getLast? = some '\n')
    (h : truncate t = some text) (hlong : ¬ byteLength t ≤ 4000) :
    ∃ front line, t = front ++ (line ++ '\n' :: text) ∧ front ≠ [] ∧ '\n' ∉ line
      ∧ byteLength (line ++ '\n' :: text) = 4000 := by
  have haligned := (truncate_ne_none_iff t).mp (by rw [h]; exact Option.some_ne_none text)
  obtain ⟨front, back, rfl, hback⟩ := haligned.resolve_left hlong
  have hfront : front ≠ [] := by
    rintro rfl
    rw [List.nil_append, hback] at hlong
    exact hlong (Nat.le_refl 4000)
  have hne : back ≠ [] := by
    rintro rfl
    cases hback
  rw [List.getLast?_append_of_ne_nil front hne] at hlast
  obtain ⟨line, rest, rfl, hline⟩ := exists_line (List.mem_of_getLast? hlast)
  rw [truncate_line hfront hback hline, Option.some.injEq] at h
  subst h
  exact ⟨front, line, rfl, hfront, hline, hback⟩

/-- **The cut.**  A text that ends with a newline is cut to an end of it that begins a line. -/
theorem lineEnd_truncate {t text : Str} (hlast : t.getLast? = some '\n')
    (h : truncate t = some text) : LineEnd t text ∧ byteLength text ≤ 4000 := by
  by_cases hle : byteLength t ≤ 4000
  · rw [truncate_of_le hle, Option.some.injEq] at h
    subst h
    exact ⟨lineEnd_self t, hle⟩
  · obtain ⟨front, line, rfl, _, _, hback⟩ := truncate_long hlast h hle
    constructor
    · refine ⟨front ++ line ++ ['\n'], by simp, Or.inr ?_⟩
      exact List.getLast?_concat
    · rw [byteLength_append, byteLength_cons] at hback
      omega

/-! ### Operations -/

/-- What is shown is the logger's text, or nothing. -/
theorem Recent.visible (h : Recent history s) :
    LineEnd history s.visible ∧ byteLength s.visible ≤ 4000 := by
  have htext := h.lineEnd
  have hlength := h.length
  unfold Logger.visible
  unfold Logger.text at htext hlength
  cases hwindow : s.window with
  | none =>
      rw [hwindow] at htext hlength
      exact ⟨htext, hlength⟩
  | some logText =>
      rw [hwindow] at htext hlength
      cases hpending : s.pending with
      | none =>
          rw [hpending, Option.getD_none, List.append_nil] at htext hlength
          exact ⟨htext, hlength⟩
      | some pending =>
          rw [h.waiting logText pending hwindow hpending]
          exact ⟨lineEnd_nil h.lines, Nat.zero_le 4000⟩

theorem Recent.log (h : Recent history s) {level : Level} {args : Str} {s' : Logger}
    (hnext : s.log level args = some s') :
    Recent (history ++ (Op.log level args).messages.flatten) s' := by
  by_cases henabled : level.enabled = true
  · have hmessages : (Op.log level args).messages.flatten = message level args := by
      show (if level.enabled = true then [message level args] else []).flatten = _
      rw [if_pos henabled]
      exact List.append_nil _
    rw [log_eq s henabled] at hnext
    obtain ⟨text, htruncate, hs'⟩ := Option.map_eq_some_iff.mp hnext
    obtain ⟨hend, hlength⟩ := lineEnd_truncate (getLast?_message s.text level args) htruncate
    have hhistory : LineEnd (history ++ message level args) text :=
      (h.lineEnd.append (message level args)).trans hend
    have htext : s'.text = text := by
      rw [← hs']
      unfold Logger.withText
      cases s.window with
      | none => rfl
      | some logText => exact List.append_nil text
    rw [hmessages]
    refine ⟨Or.inr (getLast?_message history level args), ?_, ?_, ?_⟩
    · rw [htext]
      exact hhistory
    · rw [htext]
      exact hlength
    · intro logText pending hwindow hpending
      rw [← hs'] at hwindow hpending
      unfold Logger.withText at hwindow hpending
      cases hw : s.window with
      | none =>
          rw [hw] at hwindow
          cases hwindow
      | some logText' =>
          rw [hw] at hpending
          cases hpending
  · have hmessages : (Op.log level args).messages.flatten = [] := by
      show (if level.enabled = true then [message level args] else []).flatten = _
      rw [if_neg henabled]
      rfl
    rw [Bool.not_eq_true] at henabled
    unfold Logger.log at hnext
    rw [henabled] at hnext
    cases hnext
    rw [hmessages, List.append_nil]
    exact h

/-- A new window shows what waited, or nothing as long as that is not handed over. -/
theorem Recent.openWindow (h : Recent history s) (handOver : Bool) :
    Recent history (s.openWindow handOver) := by
  have hwaits : LineEnd history (s.pending.getD []) ∧ byteLength (s.pending.getD []) ≤ 4000 := by
    cases hpending : s.pending with
    | none => exact ⟨lineEnd_nil h.lines, Nat.zero_le 4000⟩
    | some pending =>
        have htext := h.lineEnd
        have hlength := h.length
        unfold Logger.text at htext hlength
        rw [hpending] at htext hlength
        cases hwindow : s.window with
        | none =>
            rw [hwindow] at htext hlength
            exact ⟨htext, hlength⟩
        | some logText =>
            rw [hwindow, h.waiting logText pending hwindow hpending] at htext hlength
            exact ⟨htext, hlength⟩
  have htext : (s.openWindow handOver).text = s.pending.getD [] := by
    unfold Logger.openWindow Logger.text
    cases handOver with
    | false => rfl
    | true =>
        cases s.pending with
        | none => rfl
        | some pending => exact List.append_nil pending
  refine ⟨h.lines, ?_, ?_, ?_⟩
  · rw [htext]
    exact hwaits.1
  · rw [htext]
    exact hwaits.2
  · intro logText pending hwindow hpending
    unfold Logger.openWindow at hwindow hpending
    cases handOver with
    | false =>
        cases hwindow
        rfl
    | true =>
        cases hp : s.pending with
        | none =>
            rw [hp] at hpending
            cases hpending
        | some pending' =>
            rw [hp] at hpending
            cases hpending

theorem Recent.closeWindow (h : Recent history s) : Recent history s.closeWindow := by
  have hopened := h.openWindow false
  refine ⟨h.lines, hopened.lineEnd, hopened.length, ?_⟩
  intro logText pending hwindow
  cases hwindow

/-- **One operation.** -/
theorem next_recent (h : Recent history s) {op : Op} {s' : Logger} (hnext : s.next op = some s') :
    Recent (history ++ op.messages.flatten) s' := by
  cases op with
  | log level args => exact h.log hnext
  | openWindow handOver =>
      cases hnext
      show Recent (history ++ []) _
      rw [List.append_nil]
      exact h.openWindow handOver
  | closeWindow =>
      cases hnext
      show Recent (history ++ []) _
      rw [List.append_nil]
      exact h.closeWindow

/-- **Any number of operations that return.** -/
theorem logger_recent {ops : List Op} (h : logger.Along NoPanic .new ops) :
    Recent (logger.run .new ops).2.flatten (logger.run .new ops).1 := by
  have hnew : Recent ([] : List Str).flatten .new := by
    refine ⟨Or.inl rfl, lineEnd_self [], Nat.zero_le 4000, ?_⟩
    intro logText pending hwindow
    cases hwindow
  refine logger.run_invariant_along (I := fun messages s => Recent messages.flatten s)
    (P := NoPanic) ?_ hnew h
  intro messages s op hrecent hreturns
  obtain ⟨s', hs'⟩ := Option.ne_none_iff_exists'.mp hreturns
  show Recent (messages ++ op.messages).flatten ((s.next op).getD s)
  rw [List.flatten_append, hs']
  exact next_recent hrecent hs'

/-- **The visible log.**  After any sequence of operations that return, with the window coming,
handed over to or not, and going at any time: the log text is an end of the concatenation of all
messages so far, begins a line of it, and has at most 4000 bytes. -/
theorem visible_log_recent (ops : List Op) (h : logger.Along NoPanic .new ops) :
    LineEnd (logger.run .new ops).2.flatten (logger.run .new ops).1.visible
      ∧ byteLength (logger.run .new ops).1.visible ≤ 4000 :=
  (logger_recent h).visible

/-- A window that comes after a long message and goes after another one, with which the text is
longer than 4000 bytes. -/
theorem visible_log_recent_window :
    LineEnd (logger.run .new [.log .info (List.replicate 3980 'x'), .openWindow true,
        .log .warn (List.replicate 20 'y'), .closeWindow, .log .error "c".toList]).2.flatten
        (logger.run .new [.log .info (List.replicate 3980 'x'), .openWindow true,
          .log .warn (List.replicate 20 'y'), .closeWindow, .log .error "c".toList]).1.visible
      ∧ byteLength (logger.run .new [.log .info (List.replicate 3980 'x'), .openWindow true,
        .log .warn (List.replicate 20 'y'), .closeWindow, .log .error "c".toList]).1.visible
        ≤ 4000 := by
  apply visible_log_recent
  refine (ascii_run (fun op hop => ?_) .new ⟨isAscii_nil, isAscii_nil⟩).1
  simp only [List.mem_cons, List.not_mem_nil, or_false] at hop
  rcases hop with rfl | rfl | rfl | rfl | rfl
  · exact isAscii_replicate 3980 rfl
  · trivial
  · exact isAscii_replicate 20 rfl
  · trivial
  · exact isAscii_of_all (by decide)

end WebUiBoot.Log
