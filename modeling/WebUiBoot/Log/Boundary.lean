import WebUiBoot.Log.Logger

/-!
# When logging panics

* `NoPanic` / `CutsAtCharacter` — an operation returns, and the condition for it;
* `log_returns_iff` — over any sequence of operations;
* `accented_message_panics` — a message of which the cut falls into a character;
* `ascii_run` — messages in ASCII never panic.
-/

namespace WebUiBoot.Log

open WebUiBoot.Text WebUiBoot.Trace

def NoPanic (s : Logger) (op : Op) : Prop := s.next op ≠ none

/-- The text with the message is no longer than 4000 bytes, or its last 4000 bytes begin with a
character. -/
def CutsAtCharacter (s : Logger) : Op → Prop
  | .log level args => level.enabled = true → Aligned (s.text ++ message level args)
  | _ => True

/-- The text goes to the window, if there is one. -/
def Logger.withText (s : Logger) (t : Str) : Logger :=
  match s.window with
  | some _ => ⟨some t, none⟩
  | none => ⟨none, some t⟩

theorem log_eq (s : Logger) {level : Level} (h : level.enabled = true) (args : Str) :
    s.log level args = (truncate (s.text ++ message level args)).map s.withText := by
  unfold Logger.log Logger.text Logger.withText
  rw [h]
  cases s.window with
  | none => rfl
  | some logText => rfl

/-- **One operation.** -/
theorem noPanic_iff (s : Logger) (op : Op) : NoPanic s op ↔ CutsAtCharacter s op := by
  cases op with
  | log level args =>
      show s.log level args ≠ none ↔ (level.enabled = true → _)
      by_cases h : level.enabled = true
      · rw [log_eq s h, ne_eq, Option.map_eq_none_iff]
        show truncate _ ≠ none ↔ _
        rw [truncate_ne_none_iff]
        constructor
        · intro haligned _
          exact haligned
        · intro haligned
          exact haligned h
      · rw [Bool.not_eq_true] at h
        unfold Logger.log
        rw [h]
        apply iff_of_true
        · exact Option.some_ne_none s
        · intro henabled
          cases henabled
  | openWindow handOver => exact iff_of_true (Option.some_ne_none _) trivial
  | closeWindow => exact iff_of_true (Option.some_ne_none _) trivial

/-- **When logging returns.**  In any sequence of messages, with the window coming and going: every
call returns if and only if at every call the last 4000 bytes of the text with the message begin
with a character, when it is longer than that. -/
theorem log_returns_iff (ops : List Op) :
    logger.Along NoPanic .new ops ↔ logger.Along CutsAtCharacter .new ops :=
  logger.along_congr noPanic_iff ops .new

/-- **A message that panics.**  It has 4010 bytes, and the tenth byte of it is in the middle of a
character. -/
theorem accented_message_panics :
    Logger.new.log .info (List.replicate 2000 'é') = none
      ∧ ¬ logger.Along NoPanic .new [.log .info (List.replicate 2000 'é')] := by
  have hlength : byteLength (message .info (List.replicate 2000 'é')) = 4010 := by
    unfold message
    rw [byteLength_append, byteLength_append, byteLength_replicate]
    decide
  have hslice : sliceFrom 10 (message .info (List.replicate 2000 'é')) = none := by
    rw [List.replicate_succ]
    rfl
  have hpanics : Logger.new.log .info (List.replicate 2000 'é') = none := by
    have htext : Logger.new.text = [] := rfl
    rw [log_eq .new rfl, Option.map_eq_none_iff, htext, List.nil_append]
    unfold truncate
    rw [hlength, if_pos (by decide)]
    dsimp only
    rw [hslice]
  exact ⟨hpanics, fun h => h.1 hpanics⟩

/-! ### Messages in ASCII -/

def IsAscii (t : Str) : Prop := ∀ c ∈ t, c.utf8Size = 1

theorem isAscii_of_all {t : Str} (h : t.all (·.utf8Size == 1) = true) : IsAscii t :=
  fun c hc => eq_of_beq (List.all_eq_true.mp h c hc)

theorem isAscii_replicate (n : ℕ) {c : Char} (hc : c.utf8Size = 1) :
    IsAscii (List.replicate n c) := by
  intro d hd
  rw [List.eq_of_mem_replicate hd]
  exact hc

/-- A message in ASCII, if it is one. -/
def Op.Ascii : Op → Prop
  | .log _ args => IsAscii args
  | _ => True

theorem byteLength_of_isAscii {t : Str} (h : IsAscii t) : byteLength t = t.length := by
  induction t with
  | nil => rfl
  | cons c t ih =>
      rw [byteLength_cons, h c List.mem_cons_self, ih fun d hd => h d (List.mem_cons_of_mem c hd),
        List.length_cons]
      omega

theorem IsAscii.append {t t' : Str} (h : IsAscii t) (h' : IsAscii t') : IsAscii (t ++ t') := by
  intro c hc
  exact (List.mem_append.mp hc).elim (h c) (h' c)

theorem isAscii_message (level : Level) {args : Str} (h : IsAscii args) :
    IsAscii (message level args) := by
  have hname : IsAscii level.name := by
    cases level <;> exact isAscii_of_all (by decide)
  have hopen : IsAscii "[".toList := isAscii_of_all (by decide)
  have hclose : IsAscii "]: ".toList := isAscii_of_all (by decide)
  have hnewline : IsAscii "\n".toList := isAscii_of_all (by decide)
  exact (((hopen.append hname).append hclose).append h).append hnewline

theorem aligned_of_isAscii {t : Str} (h : IsAscii t) : Aligned t := by
  by_cases hle : byteLength t ≤ 4000
  · exact Or.inl hle
  · refine Or.inr ⟨t.take (t.length - 4000), t.drop (t.length - 4000),
      (List.take_append_drop _ t).symm, ?_⟩
    rw [byteLength_of_isAscii h] at hle
    rw [byteLength_of_isAscii fun c hc => h c (List.mem_of_mem_drop hc), List.length_drop]
    omega

theorem suffix_of_truncate {t text : Str} (h : truncate t = some text) : text <:+ t := by
  have hslice : ∀ {i : ℕ}, sliceFrom i t = some text → text <:+ t := by
    intro i hi
    obtain ⟨front, ht, _⟩ := sliceFrom_eq_some.mp hi
    exact ⟨front, ht.symm⟩
  unfold truncate at h
  split at h
  · dsimp only at h
    split at h
    · cases h
    · split at h
      · exact hslice h
      · exact hslice h
  · cases h
    exact List.suffix_rfl

/-- The text of the window and the logs that wait are in ASCII. -/
def Logger.Ascii (s : Logger) : Prop :=
  IsAscii (s.window.getD []) ∧ IsAscii (s.pending.getD [])

theorem isAscii_nil : IsAscii [] := fun _ hc => absurd hc List.not_mem_nil

theorem Logger.Ascii.logged {s : Logger} (h : s.Ascii) (level : Level) {args : Str}
    (hargs : IsAscii args) : IsAscii (s.text ++ message level args) :=
  (h.1.append h.2).append (isAscii_message level hargs)

theorem Logger.Ascii.noPanic {s : Logger} (h : s.Ascii) {op : Op} (hop : op.Ascii) :
    NoPanic s op := by
  rw [noPanic_iff]
  cases op with
  | log level args =>
      intro _
      exact aligned_of_isAscii (h.logged level hop)
  | openWindow handOver => trivial
  | closeWindow => trivial

/-- One operation that does not panic. -/
theorem Logger.Ascii.next {s s' : Logger} (h : s.Ascii) {op : Op} (hop : op.Ascii)
    (hs' : s.next op = some s') : s'.Ascii := by
  cases op with
  | log level args =>
      change s.log level args = some s' at hs'
      by_cases henabled : level.enabled = true
      · rw [log_eq s henabled] at hs'
        obtain ⟨text, htruncate, hs'⟩ := Option.map_eq_some_iff.mp hs'
        have htext : IsAscii text := by
          intro c hc
          exact h.logged level hop c ((suffix_of_truncate htruncate).subset hc)
        rw [← hs']
        unfold Logger.withText
        cases s.window with
        | none => exact ⟨isAscii_nil, htext⟩
        | some logText => exact ⟨htext, isAscii_nil⟩
      · rw [Bool.not_eq_true] at henabled
        unfold Logger.log at hs'
        rw [henabled] at hs'
        cases hs'
        exact h
  | openWindow handOver =>
      cases hs'
      unfold Logger.openWindow
      cases handOver with
      | false => exact ⟨isAscii_nil, h.2⟩
      | true =>
          cases hp : s.pending with
          | none => exact ⟨isAscii_nil, isAscii_nil⟩
          | some pending =>
              have hpending := h.2
              rw [hp] at hpending
              exact ⟨hpending, isAscii_nil⟩
  | closeWindow =>
      cases hs'
      exact ⟨isAscii_nil, h.2⟩

/-- **ASCII messages never panic**, and leave an ASCII text. -/
theorem ascii_run {ops : List Op} (hops : ∀ op ∈ ops, op.Ascii) : ∀ s : Logger, s.Ascii →
    logger.Along NoPanic s ops ∧ (logger.run s ops).1.Ascii := by
  induction ops with
  | nil => exact fun s h => ⟨trivial, h⟩
  | cons op ops ih =>
      intro s h
      have hop := hops op List.mem_cons_self
      have hreturns := h.noPanic hop
      have hnext : (logger.step s op).1.Ascii := by
        obtain ⟨s', hs'⟩ := Option.ne_none_iff_exists'.mp hreturns
        show ((s.next op).getD s).Ascii
        rw [hs']
        exact h.next hop hs'
      obtain ⟨halong, hrun⟩ :=
        ih (fun op' hop' => hops op' (List.mem_cons_of_mem op hop')) (logger.step s op).1 hnext
      exact ⟨⟨hreturns, halong⟩, hrun⟩

end WebUiBoot.Log
