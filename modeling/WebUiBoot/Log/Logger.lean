import WebUiBoot.Lib.Slice
import WebUiBoot.Lib.Trace

/-!
# The logger: model

`SlintLogger::log` of `src/main.rs`: messages are appended to the text of the window, or to a
buffer while there is no window, and the text is cut down to the last 4000 bytes.

* `Logger` — the window's text, and `PENDING_LOGS`;
* `truncate` — the cut; `none` is a panic;
* `Op` — a call of `log`, and the window's coming and going;
* `logger` — the machine; it emits the messages.
-/

namespace WebUiBoot.Log

open WebUiBoot.Text WebUiBoot.Trace

inductive Level
  | error
  | warn
  | info
  | debug
  | trace
  deriving DecidableEq

/-- `level.as_str()`, padded to five characters. -/
def Level.name : Level → Str
  | .error => "ERROR".toList
  | .warn => "WARN ".toList
  | .info => "INFO ".toList
  | .debug => "DEBUG".toList
  | .trace => "TRACE".toList

/-- `metadata.level() <= Level::Info`. -/
def Level.enabled : Level → Bool
  | .error | .warn | .info => true
  | .debug | .trace => false

def message (level : Level) (args : Str) : Str :=
  "[".toList ++ level.name ++ "]: ".toList ++ args ++ "\n".toList

/-- The text of the window, while there is one, and the logs that wait for a window. -/
structure Logger where
  window : Option Str
  pending : Option Str

def Logger.new : Logger := ⟨none, none⟩

/-- From the comparison of the length with 4000 on. -/
def truncate (logs : Str) : Option Str :=
  if 4000 < byteLength logs then
    let drainIndex := byteLength logs - 4000
    match sliceFrom drainIndex logs with
    | none => none
    | some rest =>
        match findByte '\n' rest with
        | some nextNl => sliceFrom (drainIndex + nextNl + 1) logs
        | none => sliceFrom drainIndex logs
  else some logs

/-- The text to which a message is appended. -/
def Logger.text (s : Logger) : Str := s.window.getD [] ++ s.pending.getD []

/-- `SlintLogger::log`. -/
def Logger.log (s : Logger) (level : Level) (args : Str) : Option Logger :=
  if !level.enabled then some s
  else
    match s.window with
    | some logText =>
        (truncate (logText ++ s.pending.getD [] ++ message level args)).map fun t =>
          ⟨some t, none⟩
    | none =>
        (truncate (s.pending.getD [] ++ message level args)).map fun t => ⟨none, some t⟩

/-- A new window, without a text at first; `handOver` is what `efi_main` does with the logs that
wait. -/
def Logger.openWindow (s : Logger) (handOver : Bool) : Logger :=
  if handOver then
    match s.pending with
    | some pending => ⟨some pending, none⟩
    | none => ⟨some [], none⟩
  else ⟨some [], s.pending⟩

/-- The window is gone, and its text with it. -/
def Logger.closeWindow (s : Logger) : Logger := { s with window := none }

inductive Op
  | log (level : Level) (args : Str)
  | openWindow (handOver : Bool)
  | closeWindow

/-- One operation; `none` when it panics. -/
def Logger.next (s : Logger) : Op → Option Logger
  | .log level args => s.log level args
  | .openWindow handOver => some (s.openWindow handOver)
  | .closeWindow => some s.closeWindow

/-- The message that an operation logs. -/
def Op.messages : Op → List Str
  | .log level args => if level.enabled then [message level args] else []
  | _ => []

/-- The logger, an operation to a step.  A step that panics leaves the state alone. -/
def logger : Machine Logger Op Str := ⟨fun s op => ((s.next op).getD s, op.messages)⟩

/-- The level is padded, so that each message is longer than its text by the same. -/
theorem byteLength_message (level : Level) (args : Str) :
    byteLength (message level args) = byteLength args + 10 := by
  have hname : byteLength level.name = 5 := by
    cases level <;> rfl
  have hopen : byteLength "[".toList = 1 := rfl
  have hclose : byteLength "]: ".toList = 3 := rfl
  have hnewline : byteLength "\n".toList = 1 := rfl
  simp only [message, byteLength_append, hname, hopen, hclose, hnewline]
  omega

/-! ### The cut -/

/-- The last 4000 bytes begin with a character. -/
def Aligned (t : Str) : Prop :=
  byteLength t ≤ 4000 ∨ ∃ front back, t = front ++ back ∧ byteLength back = 4000

theorem truncate_of_le {t : Str} (h : byteLength t ≤ 4000) : truncate t = some t :=
  if_neg (by omega)

/-- The cut of a longer text, by where there is a newline in its last 4000 bytes. -/
theorem truncate_back {front back : Str} (hfront : front ≠ []) (hlength : byteLength back = 4000) :
    truncate (front ++ back)
      = match findByte '\n' back with
        | some pos => sliceFrom (byteLength front + pos + 1) (front ++ back)
        | none => some back := by
  have hpos : 0 < byteLength front := by
    rw [Nat.pos_iff_ne_zero]
    exact fun h => hfront (byteLength_eq_zero.mp h)
  have hlong : 4000 < byteLength (front ++ back) := by
    rw [byteLength_append, hlength]
    omega
  have hdrain : byteLength (front ++ back) - 4000 = byteLength front := by
    rw [byteLength_append, hlength]
    omega
  unfold truncate
  rw [if_pos hlong, hdrain]
  dsimp only
  rw [sliceFrom_append]

/-- A longer text is cut behind the first newline among its last 4000 bytes. -/
theorem truncate_line {front line rest : Str} (hfront : front ≠ [])
    (hlength : byteLength (line ++ '\n' :: rest) = 4000) (hline : '\n' ∉ line) :
    truncate (front ++ (line ++ '\n' :: rest)) = some rest := by
  rw [truncate_back hfront hlength, findByte_append hline]
  show sliceFrom (byteLength front + byteLength line + 1) (front ++ (line ++ '\n' :: rest))
    = some rest
  rw [sliceFrom_eq_some]
  refine ⟨front ++ line ++ ['\n'], by simp, ?_⟩
  rw [byteLength_append, byteLength_append]
  rfl

theorem truncate_no_newline {front back : Str} (hfront : front ≠ [])
    (hlength : byteLength back = 4000) (hback : '\n' ∉ back) :
    truncate (front ++ back) = some back := by
  rw [truncate_back hfront hlength, findByte_eq_none.mpr hback]

/-- A text with a newline in it, up to the first one. -/
theorem exists_line {t : Str} (h : '\n' ∈ t) :
    ∃ line rest, t = line ++ '\n' :: rest ∧ '\n' ∉ line := by
  obtain ⟨line, rest, ht, hline⟩ := List.eq_append_cons_of_mem h
  exact ⟨line, rest, ht, hline⟩

/-- **The cut panics exactly when it falls into a character.** -/
theorem truncate_ne_none_iff (t : Str) : truncate t ≠ none ↔ Aligned t := by
  by_cases hle : byteLength t ≤ 4000
  · rw [truncate_of_le hle]
    exact iff_of_true (Option.some_ne_none t) (Or.inl hle)
  · constructor
    · intro h
      cases hslice : sliceFrom (byteLength t - 4000) t with
      | none =>
          refine absurd ?_ h
          unfold truncate
          rw [if_pos (by omega)]
          dsimp only
          rw [hslice]
      | some back =>
          obtain ⟨front, ht, hfront⟩ := sliceFrom_eq_some.mp hslice
          refine Or.inr ⟨front, back, ht, ?_⟩
          have htotal := congrArg byteLength ht
          rw [byteLength_append] at htotal
          omega
    · intro h
      obtain ⟨front, back, rfl, hback⟩ := h.resolve_left hle
      have hfront : front ≠ [] := by
        rintro rfl
        rw [List.nil_append, hback] at hle
        exact hle (Nat.le_refl 4000)
      by_cases hnewline : '\n' ∈ back
      · obtain ⟨line, rest, rfl, hline⟩ := exists_line hnewline
        rw [truncate_line hfront hback hline]
        exact Option.some_ne_none rest
      · rw [truncate_no_newline hfront hback hnewline]
        exact Option.some_ne_none back

end WebUiBoot.Log
