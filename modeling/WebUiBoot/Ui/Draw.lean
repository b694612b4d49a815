import WebUiBoot.Log.Logger

/-!
# Drawing from inside of drawing

`force_flush_logs` and the drawing of `run_slint_ui` in `src/slint_plat.rs`.  Both hand a closure to
`draw_if_needed`; while a closure is active, rendering may log, and a log message for the window
ends in `force_flush_logs`.  `IN_FLUSH` keeps that function from entering itself.

* `Screen` — the statics, and the active closures, innermost first;
* `drawIfNeeded` / `forceFlushLogs` / `Screen.log` — what enters a closure, `finish` — what leaves
  it;
* `screen` — any interleaving of them;
* `screen_nested` — in every state at most two closures are active, and `IN_FLUSH` is set exactly
  while one of them is that of `force_flush_logs`;
* `drawing_not_reentered_iff` — there are never two exactly when no log message is flushed from the
  closure of `run_slint_ui`.

A call is a step up to the closure that it enters, and the rest of the call belongs to the step that
leaves the closure.
-/

namespace WebUiBoot.Ui

open WebUiBoot.Text WebUiBoot.Log WebUiBoot.Trace

/-! ### Model -/

/-- Which function has handed over the closure. -/
inductive Closure
  | runSlintUi
  | forceFlushLogs
  deriving DecidableEq, Repr

/-- The statics that `run_event_loop` sets. -/
structure Globals where
  /-- `GLOBAL_WINDOW`, and whether its `upgrade` succeeds. -/
  window : Option Bool
  /-- Whether `GLOBAL_GOP` is set. -/
  gop : Bool
  /-- Whether `GLOBAL_FB` is set. -/
  fb : Bool

structure Screen where
  /-- `APP_WINDOW` with its text, and `PENDING_LOGS`. -/
  logger : Logger
  globals : Globals
  inFlush : Bool
  /-- A redraw was requested and has not begun. -/
  redrawRequested : Bool
  active : List Closure

def Screen.new : Screen := ⟨.new, ⟨none, false, false⟩, false, false, []⟩

def requestRedraw (s : Screen) : Screen := { s with redrawRequested := true }

/-- The rest of a function after its `draw_if_needed`. -/
def afterDraw (s : Screen) : Closure → Screen
  | .runSlintUi => s
  | .forceFlushLogs => { s with inFlush := false }

/-- `draw_if_needed`: the closure is entered if a redraw was requested. -/
def drawIfNeeded (s : Screen) (closure : Closure) : Screen :=
  if s.redrawRequested then { s with redrawRequested := false, active := closure :: s.active }
  else afterDraw s closure

def forceFlushLogs (s : Screen) : Screen :=
  if s.inFlush then s
  else
    let s := { s with inFlush := true }
    match s.globals.window with
    | none => { s with inFlush := false }
    | some false => { s with inFlush := false }
    | some true =>
        if !s.globals.gop then { s with inFlush := false }
        else if !s.globals.fb then { s with inFlush := false }
        else drawIfNeeded (requestRedraw s) .forceFlushLogs

/-- `SlintLogger::log`, with the flush of a message that went to the window.  A message that
panics leaves the state alone. -/
def Screen.log (s : Screen) (level : Level) (args : Str) : Screen :=
  match s.logger.log level args with
  | none => s
  | some logger =>
      let s' := { s with logger := logger }
      if level.enabled && s.logger.window.isSome then forceFlushLogs s' else s'

/-- The end of the innermost closure, and the rest of the function that has handed it over. -/
def finish (s : Screen) : Screen :=
  match s.active with
  | [] => s
  | closure :: active => afterDraw { s with active := active } closure

inductive Step
  /-- A log message, from wherever the program is. -/
  | log (level : Level) (args : Str)
  /-- A call of `force_flush_logs` by the boot code. -/
  | forceFlushLogs
  /-- An iteration of `run_slint_ui` comes to its `draw_if_needed`. -/
  | iterate
  /-- A moved mouse, an animation or a changed property. -/
  | requestRedraw
  | finish
  /-- `APP_WINDOW` is set by `efi_main`, or its window goes away. -/
  | openWindow (handOver : Bool)
  | closeWindow
  /-- The statics are set by `run_event_loop`, or the window in them goes away. -/
  | setGlobals (globals : Globals)

/-- Any interleaving.  The executor runs in no closure, so an iteration of `run_slint_ui` comes to
drawing only where none is active. -/
def screen : Machine Screen Step Unit where
  step s i :=
    (match i with
      | .log level args => s.log level args
      | .forceFlushLogs => forceFlushLogs s
      | .iterate => if s.active = [] then drawIfNeeded s .runSlintUi else s
      | .requestRedraw => requestRedraw s
      | .finish => finish s
      | .openWindow handOver => { s with logger := s.logger.openWindow handOver }
      | .closeWindow => { s with logger := s.logger.closeWindow }
      | .setGlobals globals => { s with globals := globals }, [])

/-! ### What is entered, and when -/

/-- Nothing keeps `force_flush_logs` from drawing. -/
def Globals.Ready (g : Globals) : Prop := g.window = some true ∧ g.gop = true ∧ g.fb = true

/-- The step calls `force_flush_logs`. -/
def CallsFlush (s : Screen) : Step → Prop
  | .log level args => level.enabled = true ∧ s.logger.window.isSome = true
      ∧ s.logger.log level args ≠ none
  | .forceFlushLogs => True
  | _ => False

/-- All six exits of `force_flush_logs`: it enters its closure, or changes nothing. -/
theorem forceFlushLogs_cases (s : Screen) :
    (s.inFlush = false ∧ s.globals.Ready ∧ forceFlushLogs s = { s with
        inFlush := true, redrawRequested := false, active := .forceFlushLogs :: s.active })
      ∨ (¬ (s.inFlush = false ∧ s.globals.Ready) ∧ forceFlushLogs s = s) := by
  obtain ⟨logger, ⟨window, gop, fb⟩, inFlush, redrawRequested, active⟩ := s
  unfold Globals.Ready
  cases inFlush with
  | true => exact Or.inr ⟨by simp, rfl⟩
  | false =>
      cases window with
      | none => exact Or.inr ⟨by simp, rfl⟩
      | some upgrades =>
          cases upgrades with
          | false => exact Or.inr ⟨by simp, rfl⟩
          | true =>
              cases gop with
              | false => exact Or.inr ⟨by simp, rfl⟩
              | true =>
                  cases fb with
                  | false => exact Or.inr ⟨by simp, rfl⟩
                  | true => exact Or.inl ⟨rfl, ⟨rfl, rfl, rfl⟩, rfl⟩

theorem step_of_callsFlush {s : Screen} {i : Step} (h : CallsFlush s i) :
    ∃ logger, (screen.step s i).1 = forceFlushLogs { s with logger := logger } := by
  cases i with
  | log level args =>
      obtain ⟨henabled, hwindow, hlog⟩ := h
      obtain ⟨logger, hlogger⟩ := Option.ne_none_iff_exists'.mp hlog
      refine ⟨logger, ?_⟩
      show s.log level args = _
      unfold Screen.log
      rw [hlogger, henabled, hwindow]
      rfl
  | forceFlushLogs => exact ⟨s.logger, rfl⟩
  | iterate | requestRedraw | finish | openWindow _ | closeWindow | setGlobals _ => exact h.elim

/-- From `s` to `s'` no closure was entered or left. -/
structure SameNesting (s s' : Screen) : Prop where
  active : s'.active = s.active
  inFlush : s'.inFlush = s.inFlush

theorem step_of_not_callsFlush {s : Screen} {i : Step} (h : ¬ CallsFlush s i) :
    SameNesting s (screen.step s i).1
      ∨ (s.active = [] ∧ (screen.step s i).1 = drawIfNeeded s .runSlintUi)
      ∨ (screen.step s i).1 = finish s := by
  cases i with
  | log level args =>
      refine Or.inl ?_
      show SameNesting s (s.log level args)
      unfold Screen.log
      cases hlog : s.logger.log level args with
      | none => exact ⟨rfl, rfl⟩
      | some logger =>
          dsimp only
          rw [if_neg]
          · exact ⟨rfl, rfl⟩
          · intro hflush
            rw [Bool.and_eq_true] at hflush
            exact h ⟨hflush.1, hflush.2, by rw [hlog]; exact Option.some_ne_none logger⟩
  | forceFlushLogs => exact absurd trivial h
  | iterate =>
      by_cases hactive : s.active = []
      · exact Or.inr (Or.inl ⟨hactive, if_pos hactive⟩)
      · have hskip : (screen.step s .iterate).1 = s := if_neg hactive
        rw [hskip]
        exact Or.inl ⟨rfl, rfl⟩
  | finish => exact Or.inr (Or.inr rfl)
  | requestRedraw | openWindow _ | closeWindow | setGlobals _ => exact Or.inl ⟨rfl, rfl⟩

/-! ### How closures nest -/

/-- The active closures, and the flag. -/
inductive Nesting : List Closure → Bool → Prop
  | idle : Nesting [] false
  | drawing : Nesting [.runSlintUi] false
  | flushing : Nesting [.forceFlushLogs] true
  | reentered : Nesting [.forceFlushLogs, .runSlintUi] true

theorem Nesting.flag_iff {active : List Closure} {inFlush : Bool} (h : Nesting active inFlush) :
    active.length ≤ 2 ∧ (inFlush = true ↔ .forceFlushLogs ∈ active) := by
  cases h with
  | idle => decide
  | drawing => decide
  | flushing => decide
  | reentered => decide

def Nested (s : Screen) : Prop := Nesting s.active s.inFlush

theorem SameNesting.nested {s s' : Screen} (h : SameNesting s s') (hs : Nested s) : Nested s' := by
  unfold Nested
  rw [h.active, h.inFlush]
  exact hs

theorem Nested.flush {s : Screen} (h : Nested s) : Nested (forceFlushLogs s) := by
  rcases forceFlushLogs_cases s with ⟨hflag, _, heq⟩ | ⟨_, heq⟩
  · rw [heq]
    obtain ⟨logger, globals, inFlush, redrawRequested, active⟩ := s
    cases h with
    | idle => exact Nesting.flushing
    | drawing => exact Nesting.reentered
    | flushing => cases hflag
    | reentered => cases hflag
  · rw [heq]
    exact h

theorem Nested.draw {s : Screen} (h : Nested s) (hactive : s.active = []) :
    Nested (drawIfNeeded s .runSlintUi) := by
  obtain ⟨logger, globals, inFlush, redrawRequested, active⟩ := s
  obtain rfl : active = [] := hactive
  cases h with
  | idle =>
      cases redrawRequested with
      | false => exact Nesting.idle
      | true => exact Nesting.drawing

theorem Nested.finish {s : Screen} (h : Nested s) :
    Nested (finish s) ∧ (finish s).active.length ≤ 1 := by
  obtain ⟨logger, globals, inFlush, redrawRequested, active⟩ := s
  cases h with
  | idle => exact ⟨Nesting.idle, Nat.zero_le 1⟩
  | drawing => exact ⟨Nesting.idle, Nat.zero_le 1⟩
  | flushing => exact ⟨Nesting.idle, Nat.zero_le 1⟩
  | reentered => exact ⟨Nesting.drawing, Nat.le_refl 1⟩

/-- **One step.** -/
theorem Nested.step {s : Screen} (h : Nested s) (i : Step) : Nested (screen.step s i).1 := by
  by_cases hcalls : CallsFlush s i
  · obtain ⟨logger, heq⟩ := step_of_callsFlush hcalls
    rw [heq]
    exact Nested.flush (s := { s with logger := logger }) h
  · rcases step_of_not_callsFlush hcalls with hsame | ⟨hactive, heq⟩ | heq
    · exact hsame.nested h
    · rw [heq]
      exact h.draw hactive
    · rw [heq]
      exact h.finish.1

/-- **Whole runs.**  In any interleaving at most two closures are active at a time, and `IN_FLUSH`
is set exactly while `force_flush_logs` is drawing. -/
theorem screen_nested (steps : List Step) :
    (screen.run .new steps).1.active.length ≤ 2
      ∧ ((screen.run .new steps).1.inFlush = true
        ↔ .forceFlushLogs ∈ (screen.run .new steps).1.active) := by
  have hnew : Nested .new := Nesting.idle
  exact (screen.run_preserves (I := Nested) (fun _ i h => h.step i) steps hnew).flag_iff

/-! ### When drawing is not re-entered -/

/-- At most one closure is active, and `IN_FLUSH` is set only while that of `force_flush_logs`
is. -/
structure NotReentered (s : Screen) : Prop where
  one : s.active.length ≤ 1
  flag : .forceFlushLogs ∉ s.active → s.inFlush = false

/-- The step does not flush a message while the closure of `run_slint_ui` is active: it does not
call `force_flush_logs`, or this returns early. -/
def NoFlushWhileDrawing (s : Screen) (i : Step) : Prop :=
  .runSlintUi ∈ s.active → CallsFlush s i → ¬ (s.inFlush = false ∧ s.globals.Ready)

theorem one_step {s : Screen} {i : Step} (h : Nested s) (hone : s.active.length ≤ 1)
    (hquiet : NoFlushWhileDrawing s i) : (screen.step s i).1.active.length ≤ 1 := by
  by_cases hcalls : CallsFlush s i
  · obtain ⟨logger, heq⟩ := step_of_callsFlush hcalls
    rw [heq]
    rcases forceFlushLogs_cases { s with logger := logger } with ⟨hflag, hready, heq⟩ | ⟨_, heq⟩
    · rw [heq]
      have hdrawing : .runSlintUi ∉ s.active := fun hmem => hquiet hmem hcalls ⟨hflag, hready⟩
      obtain ⟨logger', globals, inFlush, redrawRequested, active⟩ := s
      cases h with
      | idle => exact Nat.le_refl 1
      | drawing => exact absurd List.mem_cons_self hdrawing
      | flushing => cases hflag
      | reentered => cases hflag
    · rw [heq]
      exact hone
  · rcases step_of_not_callsFlush hcalls with hsame | ⟨hactive, heq⟩ | heq
    · rw [hsame.active]
      exact hone
    · rw [heq]
      unfold drawIfNeeded
      by_cases hredraw : s.redrawRequested = true
      · rw [if_pos hredraw]
        show (Closure.runSlintUi :: s.active).length ≤ 1
        rw [hactive]
        exact Nat.le_refl 1
      · rw [if_neg hredraw]
        exact hone
    · rw [heq]
      exact h.finish.2

theorem quiet_of_one_step {s : Screen} {i : Step}
    (hone : (screen.step s i).1.active.length ≤ 1) : NoFlushWhileDrawing s i := by
  rintro hdrawing hcalls ⟨hflag, hready⟩
  obtain ⟨logger, heq⟩ := step_of_callsFlush hcalls
  rw [heq] at hone
  rcases forceFlushLogs_cases { s with logger := logger } with ⟨_, _, heq⟩ | ⟨hnot, _⟩
  · rw [heq] at hone
    change (Closure.forceFlushLogs :: s.active).length ≤ 1 at hone
    rw [List.length_cons] at hone
    have hpos := List.length_pos_of_mem hdrawing
    omega
  · exact hnot ⟨hflag, hready⟩

/-- **When rendering is not re-entered.**  In any interleaving of iterations of `run_slint_ui`, log
messages and calls of `force_flush_logs`, at every point at most one closure is active and
`IN_FLUSH` is false outside of `force_flush_logs`, exactly when no message is flushed from the
closure of `run_slint_ui`.  The flag keeps messages from the closure of `force_flush_logs` apart. -/
theorem drawing_not_reentered_iff (steps : List Step) :
    (∀ is, is <+: steps → NotReentered (screen.run .new is).1)
      ↔ screen.Along NoFlushWhileDrawing .new steps := by
  refine screen.safe_iff_along (I := fun s => Nested s ∧ s.active.length ≤ 1) ?_ ?_ ?_ steps .new
    ⟨Nesting.idle, Nat.zero_le 1⟩
  · exact fun s h => ⟨h.2, fun hnot => Bool.eq_false_iff.mpr (mt h.1.flag_iff.2.mp hnot)⟩
  · exact fun s i h hquiet => ⟨h.1.step i, one_step h.1 h.2 hquiet⟩
  · exact fun s i _ hafter => quiet_of_one_step hafter.one

/-- The window is set up, an iteration draws, and rendering logs a message. -/
def logWhileDrawing : List Step :=
  [.openWindow true, .setGlobals ⟨some true, true, true⟩, .requestRedraw, .iterate,
    .log .info "Frame rendered".toList]

/-- **Rendering is re-entered.** -/
theorem log_reenters_drawing :
    (screen.run .new logWhileDrawing).1.active = [.forceFlushLogs, .runSlintUi]
      ∧ ¬ NotReentered (screen.run .new logWhileDrawing).1 := by
  have hactive : (screen.run .new logWhileDrawing).1.active = [.forceFlushLogs, .runSlintUi] := by
    decide +kernel
  refine ⟨hactive, fun h => ?_⟩
  have hone := h.one
  rw [hactive] at hone
  exact absurd hone (by decide)

end WebUiBoot.Ui
