import WebUiBoot.Lib.Significand
import WebUiBoot.Lib.Trace
import WebUiBoot.Ui.Cursor

/-!
# The pointer

The mouse part of `run_slint_ui` in `src/slint_plat.rs`.  The position is kept in two numbers of the
type `f32`, which are moved by what the mice report and clamped to the screen.

* `readMouse` — the body of the loop over the states of a mouse;
* `pointerLoop` — the iterations, with all mice;
* `move_exact` — the floating-point steps of a movement come to the exact ones, for all movements;
* `ClicksPaired` — every press of a button is released before anything else happens;
* `pointer_exact` — the position over a run, that the whole cursor is always visible, and that no
  button stays pressed.

The factors are 2, 3 and 4, so all the numbers are integers.  A position is handed to the window
after a division by the scale factor, which is left out.
-/

namespace WebUiBoot.Ui

open WebUiBoot.Trace WebUiBoot.Significand

/-! ### Model -/

/-- The result of an operation on `f32`, by its exact result. -/
def f32 (n : ℤ) : ℤ := roundInt 24 n

/-- `2.0 * scale_factor`. -/
def sensitivity (screenWidth : ℕ) : ℤ :=
  if screenWidth ≥ 3840 then 4 else if screenWidth ≥ 2560 then 3 else 2

/-- The resolution of the current mode: large enough for a cursor in the middle, and within what
`f32` counts exactly. -/
structure ScreenSize where
  width : ℕ
  height : ℕ
  width_ge : 23 ≤ width
  height_ge : 37 ≤ height
  width_lt : width < 2 ^ 23
  height_lt : height < 2 ^ 23

/-- `phys_x` and `phys_y`. -/
structure Position where
  x : ℤ
  y : ℤ
  deriving DecidableEq

/-- What a mouse reports: `relative_movement` and `button`. -/
structure Mouse where
  dx : ℤ
  dy : ℤ
  dz : ℤ
  left : Bool
  right : Bool

inductive Button
  | left
  | right
  | other
  deriving DecidableEq

/-- What the window is told. -/
inductive PointerCall
  | moved (position : Position)
  | exited
  | pressed (position : Position) (button : Button)
  | released (position : Position) (button : Button)
  | scrolled (position : Position) (deltaY : ℤ)
  | requestRedraw
  deriving DecidableEq

/-- `phys_x += ..` and `clamp`, in one direction. -/
def moveAxis (size cursor : ℕ) (factor phys movement : ℤ) : ℤ :=
  clamp (f32 (phys + f32 (f32 movement * factor))) 0 (f32 (size - cursor : ℕ))

def movePosition (screen : ScreenSize) (position : Position) (mouse : Mouse) : Position :=
  let factor := sensitivity screen.width
  ⟨moveAxis screen.width pointerWidth factor position.x mouse.dx,
    moveAxis screen.height pointerHeight factor position.y mouse.dy⟩

def mouseButton (mouse : Mouse) : Button :=
  if mouse.left then .left else if mouse.right then .right else .other

/-- The body of the loop over the states of a mouse. -/
def readMouse (screen : ScreenSize) (position : Position) (mouse : Mouse) :
    Position × List PointerCall :=
  let position := movePosition screen position mouse
  let button := mouseButton mouse
  (position,
    [.moved position, .exited]
      ++ (if mouse.left || mouse.right then [.pressed position button, .released position button]
        else [])
      ++ if mouse.dz ≠ 0 then [.scrolled position (f32 (-f32 mouse.dz * 30))] else [])

def mouseReader (screen : ScreenSize) : Machine Position Mouse PointerCall := ⟨readMouse screen⟩

/-- The states that are read from a mouse, by what `read_state` returns; `none` stands for `None`
and for an error, both of which end its loop. -/
def statesRead (answers : List (Option Mouse)) : List Mouse :=
  (answers.takeWhile Option.isSome).reduceOption

/-- The states that are read in an iteration, one mouse after the other. -/
def iterationStates (mice : List (List (Option Mouse))) : List Mouse := mice.flatMap statesRead

/-- An iteration of the loop. -/
def pointerLoop (screen : ScreenSize) :
    Machine Position (List (List (Option Mouse))) PointerCall where
  step position mice :=
    let states := iterationStates mice
    let r := (mouseReader screen).run position states
    (r.1, r.2 ++ if states = [] then [] else [.requestRedraw])

/-- `(screen_width / 2) as f32` and `(screen_height / 2) as f32`. -/
def Position.start (screen : ScreenSize) : Position :=
  ⟨f32 (screen.width / 2 : ℕ), f32 (screen.height / 2 : ℕ)⟩

/-! ### Exact movements -/

/-- A movement without rounding. -/
def exactMove (screen : ScreenSize) (position : Position) (mouse : Mouse) : Position :=
  let factor := sensitivity screen.width
  ⟨clamp (position.x + mouse.dx * factor) 0 (screen.width - pointerWidth : ℕ),
    clamp (position.y + mouse.dy * factor) 0 (screen.height - pointerHeight : ℕ)⟩

/-- The cursor is on the screen as a whole. -/
structure OnScreen (screen : ScreenSize) (position : Position) : Prop where
  x_nonneg : 0 ≤ position.x
  x_le : position.x ≤ (screen.width - pointerWidth : ℕ)
  y_nonneg : 0 ≤ position.y
  y_le : position.y ≤ (screen.height - pointerHeight : ℕ)

theorem f32_of_natAbs_le {n : ℤ} (h : n.natAbs ≤ 2 ^ 24) : f32 n = n :=
  roundInt_of_abs_le (by decide) h

theorem sensitivity_mem (screenWidth : ℕ) :
    2 ≤ sensitivity screenWidth ∧ sensitivity screenWidth ≤ 4 := by
  unfold sensitivity
  split
  · omega
  · split <;> omega

/-- **One movement in one direction.**  Where the conversion or the product is rounded, the movement
is beyond the border anyway. -/
theorem moveAxis_eq {size cursor : ℕ} {factor phys : ℤ} (hsize : size < 2 ^ 23)
    (hfactor : 2 ≤ factor ∧ factor ≤ 4) (hphys : 0 ≤ phys ∧ phys ≤ (size - cursor : ℕ))
    (movement : ℤ) : moveAxis size cursor factor phys movement
      = clamp (phys + movement * factor) 0 (size - cursor : ℕ) := by
  have hlimit : f32 (size - cursor : ℕ) = (size - cursor : ℕ) := f32_of_natAbs_le (by omega)
  have hsum : clamp (f32 (phys + f32 (f32 movement * factor))) 0 (size - cursor : ℕ)
      = clamp (phys + f32 (f32 movement * factor)) 0 (size - cursor : ℕ) :=
    clamp_roundInt (by decide) (by omega)
  unfold moveAxis
  rw [hlimit, hsum]
  have hcases : factor = 2 ∨ factor = 3 ∨ factor = 4 := by omega
  by_cases hexact : movement.natAbs ≤ 2 ^ 22
  · have hproduct : f32 (movement * factor) = movement * factor := by
      refine f32_of_natAbs_le ?_
      rcases hcases with rfl | rfl | rfl <;> omega
    have hconvert : f32 movement = movement := f32_of_natAbs_le (by omega)
    rw [hconvert, hproduct]
  · by_cases hpositive : 0 ≤ movement
    · have hmovement : ((2 ^ 22 : ℕ) : ℤ) ≤ f32 movement :=
        le_roundInt (by decide) (by decide) (by omega)
      have hproduct : ((2 ^ 23 : ℕ) : ℤ) ≤ f32 (f32 movement * factor) := by
        refine le_roundInt (by decide) (by decide) ?_
        rcases hcases with rfl | rfl | rfl <;> omega
      have hfar : ((2 ^ 23 : ℕ) : ℤ) ≤ movement * factor := by
        rcases hcases with rfl | rfl | rfl <;> omega
      unfold clamp
      rw [if_neg (by omega), if_pos (by omega), if_neg (by omega), if_pos (by omega)]
    · have hmovement : f32 movement ≤ -((2 ^ 22 : ℕ) : ℤ) :=
        roundInt_le (by decide) (by decide) (by omega)
      have hproduct : f32 (f32 movement * factor) ≤ -((2 ^ 23 : ℕ) : ℤ) := by
        refine roundInt_le (by decide) (by decide) ?_
        rcases hcases with rfl | rfl | rfl <;> omega
      have hfar : movement * factor ≤ -((2 ^ 23 : ℕ) : ℤ) := by
        rcases hcases with rfl | rfl | rfl <;> omega
      unfold clamp
      rw [if_pos (by omega), if_pos (by omega)]

/-- **One movement.** -/
theorem move_exact (screen : ScreenSize) {position : Position} (h : OnScreen screen position)
    (mouse : Mouse) : movePosition screen position mouse = exactMove screen position mouse := by
  have hx := moveAxis_eq screen.width_lt (sensitivity_mem screen.width) ⟨h.x_nonneg, h.x_le⟩
    mouse.dx
  have hy := moveAxis_eq screen.height_lt (sensitivity_mem screen.width) ⟨h.y_nonneg, h.y_le⟩
    mouse.dy
  unfold movePosition exactMove
  dsimp only
  rw [hx, hy]

theorem exactMove_onScreen (screen : ScreenSize) (position : Position) (mouse : Mouse) :
    OnScreen screen (exactMove screen position mouse) := by
  obtain ⟨hx, hx'⟩ := clamp_mem (x := position.x + mouse.dx * sensitivity screen.width)
    (Int.natCast_nonneg (screen.width - pointerWidth))
  obtain ⟨hy, hy'⟩ := clamp_mem (x := position.y + mouse.dy * sensitivity screen.width)
    (Int.natCast_nonneg (screen.height - pointerHeight))
  exact ⟨hx, hx', hy, hy'⟩

theorem start_onScreen (screen : ScreenSize) : OnScreen screen (.start screen) := by
  have hwidth := screen.width_ge
  have hheight := screen.height_ge
  have hwidth' := screen.width_lt
  have hheight' := screen.height_lt
  have hx : f32 (screen.width / 2 : ℕ) = (screen.width / 2 : ℕ) := f32_of_natAbs_le (by omega)
  have hy : f32 (screen.height / 2 : ℕ) = (screen.height / 2 : ℕ) := f32_of_natAbs_le (by omega)
  unfold Position.start
  rw [hx, hy]
  constructor <;> dsimp only [pointerWidth, pointerHeight] <;> omega

/-- Every cell of a cursor on the screen is visible. -/
theorem OnScreen.cells_eq {screen : ScreenSize} {position : Position}
    (h : OnScreen screen position) :
    cells ⟨screen.width, screen.height, position.x.toNat, position.y.toNat⟩
      = List.range pointerHeight ×ˢ List.range pointerWidth := by
  have hwidth := screen.width_ge
  have hheight := screen.height_ge
  obtain ⟨hx, hx', hy, hy'⟩ := h
  refine List.filter_eq_self.mpr fun c hc => decide_eq_true ?_
  obtain ⟨hrow, hcolumn⟩ := List.mem_product.mp hc
  rw [List.mem_range] at hrow hcolumn
  dsimp only [pointerWidth, pointerHeight] at *
  omega

/-! ### Clicks -/

/-- What the window is told, with every press released before anything else happens. -/
def ClicksPaired : List PointerCall → Prop
  | [] => True
  | .pressed position button :: .released position' button' :: rest =>
      position' = position ∧ button' = button ∧ ClicksPaired rest
  | .pressed _ _ :: _ => False
  | .released _ _ :: _ => False
  | _ :: rest => ClicksPaired rest

theorem ClicksPaired.append {calls calls' : List PointerCall} (h : ClicksPaired calls)
    (h' : ClicksPaired calls') : ClicksPaired (calls ++ calls') := by
  fun_induction ClicksPaired calls with
  | case1 => exact h'
  | case2 position button position' button' rest ih => exact ⟨h.1, h.2.1, ih h.2.2⟩
  | case3 position button rest hrest => exact h.elim
  | case4 position button rest => exact h.elim
  | case5 call rest hpressed hpressed' hreleased ih =>
      cases call with
      | moved | exited | scrolled | requestRedraw => exact ih h
      | pressed position button => exact absurd rfl (hpressed' position button)
      | released position button => exact absurd rfl (hreleased position button)

theorem readMouse_paired (screen : ScreenSize) (position : Position) (mouse : Mouse) :
    ClicksPaired (readMouse screen position mouse).2 := by
  unfold readMouse
  dsimp only
  refine ClicksPaired.append ?_ ?_
  · by_cases hbutton : (mouse.left || mouse.right) = true
    · rw [if_pos hbutton]
      exact ⟨rfl, rfl, trivial⟩
    · rw [if_neg hbutton]
      exact trivial
  · by_cases hscroll : mouse.dz ≠ 0
    · rw [if_pos hscroll]
      exact trivial
    · rw [if_neg hscroll]
      exact trivial

/-! ### Runs -/

/-- **The states of the mice, one after the other.** -/
theorem mouseReader_run (screen : ScreenSize) (states : List Mouse) :
    ∀ {position : Position}, OnScreen screen position →
      ((mouseReader screen).run position states).1
          = states.foldl (exactMove screen) position
        ∧ OnScreen screen ((mouseReader screen).run position states).1
        ∧ ClicksPaired ((mouseReader screen).run position states).2 := by
  induction states with
  | nil => exact fun h => ⟨rfl, h, trivial⟩
  | cons mouse states ih =>
      intro position h
      have hmove : ((mouseReader screen).step position mouse).1 = exactMove screen position mouse :=
        move_exact screen h mouse
      obtain ⟨hposition, hscreen, hpaired⟩ := ih (exactMove_onScreen screen position mouse)
      rw [Machine.run_cons, hmove]
      exact ⟨hposition, hscreen, (readMouse_paired screen position mouse).append hpaired⟩

/-- **The pointer is where the mice have moved it.**  Over any iterations with any mice, whatever
they report and whenever they fail, the position is the one that exact arithmetic gives: each
movement times the factor, stopped at the borders.  The cursor is on the screen as a whole, so that
`draw` leaves out none of its cells; and no button stays pressed. -/
theorem pointer_exact (screen : ScreenSize) (inputs : List (List (List (Option Mouse)))) :
    let r := (pointerLoop screen).run (.start screen) inputs
    r.1 = (inputs.flatMap iterationStates).foldl (exactMove screen) (.start screen)
      ∧ OnScreen screen r.1
      ∧ cells ⟨screen.width, screen.height, r.1.x.toNat, r.1.y.toNat⟩
          = List.range pointerHeight ×ˢ List.range pointerWidth
      ∧ ClicksPaired r.2 := by
  have hrun : ∀ {position : Position}, OnScreen screen position →
      ((pointerLoop screen).run position inputs).1
          = (inputs.flatMap iterationStates).foldl (exactMove screen) position
        ∧ OnScreen screen ((pointerLoop screen).run position inputs).1
        ∧ ClicksPaired ((pointerLoop screen).run position inputs).2 := by
    induction inputs with
    | nil => exact fun h => ⟨rfl, h, trivial⟩
    | cons mice inputs ih =>
        intro position h
        obtain ⟨hposition, hscreen, hpaired⟩ := mouseReader_run screen (iterationStates mice) h
        obtain ⟨hposition', hscreen', hpaired'⟩ := ih hscreen
        rw [Machine.run_cons, List.flatMap_cons, List.foldl_append, ← hposition]
        refine ⟨hposition', hscreen', (hpaired.append ?_).append hpaired'⟩
        by_cases hstates : iterationStates mice = []
        · rw [if_pos hstates]
          exact trivial
        · rw [if_neg hstates]
          exact trivial
  obtain ⟨hposition, hscreen, hpaired⟩ := hrun (start_onScreen screen)
  exact ⟨hposition, hscreen, hscreen.cells_eq, hpaired⟩

end WebUiBoot.Ui
