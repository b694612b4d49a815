import Mathlib.Data.List.MinMax
import Mathlib.Data.Prod.Lex

/-!
# Graphics modes

How `run_event_loop` of `src/slint_plat.rs` selects a mode, and how large its frame buffer becomes.

* `selectMode` — the loop over the modes;
* `selectMode_eq_argmax` — it selects the first of the greatest modes that fit;
* `initDisplay`, `frameBufferLength` — the mode that is current when the frame buffer is allocated;
* `frame_buffer_cap_iff` — when the frame buffer is as small as it should be;
* `only_4k` — a display without a mode that fits.
-/

namespace WebUiBoot.Ui

/-- A mode of the graphics output. -/
structure Mode where
  index : ℕ
  width : ℕ
  height : ℕ

/-- `best_mode`, `best_width` and `best_height`. -/
structure Best where
  mode : Option Mode
  width : ℕ
  height : ℕ

/-- The body of the loop. -/
def Best.consider (best : Best) (mode : Mode) : Best :=
  if mode.width ≤ 1920 ∧ mode.height ≤ 1080 then
    if best.width < mode.width ∨ (mode.width = best.width ∧ best.height < mode.height) then
      ⟨some mode, mode.width, mode.height⟩
    else best
  else best

def selectMode (modes : List Mode) : Option Mode := (modes.foldl Best.consider ⟨none, 0, 0⟩).mode

/-- The current mode, and the call of `set_mode`, if there was one, with its success. -/
structure Display where
  current : Mode
  set : Option (Mode × Bool)

/-- From the loop on; `setMode` says for which modes `set_mode` succeeds.  A call that fails leaves
the current mode as it is. -/
def initDisplay (modes : List Mode) (initial : Mode) (setMode : Mode → Bool) : Display :=
  match selectMode modes with
  | none => ⟨initial, none⟩
  | some mode =>
      if setMode mode then ⟨mode, some (mode, true)⟩ else ⟨initial, some (mode, false)⟩

/-- The number of pixels of the frame buffer. -/
def frameBufferLength (display : Display) : ℕ := display.current.width * display.current.height

/-! ### The selection -/

/-- Width and height, in lexicographic order. -/
def Mode.resolution (mode : Mode) : ℕ ×ₗ ℕ := toLex (mode.width, mode.height)

def Mode.Fits (mode : Mode) : Prop := mode.width ≤ 1920 ∧ mode.height ≤ 1080

/-- The mode fits, and has a width or a height. -/
def Mode.usable (mode : Mode) : Bool :=
  (mode.width ≤ 1920 ∧ mode.height ≤ 1080) ∧ ¬ (mode.width = 0 ∧ mode.height = 0)

/-- The greatest mode that can be used, and the first of these. -/
def greatestMode (modes : List Mode) : Option Mode :=
  (modes.filter Mode.usable).argmax Mode.resolution

theorem resolution_lt {mode mode' : Mode} : mode.resolution < mode'.resolution
    ↔ mode.width < mode'.width ∨ (mode'.width = mode.width ∧ mode.height < mode'.height) := by
  rw [Mode.resolution, Mode.resolution, Prod.Lex.toLex_lt_toLex]
  exact or_congr_right (and_congr_left fun _ => eq_comm)

/-- What is kept of the modes that have been seen. -/
def Best.ofMode : Option Mode → Best
  | none => ⟨none, 0, 0⟩
  | some mode => ⟨some mode, mode.width, mode.height⟩

/-- One step of the loop. -/
theorem consider_greatestMode (modes : List Mode) (mode : Mode) :
    (Best.ofMode (greatestMode modes)).consider mode
      = Best.ofMode (greatestMode (modes ++ [mode])) := by
  unfold greatestMode Best.consider
  rw [List.filter_append]
  by_cases hfits : mode.width ≤ 1920 ∧ mode.height ≤ 1080
  · rw [if_pos hfits]
    by_cases hzero : mode.width = 0 ∧ mode.height = 0
    · have hunusable : mode.usable = false := by simp [Mode.usable, hzero]
      rw [List.filter_cons_of_neg (by simp [hunusable]), List.filter_nil, List.append_nil]
      rw [if_neg (by omega)]
    · have husable : mode.usable = true := by
        simp only [Mode.usable, hfits, hzero]
        decide
      rw [List.filter_cons_of_pos husable, List.filter_nil, List.argmax_concat]
      cases (modes.filter Mode.usable).argmax Mode.resolution with
      | none =>
          have hgreater : 0 < mode.width ∨ (mode.width = 0 ∧ 0 < mode.height) := by omega
          exact if_pos hgreater
      | some best =>
          show _ = Best.ofMode
            (if best.resolution < mode.resolution then some mode else some best)
          by_cases hlt : best.resolution < mode.resolution
          · rw [if_pos hlt]
            exact if_pos (resolution_lt.mp hlt)
          · rw [if_neg hlt]
            exact if_neg fun h => hlt (resolution_lt.mpr h)
  · have hunusable : mode.usable = false := by simp [Mode.usable, hfits]
    rw [if_neg hfits, List.filter_cons_of_neg (by simp [hunusable]), List.filter_nil,
      List.append_nil]

/-- **The selection.** -/
theorem selectMode_eq_argmax (modes : List Mode) : selectMode modes = greatestMode modes := by
  have hfold : modes.foldl Best.consider ⟨none, 0, 0⟩ = Best.ofMode (greatestMode modes) := by
    induction modes using List.reverseRecOn with
    | nil => rfl
    | append_singleton modes mode ih =>
        rw [List.foldl_append, ih]
        exact consider_greatestMode modes mode
  rw [selectMode, hfold]
  cases greatestMode modes with
  | none => rfl
  | some mode => rfl

/-! ### The cap -/

/-- What is expected: at most 1920 × 1080 pixels, and after a successful `set_mode` the greatest
resolution of the modes that fit. -/
def CapHolds (modes : List Mode) (initial : Mode) (setMode : Mode → Bool) : Prop :=
  let display := initDisplay modes initial setMode
  frameBufferLength display ≤ 1920 * 1080
    ∧ ∀ mode, display.set = some (mode, true) →
        ∃ best ∈ modes, best.Fits ∧ display.current.resolution = best.resolution
          ∧ ∀ other ∈ modes, other.Fits → other.resolution ≤ display.current.resolution

theorem Mode.Fits.pixels {mode : Mode} (h : mode.Fits) :
    mode.width * mode.height ≤ 1920 * 1080 := Nat.mul_le_mul h.1 h.2

theorem greatestMode_mem {modes : List Mode} {mode : Mode} (h : greatestMode modes = some mode) :
    mode ∈ modes ∧ mode.Fits := by
  obtain ⟨hmem, husable⟩ := List.mem_filter.mp (List.argmax_mem h)
  rw [Mode.usable, decide_eq_true_eq] at husable
  exact ⟨hmem, husable.1⟩

/-- No mode that fits is greater. -/
theorem le_greatestMode {modes : List Mode} {mode : Mode} (h : greatestMode modes = some mode)
    {other : Mode} (hmem : other ∈ modes) (hfits : other.Fits) :
    other.resolution ≤ mode.resolution := by
  by_cases husable : other.usable = true
  · exact List.le_of_mem_argmax (List.mem_filter.mpr ⟨hmem, husable⟩) h
  · have hzero : other.width = 0 ∧ other.height = 0 := by
      rw [Mode.usable, decide_eq_true_eq] at husable
      by_contra hzero
      exact husable ⟨hfits, hzero⟩
    apply le_of_not_gt
    rw [resolution_lt]
    omega

/-- **When the cap holds.**  For all modes, every initial mode and every outcome of `set_mode`:
exactly when the initial mode has at most 1920 × 1080 pixels, or `set_mode` succeeds for the
greatest mode that fits (one of 0 × 0 aside, which is never set). -/
theorem frame_buffer_cap_iff (modes : List Mode) (initial : Mode) (setMode : Mode → Bool) :
    CapHolds modes initial setMode
      ↔ initial.width * initial.height ≤ 1920 * 1080
        ∨ ∃ mode, greatestMode modes = some mode ∧ setMode mode = true := by
  unfold CapHolds
  cases hmode : greatestMode modes with
  | none =>
      have hdisplay : initDisplay modes initial setMode = ⟨initial, none⟩ := by
        rw [initDisplay, selectMode_eq_argmax, hmode]
      rw [hdisplay]
      simp [frameBufferLength]
  | some mode =>
      cases hset : setMode mode with
      | false =>
          have hdisplay : initDisplay modes initial setMode
              = ⟨initial, some (mode, false)⟩ := by
            rw [initDisplay, selectMode_eq_argmax, hmode]
            exact if_neg (by simp [hset])
          rw [hdisplay]
          simp [frameBufferLength, hset]
      | true =>
          obtain ⟨hmem, hfits⟩ := greatestMode_mem hmode
          have hdisplay : initDisplay modes initial setMode = ⟨mode, some (mode, true)⟩ := by
            rw [initDisplay, selectMode_eq_argmax, hmode]
            exact if_pos hset
          rw [hdisplay]
          refine iff_of_true ⟨hfits.pixels, fun _ _ => ⟨mode, hmem, hfits, rfl, ?_⟩⟩
            (Or.inr ⟨mode, rfl, hset⟩)
          exact fun other hother hfits' => le_greatestMode hmode hother hfits'

/-- **A display with one mode.**  Its mode does not fit, and the frame buffer has four times the
pixels. -/
theorem only_4k :
    frameBufferLength (initDisplay [⟨0, 3840, 2160⟩] ⟨0, 3840, 2160⟩ fun _ => true) = 8294400
      ∧ ¬ CapHolds [⟨0, 3840, 2160⟩] ⟨0, 3840, 2160⟩ fun _ => true := by
  refine ⟨rfl, fun h => ?_⟩
  exact absurd h.1 (by decide)

end WebUiBoot.Ui
