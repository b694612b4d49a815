import Mathlib.Data.List.Basic
import WebUiBoot.Lib.Overlay
import WebUiBoot.Ui.Blend

/-!
# Drawing the cursor

The closure in which `run_slint_ui` of `src/slint_plat.rs` draws: what is under the cursor is saved,
the cursor is painted over it, the buffer goes to the screen, and what was saved is put back.

* `forCursor` — the two loops over the cells of the cursor, with the test for those on the screen;
* `draw` — the closure behind `render`: the buffer that is handed to `blt`, and the one left behind.
  An index that is out of bounds is an error;
* `cellPlaces`, `slotPlaces` — no two cells on the screen share a pixel, or a slot of the saved ones;
* `draw_leaves_no_trace` — what is shown, and that the rendered buffer is what is left.
-/

namespace WebUiBoot.Ui

open WebUiBoot.Overlay

/-! ### Model -/

def pointerWidth : ℕ := 12

def pointerHeight : ℕ := 19

/-- 1 is white, 2 is the black border, and 0 is transparent. -/
def pointerPixels : List UInt8 :=
  [2,0,0,0,0,0,0,0,0,0,0,0,
   2,2,0,0,0,0,0,0,0,0,0,0,
   2,1,2,0,0,0,0,0,0,0,0,0,
   2,1,1,2,0,0,0,0,0,0,0,0,
   2,1,1,1,2,0,0,0,0,0,0,0,
   2,1,1,1,1,2,0,0,0,0,0,0,
   2,1,1,1,1,1,2,0,0,0,0,0,
   2,1,1,1,1,1,1,2,0,0,0,0,
   2,1,1,1,1,1,1,1,2,0,0,0,
   2,1,1,1,1,1,1,1,1,2,0,0,
   2,1,1,1,1,1,2,2,2,2,2,2,
   2,1,1,2,1,1,2,0,0,0,0,0,
   2,1,2,0,2,1,1,2,0,0,0,0,
   2,2,0,0,2,1,1,2,0,0,0,0,
   0,0,0,0,0,2,1,1,2,0,0,0,
   0,0,0,0,0,2,1,1,2,0,0,0,
   0,0,0,0,0,0,2,2,0,0,0,0,
   0,0,0,0,0,0,0,0,0,0,0,0,
   0,0,0,0,0,0,0,0,0,0,0,0]

set_option maxRecDepth 1024 in
theorem length_pointerPixels : pointerPixels.length = pointerWidth * pointerHeight := rfl

def white : BltPixel := ⟨255, 255, 255⟩

def black : BltPixel := ⟨0, 0, 0⟩

/-- The dimensions of the screen, and the position of the cursor as `usize`. -/
structure View where
  screenWidth : ℕ
  screenHeight : ℕ
  physX : ℕ
  physY : ℕ

/-- The loops over the rows and the columns of the cursor, with `body` on the indices `fb_idx` and
`bg_idx` of each cell that is on the screen. -/
def forCursor {σ : Type} (v : View) (body : ℕ → ℕ → σ → Option σ) (s : σ) : Option σ :=
  (List.range pointerHeight).foldlM (fun s y =>
    (List.range pointerWidth).foldlM (fun s x =>
      let px := v.physX + x
      let py := v.physY + y
      if px < v.screenWidth ∧ py < v.screenHeight then
        body (py * v.screenWidth + px) (x + y * pointerWidth) s
      else some s) s) s

def saveBackground (v : View) (fb : List BltPixel) : Option (List BltPixel) :=
  forCursor v (fun fbIdx bgIdx saved => fb[fbIdx]?.bind (writeAt saved bgIdx))
    (List.replicate (pointerWidth * pointerHeight) black)

def drawCursor (v : View) (fb : List BltPixel) : Option (List BltPixel) :=
  forCursor v (fun fbIdx bgIdx fb => pointerPixels[bgIdx]?.bind fun pixelType =>
    if pixelType = 1 then writeAt fb fbIdx white
    else if pixelType = 2 then writeAt fb fbIdx black
    else some fb) fb

def restoreBackground (v : View) (saved fb : List BltPixel) : Option (List BltPixel) :=
  forCursor v (fun fbIdx bgIdx fb => saved[bgIdx]?.bind (writeAt fb fbIdx)) fb

/-- What is shown, and what is left in the buffer. -/
def draw (v : View) (rendered : List BltPixel) : Option (List BltPixel × List BltPixel) := do
  let saved ← saveBackground v rendered
  let shown ← drawCursor v rendered
  let restored ← restoreBackground v saved shown
  return (shown, restored)

/-! ### Cells -/

/-- The row and the column of each cell that is on the screen. -/
def cells (v : View) : List (ℕ × ℕ) :=
  (List.range pointerHeight ×ˢ List.range pointerWidth).filter fun c =>
    v.physX + c.2 < v.screenWidth ∧ v.physY + c.1 < v.screenHeight

def place (v : View) (c : ℕ × ℕ) : ℕ := (v.physY + c.1) * v.screenWidth + (v.physX + c.2)

def slot (c : ℕ × ℕ) : ℕ := c.2 + c.1 * pointerWidth

theorem forCursor_eq {σ : Type} (v : View) (body : ℕ → ℕ → σ → Option σ) (s : σ) :
    forCursor v body s = (cells v).foldlM (fun s c => body (place v c) (slot c) s) s := by
  rw [cells, List.foldlM_filter, foldlM_product]
  simp only [decide_eq_true_eq]
  rfl

theorem mem_cells {v : View} {c : ℕ × ℕ} :
    c ∈ cells v ↔ (c.1 < pointerHeight ∧ c.2 < pointerWidth)
      ∧ v.physX + c.2 < v.screenWidth ∧ v.physY + c.1 < v.screenHeight := by
  obtain ⟨y, x⟩ := c
  rw [cells, List.mem_filter, decide_eq_true_eq, List.mem_product, List.mem_range,
    List.mem_range]

/-- A pixel on the screen is in the buffer, and the only one with its index. -/
theorem index_lt {width height px py : ℕ} (hx : px < width) (hy : py < height) :
    py * width + px < width * height := by
  calc py * width + px < (py + 1) * width := by
        rw [Nat.succ_mul]
        omega
    _ ≤ height * width := Nat.mul_le_mul_right width hy
    _ = width * height := Nat.mul_comm height width

theorem index_inj {width px py px' py' : ℕ} (hx : px < width) (hx' : px' < width)
    (h : py * width + px = py' * width + px') : px = px' ∧ py = py' := by
  have hmod := congrArg (· % width) h
  simp only [Nat.mul_add_mod_self_right, Nat.mod_eq_of_lt hx, Nat.mod_eq_of_lt hx'] at hmod
  have hrows : py * width = py' * width := by omega
  exact ⟨hmod, Nat.eq_of_mul_eq_mul_right (by omega) hrows⟩

theorem cellPlaces (v : View) : Places (place v) (cells v) (v.screenWidth * v.screenHeight) where
  bound c hc := by
    obtain ⟨_, hx, hy⟩ := mem_cells.mp hc
    exact index_lt hx hy
  injective c hc c' hc' h := by
    obtain ⟨_, hx, _⟩ := mem_cells.mp hc
    obtain ⟨_, hx', _⟩ := mem_cells.mp hc'
    obtain ⟨hcolumn, hrow⟩ := index_inj hx hx' h
    exact Prod.ext (by omega) (by omega)

theorem slotPlaces (v : View) : Places slot (cells v) (pointerWidth * pointerHeight) where
  bound c hc := by
    obtain ⟨⟨hrow, hcolumn⟩, _⟩ := mem_cells.mp hc
    show c.2 + c.1 * 12 < 12 * 19
    have hrow : c.1 < 19 := hrow
    have hcolumn : c.2 < 12 := hcolumn
    omega
  injective c hc c' hc' h := by
    have hcolumn : c.2 < 12 := (mem_cells.mp hc).1.2
    have hcolumn' : c'.2 < 12 := (mem_cells.mp hc').1.2
    have h : c.2 + c.1 * 12 = c'.2 + c'.1 * 12 := h
    exact Prod.ext (by omega) (by omega)

/-! ### What is shown, and what is left -/

/-- What a pixel type puts over a pixel. -/
def cursorColor (pixelType : UInt8) : Option BltPixel :=
  if pixelType = 1 then some white else if pixelType = 2 then some black else none

/-- The pixel in the column `px` and the row `py`, under the cursor. -/
def overlaid (v : View) (px py : ℕ) (pixel : BltPixel) : BltPixel :=
  if v.physX ≤ px ∧ px < v.physX + pointerWidth ∧ v.physY ≤ py ∧ py < v.physY + pointerHeight then
    (pointerPixels[px - v.physX + (py - v.physY) * pointerWidth]?.bind cursorColor).getD pixel
  else pixel

theorem drawCursor_eq_paint (v : View) (fb : List BltPixel) :
    drawCursor v fb
      = paint (place v) (fun c => pointerPixels[slot c]?.bind cursorColor) (cells v) fb := by
  unfold drawCursor
  rw [forCursor_eq]
  refine foldlM_congr (fun fb c hc => ?_) fb
  have hbound : slot c < pointerPixels.length := by
    rw [length_pointerPixels]
    exact (slotPlaces v).bound c hc
  rw [paintOne, List.getElem?_eq_getElem hbound, Option.bind_some, Option.bind_some, cursorColor]
  by_cases hone : pointerPixels[slot c] = 1
  · rw [if_pos hone, if_pos hone]
  · by_cases htwo : pointerPixels[slot c] = 2
    · rw [if_neg hone, if_neg hone, if_pos htwo, if_pos htwo]
    · rw [if_neg hone, if_neg hone, if_neg htwo, if_neg htwo]

theorem shown_pixel {v : View} {rendered shown : List BltPixel}
    (hlength : rendered.length = v.screenWidth * v.screenHeight)
    (h : Painted (place v) (fun c => pointerPixels[slot c]?.bind cursorColor) (cells v) rendered
      shown) {px py : ℕ} (hx : px < v.screenWidth) (hy : py < v.screenHeight) :
    shown[py * v.screenWidth + px]?
      = rendered[py * v.screenWidth + px]?.map (overlaid v px py) := by
  have hbound : py * v.screenWidth + px < rendered.length := hlength ▸ index_lt hx hy
  rw [List.getElem?_eq_getElem hbound, Option.map_some, overlaid]
  by_cases hover : v.physX ≤ px ∧ px < v.physX + pointerWidth ∧ v.physY ≤ py
      ∧ py < v.physY + pointerHeight
  · obtain ⟨hleft, hright, htop, hbottom⟩ := hover
    have hcell : (py - v.physY, px - v.physX) ∈ cells v := by
      rw [mem_cells]
      omega
    have hplace : place v (py - v.physY, px - v.physX) = py * v.screenWidth + px := by
      show (v.physY + (py - v.physY)) * v.screenWidth + (v.physX + (px - v.physX)) = _
      rw [Nat.add_sub_cancel' htop, Nat.add_sub_cancel' hleft]
    have hinside := h.inside _ hcell
    rw [hplace, List.getElem?_eq_getElem hbound] at hinside
    rw [if_pos ⟨hleft, hright, htop, hbottom⟩, hinside]
    show (pointerPixels[px - v.physX + (py - v.physY) * pointerWidth]?.bind cursorColor).or _ = _
    cases pointerPixels[px - v.physX + (py - v.physY) * pointerWidth]?.bind cursorColor with
    | none => rfl
    | some color => rfl
  · rw [if_neg hover, h.outside, List.getElem?_eq_getElem hbound]
    intro c hc heq
    obtain ⟨⟨hrow, hcolumn⟩, hx', _⟩ := mem_cells.mp hc
    obtain ⟨hpx, hpy⟩ := index_inj hx' hx heq
    exact hover (by omega)

/-- **Drawing the cursor.**  For every screen, every buffer of its size and every position of the
cursor: no index is out of bounds, what is shown is the rendered buffer with the cursor over it, as
far as it is on the screen, and what is left is the rendered buffer. -/
theorem draw_leaves_no_trace (v : View) (rendered : List BltPixel)
    (hlength : rendered.length = v.screenWidth * v.screenHeight) :
    ∃ shown, draw v rendered = some (shown, rendered) ∧ shown.length = rendered.length
      ∧ ∀ px py, px < v.screenWidth → py < v.screenHeight →
        shown[py * v.screenWidth + px]?
          = rendered[py * v.screenWidth + px]?.map (overlaid v px py) := by
  have hplace : Places (place v) (cells v) rendered.length := hlength ▸ cellPlaces v
  have hslot : Places slot (cells v)
      (List.replicate (pointerWidth * pointerHeight) black).length := by
    rw [List.length_replicate]
    exact slotPlaces v
  obtain ⟨saved, shown, hsave, hpaint, hpainted, hrestore⟩ :=
    save_paint_restore (fun c => pointerPixels[slot c]?.bind cursorColor) hplace hslot
  have hsave' : saveBackground v rendered = some saved := by
    rw [saveBackground, forCursor_eq]
    exact hsave
  have hrestore' : restoreBackground v saved shown = some rendered := by
    rw [restoreBackground, forCursor_eq]
    exact hrestore
  refine ⟨shown, ?_, hpainted.length, fun px py hx hy => shown_pixel hlength hpainted hx hy⟩
  rw [draw, hsave', drawCursor_eq_paint]
  show (paint _ _ _ rendered).bind _ = _
  rw [hpaint]
  show (restoreBackground v saved shown).bind _ = _
  rw [hrestore']
  rfl

/-- A cursor of which one cell is on the screen, in its last corner. -/
theorem draw_in_corner : ∃ shown,
    draw ⟨5, 3, 4, 2⟩ (List.replicate 15 white) = some (shown, List.replicate 15 white)
      ∧ shown.length = (List.replicate 15 white).length
      ∧ ∀ px py, px < 5 → py < 3 → shown[py * 5 + px]?
        = (List.replicate 15 white)[py * 5 + px]?.map (overlaid ⟨5, 3, 4, 2⟩ px py) :=
  draw_leaves_no_trace ⟨5, 3, 4, 2⟩ (List.replicate 15 white) rfl

example : overlaid ⟨5, 3, 4, 2⟩ 4 2 white = black := by decide

/-- What the loops compute are values of `usize`, for dimensions of 32 bits and a position that is
clamped to them. -/
theorem index_fits {v : View} (hwidth : v.screenWidth < 2 ^ 32) (hheight : v.screenHeight < 2 ^ 32)
    (hx : v.physX ≤ v.screenWidth) (hy : v.physY ≤ v.screenHeight) {x y : ℕ}
    (hcolumn : x < pointerWidth) (hrow : y < pointerHeight) :
    v.physX + x < 2 ^ 64 ∧ v.physY + y < 2 ^ 64
      ∧ (v.physX + x < v.screenWidth → v.physY + y < v.screenHeight →
        (v.physY + y) * v.screenWidth + (v.physX + x) < 2 ^ 64) := by
  have hcolumn : x < 12 := hcolumn
  have hrow : y < 19 := hrow
  refine ⟨by omega, by omega, fun hvisible hvisible' => ?_⟩
  calc (v.physY + y) * v.screenWidth + (v.physX + x)
      < v.screenWidth * v.screenHeight := index_lt hvisible hvisible'
    _ ≤ 2 ^ 32 * 2 ^ 32 := Nat.mul_le_mul hwidth.le hheight.le

end WebUiBoot.Ui
