import WebUiBoot.Ui.Pointer

/-!
# Frames

What `run_slint_ui` and `force_flush_logs` of `src/slint_plat.rs` hand to `blt`, over whole runs.
The window is set up with `RepaintBufferType::ReusedBuffer`: only what has changed is written, on
the assumption that the buffer still holds the frame before, over which a cursor was painted.

* `Renderer` — the renderer of the window, and `ReusesBuffer` — what it is documented to do;
* `display` — iterations of `run_slint_ui` and calls of `force_flush_logs`, in any order;
* `repainted` — the same without a buffer: every frame is the picture of its scene;
* `frames_repainted` — over every run the two are the same.

Neither function is called from the closure of the other here.
-/

namespace WebUiBoot.Ui

open WebUiBoot.Overlay WebUiBoot.Trace

variable {Scene : Type*}

/-! ### Model -/

/-- The software renderer. -/
structure Renderer (Scene : Type*) where
  /-- What a scene looks like. -/
  picture : Scene → List BltPixel
  /-- `render`, with the scene that was rendered last, if there was one. -/
  render : Option Scene → Scene → List BltPixel → List BltPixel

/-- `ReusedBuffer`: the first frame is drawn as a whole, and a frame is brought up to date in the
buffer that holds the one before. -/
structure Renderer.ReusesBuffer (renderer : Renderer Scene) (length : ℕ) : Prop where
  length_picture : ∀ scene, (renderer.picture scene).length = length
  first : ∀ scene fb, fb.length = length → renderer.render none scene fb = renderer.picture scene
  next : ∀ last scene,
    renderer.render (some last) scene (renderer.picture last) = renderer.picture scene

/-- The position of the cursor, `fb`, and the scene that was rendered last. -/
structure Canvas (Scene : Type*) where
  position : Position
  fb : List BltPixel
  rendered : Option Scene

def Canvas.start (screen : ScreenSize) : Canvas Scene :=
  ⟨.start screen, List.replicate (screen.width * screen.height) black, none⟩

inductive FrameInput (Scene : Type*)
  /-- An iteration of `run_slint_ui`: what the mice answer, whether a redraw was requested before,
  and the scene at its end. -/
  | iterate (mice : List (List (Option Mouse))) (requested : Bool) (scene : Scene)
  | forceFlushLogs (scene : Scene)

/-- The buffer that is handed to `blt`, or an index that was out of bounds. -/
inductive BltCall
  | blt (buffer : List BltPixel)
  | panic

def cursorView (screen : ScreenSize) (position : Position) : View :=
  ⟨screen.width, screen.height, position.x.toNat, position.y.toNat⟩

/-- The closure of `run_slint_ui`. -/
def drawFrame (screen : ScreenSize) (renderer : Renderer Scene) (canvas : Canvas Scene)
    (scene : Scene) : Canvas Scene × List BltCall :=
  let fb := renderer.render canvas.rendered scene canvas.fb
  match draw (cursorView screen canvas.position) fb with
  | none => (⟨canvas.position, fb, some scene⟩, [.panic])
  | some (shown, left) => (⟨canvas.position, left, some scene⟩, [.blt shown])

/-- The closure of `force_flush_logs`, which does not draw the cursor. -/
def flushFrame (renderer : Renderer Scene) (canvas : Canvas Scene) (scene : Scene) :
    Canvas Scene × List BltCall :=
  let fb := renderer.render canvas.rendered scene canvas.fb
  (⟨canvas.position, fb, some scene⟩, [.blt fb])

def display (screen : ScreenSize) (renderer : Renderer Scene) :
    Machine (Canvas Scene) (FrameInput Scene) BltCall where
  step canvas input :=
    match input with
    | .iterate mice requested scene =>
        let moved := (pointerLoop screen).step canvas.position mice
        let canvas := { canvas with position := moved.1 }
        if requested || moved.2.contains .requestRedraw then drawFrame screen renderer canvas scene
        else (canvas, [])
    | .forceFlushLogs scene => flushFrame renderer canvas scene

/-! ### Frames without a buffer -/

/-- A picture with the cursor over it. -/
def withCursor (v : View) (picture : List BltPixel) : List BltPixel :=
  picture.mapIdx fun i pixel => overlaid v (i % v.screenWidth) (i / v.screenWidth) pixel

/-- Every frame is painted anew, with the cursor where exact arithmetic puts it. -/
def repainted (screen : ScreenSize) (picture : Scene → List BltPixel) :
    Machine Position (FrameInput Scene) BltCall where
  step position input :=
    match input with
    | .iterate mice requested scene =>
        let position := (iterationStates mice).foldl (exactMove screen) position
        (position, if requested ∨ iterationStates mice ≠ [] then
            [.blt (withCursor (cursorView screen position) (picture scene))]
          else [])
    | .forceFlushLogs scene => (position, [.blt (picture scene)])

/-! ### One frame -/

/-- The loops of the closure in one: the cursor over the rendered buffer, and this buffer again. -/
theorem draw_eq {v : View} {rendered : List BltPixel}
    (hlength : rendered.length = v.screenWidth * v.screenHeight) :
    draw v rendered = some (withCursor v rendered, rendered) := by
  have hplace : Places (place v) (cells v) rendered.length := hlength ▸ cellPlaces v
  have hslot : Places slot (cells v)
      (List.replicate (pointerWidth * pointerHeight) black).length := by
    rw [List.length_replicate]
    exact slotPlaces v
  obtain ⟨saved, shown, hsave, hpaint, hpainted, hrestore⟩ :=
    save_paint_restore (fun c => pointerPixels[slot c]?.bind cursorColor) hplace hslot
  have hshown : shown = withCursor v rendered := by
    apply List.ext_getElem?
    intro i
    rw [withCursor, List.getElem?_mapIdx]
    by_cases hi : i < rendered.length
    · have hwidth : 0 < v.screenWidth := by
        apply Nat.pos_of_ne_zero
        intro hzero
        rw [hlength, hzero, Nat.zero_mul] at hi
        exact Nat.not_lt_zero i hi
      have hindex : i / v.screenWidth * v.screenWidth + i % v.screenWidth = i := Nat.div_add_mod' i _
      have hrow : i / v.screenWidth < v.screenHeight :=
        Nat.div_lt_of_lt_mul (hlength ▸ hi)
      have hpixel := shown_pixel hlength hpainted (Nat.mod_lt i hwidth) hrow
      rw [hindex] at hpixel
      exact hpixel
    · have hlength' : shown.length = rendered.length := hpainted.length
      rw [List.getElem?_eq_none (by omega), List.getElem?_eq_none (by omega)]
      rfl
  have hsave' : saveBackground v rendered = some saved := by
    rw [saveBackground, forCursor_eq]
    exact hsave
  have hrestore' : restoreBackground v saved shown = some rendered := by
    rw [restoreBackground, forCursor_eq]
    exact hrestore
  rw [draw, hsave', drawCursor_eq_paint]
  show (paint _ _ _ rendered).bind _ = _
  rw [hpaint]
  show (restoreBackground v saved shown).bind _ = _
  rw [hrestore', hshown]
  rfl

/-- What the renderer relies on: the buffer is as it has left it. -/
structure Intact (screen : ScreenSize) (renderer : Renderer Scene) (canvas : Canvas Scene) :
    Prop where
  onScreen : OnScreen screen canvas.position
  length : canvas.fb.length = screen.width * screen.height
  fb : ∀ scene, canvas.rendered = some scene → canvas.fb = renderer.picture scene

variable {screen : ScreenSize} {renderer : Renderer Scene} {canvas : Canvas Scene}

theorem Intact.render_eq (h : Intact screen renderer canvas)
    (hreuses : renderer.ReusesBuffer (screen.width * screen.height)) (scene : Scene) :
    renderer.render canvas.rendered scene canvas.fb = renderer.picture scene := by
  cases hrendered : canvas.rendered with
  | none => exact hreuses.first scene canvas.fb h.length
  | some last =>
      rw [h.fb last hrendered]
      exact hreuses.next last scene

theorem intact_picture (hreuses : renderer.ReusesBuffer (screen.width * screen.height))
    {position : Position} (honScreen : OnScreen screen position) (scene : Scene) :
    Intact screen renderer ⟨position, renderer.picture scene, some scene⟩ where
  onScreen := honScreen
  length := hreuses.length_picture scene
  fb _ hscene := congrArg renderer.picture (Option.some.inj hscene)

theorem drawFrame_eq (h : Intact screen renderer canvas)
    (hreuses : renderer.ReusesBuffer (screen.width * screen.height)) (scene : Scene) :
    drawFrame screen renderer canvas scene
      = (⟨canvas.position, renderer.picture scene, some scene⟩,
        [.blt (withCursor (cursorView screen canvas.position) (renderer.picture scene))]) := by
  have hlength : (renderer.picture scene).length
      = (cursorView screen canvas.position).screenWidth
        * (cursorView screen canvas.position).screenHeight := hreuses.length_picture scene
  unfold drawFrame
  rw [h.render_eq hreuses]
  dsimp only
  rw [draw_eq hlength]

theorem flushFrame_eq (h : Intact screen renderer canvas)
    (hreuses : renderer.ReusesBuffer (screen.width * screen.height)) (scene : Scene) :
    flushFrame renderer canvas scene
      = (⟨canvas.position, renderer.picture scene, some scene⟩,
        [.blt (renderer.picture scene)]) := by
  unfold flushFrame
  rw [h.render_eq hreuses]

/-! ### One iteration -/

theorem requestRedraw_notMem_mouseReader (states : List Mouse) :
    ∀ position, .requestRedraw ∉ ((mouseReader screen).run position states).2 := by
  induction states with
  | nil => exact fun _ => List.not_mem_nil
  | cons mouse states ih =>
      intro position hmem
      rw [Machine.run_cons] at hmem
      rcases List.mem_append.mp hmem with hone | hrest
      · change PointerCall.requestRedraw ∈ (readMouse screen position mouse).2 at hone
        unfold readMouse at hone
        dsimp only at hone
        split at hone <;> split at hone <;> simp at hone
      · exact ih _ hrest

/-- A redraw is requested exactly when a mouse has reported something. -/
theorem requestRedraw_mem_iff (position : Position) (mice : List (List (Option Mouse))) :
    .requestRedraw ∈ ((pointerLoop screen).step position mice).2 ↔ iterationStates mice ≠ [] := by
  show _ ∈ _ ++ _ ↔ _
  rw [List.mem_append, or_iff_right (requestRedraw_notMem_mouseReader _ position)]
  by_cases hstates : iterationStates mice = []
  · rw [if_pos hstates]
    exact iff_of_false List.not_mem_nil fun h => h hstates
  · rw [if_neg hstates]
    exact iff_of_true List.mem_cons_self hstates

/-- **One step.**  It is one of the machine without a buffer, and leaves the buffer as the renderer
needs it. -/
theorem display_step (hreuses : renderer.ReusesBuffer (screen.width * screen.height))
    (h : Intact screen renderer canvas) (input : FrameInput Scene) :
    (repainted screen renderer.picture).step canvas.position input
        = (((display screen renderer).step canvas input).1.position,
          ((display screen renderer).step canvas input).2)
      ∧ Intact screen renderer ((display screen renderer).step canvas input).1 := by
  cases input with
  | iterate mice requested scene =>
      obtain ⟨hposition, honScreen, _⟩ :=
        mouseReader_run screen (iterationStates mice) h.onScreen
      have hmoved : ((pointerLoop screen).step canvas.position mice).1
          = (iterationStates mice).foldl (exactMove screen) canvas.position := hposition
      rw [hposition] at honScreen
      have hintact : Intact screen renderer
          { canvas with
            position := (iterationStates mice).foldl (exactMove screen) canvas.position } :=
        ⟨honScreen, h.length, h.fb⟩
      have hredraw : (requested
          || ((pointerLoop screen).step canvas.position mice).2.contains .requestRedraw) = true
          ↔ requested ∨ iterationStates mice ≠ [] := by
        rw [Bool.or_eq_true, List.contains_iff_mem, requestRedraw_mem_iff]
      unfold display repainted
      dsimp only
      by_cases hdraw : requested ∨ iterationStates mice ≠ []
      · rw [if_pos hdraw, if_pos (hredraw.mpr hdraw), hmoved, drawFrame_eq hintact hreuses]
        exact ⟨rfl, intact_picture hreuses honScreen scene⟩
      · rw [if_neg hdraw, if_neg (mt hredraw.mp hdraw), hmoved]
        exact ⟨rfl, hintact⟩
  | forceFlushLogs scene =>
      unfold display repainted
      dsimp only
      rw [flushFrame_eq h hreuses]
      exact ⟨rfl, intact_picture hreuses h.onScreen scene⟩

/-! ### Runs -/

theorem start_intact : Intact screen renderer (.start screen) where
  onScreen := start_onScreen screen
  length := List.length_replicate
  fb _ hscene := absurd hscene (Option.some_ne_none _).symm

/-- **Frames.**  Whatever the mice report, whenever the scene changes and whenever logs are flushed
between the iterations: no index is out of bounds, and every frame that goes to the screen is the
picture of its scene as a whole, from `run_slint_ui` with the cursor at its exact position, although
only changes are rendered.  In the end the buffer holds the last picture, without the cursor. -/
theorem frames_repainted (screen : ScreenSize) {renderer : Renderer Scene}
    (hreuses : renderer.ReusesBuffer (screen.width * screen.height))
    (inputs : List (FrameInput Scene)) :
    let r := (display screen renderer).run (.start screen) inputs
    (repainted screen renderer.picture).run (.start screen) inputs = (r.1.position, r.2)
      ∧ OnScreen screen r.1.position
      ∧ ∀ scene, r.1.rendered = some scene → r.1.fb = renderer.picture scene := by
  have hrefines := (display screen renderer).run_refines (repainted screen renderer.picture)
    (I := Intact screen renderer) (Q := fun _ => True) (f := Canvas.position)
    (fun _ input h _ => (display_step hreuses h input).2)
    (fun _ input h _ => (display_step hreuses h input).1)
    (fun input (_ : input ∈ inputs) => trivial) (.start screen) start_intact
  have hintact := (display screen renderer).run_preserves (I := Intact screen renderer)
    (fun _ input h => (display_step hreuses h input).2) inputs start_intact
  exact ⟨hrefines, hintact.onScreen, hintact.fb⟩

/-- A window of one colour, which is rendered by writing the pixels that have changed. -/
def plainRenderer (length : ℕ) : Renderer BltPixel where
  picture color := List.replicate length color
  render last color fb :=
    match last with
    | none => fb.map fun _ => color
    | some last => if last = color then fb else fb.map fun pixel =>
        if pixel = last then color else pixel

theorem plainRenderer_reusesBuffer (length : ℕ) : (plainRenderer length).ReusesBuffer length where
  length_picture _ := List.length_replicate
  first color fb hlength := by
    show fb.map (fun _ => color) = List.replicate length color
    rw [List.map_const', hlength]
  next last color := by
    show (if last = color then List.replicate length last
      else (List.replicate length last).map fun pixel => if pixel = last then color else pixel)
        = List.replicate length color
    by_cases hsame : last = color
    · rw [if_pos hsame, hsame]
    · rw [if_neg hsame, List.map_replicate, if_pos rfl]

/-- The window appears, the mouse is moved to the last corner, logs are flushed, and the window
changes its colour. -/
theorem frames_repainted_cornered :
    let screen : ScreenSize := ⟨23, 37, by decide, by decide, by decide, by decide⟩
    let inputs : List (FrameInput BltPixel) :=
      [.iterate [] true white, .iterate [[some ⟨40, 40, 0, true, false⟩, none]] false white,
        .forceFlushLogs white, .iterate [] true black]
    let r := (display screen (plainRenderer (23 * 37))).run (.start screen) inputs
    (repainted screen (plainRenderer (23 * 37)).picture).run (.start screen) inputs
        = (r.1.position, r.2)
      ∧ OnScreen screen r.1.position
      ∧ ∀ scene, r.1.rendered = some scene → r.1.fb = (plainRenderer (23 * 37)).picture scene :=
  frames_repainted ⟨23, 37, by decide, by decide, by decide, by decide⟩
    (plainRenderer_reusesBuffer (23 * 37)) _

end WebUiBoot.Ui
