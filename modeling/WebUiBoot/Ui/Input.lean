import WebUiBoot.Ui.Keys

/-!
# From the keyboard to the boot attempts

`get_key_press` of `src/slint_plat.rs` under the loop of `run_slint_ui` that calls it.  The firmware
queues keystrokes, and may report an error; a keystroke that is not known ends the loop over the
keys as an empty queue does.

* `getKeyPress` — what a keystroke is to the window;
* `keyReader` — the loop call by call, with keystrokes that arrive at any time;
* `KeysRead` / `keysRead_step` — what has become of the keystrokes, after any number of calls;
* `slintKeymap` — the characters that Slint uses for its keys;
* `keystrokes_reach_window` — none is lost, repeated or overtaken, and the attempts are those of
  `keyLoop` over some grouping of them.
-/

namespace WebUiBoot.Ui

open WebUiBoot.Web WebUiBoot.Trace

/-! ### Keystrokes -/

/-- `slint::platform::Key`, as far as it is used. -/
inductive SlintKey
  | upArrow
  | downArrow
  | rightArrow
  | leftArrow
  | home
  | endKey
  | insert
  | delete
  | pageUp
  | pageDown
  | escape
  | f1
  | f2
  | f3
  | f4
  | f5
  | f6
  | f7
  | f8
  | f9
  | f10
  | f11
  | f12
  | tab
  deriving DecidableEq

/-- `uefi::proto::console::text::Key`; a `Char16` is a character. -/
inductive UefiKey
  | printable (key : Char)
  | special (key : UInt16)
  deriving DecidableEq

/-- The keys of the scan codes of the firmware. -/
def scanKey (key : UInt16) : Option SlintKey :=
  match key.toNat with
  | 0x01 => some .upArrow
  | 0x02 => some .downArrow
  | 0x03 => some .rightArrow
  | 0x04 => some .leftArrow
  | 0x05 => some .home
  | 0x06 => some .endKey
  | 0x07 => some .insert
  | 0x08 => some .delete
  | 0x09 => some .pageUp
  | 0x0A => some .pageDown
  | 0x17 => some .escape
  | 0x0B => some .f1
  | 0x0C => some .f2
  | 0x0D => some .f3
  | 0x0E => some .f4
  | 0x0F => some .f5
  | 0x10 => some .f6
  | 0x11 => some .f7
  | 0x12 => some .f8
  | 0x13 => some .f9
  | 0x14 => some .f10
  | 0x15 => some .f11
  | 0x16 => some .f12
  | _ => none

/-- The characters that Slint uses for its keys; none of them starts a boot. -/
structure Keymap where
  char : SlintKey → Char
  not_boot : ∀ key, char key ∉ bootKeys

theorem Keymap.codes_not_boot (map : Keymap) :
    ∀ key ∈ [map.char .leftArrow, map.char .rightArrow, map.char .tab], key ∉ bootKeys := by
  simp [map.not_boot]

def Keymap.codes (map : Keymap) : KeyCodes :=
  ⟨map.char .leftArrow, map.char .rightArrow, map.char .tab, map.codes_not_boot⟩

/-- The characters of Slint: those of ASCII where there is one, and a private area for the
others. -/
def slintChar : SlintKey → Char
  | .upArrow => '\uf700'
  | .downArrow => '\uf701'
  | .leftArrow => '\uf702'
  | .rightArrow => '\uf703'
  | .f1 => '\uf704'
  | .f2 => '\uf705'
  | .f3 => '\uf706'
  | .f4 => '\uf707'
  | .f5 => '\uf708'
  | .f6 => '\uf709'
  | .f7 => '\uf70a'
  | .f8 => '\uf70b'
  | .f9 => '\uf70c'
  | .f10 => '\uf70d'
  | .f11 => '\uf70e'
  | .f12 => '\uf70f'
  | .insert => '\uf727'
  | .home => '\uf729'
  | .endKey => '\uf72b'
  | .pageUp => '\uf72c'
  | .pageDown => '\uf72d'
  | .tab => '\t'
  | .escape => '\x1b'
  | .delete => '\x7f'

theorem slintChar_not_boot (key : SlintKey) : slintChar key ∉ bootKeys := by
  cases key <;> decide

def slintKeymap : Keymap := ⟨slintChar, slintChar_not_boot⟩

/-- The handler of the window sees the keys that it compares with. -/
theorem slintKeymap_codes : slintKeymap.codes = slintKeys := rfl

/-- `get_key_press`, by what `read_key` returns; `none` stands for an error. -/
def getKeyPress (map : Keymap) : Option (Option UefiKey) → Option Char
  | none => none
  | some none => none
  | some (some (.printable key)) =>
      if key = '\r' then some '\n'
      else if key = '\t' then some (map.char .tab)
      else some key
  | some (some (.special key)) => (scanKey key).map map.char

/-- What a keystroke is to the window, if it is anything. -/
def keyOf (map : Keymap) (key : UefiKey) : Option Char := getKeyPress map (some (some key))

/-! ### The loop, call by call -/

/-- The keystrokes that wait in the firmware, and what the loop works on. -/
structure Reader where
  queue : List UefiKey
  window : AppWindow
  direct : Option BootSelection

/-- A call of `get_key_press`: what has been typed since the last one, and whether it fails. -/
structure ReadCall where
  arrived : List UefiKey
  fails : Bool

/-- One turn of the loop over the keys.  When there is no key the loop ends, what is remembered in
`direct_boot` is attempted, and the next call is one of the next iteration. -/
def readStep (map : Keymap) (s : Reader) (call : ReadCall) : Reader × List BootSelection :=
  let queue := s.queue ++ call.arrived
  let read := if call.fails then none else some queue.head?
  let rest := if call.fails then queue else queue.tail
  match getKeyPress map read with
  | some key =>
      let r := keyPressed map.codes s.window key
      (⟨rest, r.window, directBoot s.direct key⟩, r.callbacks)
  | none => (⟨rest, s.window, none⟩, s.direct.toList)

def keyReader (map : Keymap) : Machine Reader ReadCall BootSelection := ⟨readStep map⟩

/-- The keys that have been typed, as the window is to see them. -/
def typedKeys (map : Keymap) (calls : List ReadCall) : List Char :=
  (calls.flatMap ReadCall.arrived).filterMap (keyOf map)

variable {map : Keymap} {window : AppWindow}

/-- What has become of the keys that were typed: iterations have read `batches`, the one that is
going on has read `last`, and the others wait. -/
structure KeysRead (map : Keymap) (window : AppWindow) (typed : List Char) (s : Reader)
    (attempts : List BootSelection) (batches : List (List Char)) (last : List Char) : Prop where
  keys : batches.flatten ++ last ++ s.queue.filterMap (keyOf map) = typed
  window_eq : s.window = ((keyHandler map.codes).run window (batches.flatten ++ last)).1
  direct_eq : s.direct = last.foldl directBoot none
  attempts_eq : attempts = ((keyLoop map.codes).run window batches).2
    ++ ((keyHandler map.codes).run ((keyLoop map.codes).run window batches).1 last).2

/-- An iteration ends. -/
theorem KeysRead.endBatch {typed typed' : List Char} {s : Reader} {attempts : List BootSelection}
    {batches : List (List Char)} {last : List Char}
    (h : KeysRead map window typed s attempts batches last) {queue : List UefiKey}
    (hqueue : batches.flatten ++ last ++ queue.filterMap (keyOf map) = typed') :
    KeysRead map window typed' ⟨queue, s.window, none⟩ (attempts ++ s.direct.toList)
      (batches ++ [last]) [] := by
  have hflatten : (batches ++ [last]).flatten = batches.flatten ++ last := by simp
  constructor
  · rw [hflatten, List.append_nil]
    exact hqueue
  · rw [hflatten, List.append_nil]
    exact h.window_eq
  · rfl
  · have hstep : ∀ w, (keyLoop map.codes).step w last = (((keyHandler map.codes).run w last).1,
        ((keyHandler map.codes).run w last).2 ++ (last.foldl directBoot none).toList) := by
      intro w
      show ((readKeys map.codes w none last).1, _) = _
      rw [readKeys_eq]
    rw [Machine.run_append, Machine.run_singleton, hstep, h.attempts_eq, h.direct_eq]
    simp

/-- A key is dispatched to the window. -/
theorem KeysRead.dispatch {typed typed' : List Char} {s : Reader} {attempts : List BootSelection}
    {batches : List (List Char)} {last : List Char}
    (h : KeysRead map window typed s attempts batches last) {queue : List UefiKey} {key : Char}
    (hqueue : batches.flatten ++ last ++ key :: queue.filterMap (keyOf map) = typed') :
    KeysRead map window typed'
      ⟨queue, (keyPressed map.codes s.window key).window, directBoot s.direct key⟩
      (attempts ++ (keyPressed map.codes s.window key).callbacks) batches (last ++ [key]) := by
  have hloop := (keyLoop_run map.codes batches window).1
  have hwindow : ((keyHandler map.codes).run ((keyLoop map.codes).run window batches).1 last).1
      = s.window := by
    rw [hloop, h.window_eq, Machine.run_append]
  constructor
  · simpa using hqueue
  · rw [← List.append_assoc, Machine.run_append, Machine.run_singleton, ← h.window_eq]
    rfl
  · rw [List.foldl_append, h.direct_eq]
    rfl
  · rw [Machine.run_append, Machine.run_singleton, h.attempts_eq, hwindow, List.append_assoc]
    rfl

/-- **One call.** -/
theorem keysRead_step {typed : List Char} {s : Reader} {attempts : List BootSelection}
    {batches : List (List Char)} {last : List Char}
    (h : KeysRead map window typed s attempts batches last) (call : ReadCall) :
    ∃ batches' last', KeysRead map window (typed ++ call.arrived.filterMap (keyOf map))
      (readStep map s call).1 (attempts ++ (readStep map s call).2) batches' last' := by
  have htyped : batches.flatten ++ last ++ (s.queue ++ call.arrived).filterMap (keyOf map)
      = typed ++ call.arrived.filterMap (keyOf map) := by
    rw [List.filterMap_append, ← List.append_assoc, h.keys]
  unfold readStep
  cases hfails : call.fails with
  | true => exact ⟨_, _, h.endBatch htyped⟩
  | false =>
      cases hqueue : s.queue ++ call.arrived with
      | nil =>
          rw [hqueue] at htyped
          exact ⟨_, _, h.endBatch htyped⟩
      | cons key queue =>
          rw [hqueue, List.filterMap_cons] at htyped
          simp only [Bool.false_eq_true, if_false, List.head?_cons, List.tail_cons]
          cases hkey : getKeyPress map (some (some key)) with
          | none =>
              rw [show keyOf map key = none from hkey] at htyped
              exact ⟨_, _, h.endBatch htyped⟩
          | some char =>
              rw [show keyOf map key = some char from hkey] at htyped
              exact ⟨_, _, h.dispatch htyped⟩

/-- **Any number of calls.** -/
theorem keysRead_run (map : Keymap) (window : AppWindow) (calls : List ReadCall) :
    ∃ batches last, KeysRead map window (typedKeys map calls)
      ((keyReader map).run ⟨[], window, none⟩ calls).1
      ((keyReader map).run ⟨[], window, none⟩ calls).2 batches last := by
  induction calls using List.reverseRecOn with
  | nil => exact ⟨[], [], rfl, rfl, rfl, rfl⟩
  | append_singleton calls call ih =>
      obtain ⟨batches, last, h⟩ := ih
      have htyped : typedKeys map (calls ++ [call])
          = typedKeys map calls ++ call.arrived.filterMap (keyOf map) := by
        simp [typedKeys]
      rw [Machine.run_append, Machine.run_singleton, htyped]
      exact keysRead_step h call

/-- **Keystrokes reach the window.**  However keystrokes and calls of `get_key_press` follow each
other, and whichever calls fail: of the keys that were typed and that the window knows, a first part
has been dispatched to it, each once and in order, and the rest still waits; the attempts are those
of `keyLoop` over a grouping of that part, with those of the window for the iteration that is going
on; and once no keystroke waits, the window is what it would be had the keys been typed one by
one. -/
theorem keystrokes_reach_window (map : Keymap) (window : AppWindow) (calls : List ReadCall) :
    let r := (keyReader map).run ⟨[], window, none⟩ calls
    (∃ batches last, batches.flatten ++ last ++ r.1.queue.filterMap (keyOf map)
          = typedKeys map calls
        ∧ r.1.window = ((keyHandler map.codes).run window (batches.flatten ++ last)).1
        ∧ r.1.direct = last.foldl directBoot none
        ∧ r.2 = ((keyLoop map.codes).run window batches).2
          ++ denotedAttempts map.codes ((keyLoop map.codes).run window batches).1 last)
      ∧ (r.1.queue = [] →
          r.1.window = ((keyHandler map.codes).run window (typedKeys map calls)).1) := by
  intro r
  obtain ⟨batches, last, h⟩ := keysRead_run map window calls
  refine ⟨⟨batches, last, h.keys, h.window_eq, h.direct_eq, ?_⟩, fun hdrained => ?_⟩
  · rw [← keyHandler_attempts]
    exact h.attempts_eq
  · have hkeys := h.keys
    rw [hdrained, List.filterMap_nil, List.append_nil] at hkeys
    rw [← hkeys]
    exact h.window_eq

/-- The right arrow and `1` are typed, the second call fails, and the enter key follows. -/
def failingCalls : List ReadCall :=
  [⟨[.special 0x03, .printable '1'], false⟩, ⟨[], true⟩, ⟨[.printable '\r'], false⟩, ⟨[], false⟩,
    ⟨[], false⟩]

/-- The failure ends an iteration, and the keys behind it are read in the next one: `1` by the
window and by `direct_boot`, and the enter key for what is selected then. -/
theorem keystrokes_reach_window_failing :
    let r := (keyReader slintKeymap).run ⟨[], .new, none⟩ failingCalls
    (∃ batches last, batches.flatten ++ last ++ r.1.queue.filterMap (keyOf slintKeymap)
          = typedKeys slintKeymap failingCalls
        ∧ r.1.window = ((keyHandler slintKeymap.codes).run .new (batches.flatten ++ last)).1
        ∧ r.1.direct = last.foldl directBoot none
        ∧ r.2 = ((keyLoop slintKeymap.codes).run .new batches).2
          ++ denotedAttempts slintKeymap.codes
            ((keyLoop slintKeymap.codes).run .new batches).1 last)
      ∧ typedKeys slintKeymap failingCalls = ['\uf703', '1', '\n']
      ∧ r.2 = [.windows, .windows, .windows]
      ∧ r.1.window
        = ((keyHandler slintKeymap.codes).run .new (typedKeys slintKeymap failingCalls)).1 := by
  obtain ⟨hread, hdrained⟩ := keystrokes_reach_window slintKeymap .new failingCalls
  exact ⟨hread, by decide, by decide, hdrained (by decide)⟩

end WebUiBoot.Ui
