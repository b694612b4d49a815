import WebUiBoot.Lib.Trace
import WebUiBoot.Web.Http

/-!
# Keys and boot attempts

The keyboard part of `run_slint_ui` in `src/slint_plat.rs`, and `key-handler` of
`ui/appwindow.slint`.  A key that is read goes through two pieces of code: the handler of the window,
and a variable that remembers the last key of the batch that asks for a direct boot.

* `keyPressed` — the handler, with the callbacks it makes;
* `readKeys` / `keyLoop` — one batch of keys, and the iterations of the loop;
* `denotedAttempts` — what the keys ask for, one attempt per boot key;
* `one_attempt_per_key_iff` — the loop attempts just that exactly when no key asks for a direct
  boot.

Boot attempts fail and return, and an attempt is the selection that it is for:
`boot_os` with the Windows boot manager, or `boot_linux_direct`.
-/

namespace WebUiBoot.Ui

open WebUiBoot.Web WebUiBoot.Trace

/-- The keys that start a boot. -/
def bootKeys : List Char := ['1', 'w', 'W', '2', 'l', 'L', '\n', ' ']

/-- The characters that Slint uses for the keys `Key.LeftArrow`, `Key.RightArrow` and `Key.Tab`. -/
structure KeyCodes where
  leftArrow : Char
  rightArrow : Char
  tab : Char
  not_boot : ∀ key ∈ [leftArrow, rightArrow, tab], key ∉ bootKeys

/-- The properties of `AppWindow` that the handler uses. -/
structure AppWindow where
  selectedIndex : ℤ
  statusText : String
  deriving DecidableEq

/-- The window as `efi_main` sets it up. -/
def AppWindow.new : AppWindow := ⟨0, "Select OS to boot..."⟩

/-! ### The handler -/

/-- What `key-pressed` comes to: the window, the callbacks `boot-windows` and `boot-linux`, and
whether the event is accepted. -/
structure Handled where
  window : AppWindow
  callbacks : List BootSelection
  accepted : Bool

def keyPressed (codes : KeyCodes) (root : AppWindow) (text : Char) : Handled :=
  if text = codes.leftArrow ∨ text = codes.rightArrow ∨ text = codes.tab then
    ⟨{ root with selectedIndex := if root.selectedIndex = 0 then 1 else 0 }, [], true⟩
  else if text = '\n' ∨ text = ' ' then
    if root.selectedIndex = 0 then
      ⟨{ root with statusText := "Booting Windows..." }, [.windows], true⟩
    else
      ⟨{ root with statusText := "Booting Linux..." }, [.linux], true⟩
  else if text = '1' ∨ text = 'w' ∨ text = 'W' then
    ⟨⟨0, "Booting Windows..."⟩, [.windows], true⟩
  else if text = '2' ∨ text = 'l' ∨ text = 'L' then
    ⟨⟨1, "Booting Linux..."⟩, [.linux], true⟩
  else ⟨root, [], false⟩

/-- Keys dispatched to the window, one after the other. -/
def keyHandler (codes : KeyCodes) : Machine AppWindow Char BootSelection where
  step root key :=
    let r := keyPressed codes root key
    (r.window, r.callbacks)

/-! ### The loop -/

/-- The assignment to `direct_boot` for a key. -/
def directBoot (direct : Option BootSelection) (key : Char) : Option BootSelection :=
  if key = '1' ∨ key = 'w' ∨ key = 'W' then some .windows
  else if key = '2' ∨ key = 'l' ∨ key = 'L' then some .linux
  else direct

/-- The loop over the keys of a batch: the window and `direct_boot` after it, and the attempts made
by the callbacks.  A released key has no handler. -/
def readKeys (codes : KeyCodes) (window : AppWindow) (direct : Option BootSelection) :
    List Char → AppWindow × Option BootSelection × List BootSelection
  | [] => (window, direct, [])
  | key :: keys =>
      let direct := directBoot direct key
      let r := keyPressed codes window key
      let rest := readKeys codes r.window direct keys
      (rest.1, rest.2.1, r.callbacks ++ rest.2.2)

/-- Iterations of the loop of `run_slint_ui`, each with the keys that it reads.  What is remembered
in `direct_boot` is attempted after the batch. -/
def keyLoop (codes : KeyCodes) : Machine AppWindow (List Char) BootSelection where
  step window keys :=
    let r := readKeys codes window none keys
    (r.1, r.2.2 ++ r.2.1.toList)

/-! ### What the keys ask for -/

/-- The system that a boot key denotes while `selected` is selected. -/
def denotes (selected : ℤ) (key : Char) : Option BootSelection :=
  if key ∈ ['1', 'w', 'W'] then some .windows
  else if key ∈ ['2', 'l', 'L'] then some .linux
  else if key ∈ ['\n', ' '] then some (if selected = 0 then .windows else .linux)
  else none

/-- One attempt per boot key, in key order, for the system that the key denotes when it is read. -/
def denotedAttempts (codes : KeyCodes) (window : AppWindow) : List Char → List BootSelection
  | [] => []
  | key :: keys =>
      (denotes window.selectedIndex key).toList
        ++ denotedAttempts codes (keyPressed codes window key).window keys

/-- A key that asks for a direct boot. -/
def IsDirect (key : Char) : Prop := key ∈ ['1', 'w', 'W', '2', 'l', 'L']

instance : DecidablePred IsDirect := fun key =>
  inferInstanceAs (Decidable (key ∈ ['1', 'w', 'W', '2', 'l', 'L']))

/-! ### The handler attempts what the keys ask for -/

theorem denotes_of_not_boot {key : Char} (h : key ∉ bootKeys) (selected : ℤ) :
    denotes selected key = none := by
  have hwindows : key ∉ ['1', 'w', 'W'] := fun hmem => h (List.mem_append_left _ hmem)
  have hrest : key ∉ ['2', 'l', 'L', '\n', ' '] := fun hmem =>
    h (List.mem_append_right ['1', 'w', 'W'] hmem)
  have hlinux : key ∉ ['2', 'l', 'L'] := fun hmem => hrest (List.mem_append_left _ hmem)
  have henter : key ∉ ['\n', ' '] := fun hmem =>
    hrest (List.mem_append_right ['2', 'l', 'L'] hmem)
  unfold denotes
  rw [if_neg hwindows, if_neg hlinux, if_neg henter]

theorem keyPressed_callbacks (codes : KeyCodes) (root : AppWindow) (key : Char) :
    (keyPressed codes root key).callbacks = (denotes root.selectedIndex key).toList := by
  unfold keyPressed
  by_cases harrow : key = codes.leftArrow ∨ key = codes.rightArrow ∨ key = codes.tab
  · rw [if_pos harrow, denotes_of_not_boot (codes.not_boot key (by simpa using harrow))]
    rfl
  · rw [if_neg harrow]
    by_cases henter : key = '\n' ∨ key = ' '
    · rw [if_pos henter]
      have hdenotes : denotes root.selectedIndex key
          = some (if root.selectedIndex = 0 then .windows else .linux) := by
        rcases henter with rfl | rfl <;> rfl
      rw [hdenotes]
      by_cases hselected : root.selectedIndex = 0
      · rw [if_pos hselected, if_pos hselected]
        rfl
      · rw [if_neg hselected, if_neg hselected]
        rfl
    · rw [if_neg henter]
      by_cases hwindows : key = '1' ∨ key = 'w' ∨ key = 'W'
      · rw [if_pos hwindows]
        rcases hwindows with rfl | rfl | rfl <;> rfl
      · rw [if_neg hwindows]
        by_cases hlinux : key = '2' ∨ key = 'l' ∨ key = 'L'
        · rw [if_pos hlinux]
          rcases hlinux with rfl | rfl | rfl <;> rfl
        · have hnot : key ∉ bootKeys := by
            simp only [bootKeys, List.mem_cons, List.not_mem_nil]
            tauto
          rw [if_neg hlinux, denotes_of_not_boot hnot]
          rfl

/-- **The handler alone is right**: one attempt per boot key. -/
theorem keyHandler_attempts (codes : KeyCodes) (keys : List Char) :
    ∀ window, ((keyHandler codes).run window keys).2 = denotedAttempts codes window keys := by
  induction keys with
  | nil => exact fun _ => rfl
  | cons key keys ih =>
      intro window
      show (keyPressed codes window key).callbacks
        ++ ((keyHandler codes).run (keyPressed codes window key).window keys).2 = _
      rw [ih, keyPressed_callbacks]
      rfl

/-! ### The loop attempts more -/

theorem readKeys_eq (codes : KeyCodes) (keys : List Char) :
    ∀ window direct, readKeys codes window direct keys
      = (((keyHandler codes).run window keys).1, keys.foldl directBoot direct,
          ((keyHandler codes).run window keys).2) := by
  induction keys with
  | nil => exact fun _ _ => rfl
  | cons key keys ih =>
      intro window direct
      simp only [readKeys, ih]
      rfl

theorem directBoot_eq_none_iff {direct : Option BootSelection} {key : Char} :
    directBoot direct key = none ↔ direct = none ∧ ¬ IsDirect key := by
  unfold directBoot
  by_cases hwindows : key = '1' ∨ key = 'w' ∨ key = 'W'
  · rw [if_pos hwindows]
    refine ⟨nofun, fun h => absurd ?_ h.2⟩
    rcases hwindows with rfl | rfl | rfl <;> decide
  · rw [if_neg hwindows]
    by_cases hlinux : key = '2' ∨ key = 'l' ∨ key = 'L'
    · rw [if_pos hlinux]
      refine ⟨nofun, fun h => absurd ?_ h.2⟩
      rcases hlinux with rfl | rfl | rfl <;> decide
    · rw [if_neg hlinux]
      refine (and_iff_left fun h => ?_).symm
      simp only [IsDirect, List.mem_cons, List.not_mem_nil] at h
      tauto

theorem foldl_directBoot_eq_none_iff (keys : List Char) :
    ∀ {direct : Option BootSelection}, keys.foldl directBoot direct = none
      ↔ direct = none ∧ ∀ key ∈ keys, ¬ IsDirect key := by
  induction keys with
  | nil => exact fun {_} => (and_iff_left nofun).symm
  | cons key keys ih =>
      intro direct
      rw [List.foldl_cons, ih, directBoot_eq_none_iff, and_assoc, List.forall_mem_cons]

/-- The window after some iterations is the one that has handled the keys, and to the attempts that
these ask for one is added for each batch with a direct key. -/
theorem keyLoop_run (codes : KeyCodes) (batches : List (List Char)) :
    ∀ window, ((keyLoop codes).run window batches).1
        = ((keyHandler codes).run window batches.flatten).1
      ∧ ((keyLoop codes).run window batches).2.length
        = (denotedAttempts codes window batches.flatten).length
          + batches.countP fun keys => (keys.foldl directBoot none).isSome := by
  induction batches with
  | nil => exact fun _ => ⟨rfl, rfl⟩
  | cons keys batches ih =>
      intro window
      have hkeys := readKeys_eq codes keys window none
      obtain ⟨hwindow, hlength⟩ := ih ((keyHandler codes).run window keys).1
      have hstep : (keyLoop codes).step window keys = (((keyHandler codes).run window keys).1,
          ((keyHandler codes).run window keys).2 ++ (keys.foldl directBoot none).toList) := by
        show ((readKeys codes window none keys).1, _) = _
        rw [hkeys]
      rw [Machine.run_cons, hstep, List.flatten_cons, ← keyHandler_attempts, Machine.run_append]
      refine ⟨hwindow, ?_⟩
      rw [List.length_append, List.length_append, List.length_append, hlength, keyHandler_attempts,
        keyHandler_attempts, List.countP_cons]
      cases keys.foldl directBoot none with
      | none =>
          show _ + 0 + (_ + _) = _ + _ + (_ + 0)
          omega
      | some selection =>
          show _ + 1 + (_ + _) = _ + _ + (_ + 1)
          omega

/-- Without a direct key the attempts are those of the callbacks. -/
theorem keyLoop_attempts (codes : KeyCodes) (batches : List (List Char)) :
    ∀ window, (∀ keys ∈ batches, keys.foldl directBoot none = none) →
      ((keyLoop codes).run window batches).2 = denotedAttempts codes window batches.flatten := by
  induction batches with
  | nil => exact fun _ _ => rfl
  | cons keys batches ih =>
      intro window hnone
      obtain ⟨hkeys, hbatches⟩ := List.forall_mem_cons.mp hnone
      have hstep : (keyLoop codes).step window keys = ((keyHandler codes).run window keys) := by
        show ((readKeys codes window none keys).1, (readKeys codes window none keys).2.2
          ++ (readKeys codes window none keys).2.1.toList) = _
        rw [readKeys_eq, hkeys, Option.toList_none, List.append_nil]
      rw [Machine.run_cons, hstep, ih _ hbatches, List.flatten_cons, ← keyHandler_attempts,
        ← keyHandler_attempts, Machine.run_append]

/-- **When one key press is one boot attempt.**  For all keys, in any grouping into iterations, the
sequence of boot attempts is the one that the keys ask for exactly when no key asks for a direct
boot: the handler of the window attempts it, and the loop does so again after the batch. -/
theorem one_attempt_per_key_iff (codes : KeyCodes) (window : AppWindow)
    (batches : List (List Char)) :
    ((keyLoop codes).run window batches).2 = denotedAttempts codes window batches.flatten
      ↔ ∀ key ∈ batches.flatten, ¬ IsDirect key := by
  have hnone : (∀ keys ∈ batches, keys.foldl directBoot none = none)
      ↔ ∀ key ∈ batches.flatten, ¬ IsDirect key := by
    simp only [List.mem_flatten, foldl_directBoot_eq_none_iff, true_and]
    exact ⟨fun h key ⟨keys, hkeys, hkey⟩ => h keys hkeys key hkey,
      fun h keys hkeys key hkey => h key ⟨keys, hkeys, hkey⟩⟩
  rw [← hnone]
  refine ⟨fun heq => ?_, keyLoop_attempts codes batches window⟩
  have hlength := (keyLoop_run codes batches window).2
  have hcount : batches.countP (fun keys => (keys.foldl directBoot none).isSome) = 0 := by
    rw [heq] at hlength
    omega
  intro keys hkeys
  exact Option.not_isSome_iff_eq_none.mp (List.countP_eq_zero.mp hcount keys hkeys)

theorem slintKeys_not_boot : ∀ key ∈ ['\uf702', '\uf703', '\t'], key ∉ bootKeys := by
  simp only [List.forall_mem_cons, List.not_mem_nil]
  refine ⟨by decide, by decide, by decide, nofun⟩

/-- The codes of Slint: two characters of a private area, and the tab character. -/
def slintKeys : KeyCodes := ⟨'\uf702', '\uf703', '\t', slintKeys_not_boot⟩

/-- **One key, two attempts.** -/
theorem one_key_boots_twice :
    ((keyLoop slintKeys).run .new [['1']]).2 = [.windows, .windows]
      ∧ denotedAttempts slintKeys .new ['1'] = [.windows]
      ∧ ((keyLoop slintKeys).run .new [['1']]).2
          ≠ denotedAttempts slintKeys .new [['1']].flatten := by
  decide

end WebUiBoot.Ui
