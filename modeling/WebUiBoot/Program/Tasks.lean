import WebUiBoot.Boot.Images
import WebUiBoot.Executor.Polls
import WebUiBoot.Futures.Timers
import WebUiBoot.Net.Pending
import WebUiBoot.Ui.Keys

/-!
# The two tasks of the program: model

`run_event_loop` of `src/slint_plat.rs` spawns two tasks and runs the executor: `run` of
`src/main.rs`, which sleeps for 100 ms and then is `run_network`, and `run_slint_ui`.  Both may boot
an operating system, and both share the window.

* `Platform` — what the tasks are linked with: the clock, the network stack below the socket, the
  keyboard, the mouse, and the firmware's answers to the boot code;
* `World` — what the tasks share, with a log of what has been done;
* `networkIteration`, `slintIteration` — the bodies of the two loops;
* `resume` / `program` — the tasks, and the runs of the executor over them.

The machine under the program is of any type, so that every behaviour of it is an instance.  A boot
attempt that starts an operating system for good is the end of a run.
-/

namespace WebUiBoot.Program

open WebUiBoot.Executor WebUiBoot.Futures WebUiBoot.Boot WebUiBoot.Net WebUiBoot.Web WebUiBoot.Ui

/-- What the tasks are linked with; `M` is the state of the machine. -/
structure Platform (M σ : Type) where
  env : Env σ
  codes : KeyCodes
  /-- `get_ms_since_start`. -/
  getMsSinceStart : M → ℕ × M
  /-- `iface.poll`, by what it does to the socket. -/
  ifacePoll : M → ℕ → (σ → σ) × M
  /-- The keys that `get_key_press` returns until it returns `None`. -/
  getKeyPresses : M → List Char × M
  /-- The buttons of the window that the mouse has clicked. -/
  clicks : M → List BootSelection × M
  /-- The answers to `boot_os`, and to `boot_linux_direct`. -/
  osHandles : M → Except Status (List OsVolume)
  linuxHandles : M → Option (List LinuxVolume)
  afterBoot : M → M
  /-- `duration_until_next_timer_update`, or the time of a frame. -/
  pause : M → Duration × M

/-- Who has asked for a boot attempt. -/
inductive Origin
  /-- A request to the web server. -/
  | remote
  /-- A key, through a callback of the window. -/
  | callback
  /-- A key, through the variable `direct_boot`. -/
  | direct
  /-- A button of the window. -/
  | click
  deriving DecidableEq

inductive Event
  | network (event : Net.Event)
  | key (key : Char)
  | clicked (selection : BootSelection)
  /-- A boot attempt that has come back, with what it has done with images. -/
  | attempt (origin : Origin) (selection : BootSelection) (images : List ImageEvent)

/-- What the tasks share. -/
structure World (M σ : Type) where
  machine : M
  socket : σ
  window : AppWindow
  log : List Event

variable {M σ : Type}

/-! ### Booting -/

/-- `"\\EFI\\Microsoft\\Boot\\bootmgfw.efi"`. -/
def windowsPath : Text.Str := "\\EFI\\Microsoft\\Boot\\bootmgfw.efi".toList

/-- What the call of `boot_os` or `boot_linux_direct` for a selection does with images. -/
def bootImages (p : Platform M σ) (m : M) : BootSelection → List ImageEvent
  | .windows => imageEvents (bootOs (p.osHandles m) windowsPath).2
  | .linux => bootLinuxDirect (p.linuxHandles m)

def attempt (p : Platform M σ) (origin : Origin) (w : World M σ) (selection : BootSelection) :
    World M σ :=
  { w with
    machine := p.afterBoot w.machine
    log := w.log ++ [.attempt origin selection (bootImages p w.machine selection)] }

/-! ### `run_network` -/

/-- The selections that an iteration fires. -/
def firedSelections (events : List Net.Event) : List BootSelection :=
  events.filterMap fun
    | .booted selection _ _ _ => some selection
    | _ => none

/-- The body of the loop, with the boot attempt at its end. -/
def networkIteration (p : Platform M σ) (w : World M σ) (pending : Pending) :
    World M σ × Pending :=
  let clock := p.getMsSinceStart w.machine
  let poll := p.ifacePoll clock.2 clock.1
  let r := iterate p.env (w.socket, pending) ⟨clock.1, poll.1⟩
  let w := { w with machine := poll.2, socket := r.1.1, log := w.log ++ r.2.map .network }
  ((firedSelections r.2).foldl (attempt p .remote) w, r.1.2)

/-! ### `run_slint_ui` -/

/-- A key is dispatched to the window, whose callbacks boot at once. -/
def dispatchKey (p : Platform M σ) (w : World M σ) (key : Char) : World M σ :=
  let r := keyPressed p.codes w.window key
  r.callbacks.foldl (attempt p .callback)
    { w with window := r.window, log := w.log ++ [.key key] }

/-- The loop over the keys of an iteration, with the variable `direct_boot`. -/
def dispatchKeys (p : Platform M σ) (w : World M σ) (direct : Option BootSelection) :
    List Char → World M σ × Option BootSelection
  | [] => (w, direct)
  | key :: keys => dispatchKeys p (dispatchKey p w key) (directBoot direct key) keys

/-- `clicked` of a button. -/
def clickWindow : BootSelection → AppWindow
  | .windows => ⟨0, "Booting Windows..."⟩
  | .linux => ⟨1, "Booting Linux..."⟩

def click (p : Platform M σ) (w : World M σ) (selection : BootSelection) : World M σ :=
  attempt p .click
    { w with window := clickWindow selection, log := w.log ++ [.clicked selection] }
    selection

/-- The body of the loop up to its sleep, and the time to sleep. -/
def slintIteration (p : Platform M σ) (w : World M σ) : World M σ × Duration :=
  let keys := p.getKeyPresses w.machine
  let r := dispatchKeys p { w with machine := keys.2 } none keys.1
  let w := r.2.toList.foldl (attempt p .direct) r.1
  let clicks := p.clicks w.machine
  let w := clicks.1.foldl (click p) { w with machine := clicks.2 }
  let pause := p.pause w.machine
  ({ w with machine := pause.2 }, pause.1)

/-! ### The tasks -/

/-- Where a task is when it goes on after a sleep. -/
inductive Body
  /-- `run`, at its beginning. -/
  | run
  /-- The loop of `run_network`, with its variables. -/
  | network (pending : Pending)
  /-- The loop of `run_slint_ui`. -/
  | slint

/-- `Duration::from_millis(100)`. -/
def startDelay : Duration := ⟨0, 100000000, Duration.zero.secs_lt, by decide⟩

def resume (p : Platform M σ) (_ : TaskId) (body : Body) (w : World M σ) :
    Resumed Body (World M σ) :=
  match body with
  | .run => ⟨w, [], some (.timer startDelay, .network .empty)⟩
  | .network pending =>
      let r := networkIteration p w pending
      ⟨r.1, [], some (.network, .network r.2)⟩
  | .slint =>
      let r := slintIteration p w
      ⟨r.1, [], some (.slint r.2, .slint)⟩

/-- The boot services of a machine, for a program on it. -/
def onMachine {E : Type*} (fw : Firmware M E) : Firmware (World M σ) E where
  createEvent w :=
    let r := fw.createEvent w.machine
    (r.1, { w with machine := r.2 })
  setTimer w timer ticks :=
    let r := fw.setTimer w.machine timer ticks
    (r.1, { w with machine := r.2 })
  waitForKeyEvent w := fw.waitForKeyEvent w.machine
  waitForInputEvents w := fw.waitForInputEvents w.machine
  getPacketWaitEvent w := fw.getPacketWaitEvent w.machine
  waitPacketWorkaround := fw.waitPacketWorkaround

/-- `crate::run()` and `run_slint_ui(..)`, in the order in which they are spawned. -/
def bodies : Spawned Body := ⟨[.run, .slint], by decide⟩

/-- The identifiers that they get. -/
def networkTask : TaskId := 0

def slintTask : TaskId := 1

/-- The world when the executor starts. -/
def World.start (m : M) (socket : σ) : World M σ := ⟨m, socket, .new, []⟩

/-- `executor.run()`. -/
def program {E : Type*} [DecidableEq E] (p : Platform M σ) (fw : Firmware M E) (m : M) (socket : σ)
    (inputs : List (Executor.Input E)) :=
  Executor.run (sleepTasks (onMachine fw) (resume p)) ⟨World.start m socket, []⟩
    (newTasks bodies) inputs

end WebUiBoot.Program
