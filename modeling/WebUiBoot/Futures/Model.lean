import WebUiBoot.Executor.Model

/-!
# Sleep futures: model

`src/futures.rs`, future by future, and the tasks that suspend by awaiting them.

* `Firmware` — the UEFI services that the futures use, as parameters;
* `NetworkSleepFuture.poll`, `SlintSleepFuture.poll`, `TimerSleepFuture.poll` — the three futures,
  each under its own guard;
* `SleepTask` / `sleepTasks` — tasks that suspend only by awaiting one of the three: between two
  suspensions a task computes, calls wakers and changes the world in any way it likes.

`set_timer` calls that succeed are logged in the world, so that what is armed can be talked about.
-/

namespace WebUiBoot.Futures

open WebUiBoot.Executor

/-- `core::time::Duration`. -/
structure Duration where
  secs : ℕ
  nanos : ℕ
  secs_lt : secs < 2 ^ 64
  nanos_lt : nanos < 10 ^ 9
  deriving DecidableEq

def Duration.zero : Duration := ⟨0, 0, by decide, by decide⟩

/-- `as_nanos`, a `u128` that cannot overflow. -/
def Duration.asNanos (d : Duration) : ℕ := d.secs * 10 ^ 9 + d.nanos

/-- `(duration.as_nanos() / 100) as u64`. -/
def Duration.ticks (d : Duration) : ℕ := d.asNanos / 100 % 2 ^ 64

/-- The boot services behind the futures; `B` is the state of the firmware. -/
structure Firmware (B E : Type*) where
  /-- `boot::create_event(EventType::TIMER, ..)`. -/
  createEvent : B → Option E × B
  /-- `boot::set_timer(&timer, TimerTrigger::Relative(ticks))`, and whether it succeeds. -/
  setTimer : B → E → ℕ → Bool × B
  /-- `with_stdin(|stdin| stdin.wait_for_key_event())`. -/
  waitForKeyEvent : B → Option E
  /-- `wait_for_input_event` of each pointer of `MOUSE_POINTERS`. -/
  waitForInputEvents : B → List (Option E)
  /-- `get_packet_wait_event`, which the feature `wait-packet-workaround` leaves out. -/
  getPacketWaitEvent : B → Option E
  waitPacketWorkaround : Bool

/-- The world of the tasks: the firmware, and the successful `set_timer` calls so far. -/
structure World (B E : Type*) where
  boot : B
  armed : List (E × ℕ)

structure NetworkSleepFuture (E : Type*) where
  timerEvent : Option E
  isStarted : Bool

structure SlintSleepFuture (E : Type*) where
  timerEvent : Option E
  isStarted : Bool
  duration : Duration

structure TimerSleepFuture (E : Type*) where
  timerEvent : Option E
  isStarted : Bool
  duration : Duration

variable {B E σ : Type*}

def NetworkSleepFuture.new : NetworkSleepFuture E := ⟨none, false⟩

def SlintSleepFuture.new (duration : Duration) : SlintSleepFuture E := ⟨none, false, duration⟩

def TimerSleepFuture.new (duration : Duration) : TimerSleepFuture E := ⟨none, false, duration⟩

/-- The block shared by the three futures: create a timer, set it, register it.  The result of
`set_timer` is ignored; without a timer nothing is registered. -/
def armTimer (fw : Firmware B E) (w : World B E) (ticks : ℕ) :
    Option E × World B E × List (Action E) :=
  match fw.createEvent w.boot with
  | (some timer, boot) =>
      let r := fw.setTimer boot timer ticks
      (some timer, ⟨r.2, if r.1 then w.armed ++ [(timer, ticks)] else w.armed⟩, [.register timer])
  | (none, boot) => (none, ⟨boot, w.armed⟩, [])

/-- The time that `NetworkSleepFuture` sleeps: 10 ms. -/
def networkTicks : ℕ := 100000

def NetworkSleepFuture.poll (fw : Firmware B E) (f : NetworkSleepFuture E) (w : World B E) :
    Polled (NetworkSleepFuture E) (World B E) E :=
  if f.isStarted then ⟨f, w, [], .ready⟩
  else
    let packet := if fw.waitPacketWorkaround then none else fw.getPacketWaitEvent w.boot
    let r := armTimer fw w networkTicks
    ⟨⟨r.1.or f.timerEvent, true⟩, r.2.1, packet.toList.map .register ++ r.2.2, .pending⟩

def SlintSleepFuture.poll (fw : Firmware B E) (f : SlintSleepFuture E) (w : World B E) :
    Polled (SlintSleepFuture E) (World B E) E :=
  if f.isStarted then ⟨f, w, [], .ready⟩
  else
    let key := (fw.waitForKeyEvent w.boot).toList
    let pointers := (fw.waitForInputEvents w.boot).reduceOption
    let ticks := f.duration.ticks
    if ticks > 0 then
      let r := armTimer fw w ticks
      ⟨⟨r.1.or f.timerEvent, true, f.duration⟩, r.2.1, (key ++ pointers).map .register ++ r.2.2,
        .pending⟩
    else ⟨⟨f.timerEvent, true, f.duration⟩, w, (key ++ pointers).map .register, .pending⟩

def TimerSleepFuture.poll (fw : Firmware B E) (f : TimerSleepFuture E) (w : World B E) :
    Polled (TimerSleepFuture E) (World B E) E :=
  if f.isStarted then ⟨f, w, [], .ready⟩
  else
    let ticks := f.duration.ticks
    if ticks > 0 then
      let r := armTimer fw w ticks
      ⟨⟨r.1.or f.timerEvent, true, f.duration⟩, r.2.1, r.2.2, .pending⟩
    else ⟨⟨f.timerEvent, true, f.duration⟩, w, [], .pending⟩

/-! ### Tasks that await them -/

/-- What a task awaits: `NetworkSleepFuture::new()` and so on. -/
inductive Request
  | network
  | slint (duration : Duration)
  | timer (duration : Duration)

/-- The ticks for which the timer of a request is meant to be set. -/
def Request.ticks : Request → ℕ
  | .network => networkTicks
  | .slint duration => duration.ticks
  | .timer duration => duration.ticks

inductive SleepFuture (E : Type*)
  | network (f : NetworkSleepFuture E)
  | slint (f : SlintSleepFuture E)
  | timer (f : TimerSleepFuture E)

namespace SleepFuture

def new : Request → SleepFuture E
  | .network => .network .new
  | .slint duration => .slint (.new duration)
  | .timer duration => .timer (.new duration)

def timerEvent : SleepFuture E → Option E
  | .network f => f.timerEvent
  | .slint f => f.timerEvent
  | .timer f => f.timerEvent

def isStarted : SleepFuture E → Bool
  | .network f => f.isStarted
  | .slint f => f.isStarted
  | .timer f => f.isStarted

/-- The request that the future was made for. -/
def request : SleepFuture E → Request
  | .network _ => .network
  | .slint f => .slint f.duration
  | .timer f => .timer f.duration

def poll (fw : Firmware B E) (w : World B E) :
    SleepFuture E → Polled (SleepFuture E) (World B E) E
  | .network f =>
      let r := f.poll fw w
      ⟨.network r.future, r.world, r.actions, r.result⟩
  | .slint f =>
      let r := f.poll fw w
      ⟨.slint r.future, r.world, r.actions, r.result⟩
  | .timer f =>
      let r := f.poll fw w
      ⟨.timer r.future, r.world, r.actions, r.result⟩

end SleepFuture

/-- What a task does between two suspensions: it changes the firmware's state, calls wakers, and
then finishes (`none`) or awaits a sleep future. -/
structure Resumed (σ B : Type*) where
  boot : B
  wakes : List TaskId
  next : Option (Request × σ)

/-- The state of a task: what it will do next, and the sleep future it is suspended on. -/
structure SleepTask (σ E : Type*) where
  body : σ
  sleeping : Option (SleepFuture E)

def SleepTask.new (body : σ) : SleepTask σ E := ⟨body, none⟩

/-- Tasks that have not been polled yet. -/
def newTasks (bodies : Spawned σ) : Spawned (SleepTask σ E) :=
  ⟨bodies.futures.map .new, by rw [List.length_map]; exact bodies.length_lt⟩

/-- The task goes on until it finishes or awaits a sleep future, which is polled at once. -/
def resumeTask (fw : Firmware B E) (resume : TaskId → σ → B → Resumed σ B) (id : TaskId)
    (body : σ) (w : World B E) : Polled (SleepTask σ E) (World B E) E :=
  let r := resume id body w.boot
  let wakes := r.wakes.map .wake
  match r.next with
  | none => ⟨⟨body, none⟩, ⟨r.boot, w.armed⟩, wakes, .ready⟩
  | some (request, body) =>
      -- a new sleep future is never ready at its first poll, so the body does not go on
      let p := (SleepFuture.new request).poll fw ⟨r.boot, w.armed⟩
      ⟨⟨body, some p.future⟩, p.world, wakes ++ p.actions, p.result⟩

/-- Polling a task polls the sleep future it is suspended on, and resumes it when that is ready. -/
def SleepTask.poll (fw : Firmware B E) (resume : TaskId → σ → B → Resumed σ B) (id : TaskId)
    (task : SleepTask σ E) (w : World B E) : Polled (SleepTask σ E) (World B E) E :=
  match task.sleeping with
  | none => resumeTask fw resume id task.body w
  | some sleep =>
      let p := sleep.poll fw w
      match p.result with
      | .pending => ⟨⟨task.body, some p.future⟩, p.world, p.actions, .pending⟩
      | .ready =>
          let r := resumeTask fw resume id task.body p.world
          ⟨r.future, r.world, p.actions ++ r.actions, r.result⟩

/-- The futures of such tasks, for the executor. -/
def sleepTasks (fw : Firmware B E) (resume : TaskId → σ → B → Resumed σ B) :
    Futures (SleepTask σ E) (World B E) E :=
  ⟨SleepTask.poll fw resume⟩

end WebUiBoot.Futures
