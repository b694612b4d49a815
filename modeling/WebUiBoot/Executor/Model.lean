import Mathlib.Algebra.Ring.Nat
import Mathlib.Data.List.AList
import WebUiBoot.Lib.PushNew
import WebUiBoot.Lib.Trace

/-!
# The cooperative executor: model

`src/executor.rs`, function by function.  The statics of the module (`AWAKE_TASKS`,
`CURRENT_TASK`, `GLOBAL_EVENT_REGISTRY`, `NEXT_ID`) and the fields of `Executor` are the fields
of one `State`.

* `Futures` — what the tasks' futures do is a parameter: polling one yields its new value, a new
  world, the calls of the poll in program order (wakers and event registrations), and the
  `Poll` result.  World and futures are arbitrary types, so every behaviour is an instance.
* `pollTask` / `runOnce` / `waitForEvents` — the executor itself, with `Obs` recording what it
  does: which task is polled with which outcome, and what is passed to the firmware.
* `operations` — the executor as a machine driven by any sequence of spawns, waker calls,
  rounds and waits; `runLoop` — the loop of `Executor::run` with waker calls between its steps.

A poll is atomic (the boot loader is single-threaded), so its waker calls and registrations are
part of one observation.  Events are compared, stored and passed on, never inspected.
-/

namespace WebUiBoot.Executor

open WebUiBoot.PushNew WebUiBoot.Trace

/-- `TaskId(usize)`: an identifier below `2 ^ 64`. -/
abbrev TaskId := ℕ

/-- The number of values of `usize` on the target. -/
def usizeCard : ℕ := 2 ^ 64

inductive Poll
  | ready
  | pending
  deriving DecidableEq, Repr

/-- A call that a future makes while it is polled and that reaches the executor. -/
inductive Action (E : Type*)
  /-- `wake` or `wake_by_ref` on some clone of the waker of task `id`. -/
  | wake (id : TaskId)
  /-- `register_event_for_current_task(&event)`. -/
  | register (event : E)
  deriving DecidableEq, Repr

/-- What one call of `Future::poll` comes to. -/
structure Polled (F W E : Type*) where
  future : F
  world : W
  actions : List (Action E)
  result : Poll

/-- The behaviour of the tasks' futures: how a future of type `F`, polled with the waker of a
task in a world of type `W`, acts. -/
structure Futures (F W E : Type*) where
  poll : TaskId → F → W → Polled F W E

/-- What can be seen of the executor from outside. -/
inductive Obs (E : Type*)
  | spawned (id : TaskId)
  /-- A waker of task `id` is called outside of any poll. -/
  | woken (id : TaskId)
  /-- `run_once` is entered. -/
  | roundBegin
  | polled (id : TaskId) (actions : List (Action E)) (result : Poll)
  /-- The branch `None => continue` of `run_once`. -/
  | missing (id : TaskId)
  /-- `boot::wait_for_event(events)` returns `Ok(index)`, or an error for `none`. -/
  | waited (events : List E) (answer : Option ℕ)
  /-- `boot::stall`. -/
  | stalled
  deriving DecidableEq, Repr

/-- The statics of the module and the fields of the `Executor`. -/
structure State (F W E : Type*) where
  tasks : AList fun _ : TaskId => F
  runQueue : List TaskId
  eventRegistry : List (E × TaskId)
  awakeTasks : List TaskId
  currentTask : Option TaskId
  globalEventRegistry : List (E × TaskId)
  nextId : ℕ
  world : W

variable {F W E : Type*} [DecidableEq E]

/-- `Executor::new`, with the statics at their initial values. -/
def State.new (w : W) : State F W E where
  tasks := ∅
  runQueue := []
  eventRegistry := []
  awakeTasks := []
  currentTask := none
  globalEventRegistry := []
  nextId := 0
  world := w

/-! ### Wakers and registrations -/

def wakeWaker (s : State F W E) (id : TaskId) : State F W E :=
  { s with awakeTasks := pushNew s.awakeTasks id }

def registerEventForCurrentTask (s : State F W E) (event : E) : State F W E :=
  match s.currentTask with
  | some id => { s with globalEventRegistry := pushNew s.globalEventRegistry (event, id) }
  | none => s

def doAction (s : State F W E) : Action E → State F W E
  | .wake id => wakeWaker s id
  | .register event => registerEventForCurrentTask s event

/-- The calls of a poll, in program order. -/
def doActions (s : State F W E) (actions : List (Action E)) : State F W E :=
  actions.foldl doAction s

/-! ### Spawning -/

/-- `NEXT_ID += 1` wraps around, as `usize` does where overflow is not checked. -/
def spawn (s : State F W E) (future : F) : State F W E × List (Obs E) :=
  let id := s.nextId
  ({ s with
      nextId := (s.nextId + 1) % usizeCard
      tasks := s.tasks.insert id future
      runQueue := s.runQueue ++ [id] },
    [.spawned id])

/-! ### One round -/

/-- The drain at the start of `run_once`: `AWAKE_TASKS` is emptied, and the live tasks in it
that are not queued yet are queued. -/
def drainAwake (s : State F W E) : State F W E :=
  { s with
    awakeTasks := []
    runQueue := pushAll s.runQueue (s.awakeTasks.filter (· ∈ s.tasks)) }

/-- Before a poll: `CURRENT_TASK` is set and the task's old registrations are dropped. -/
def beginPoll (s : State F W E) (id : TaskId) : State F W E :=
  { s with
    currentTask := some id
    eventRegistry := s.eventRegistry.filter (·.2 ≠ id) }

/-- After a poll: the task's entries leave the global registry, and enter the executor's own
registry when the poll was `Pending`. -/
def takeRegistrations (s : State F W E) (id : TaskId) (result : Poll) : State F W E :=
  { s with
    eventRegistry := match result with
      | .pending => s.eventRegistry ++ s.globalEventRegistry.filter (·.2 = id)
      | .ready => s.eventRegistry
    globalEventRegistry := s.globalEventRegistry.filter (·.2 ≠ id) }

/-- The last `match` of the loop body. -/
def finishPoll (s : State F W E) (id : TaskId) : Poll → State F W E
  | .ready =>
      { s with
        tasks := s.tasks.erase id
        eventRegistry := s.eventRegistry.filter (·.2 ≠ id) }
  | .pending => s

/-- One turn of the loop over the run list. -/
def pollTask (fut : Futures F W E) (s : State F W E) (id : TaskId) :
    State F W E × List (Obs E) :=
  match s.tasks.lookup id with
  | none => (s, [.missing id])
  | some future =>
      let s₁ := beginPoll s id
      let r := fut.poll id future s₁.world
      let s₂ := doActions { s₁ with world := r.world, tasks := s₁.tasks.insert id r.future } r.actions
      let s₃ := takeRegistrations { s₂ with currentTask := none } id r.result
      (finishPoll s₃ id r.result, [.polled id r.actions r.result])

/-- The loop over the run list. -/
def runList (fut : Futures F W E) : Machine (State F W E) TaskId (Obs E) := ⟨pollTask fut⟩

/-- `Executor::run_once`, with its result first. -/
def runOnce (fut : Futures F W E) (s : State F W E) : Bool × State F W E × List (Obs E) :=
  let s := drainAwake s
  if s.runQueue = [] then
    (false, s, [.roundBegin])
  else
    let r := (runList fut).run { s with runQueue := [] } s.runQueue
    (true, r.1, .roundBegin :: r.2)

/-! ### Waiting for the firmware -/

/-- The events of the registry, each once, in the order of their first entries. -/
def registeredEvents (s : State F W E) : List E := pushAll [] (s.eventRegistry.map Prod.fst)

/-- The tasks registered for a signalled event join the run queue. -/
def queueSignaled (s : State F W E) (signaled : E) : State F W E :=
  { s with
    runQueue := pushAll s.runQueue ((s.eventRegistry.filter (·.1 = signaled)).map Prod.snd) }

/-- `Executor::wait_for_events`; `answer` is what `boot::wait_for_event` returns for the list it
is given, an index or an error. -/
def waitForEvents (s : State F W E) (answer : List E → Option ℕ) : State F W E × List (Obs E) :=
  if s.tasks.keys = [] then (s, [])
  else if s.awakeTasks ≠ [] then (s, [])
  else
    let events := registeredEvents s
    if events = [] then (s, [.stalled])
    else
      match answer events with
      | some index =>
          match events[index]? with
          | some signaled => (queueSignaled s signaled, [.waited events (some index)])
          | none => (s, [.waited events (some index)])
      | none => (s, [.waited events none])

/-! ### The executor as a machine -/

/-- What can be done to an executor from outside. -/
inductive Op (F E : Type*)
  | spawn (future : F)
  /-- A waker of task `id` is called between two operations. -/
  | wake (id : TaskId)
  | runOnce
  | waitForEvents (answer : List E → Option ℕ)

/-- Any sequence of operations on one executor. -/
def operations (fut : Futures F W E) : Machine (State F W E) (Op F E) (Obs E) where
  step s
    | .spawn future => spawn s future
    | .wake id => (wakeWaker s id, [.woken id])
    | .runOnce => (runOnce fut s).2
    | .waitForEvents answer => waitForEvents s answer

/-- Where the loop of `Executor::run` stands. -/
inductive Pc
  /-- At the test `!self.tasks.is_empty()`. -/
  | loopHead
  /-- `run_once` has returned `false`; `wait_for_events` comes next. -/
  | waiting
  | returned
  deriving DecidableEq, Repr

/-- What happens next in a run of the loop. -/
inductive Input (E : Type*)
  | wake (id : TaskId)
  /-- The loop goes on; a `boot::wait_for_event` call in this step returns `answer`. -/
  | advance (answer : List E → Option ℕ)

/-- One step of `Executor::run`. -/
def runStep (fut : Futures F W E) (p : Pc × State F W E) :
    Input E → (Pc × State F W E) × List (Obs E)
  | .wake id => ((p.1, wakeWaker p.2 id), [.woken id])
  | .advance answer =>
      match p.1 with
      | .loopHead =>
          if p.2.tasks.keys = [] then ((.returned, p.2), [])
          else
            let r := runOnce fut p.2
            ((if r.1 then .loopHead else .waiting, r.2.1), r.2.2)
      | .waiting =>
          let r := waitForEvents p.2 answer
          ((.loopHead, r.1), r.2)
      | .returned => (p, [])

/-- `Executor::run`, with waker calls between its steps. -/
def runLoop (fut : Futures F W E) : Machine (Pc × State F W E) (Input E) (Obs E) :=
  ⟨runStep fut⟩

/-- The futures spawned before the loop starts.  They all wait in the run queue, a `Vec`, so
their number fits in `usize`. -/
structure Spawned (F : Type*) where
  futures : List F
  length_lt : futures.length < usizeCard

/-- An executor on which futures were spawned, and the trace of that. -/
def spawnAll (fut : Futures F W E) (w : W) (spawned : Spawned F) : State F W E × List (Obs E) :=
  (operations fut).run (State.new w) (spawned.futures.map .spawn)

/-- The states and traces of `Executor::run`. -/
def run (fut : Futures F W E) (w : W) (spawned : Spawned F) (inputs : List (Input E)) :
    (Pc × State F W E) × List (Obs E) :=
  let start := spawnAll fut w spawned
  let r := (runLoop fut).run (.loopHead, start.1) inputs
  (r.1, start.2 ++ r.2)

end WebUiBoot.Executor
