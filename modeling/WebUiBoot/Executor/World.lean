import WebUiBoot.Executor.Runs

/-!
# Forgetting part of the world

The executor hands the world to the futures and never looks at it.  So futures that keep more in
the world than others, and otherwise act like them, are run by the executor in the same way.

* `State.mapWorld` — a state seen through a function on worlds;
* `Simulates` — futures that act like others when their world is seen through the function;
* `run_mapWorld` — then their runs are the runs of the others, with the same trace.
-/

namespace WebUiBoot.Executor

open WebUiBoot.PushNew WebUiBoot.Trace

variable {F W V E : Type*}

def State.mapWorld (g : W → V) (s : State F W E) : State F V E where
  tasks := s.tasks
  runQueue := s.runQueue
  eventRegistry := s.eventRegistry
  awakeTasks := s.awakeTasks
  currentTask := s.currentTask
  globalEventRegistry := s.globalEventRegistry
  nextId := s.nextId
  world := g s.world

def Polled.mapWorld (g : W → V) (p : Polled F W E) : Polled F V E :=
  ⟨p.future, g p.world, p.actions, p.result⟩

/-- In the world seen through `g`, the futures `fut'` act like `fut`. -/
def Simulates (g : W → V) (fut : Futures F W E) (fut' : Futures F V E) : Prop :=
  ∀ id future w, fut'.poll id future (g w) = (fut.poll id future w).mapWorld g

variable [DecidableEq E] {g : W → V} {fut : Futures F W E} {fut' : Futures F V E}

theorem doAction_mapWorld (s : State F W E) (a : Action E) :
    doAction (s.mapWorld g) a = (doAction s a).mapWorld g := by
  cases a with
  | wake id => rfl
  | register event =>
      show registerEventForCurrentTask _ _ = _
      unfold doAction registerEventForCurrentTask
      cases hcurrent : s.currentTask with
      | none => simp only [State.mapWorld, hcurrent]
      | some id => simp only [State.mapWorld, hcurrent]

theorem doActions_mapWorld (actions : List (Action E)) :
    ∀ s : State F W E, doActions (s.mapWorld g) actions = (doActions s actions).mapWorld g := by
  induction actions with
  | nil => exact fun _ => rfl
  | cons a actions ih =>
      intro s
      show doActions (doAction (s.mapWorld g) a) actions
        = (doActions (doAction s a) actions).mapWorld g
      rw [doAction_mapWorld, ih]

theorem pollTask_mapWorld (h : Simulates g fut fut') (s : State F W E) (id : TaskId) :
    pollTask fut' (s.mapWorld g) id
      = ((pollTask fut s id).1.mapWorld g, (pollTask fut s id).2) := by
  cases hf : s.tasks.lookup id with
  | none =>
      rw [pollTask_of_lookup_none fut hf, pollTask_of_lookup_none fut' hf]
  | some future =>
      have hf' : (s.mapWorld g).tasks.lookup id = some future := hf
      have hpoll := h id future s.world
      let s₁ : State F W E := { beginPoll s id with
        world := (fut.poll id future s.world).world
        tasks := (beginPoll s id).tasks.insert id (fut.poll id future s.world).future }
      have hacts := doActions_mapWorld (g := g) (fut.poll id future s.world).actions s₁
      have hleft : pollTask fut' (s.mapWorld g) id
          = (finishPoll (takeRegistrations { doActions (s₁.mapWorld g)
                (fut.poll id future s.world).actions with currentTask := none } id
                (fut.poll id future s.world).result) id (fut.poll id future s.world).result,
              [.polled id (fut.poll id future s.world).actions
                (fut.poll id future s.world).result]) := by
        simp only [pollTask, hf']
        rw [show (beginPoll (s.mapWorld g) id).world = g s.world from rfl, hpoll]
        rfl
      rw [hleft, hacts]
      simp only [pollTask, hf]
      cases hres : (fut.poll id future s.world).result with
      | ready => simp only [beginPoll, hres]; rfl
      | pending => simp only [beginPoll, hres]; rfl

theorem runList_mapWorld (h : Simulates g fut fut') (s : State F W E) (ids : List TaskId) :
    (runList fut').run (s.mapWorld g) ids
      = (((runList fut).run s ids).1.mapWorld g, ((runList fut).run s ids).2) :=
  (runList fut).run_refines (runList fut') (I := fun _ => True) (Q := fun _ => True)
    (fun _ _ _ _ => trivial) (fun s id _ _ => pollTask_mapWorld h s id) (fun _ _ => trivial)
    s trivial

theorem runOnce_mapWorld (h : Simulates g fut fut') (s : State F W E) :
    runOnce fut' (s.mapWorld g)
      = ((runOnce fut s).1, (runOnce fut s).2.1.mapWorld g, (runOnce fut s).2.2) := by
  rw [runOnce_eq, runOnce_eq]
  have hrun := runList_mapWorld h (roundStart s) (drainAwake s).runQueue
  rw [show roundStart (s.mapWorld g) = (roundStart s).mapWorld g from rfl,
    show (drainAwake (s.mapWorld g)).runQueue = (drainAwake s).runQueue from rfl, hrun]

theorem waitForEvents_mapWorld (s : State F W E) (answer : List E → Option ℕ) :
    waitForEvents (s.mapWorld g) answer
      = ((waitForEvents s answer).1.mapWorld g, (waitForEvents s answer).2) := by
  have hkeys : (s.mapWorld g).tasks = s.tasks := rfl
  have hawake : (s.mapWorld g).awakeTasks = s.awakeTasks := rfl
  have hevents : registeredEvents (s.mapWorld g) = registeredEvents s := rfl
  unfold waitForEvents
  rw [hkeys, hawake, hevents]
  by_cases h₁ : s.tasks.keys = []
  · rw [if_pos h₁, if_pos h₁]
  · rw [if_neg h₁, if_neg h₁]
    by_cases h₂ : s.awakeTasks ≠ []
    · rw [if_pos h₂, if_pos h₂]
    · rw [if_neg h₂, if_neg h₂]
      dsimp only
      by_cases h₃ : registeredEvents s = []
      · rw [if_pos h₃, if_pos h₃]
      · rw [if_neg h₃, if_neg h₃]
        cases answer (registeredEvents s) with
        | none => rfl
        | some index =>
            dsimp only
            cases (registeredEvents s)[index]? with
            | none => rfl
            | some signaled => rfl

theorem runStep_mapWorld (h : Simulates g fut fut') (p : Pc × State F W E) (i : Input E) :
    runStep fut' (p.1, p.2.mapWorld g) i
      = (((runStep fut p i).1.1, (runStep fut p i).1.2.mapWorld g), (runStep fut p i).2) := by
  obtain ⟨pc, s⟩ := p
  cases i with
  | wake id => rfl
  | advance answer =>
      cases pc with
      | returned => rfl
      | waiting =>
          simp only [runStep]
          rw [waitForEvents_mapWorld]
      | loopHead =>
          simp only [runStep]
          rw [runOnce_mapWorld h, show (s.mapWorld g).tasks = s.tasks from rfl]
          by_cases hkeys : s.tasks.keys = []
          · rw [if_pos hkeys, if_pos hkeys]
          · rw [if_neg hkeys, if_neg hkeys]

/-- **Runs.**  Every run of the one is a run of the other, with the same trace. -/
theorem run_mapWorld (h : Simulates g fut fut') (w : W) (spawned : Spawned F)
    (inputs : List (Input E)) :
    run fut' (g w) spawned inputs
      = (((run fut w spawned inputs).1.1, (run fut w spawned inputs).1.2.mapWorld g),
          (run fut w spawned inputs).2) := by
  have hspawn : spawnAll fut' (g w) spawned
      = ((spawnAll fut w spawned).1.mapWorld g, (spawnAll fut w spawned).2) := by
    have hstart : State.new (g w) = (State.new w : State F W E).mapWorld g := rfl
    unfold spawnAll
    rw [hstart]
    refine (operations fut).run_refines (operations fut') (I := fun _ => True)
      (Q := fun op => op.isSpawn = true) (f := State.mapWorld g) (fun _ _ _ _ => trivial) ?_ ?_
      (State.new w) trivial
    · intro s op _ hop
      cases op with
      | spawn future => rfl
      | wake id => cases hop
      | runOnce => cases hop
      | waitForEvents answer => cases hop
    · intro op hop
      obtain ⟨future, _, rfl⟩ := List.mem_map.mp hop
      rfl
  have hrun : (runLoop fut').run (.loopHead, (spawnAll fut w spawned).1.mapWorld g) inputs
      = _ := (runLoop fut).run_refines (runLoop fut') (I := fun _ => True) (Q := fun _ => True)
    (f := fun p => (p.1, p.2.mapWorld g)) (fun _ _ _ _ => trivial)
    (fun p i _ _ => runStep_mapWorld h p i) (fun _ _ => trivial)
    (.loopHead, (spawnAll fut w spawned).1) trivial
  unfold run
  rw [hspawn]
  dsimp only at hrun ⊢
  rw [hrun]

end WebUiBoot.Executor
