import WebUiBoot.Program.Tasks

/-!
# The program runs

What the two tasks of the program are at, in every state of every run of it.

* `resumeTask_asleep` — a task that goes on ends in a sleep, and the world is as it left it but for
  the firmware's timers;
* `Running` — both tasks are live, and the web server has made an iteration for each poll of its
  task but the first;
* `event_loop_never_left` — so `executor.run()` does not return;
* `server_refines_network` — and the web server does, between the boot attempts of both tasks, what
  the network task does alone.
-/

namespace WebUiBoot.Program

open WebUiBoot.Executor WebUiBoot.Futures WebUiBoot.Boot WebUiBoot.Net WebUiBoot.Web WebUiBoot.Ui
  WebUiBoot.Trace

variable {M σ : Type} {E : Type*}

/-! ### Going to sleep -/

/-- The timers change the machine and what is armed at most, and disarm nothing. -/
theorem armTimer_boot (fw : Firmware M E) (w : Futures.World (World M σ) E) (ticks : ℕ) :
    (∃ m, (armTimer (onMachine fw) w ticks).2.1.boot = { w.boot with machine := m })
      ∧ w.armed <+: (armTimer (onMachine fw) w ticks).2.1.armed := by
  unfold armTimer onMachine
  dsimp only
  cases fw.createEvent w.boot.machine with
  | mk timer m =>
      cases timer with
      | none => exact ⟨⟨m, rfl⟩, List.prefix_refl _⟩
      | some timer =>
          refine ⟨⟨_, rfl⟩, ?_⟩
          dsimp only
          split
          · exact List.prefix_append _ _
          · exact List.prefix_refl _

/-- What comes of the first poll of a sleep future. -/
structure FirstPolled (request : Request) (w : Futures.World (World M σ) E)
    (r : Polled (SleepFuture E) (Futures.World (World M σ) E) E) : Prop where
  pending : r.result = .pending
  started : r.future.isStarted = true
  request_eq : r.future.request = request
  machine : ∃ m, r.world.boot = { w.boot with machine := m }
  armed : w.armed <+: r.world.armed

theorem new_poll_firstPolled (fw : Firmware M E) (request : Request)
    (w : Futures.World (World M σ) E) :
    FirstPolled request w ((SleepFuture.new request).poll (onMachine fw) w) := by
  cases request with
  | network =>
      obtain ⟨hmachine, harmed⟩ := armTimer_boot fw w networkTicks
      exact ⟨rfl, rfl, rfl, hmachine, harmed⟩
  | slint duration | timer duration =>
      simp only [SleepFuture.new, SleepFuture.poll, SlintSleepFuture.new, SlintSleepFuture.poll,
        TimerSleepFuture.new, TimerSleepFuture.poll, Bool.false_eq_true, if_false]
      by_cases hticks : duration.ticks > 0
      · rw [if_pos hticks]
        obtain ⟨hmachine, harmed⟩ := armTimer_boot fw w duration.ticks
        exact ⟨rfl, rfl, rfl, hmachine, harmed⟩
      · rw [if_neg hticks]
        exact ⟨rfl, rfl, rfl, ⟨w.boot.machine, rfl⟩, List.prefix_refl _⟩

/-- A task that sleeps on a future that was polled, and goes on with a body. -/
structure Asleep (task : SleepTask Body E) (request : Request) (body : Body) : Prop where
  body : task.body = body
  sleeping : ∃ sleep, task.sleeping = some sleep ∧ sleep.isStarted = true
    ∧ sleep.request = request

/-- What comes of a poll of a task that goes on with `body`. -/
structure Resumes (p : Platform M σ) (id : TaskId) (body : Body)
    (w : Futures.World (World M σ) E)
    (r : Polled (SleepTask Body E) (Futures.World (World M σ) E) E) : Prop where
  pending : r.result = .pending
  asleep : ∃ request body', (resume p id body w.boot).next = some (request, body')
    ∧ Asleep r.future request body'
  machine : ∃ m, r.world.boot = { (resume p id body w.boot).boot with machine := m }
  armed : w.armed <+: r.world.armed

variable (p : Platform M σ) (fw : Firmware M E)

theorem resumeTask_asleep (id : TaskId) (body : Body) (w : Futures.World (World M σ) E) :
    Resumes p id body w (resumeTask (onMachine fw) (resume p) id body w) := by
  have hnext : ∃ request body', (resume p id body w.boot).next = some (request, body') := by
    cases body with
    | run => exact ⟨_, _, rfl⟩
    | network pending => exact ⟨_, _, rfl⟩
    | slint => exact ⟨_, _, rfl⟩
  obtain ⟨request, body', hnext⟩ := hnext
  have hpoll := new_poll_firstPolled fw request ⟨(resume p id body w.boot).boot, w.armed⟩
  unfold resumeTask
  simp only [hnext]
  exact ⟨hpoll.pending, ⟨request, body', hnext, rfl, _, rfl, hpoll.started, hpoll.request_eq⟩,
    hpoll.machine, hpoll.armed⟩

/-- A task that sleeps goes on when it is polled. -/
theorem poll_asleep (id : TaskId) {task : SleepTask Body E} {request : Request} {body : Body}
    (h : Asleep task request body) (w : Futures.World (World M σ) E) :
    Resumes p id body w (task.poll (onMachine fw) (resume p) id w) := by
  obtain ⟨sleep, hsleep, hstarted, _⟩ := h.sleeping
  unfold SleepTask.poll
  rw [hsleep]
  simp only [SleepFuture.poll_started (onMachine fw) w hstarted]
  rw [h.body]
  exact resumeTask_asleep p fw id body w

/-! ### The web server -/

/-- What the web server has done. -/
def networkEvents (log : List Event) : List Net.Event :=
  log.filterMap fun
    | .network event => some event
    | _ => none

/-- A step that the web server takes no part in. -/
structure SameServer (w w' : World M σ) : Prop where
  socket : w'.socket = w.socket
  events : networkEvents w'.log = networkEvents w.log

theorem SameServer.refl (w : World M σ) : SameServer w w := ⟨rfl, rfl⟩

theorem SameServer.trans {w w' w'' : World M σ} (h : SameServer w w') (h' : SameServer w' w'') :
    SameServer w w'' :=
  ⟨h'.socket.trans h.socket, h'.events.trans h.events⟩

theorem sameServer_foldl {α : Type*} {f : World M σ → α → World M σ}
    (h : ∀ w a, SameServer w (f w a)) (as : List α) :
    ∀ w, SameServer w (as.foldl f w) := by
  induction as with
  | nil => exact fun w => .refl w
  | cons a as ih => exact fun w => (h w a).trans (ih (f w a))

theorem sameServer_machine (w : World M σ) (m : M) : SameServer w { w with machine := m } :=
  ⟨rfl, rfl⟩

/-- One more entry of the log, which is none of the web server. -/
theorem sameServer_log (w : World M σ) (m : M) (window : AppWindow) {event : Event}
    (h : networkEvents [event] = []) :
    SameServer w { w with machine := m, window := window, log := w.log ++ [event] } := by
  refine ⟨rfl, ?_⟩
  show networkEvents (w.log ++ [event]) = _
  rw [networkEvents, List.filterMap_append]
  exact (congrArg (networkEvents w.log ++ ·) h).trans (List.append_nil _)

theorem attempt_sameServer (origin : Origin) (w : World M σ) (selection : BootSelection) :
    SameServer w (attempt p origin w selection) :=
  sameServer_log w _ w.window rfl

theorem dispatchKey_sameServer (w : World M σ) (key : Char) :
    SameServer w (dispatchKey p w key) :=
  (sameServer_log w w.machine _ rfl).trans
    (sameServer_foldl (attempt_sameServer p .callback) _ _)

theorem dispatchKeys_sameServer (keys : List Char) :
    ∀ (w : World M σ) (direct : Option BootSelection),
      SameServer w (dispatchKeys p w direct keys).1 := by
  induction keys with
  | nil => exact fun w _ => .refl w
  | cons key keys ih => exact fun w _ => (dispatchKey_sameServer p w key).trans (ih _ _)

theorem click_sameServer (w : World M σ) (selection : BootSelection) :
    SameServer w (click p w selection) :=
  (sameServer_log w w.machine _ rfl).trans (attempt_sameServer p .click _ selection)

/-- The user interface leaves the web server alone. -/
theorem slintIteration_sameServer (w : World M σ) : SameServer w (slintIteration p w).1 := by
  let keys := p.getKeyPresses w.machine
  let r := dispatchKeys p { w with machine := keys.2 } none keys.1
  let w₁ := r.2.toList.foldl (attempt p .direct) r.1
  let clicks := p.clicks w₁.machine
  have hkeys : SameServer w r.1 :=
    (sameServer_machine w keys.2).trans (dispatchKeys_sameServer p keys.1 _ none)
  have hdirect : SameServer w w₁ :=
    hkeys.trans (sameServer_foldl (attempt_sameServer p .direct) r.2.toList r.1)
  have hclicks : SameServer w (clicks.1.foldl (click p) { w₁ with machine := clicks.2 }) :=
    (hdirect.trans (sameServer_machine w₁ clicks.2)).trans
      (sameServer_foldl (click_sameServer p) clicks.1 _)
  exact hclicks.trans (sameServer_machine _ _)

/-- The web server has made `n` iterations, and has `pending` in its variables. -/
def Served (socket : σ) (n : ℕ) (pending : Pending) (w : World M σ) : Prop :=
  ∃ inputs : List (Net.Input σ), inputs.length = n
    ∧ (network p.env).run (socket, .empty) inputs = ((w.socket, pending), networkEvents w.log)

variable {p}

theorem Served.same {socket : σ} {n : ℕ} {pending : Pending} {w w' : World M σ}
    (h : Served p socket n pending w) (hsame : SameServer w w') :
    Served p socket n pending w' := by
  unfold Served
  rw [hsame.socket, hsame.events]
  exact h

/-- **One iteration of the web server.** -/
theorem Served.iteration {socket : σ} {n : ℕ} {pending : Pending} {w : World M σ}
    (h : Served p socket n pending w) :
    Served p socket (n + 1) (networkIteration p w pending).2 (networkIteration p w pending).1 := by
  obtain ⟨inputs, hlength, hrun⟩ := h
  let clock := p.getMsSinceStart w.machine
  let poll := p.ifacePoll clock.2 clock.1
  let r := iterate p.env (w.socket, pending) ⟨clock.1, poll.1⟩
  let w₁ : World M σ :=
    { w with machine := poll.2, socket := r.1.1, log := w.log ++ r.2.map .network }
  have hevents : networkEvents w₁.log = networkEvents w.log ++ r.2 := by
    show (w.log ++ r.2.map Event.network).filterMap _ = _
    rw [List.filterMap_append, List.filterMap_map]
    exact congrArg (networkEvents w.log ++ ·) (List.filterMap_some)
  have hserved : Served p socket (n + 1) r.1.2 w₁ := by
    refine ⟨inputs ++ [⟨clock.1, poll.1⟩], by simp [hlength], ?_⟩
    rw [Machine.run_append, Machine.run_singleton, hrun, hevents]
    rfl
  exact hserved.same (sameServer_foldl (attempt_sameServer p .remote) _ w₁)

/-! ### Both tasks -/

/-- What the network task waits for. -/
def networkRequests : List Request := [.network, .timer startDelay]

/-- Where the network task is, after it was polled `n` times. -/
def NetworkAt (p : Platform M σ) (socket : σ) (task : SleepTask Body E) (w : World M σ) : ℕ → Prop
  | 0 => task = .new .run ∧ Served p socket 0 .empty w
  | n + 1 => ∃ request pending, request ∈ networkRequests ∧ Asleep task request (.network pending)
      ∧ Served p socket n pending w

/-- Where the task of the user interface is. -/
def SlintAt (task : SleepTask Body E) : Prop :=
  task = .new .slint ∨ ∃ request, Asleep task request .slint

/-- **The program runs.**  Both tasks are live, and no other. -/
structure Running (p : Platform M σ) (socket : σ) (ids : List TaskId)
    (tasks : AList fun _ : TaskId => SleepTask Body E) (w : Futures.World (World M σ) E) : Prop where
  live : ∀ id, id ∈ tasks ↔ id = networkTask ∨ id = slintTask
  network : ∃ task, tasks.lookup networkTask = some task
    ∧ NetworkAt p socket task w.boot (ids.count networkTask)
  slint : ∃ task, tasks.lookup slintTask = some task ∧ SlintAt task

theorem NetworkAt.same {socket : σ} {task : SleepTask Body E} {w w' : World M σ} {n : ℕ}
    (h : NetworkAt p socket task w n) (hsame : SameServer w w') : NetworkAt p socket task w' n := by
  cases n with
  | zero => exact ⟨h.1, h.2.same hsame⟩
  | succ n =>
      obtain ⟨request, pending, hrequest, hasleep, hserved⟩ := h
      exact ⟨request, pending, hrequest, hasleep, hserved.same hsame⟩

/-- What the task is suspended with. -/
theorem NetworkAt.served {socket : σ} {task : SleepTask Body E} {w : World M σ} {n : ℕ}
    (h : NetworkAt p socket task w n) :
    ∃ pending, task.body = (if n = 0 then .run else .network pending)
      ∧ Served p socket (n - 1) pending w := by
  cases n with
  | zero =>
      obtain ⟨rfl, hserved⟩ := h
      exact ⟨.empty, rfl, hserved⟩
  | succ n =>
      obtain ⟨_, pending, _, hasleep, hserved⟩ := h
      exact ⟨pending, hasleep.body, hserved⟩

/-- What a poll of the network task does, and where it leads. -/
theorem NetworkAt.poll (fw : Firmware M E) {socket : σ} {task : SleepTask Body E}
    {w : Futures.World (World M σ) E} {n : ℕ} (h : NetworkAt p socket task w.boot n) :
    let r := task.poll (onMachine fw) (resume p) networkTask w
    (∃ body, Resumes p networkTask body w r) ∧ NetworkAt p socket r.future r.world.boot (n + 1) := by
  intro r
  cases n with
  | zero =>
      obtain ⟨rfl, hserved⟩ := h
      have hresumes : Resumes p networkTask .run w r := resumeTask_asleep p fw networkTask .run w
      obtain ⟨request, body, hnext, hasleep⟩ := hresumes.asleep
      obtain ⟨m, hworld⟩ := hresumes.machine
      cases hnext
      refine ⟨⟨_, hresumes⟩, _, .empty, List.mem_cons_of_mem _ (List.mem_singleton_self _),
        hasleep, ?_⟩
      rw [hworld]
      exact hserved.same ⟨rfl, rfl⟩
  | succ n =>
      obtain ⟨_, pending, _, hasleep, hserved⟩ := h
      have hresumes : Resumes p networkTask (.network pending) w r :=
        poll_asleep p fw networkTask hasleep w
      obtain ⟨request, body, hnext, hasleep⟩ := hresumes.asleep
      obtain ⟨m, hworld⟩ := hresumes.machine
      cases hnext
      refine ⟨⟨_, hresumes⟩, _, _, List.mem_cons_self, hasleep, ?_⟩
      rw [hworld]
      exact hserved.iteration.same ⟨rfl, rfl⟩

/-- What a poll of the user interface does, and where it leads. -/
theorem SlintAt.poll (p : Platform M σ) (fw : Firmware M E) {task : SleepTask Body E}
    (h : SlintAt task) (w : Futures.World (World M σ) E) :
    let r := task.poll (onMachine fw) (resume p) slintTask w
    (∃ body, Resumes p slintTask body w r) ∧ SlintAt r.future ∧ SameServer w.boot r.world.boot := by
  intro r
  have hresumes : Resumes p slintTask .slint w r := by
    rcases h with rfl | ⟨request, hasleep⟩
    · exact resumeTask_asleep p fw slintTask .slint w
    · exact poll_asleep p fw slintTask hasleep w
  obtain ⟨request, body, hnext, hasleep⟩ := hresumes.asleep
  obtain ⟨m, hworld⟩ := hresumes.machine
  cases hnext
  refine ⟨⟨_, hresumes⟩, Or.inr ⟨_, hasleep⟩, ?_⟩
  rw [hworld]
  exact (slintIteration_sameServer p w.boot).trans ⟨rfl, rfl⟩

/-- Each poll of a live task goes on with a body. -/
theorem Running.resumes {p : Platform M σ} (fw : Firmware M E) {socket : σ} {ids : List TaskId}
    {tasks : AList fun _ : TaskId => SleepTask Body E} {w : Futures.World (World M σ) E}
    (h : Running p socket ids tasks w) {id : TaskId} {task : SleepTask Body E}
    (hlookup : tasks.lookup id = some task) :
    ∃ body, Resumes p id body w (task.poll (onMachine fw) (resume p) id w) := by
  obtain ⟨network, hnetwork, hat⟩ := h.network
  obtain ⟨slint, hslint, hslintAt⟩ := h.slint
  rcases (h.live id).mp (mem_iff_lookup.mpr ⟨task, hlookup⟩) with rfl | rfl
  · obtain rfl : task = network := Option.some.inj (hlookup.symm.trans hnetwork)
    exact (hat.poll fw).1
  · obtain rfl : task = slint := Option.some.inj (hlookup.symm.trans hslint)
    exact (hslintAt.poll p fw w).1

/-- **One poll.** -/
theorem running_poll (p : Platform M σ) (fw : Firmware M E) (socket : σ) :
    PollRule (sleepTasks (onMachine fw) (resume p)) (Running p socket) := by
  intro ids tasks w id task h hlookup
  obtain ⟨body, hresumes⟩ := h.resumes fw hlookup
  obtain ⟨network, hnetwork, hat⟩ := h.network
  obtain ⟨slint, hslint, hslintAt⟩ := h.slint
  show Running p socket (ids ++ [id]) (settled tasks id _ (task.poll _ _ _ w).result)
    (task.poll (onMachine fw) (resume p) id w).world
  rw [hresumes.pending]
  have hlive : ∀ future, ∀ id', id' ∈ settled tasks id future .pending
      ↔ id' = networkTask ∨ id' = slintTask := by
    intro future id'
    rw [mem_settled (mem_iff_lookup.mpr ⟨task, hlookup⟩), h.live id']
    exact and_iff_left nofun
  rcases (h.live id).mp (mem_iff_lookup.mpr ⟨task, hlookup⟩) with rfl | rfl
  · obtain rfl : task = network := Option.some.inj (hlookup.symm.trans hnetwork)
    have hcount : (ids ++ [networkTask]).count networkTask = ids.count networkTask + 1 := by
      rw [List.count_append, List.count_singleton_self]
    refine ⟨hlive _, ⟨_, AList.lookup_insert _, hcount ▸ (hat.poll fw).2⟩, slint, ?_, hslintAt⟩
    exact (AList.lookup_insert_ne (by decide)).trans hslint
  · obtain rfl : task = slint := Option.some.inj (hlookup.symm.trans hslint)
    obtain ⟨_, hslintAt, hsame⟩ := hslintAt.poll p fw w
    have hcount : (ids ++ [slintTask]).count networkTask = ids.count networkTask := by
      rw [List.count_append]
      rfl
    refine ⟨hlive _, ⟨network, ?_, ?_⟩, ⟨_, AList.lookup_insert _, hslintAt⟩⟩
    · exact (AList.lookup_insert_ne (by decide)).trans hnetwork
    · rw [hcount]
      exact hat.same hsame

/-- The program before its first poll. -/
theorem running_start [DecidableEq E] (p : Platform M σ) (fw : Firmware M E) (m : M) (socket : σ) :
    let start := spawnAll (sleepTasks (onMachine fw) (resume p)) ⟨World.start m socket, []⟩
      (newTasks (E := E) bodies)
    Running p socket [] start.1.tasks start.1.world := by
  refine ⟨fun id => ?_, ⟨.new .run, rfl, rfl, [], rfl, rfl⟩, .new .slint, rfl, Or.inl rfl⟩
  show id ∈ [1, 0] ↔ _
  rw [List.mem_cons, List.mem_singleton]
  exact or_comm

variable [DecidableEq E] (p : Platform M σ) (fw : Firmware M E) (m : M) (socket : σ)

/-- **Every state of every run.** -/
theorem program_running (inputs : List (Executor.Input E)) :
    Running p socket (polledIds (program p fw m socket inputs).2)
      (program p fw m socket inputs).1.2.tasks (program p fw m socket inputs).1.2.world :=
  run_polls (running_poll p fw socket) _ _ (running_start p fw m socket) inputs

/-- What the iterations of both loops preserve. -/
structure Preserved (p : Platform M σ) (J : World M σ → Prop) : Prop where
  machine : ∀ w m, J w → J { w with machine := m }
  network : ∀ w pending, J w → J (networkIteration p w pending).1
  slint : ∀ w, J w → J (slintIteration p w).1

omit [DecidableEq E] in
theorem Preserved.pollRule {J : World M σ → Prop} (hJ : Preserved p J) (fw : Firmware M E)
    (socket : σ) : PollRule (sleepTasks (onMachine fw) (resume p))
      fun ids tasks w => Running p socket ids tasks w ∧ J w.boot := by
  intro ids tasks w id task h hlookup
  refine ⟨running_poll p fw socket ids tasks w id task h.1 hlookup, ?_⟩
  obtain ⟨body, hresumes⟩ := h.1.resumes fw hlookup
  obtain ⟨m, hworld⟩ := hresumes.machine
  show J (task.poll (onMachine fw) (resume p) id w).world.boot
  rw [hworld]
  refine hJ.machine _ m ?_
  cases body with
  | run => exact h.2
  | network pending => exact hJ.network w.boot pending h.2
  | slint => exact hJ.slint w.boot h.2

/-- **What the iterations of both loops preserve** holds in every state of every run. -/
theorem program_preserves {J : World M σ → Prop} (hJ : Preserved p J)
    (hstart : J (World.start m socket)) (inputs : List (Executor.Input E)) :
    J (program p fw m socket inputs).1.2.world.boot :=
  (run_polls (hJ.pollRule p fw socket) _ _ ⟨running_start p fw m socket, hstart⟩ inputs).2

/-- **The event loop is never left.**  Whatever the machine, the client and the user do, and however
many boot attempts come back: in every state of every run both tasks are live, no other task is, and
`executor.run()` has not returned. -/
theorem event_loop_never_left (inputs : List (Executor.Input E)) :
    (program p fw m socket inputs).1.1 ≠ .returned
      ∧ ∀ id, id ∈ (program p fw m socket inputs).1.2.tasks
          ↔ id = networkTask ∨ id = slintTask := by
  refine ⟨?_, (program_running p fw m socket inputs).live⟩
  refine run_not_returned (running_poll p fw socket) (fun ids tasks w h hnone => ?_) _ _
    (running_start p fw m socket) inputs
  have hmem : networkTask ∈ tasks.keys := (h.live networkTask).mpr (Or.inl rfl)
  rw [hnone] at hmem
  exact List.not_mem_nil hmem

/-- **The web server among the tasks.**  In every state of every run, the web server has made one
iteration for each poll of its task but the first, and with the boot attempts and the user interface
in between it has done exactly what the network task does alone in as many iterations; the pending
boot of that is the one with which the task is suspended. -/
theorem server_refines_network (inputs : List (Executor.Input E)) :
    let polls := (polledIds (program p fw m socket inputs).2).count networkTask
    ∃ task pending iterations,
      (program p fw m socket inputs).1.2.tasks.lookup networkTask = some task
        ∧ task.body = (if polls = 0 then .run else .network pending)
        ∧ iterations.length = polls - 1
        ∧ (network p.env).run (socket, .empty) iterations
          = (((program p fw m socket inputs).1.2.world.boot.socket, pending),
              networkEvents (program p fw m socket inputs).1.2.world.boot.log) := by
  intro polls
  obtain ⟨task, hlookup, hat⟩ := (program_running p fw m socket inputs).network
  obtain ⟨pending, hbody, iterations, hlength, hrun⟩ := hat.served
  exact ⟨task, pending, iterations, hlookup, hbody, hlength, hrun⟩

end WebUiBoot.Program
