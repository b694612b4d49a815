import WebUiBoot.Executor.Delivery
import WebUiBoot.Futures.Model

/-!
# Sleeping tasks and their timers

A task that awaits a sleep future is polled again only when an event that it registered is
signalled, so passage of time resumes it only if a timer is among those events.

* `SleepFuture.new_poll` — the first poll of a sleep future, under its guard;
* `SleepTask.poll_spec` — a poll of a task leaves it finished or suspended;
* `SleepInv` — the state of all the tasks between rounds, along the runs of the executor;
* `timer_armed_iff` — a suspended task has its timer armed and registered exactly when the
  requested time makes at least one tick of 100 ns;
* `zero_sleep_has_no_timer` — with a zero duration it waits for a key press.
-/

namespace WebUiBoot.Futures

open WebUiBoot.Executor WebUiBoot.Trace

variable {B E σ : Type*}

/-- `boot::create_event` and `boot::set_timer` always succeed. -/
structure Reliable (fw : Firmware B E) : Prop where
  createEvent : ∀ b, (fw.createEvent b).1.isSome
  setTimer : ∀ b timer ticks, (fw.setTimer b timer ticks).1 = true

/-! ### One poll -/

/-- A sleep future that has been polled once: its timer is armed and registered, unless the
requested time is no tick at all. -/
structure Suspended (armed : List (E × ℕ)) (registered : E → Prop) (sleep : SleepFuture E) :
    Prop where
  started : sleep.isStarted = true
  timer : 0 < sleep.request.ticks → ∃ timer, sleep.timerEvent = some timer
    ∧ (timer, sleep.request.ticks) ∈ armed ∧ registered timer
  none : sleep.request.ticks = 0 → sleep.timerEvent = none

theorem Suspended.mono {armed armed' : List (E × ℕ)} {registered registered' : E → Prop}
    {sleep : SleepFuture E} (h : Suspended armed registered sleep) (harmed : armed <+: armed')
    (hreg : ∀ e, registered e → registered' e) : Suspended armed' registered' sleep where
  started := h.started
  timer hticks := by
    obtain ⟨timer, htimer, harm, hr⟩ := h.timer hticks
    exact ⟨timer, htimer, harmed.subset harm, hreg timer hr⟩
  none := h.none

theorem armTimer_spec {fw : Firmware B E} (hfw : Reliable fw) (w : World B E) (ticks : ℕ) :
    ∃ timer boot, armTimer fw w ticks
      = (some timer, ⟨boot, w.armed ++ [(timer, ticks)]⟩, [.register timer]) := by
  obtain ⟨timer, htimer⟩ := Option.isSome_iff_exists.mp (hfw.createEvent w.boot)
  have hcreate : fw.createEvent w.boot = (some timer, (fw.createEvent w.boot).2) :=
    Prod.ext htimer rfl
  refine ⟨timer, (fw.setTimer (fw.createEvent w.boot).2 timer ticks).2, ?_⟩
  unfold armTimer
  rw [hcreate]
  simp only [hfw.setTimer, if_true]

/-- A started future whose timer has been armed and registered last. -/
theorem suspended_armed {armed : List (E × ℕ)} {timer : E} {ticks : ℕ} {sleep : SleepFuture E}
    (events : List E) (hstarted : sleep.isStarted = true) (htimer : sleep.timerEvent = some timer)
    (hticks : sleep.request.ticks = ticks) (hpos : ticks > 0) :
    Suspended (armed ++ [(timer, ticks)])
      (· ∈ registrations (events.map .register ++ [.register timer])) sleep where
  started := hstarted
  timer _ := by
    rw [hticks]
    refine ⟨timer, htimer, List.mem_append_right _ (List.mem_singleton.mpr rfl), ?_⟩
    simp [registrations]
  none h := absurd (hticks.symm.trans h) (Nat.ne_of_gt hpos)

/-- A started future without a tick to wait for. -/
theorem suspended_unarmed {armed : List (E × ℕ)} {registered : E → Prop} {ticks : ℕ}
    {sleep : SleepFuture E} (hstarted : sleep.isStarted = true) (htimer : sleep.timerEvent = none)
    (hticks : sleep.request.ticks = ticks) (hpos : ¬ ticks > 0) :
    Suspended armed registered sleep where
  started := hstarted
  timer h := absurd (hticks ▸ h) hpos
  none _ := htimer

theorem networkTicks_pos : networkTicks > 0 := by decide

/-- **The first poll.** -/
theorem SleepFuture.new_poll {fw : Firmware B E} (hfw : Reliable fw) (request : Request)
    (w : World B E) :
    w.armed <+: ((SleepFuture.new request).poll fw w).world.armed
      ∧ Suspended ((SleepFuture.new request).poll fw w).world.armed
          (· ∈ registrations ((SleepFuture.new request).poll fw w).actions)
          ((SleepFuture.new request).poll fw w).future := by
  cases request with
  | network =>
      obtain ⟨timer, boot, harm⟩ := armTimer_spec hfw w networkTicks
      simp only [SleepFuture.new, SleepFuture.poll, NetworkSleepFuture.new,
        NetworkSleepFuture.poll, Bool.false_eq_true, if_false, harm]
      exact ⟨List.prefix_append _ _, suspended_armed _ rfl rfl rfl networkTicks_pos⟩
  | slint duration =>
      by_cases hticks : duration.ticks > 0
      · obtain ⟨timer, boot, harm⟩ := armTimer_spec hfw w duration.ticks
        simp only [SleepFuture.new, SleepFuture.poll, SlintSleepFuture.new, SlintSleepFuture.poll,
          Bool.false_eq_true, if_false, if_pos hticks, harm]
        exact ⟨List.prefix_append _ _, suspended_armed _ rfl rfl rfl hticks⟩
      · simp only [SleepFuture.new, SleepFuture.poll, SlintSleepFuture.new, SlintSleepFuture.poll,
          Bool.false_eq_true, if_false, if_neg hticks]
        exact ⟨List.prefix_refl _, suspended_unarmed rfl rfl rfl hticks⟩
  | timer duration =>
      by_cases hticks : duration.ticks > 0
      · obtain ⟨timer, boot, harm⟩ := armTimer_spec hfw w duration.ticks
        simp only [SleepFuture.new, SleepFuture.poll, TimerSleepFuture.new, TimerSleepFuture.poll,
          Bool.false_eq_true, if_false, if_pos hticks, harm]
        exact ⟨List.prefix_append _ _, suspended_armed [] rfl rfl rfl hticks⟩
      · simp only [SleepFuture.new, SleepFuture.poll, TimerSleepFuture.new, TimerSleepFuture.poll,
          Bool.false_eq_true, if_false, if_neg hticks]
        exact ⟨List.prefix_refl _, suspended_unarmed rfl rfl rfl hticks⟩

/-- Every later poll is `Ready`, whatever has happened in between. -/
theorem SleepFuture.poll_started (fw : Firmware B E) (w : World B E) {sleep : SleepFuture E}
    (h : sleep.isStarted = true) : sleep.poll fw w = ⟨sleep, w, [], .ready⟩ := by
  cases sleep with
  | network f => simp only [poll, NetworkSleepFuture.poll, show f.isStarted = true from h, if_true]
  | slint f => simp only [poll, SlintSleepFuture.poll, show f.isStarted = true from h, if_true]
  | timer f => simp only [poll, TimerSleepFuture.poll, show f.isStarted = true from h, if_true]

theorem registrations_append (a b : List (Action E)) :
    registrations (a ++ b) = registrations a ++ registrations b := List.filterMap_append

variable {fw : Firmware B E} (resume : TaskId → σ → B → Resumed σ B)

theorem resumeTask_spec (hfw : Reliable fw) (id : TaskId) (body : σ) (w : World B E) :
    w.armed <+: (resumeTask fw resume id body w).world.armed
      ∧ ((resumeTask fw resume id body w).result = .pending →
          ∃ sleep, (resumeTask fw resume id body w).future.sleeping = some sleep
            ∧ Suspended (resumeTask fw resume id body w).world.armed
                (· ∈ registrations (resumeTask fw resume id body w).actions) sleep) := by
  cases hnext : (resume id body w.boot).next with
  | none =>
      simp only [resumeTask, hnext]
      exact ⟨List.prefix_refl _, nofun⟩
  | some next =>
      obtain ⟨request, body'⟩ := next
      obtain ⟨harmed, hsleep⟩ :=
        SleepFuture.new_poll hfw request ⟨(resume id body w.boot).boot, w.armed⟩
      simp only [resumeTask, hnext]
      refine ⟨harmed, fun _ => ⟨_, rfl, hsleep.mono (List.prefix_refl _) fun e he => ?_⟩⟩
      show e ∈ registrations (_ ++ _)
      rw [registrations_append]
      exact List.mem_append_right _ he

/-- **A poll of a task.**  When it is `Pending`, the task is suspended on a sleep future whose
first poll this was. -/
theorem SleepTask.poll_spec (hfw : Reliable fw) (id : TaskId) {task : SleepTask σ E}
    (w : World B E) (h : ∀ sleep, task.sleeping = some sleep → sleep.isStarted = true) :
    w.armed <+: (task.poll fw resume id w).world.armed
      ∧ ((task.poll fw resume id w).result = .pending →
          ∃ sleep, (task.poll fw resume id w).future.sleeping = some sleep
            ∧ Suspended (task.poll fw resume id w).world.armed
                (· ∈ registrations (task.poll fw resume id w).actions) sleep) := by
  unfold SleepTask.poll
  cases hsleep : task.sleeping with
  | none => exact resumeTask_spec resume hfw id task.body w
  | some sleep =>
      simp only [SleepFuture.poll_started fw w (h sleep hsleep)]
      exact resumeTask_spec resume hfw id task.body w

/-! ### Whole runs -/

variable [DecidableEq E]

/-- The task map after a poll, seen from one task. -/
theorem lookup_settled {F : Type*} {tasks : AList fun _ : TaskId => F} {id id' : TaskId}
    {future task : F} {result : Poll} (h : (settled tasks id future result).lookup id' = some task) :
    (id' = id ∧ task = future ∧ result = .pending) ∨ (id' ≠ id ∧ tasks.lookup id' = some task) := by
  by_cases hid : id' = id
  · subst hid
    cases result with
    | ready =>
        rw [settled, AList.lookup_erase] at h
        cases h
    | pending =>
        rw [settled, AList.lookup_insert, Option.some.injEq] at h
        exact Or.inl ⟨rfl, h.symm, rfl⟩
  · refine Or.inr ⟨hid, ?_⟩
    cases result with
    | ready =>
        rw [settled, AList.lookup_erase_ne hid, AList.lookup_insert_ne hid] at h
        exact h
    | pending =>
        rw [settled, AList.lookup_insert_ne hid] at h
        exact h

/-- Every live task is new, or suspended on a sleep future that has registered for it. -/
def SleepInv (tr : List (Obs E)) (s : State (SleepTask σ E) (World B E) E) : Prop :=
  ∀ id task, s.tasks.lookup id = some task →
    (id ∉ polledIds tr ∧ task.sleeping = none)
      ∨ ∃ sleep, task.sleeping = some sleep
          ∧ Suspended s.world.armed (fun e => (e, id) ∈ s.eventRegistry) sleep

/-- **One poll.** -/
theorem SleepInv.afterPoll {tr : List (Obs E)} {s : State (SleepTask σ E) (World B E) E}
    (hfw : Reliable fw) (h : SleepInv tr s) (hq : Quiet s) (id : TaskId) :
    SleepInv (tr ++ (pollTask (sleepTasks fw resume) s id).2)
      (pollTask (sleepTasks fw resume) s id).1 := by
  cases hf : s.tasks.lookup id with
  | none =>
      rw [pollTask_of_lookup_none _ hf]
      intro id' task hlookup
      rw [polledIds_append, show polledIds [Obs.missing (E := E) id] = [] from rfl, List.append_nil]
      exact h id' task hlookup
  | some task₀ =>
      have hstarted : ∀ sleep, task₀.sleeping = some sleep → sleep.isStarted = true := by
        intro sleep hsleep
        rcases h id task₀ hf with ⟨_, hnone⟩ | ⟨sleep', hsleep', hsusp⟩
        · rw [hnone] at hsleep
          cases hsleep
        · rw [hsleep'] at hsleep
          exact Option.some.inj hsleep ▸ hsusp.started
      obtain ⟨harmed, hpending⟩ := SleepTask.poll_spec resume hfw id s.world hstarted
      have hobs : (pollTask (sleepTasks fw resume) s id).2
          = [.polled id (task₀.poll fw resume id s.world).actions
              (task₀.poll fw resume id s.world).result] := by
        rw [pollTask_eq _ hq hf]
        rfl
      intro id' task hlookup
      rw [hobs]
      rw [pollTask_eq _ hq hf] at hlookup ⊢
      change (settled s.tasks id (task₀.poll fw resume id s.world).future
        (task₀.poll fw resume id s.world).result).lookup id' = some task at hlookup
      rcases lookup_settled hlookup with ⟨rfl, rfl, hres⟩ | ⟨hne, hlookup⟩
      · obtain ⟨sleep, hsleep, hsusp⟩ := hpending hres
        refine Or.inr ⟨sleep, hsleep, hsusp.mono (List.prefix_refl _) fun e he => ?_⟩
        exact List.mem_append_right _ (mem_entries.mpr ⟨hres, he, rfl⟩)
      · rcases h id' task hlookup with ⟨hnew, hnone⟩ | ⟨sleep, hsleep, hsusp⟩
        · refine Or.inl ⟨?_, hnone⟩
          rw [polledIds_append, List.mem_append, not_or]
          exact ⟨hnew, by simpa [polledIds, Obs.polledId] using hne⟩
        · refine Or.inr ⟨sleep, hsleep, hsusp.mono harmed fun e he => ?_⟩
          exact List.mem_append_left _ (List.mem_filter.mpr ⟨he, by simpa using hne⟩)

theorem SleepInv.afterList (hfw : Reliable fw) {tr : List (Obs E)}
    {s : State (SleepTask σ E) (World B E) E} (h : SleepInv tr s) (hq : Quiet s)
    (ids : List TaskId) :
    SleepInv (tr ++ ((runList (sleepTasks fw resume)).run s ids).2)
      ((runList (sleepTasks fw resume)).run s ids).1 :=
  runList_invariant (sleepTasks fw resume) (fun _ _ id h hq => h.afterPoll resume hfw hq id) h hq
    ids

omit [DecidableEq E] in
/-- A step that polls nothing and keeps tasks, registry and world. -/
theorem SleepInv.append {tr obs : List (Obs E)} {s s' : State (SleepTask σ E) (World B E) E}
    (h : SleepInv tr s) (hobs : polledIds obs = []) (htasks : s'.tasks = s.tasks)
    (hreg : s'.eventRegistry = s.eventRegistry) (hworld : s'.world = s.world) :
    SleepInv (tr ++ obs) s' := by
  intro id task hlookup
  rw [polledIds_append, hobs, List.append_nil, hreg, hworld]
  rw [htasks] at hlookup
  exact h id task hlookup

theorem SleepInv.afterRunOnce (hfw : Reliable fw) {tr : List (Obs E)}
    {s : State (SleepTask σ E) (World B E) E} (h : SleepInv tr s) (hq : Quiet s) :
    SleepInv (tr ++ (runOnce (sleepTasks fw resume) s).2.2)
      (runOnce (sleepTasks fw resume) s).2.1 := by
  have hstart : SleepInv (tr ++ [.roundBegin]) (roundStart s) := h.append rfl rfl rfl rfl
  have hrun := hstart.afterList resume hfw ⟨hq.current, hq.global⟩ (drainAwake s).runQueue
  rw [List.append_assoc] at hrun
  rw [runOnce_eq]
  exact hrun

theorem SleepInv.afterWait {tr : List (Obs E)} {s : State (SleepTask σ E) (World B E) E}
    (h : SleepInv tr s) (answer : List E → Option ℕ) :
    SleepInv (tr ++ (waitForEvents s answer).2) (waitForEvents s answer).1 := by
  rcases waitForEvents_cases s answer with hw | ⟨o, hw, hpoll, _⟩ | ⟨i, signaled, _, _, _, hw⟩
  · rw [hw]
    exact h.append rfl rfl rfl rfl
  · rw [hw]
    have hobs : polledIds [o] = [] := by
      simp [polledIds, hpoll]
    exact h.append hobs rfl rfl rfl
  · rw [hw]
    exact h.append rfl rfl rfl rfl

/-- **One step of the loop.** -/
theorem SleepInv.step (hfw : Reliable fw) {tr : List (Obs E)}
    {p : Pc × State (SleepTask σ E) (World B E) E} (h : SleepInv tr p.2) (hq : Quiet p.2)
    (i : Input E) :
    SleepInv (tr ++ (runStep (sleepTasks fw resume) p i).2)
      (runStep (sleepTasks fw resume) p i).1.2 := by
  obtain ⟨pc, s⟩ := p
  cases i with
  | wake id =>
      have hkept : (wakeWaker s id).tasks = s.tasks := rfl
      exact h.append (by simp [runStep, polledIds, Obs.polledId]) hkept rfl rfl
  | advance answer =>
      cases pc with
      | loopHead =>
          unfold runStep
          dsimp only
          split
          · exact h.append rfl rfl rfl rfl
          · exact h.afterRunOnce resume hfw hq
      | waiting => exact h.afterWait answer
      | returned => exact h.append rfl rfl rfl rfl

/-- No task sleeps before the loop starts. -/
theorem spawnAll_not_sleeping {W : Type*} (fut : Futures (SleepTask σ E) W E) (w : W)
    (bodies : Spawned σ) : ∀ id task,
      (spawnAll fut w (newTasks bodies)).1.tasks.lookup id = some task → task.sleeping = none := by
  have hnew : ∀ id task, (State.new w : State (SleepTask σ E) W E).tasks.lookup id = some task →
      task.sleeping = none := by
    intro id task h
    rw [State.new, AList.lookup_empty] at h
    cases h
  refine spawnAll_invariant fut w (newTasks bodies)
    (I := fun _ s => ∀ id task, s.tasks.lookup id = some task → task.sleeping = none) hnew ?_
  intro tr s future hmem h id task hlookup
  by_cases hid : id = s.nextId
  · obtain ⟨body, _, rfl⟩ := List.mem_map.mp hmem
    rw [hid, spawn, AList.lookup_insert, Option.some.injEq] at hlookup
    rw [← hlookup]
    rfl
  · rw [spawn, AList.lookup_insert_ne hid] at hlookup
    exact h id task hlookup

theorem spawnAll_sleepInv (w : World B E) (bodies : Spawned σ) :
    SleepInv (spawnAll (sleepTasks fw resume) w (newTasks bodies)).2
      (spawnAll (sleepTasks fw resume) w (newTasks bodies)).1 := by
  intro id task hlookup
  refine Or.inl ⟨?_, spawnAll_not_sleeping _ w bodies id task hlookup⟩
  rw [(spawnAll_fresh (sleepTasks fw resume) w (newTasks bodies)).2]
  exact List.not_mem_nil

/-- The registry has an entry for the task with the timer that its sleep future has armed. -/
def HasTimer (s : State (SleepTask σ E) (World B E) E) (id : TaskId) (sleep : SleepFuture E) :
    Prop :=
  ∃ timer, sleep.timerEvent = some timer ∧ (timer, sleep.request.ticks) ∈ s.world.armed
    ∧ (timer, id) ∈ s.eventRegistry

/-- **No sleeping task without its timer, except for requests of no tick.**  In every state of
every run of `Executor::run` over tasks that suspend only by awaiting the three sleep futures, a
task whose latest poll was `Pending` is suspended on a sleep future, and its registry entries
include the timer armed by that future exactly when the requested time makes at least one tick of
100 ns. -/
theorem timer_armed_iff (hfw : Reliable fw) (w : World B E) (bodies : Spawned σ)
    (inputs : List (Input E)) :
    ∀ p tr, run (sleepTasks fw resume) w (newTasks bodies) inputs = (p, tr) →
      ∀ id task, p.2.tasks.lookup id = some task → id ∈ polledIds tr →
        ∃ sleep, task.sleeping = some sleep
          ∧ (HasTimer p.2 id sleep ↔ sleep.request.ticks > 0) := by
  intro p tr hrun id task hlookup hpolled
  have hstart : RunGood (spawnAll (sleepTasks fw resume) w (newTasks bodies)).2
      (.loopHead, (spawnAll (sleepTasks fw resume) w (newTasks bodies)).1) :=
    ⟨spawnAll_good _ w (newTasks bodies), nofun⟩
  have hinv := ((runLoop (sleepTasks fw resume)).run_invariant
    (I := fun tr p => RunGood tr p ∧ SleepInv tr p.2)
    (fun tr p i h => ⟨h.1.step _ i, h.2.step resume hfw h.1.good.inv.quiet i⟩)
    ⟨hstart, spawnAll_sleepInv resume w bodies⟩ inputs).2
  have hinv : SleepInv tr p.2 := by
    change SleepInv (run (sleepTasks fw resume) w (newTasks bodies) inputs).2
      (run (sleepTasks fw resume) w (newTasks bodies) inputs).1.2 at hinv
    rwa [hrun] at hinv
  rcases hinv id task hlookup with ⟨hnew, _⟩ | ⟨sleep, hsleep, hsusp⟩
  · exact absurd hpolled hnew
  · refine ⟨sleep, hsleep, ?_, fun hticks => hsusp.timer hticks⟩
    rintro ⟨timer, htimer, _⟩
    by_contra hticks
    rw [hsusp.none (by omega)] at htimer
    cases htimer

/-- A firmware whose events are numbers: `0` is the keyboard, timers are counted up. -/
def countingFirmware : Firmware ℕ ℕ where
  createEvent b := (some b, b + 1)
  setTimer b _ _ := (true, b)
  waitForKeyEvent _ := some 0
  waitForInputEvents _ := []
  getPacketWaitEvent _ := none
  waitPacketWorkaround := true

theorem countingFirmware_reliable : Reliable countingFirmware := ⟨fun _ => rfl, fun _ _ _ => rfl⟩

def oneTask : Spawned Unit := ⟨[()], by decide⟩

/-- The loop of `run_slint_ui`, with the same time until the next update each time. -/
def slintUi (duration : Duration) (_ : TaskId) (_ : Unit) (b : ℕ) : Resumed Unit ℕ :=
  ⟨b, [], some (.slint duration, ())⟩

/-- The first round of the user interface. -/
def slintRound (duration : Duration) :
    (Pc × State (SleepTask Unit ℕ) (World ℕ ℕ) ℕ) × List (Obs ℕ) :=
  run (sleepTasks countingFirmware (slintUi duration)) ⟨1, []⟩ (newTasks ⟨[()], by decide⟩)
    [.advance fun _ => none]

theorem timer_armed_iff_frame :
    HasTimer (slintRound ⟨0, 16000000, by decide, by decide⟩).1.2 0
      (.slint ⟨some 1, true, ⟨0, 16000000, by decide, by decide⟩⟩) := by
  obtain ⟨sleep, hsleep, h⟩ := timer_armed_iff
    (slintUi ⟨0, 16000000, by decide, by decide⟩) countingFirmware_reliable ⟨1, []⟩
    ⟨[()], by decide⟩ [.advance fun _ => none] _ _ rfl 0
    ⟨(), some (.slint ⟨some 1, true, ⟨0, 16000000, by decide, by decide⟩⟩)⟩ rfl (by decide)
  obtain rfl := Option.some.inj hsleep
  exact h.mpr (by decide)

/-- **A sleep of no time is not ended by time.**  With a zero duration only the keyboard is
registered, and no timer has been set at all. -/
theorem zero_sleep_has_no_timer :
    Reliable countingFirmware ∧ 0 ∈ polledIds (slintRound .zero).2
      ∧ 0 ∈ (slintRound .zero).1.2.tasks
      ∧ (slintRound .zero).1.2.eventRegistry = [(0, 0)]
      ∧ (slintRound .zero).1.2.world.armed = []
      ∧ ∀ sleep, ¬ HasTimer (slintRound .zero).1.2 0 sleep := by
  have harmed : (slintRound .zero).1.2.world.armed = [] := rfl
  refine ⟨countingFirmware_reliable, by decide, by decide, rfl, harmed, ?_⟩
  rintro sleep ⟨timer, _, hmem, _⟩
  rw [harmed] at hmem
  exact absurd hmem List.not_mem_nil

end WebUiBoot.Futures
