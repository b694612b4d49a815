import WebUiBoot.Program.Running

/-!
# The program and its timers

When the program hands the processor to the firmware, a timer is armed that will hand it back.

* `Timely` — what holds in every state of every run, when the firmware gives the timers it is asked
  for;
* `Timely.network_timer` — when the loop waits, the network task has its timer in the registry;
* `never_waits_without_timer` — so each list of events that is passed to `wait_for_event` has one,
  of 100 ms at most, and the processor is never stalled.
-/

namespace WebUiBoot.Program

open WebUiBoot.Executor WebUiBoot.Futures WebUiBoot.Net WebUiBoot.PushNew WebUiBoot.Trace
  WebUiBoot.Ui

variable {M σ : Type} {E : Type*}

/-- The network task waits for 10 ms, and for 100 ms at its beginning. -/
theorem networkRequests_ticks {request : Request} (h : request ∈ networkRequests) :
    0 < request.ticks ∧ request.ticks ≤ 1000000 := by
  rcases List.mem_cons.mp h with rfl | h
  · exact ⟨by decide, by decide⟩
  · obtain rfl := List.mem_singleton.mp h
    exact ⟨by decide, by decide⟩

/-- A wait for events has a timer of the network task among them. -/
def Timed (armed : List (E × ℕ)) : Obs E → Prop
  | .stalled => False
  | .waited events _ => ∃ timer ticks, timer ∈ events ∧ (timer, ticks) ∈ armed ∧ 0 < ticks
      ∧ ticks ≤ 1000000
  | _ => True

theorem Timed.mono {armed armed' : List (E × ℕ)} (harmed : armed <+: armed') {o : Obs E}
    (h : Timed armed o) : Timed armed' o := by
  cases o with
  | stalled => exact h
  | waited events answer =>
      obtain ⟨timer, ticks, htimer, hmem, hticks⟩ := h
      exact ⟨timer, ticks, htimer, harmed.subset hmem, hticks⟩
  | spawned | woken | roundBegin | polled | missing => trivial

variable [DecidableEq E]

/-- A round does not wait. -/
theorem runOnce_timed {F W : Type*} (fut : Futures F W E) (s : State F W E)
    (armed : List (E × ℕ)) : ∀ o ∈ (runOnce fut s).2.2, Timed armed o := by
  have hlist : ∀ (ids : List TaskId) (s : State F W E),
      ∀ o ∈ ((runList fut).run s ids).2, Timed armed o := by
    intro ids
    induction ids with
    | nil => exact fun _ _ => nofun
    | cons id ids ih =>
        intro s o ho
        rw [Machine.run_cons, List.mem_append] at ho
        rcases ho with ho | ho
        · change o ∈ (pollTask fut s id).2 at ho
          unfold pollTask at ho
          cases hlookup : s.tasks.lookup id with
          | none =>
              rw [hlookup] at ho
              obtain rfl := List.mem_singleton.mp ho
              trivial
          | some future =>
              rw [hlookup] at ho
              obtain rfl := List.mem_singleton.mp ho
              trivial
        · exact ih _ o ho
  rw [runOnce_eq]
  intro o ho
  rcases List.mem_cons.mp ho with rfl | ho
  · trivial
  · exact hlist _ _ o ho

variable {p : Platform M σ} {fw : Firmware M E} {socket : σ}

/-- What holds in every state of every run, behind a trace. -/
structure Timely (p : Platform M σ) (fw : Firmware M E) (socket : σ) (tr : List (Obs E))
    (s : Pc × State (SleepTask Body E) (Futures.World (World M σ) E) E) : Prop where
  good : RunGood tr s
  asleep : SleepInv tr s.2
  queued : FirstQueued tr s.2
  running : HoldsAt (Running p socket) tr s.2
  timed : ∀ o ∈ tr, Timed s.2.world.armed o

omit [DecidableEq E] in
theorem onMachine_reliable (h : Reliable fw) : Reliable (onMachine (σ := σ) fw) :=
  ⟨fun w => h.createEvent w.machine, fun w => h.setTimer w.machine⟩

/-- When the loop waits, the network task has been polled. -/
theorem Timely.network_polled {tr : List (Obs E)}
    {s : State (SleepTask Body E) (Futures.World (World M σ) E) E}
    (h : Timely p fw socket tr (.waiting, s)) : networkTask ∈ polledIds tr := by
  by_contra hnew
  have hqueued := h.queued networkTask ((h.running.live networkTask).mpr (Or.inl rfl)) hnew
  rw [h.good.idle rfl] at hqueued
  exact List.not_mem_nil hqueued

/-- **When the loop waits**, the timer of the network task is in the registry. -/
theorem Timely.network_timer {tr : List (Obs E)}
    {s : State (SleepTask Body E) (Futures.World (World M σ) E) E}
    (h : Timely p fw socket tr (.waiting, s)) :
    ∃ timer ticks, (timer, networkTask) ∈ s.eventRegistry ∧ (timer, ticks) ∈ s.world.armed
      ∧ 0 < ticks ∧ ticks ≤ 1000000 := by
  obtain ⟨task, hlookup, hat⟩ := h.running.network
  have hpolled := h.network_polled
  obtain ⟨n, hcount⟩ := Nat.exists_eq_add_one.mpr (List.count_pos_iff.mpr hpolled)
  rw [hcount] at hat
  obtain ⟨request, pending, hrequest, hasleep, _⟩ := hat
  obtain ⟨hpos, hle⟩ := networkRequests_ticks hrequest
  obtain ⟨sleep, hsleep, _, heq⟩ := hasleep.sleeping
  rcases h.asleep networkTask task hlookup with ⟨hnew, _⟩ | ⟨sleep', hsleep', hsuspended⟩
  · exact absurd hpolled hnew
  · obtain rfl : sleep = sleep' := Option.some.inj (hsleep.symm.trans hsleep')
    obtain ⟨timer, _, harmed, hregistered⟩ := hsuspended.timer (heq ▸ hpos)
    exact ⟨timer, _, hregistered, harmed, heq ▸ hpos, heq ▸ hle⟩

/-- **One wait.** -/
theorem Timely.wait {tr : List (Obs E)}
    {s : State (SleepTask Body E) (Futures.World (World M σ) E) E}
    (h : Timely p fw socket tr (.waiting, s)) (answer : List E → Option ℕ) :
    ∀ o ∈ (waitForEvents s answer).2, Timed s.world.armed o := by
  obtain ⟨timer, ticks, hregistered, harmed, hpos, hle⟩ := h.network_timer
  have hmem : timer ∈ registeredEvents s :=
    mem_pushAll.mpr (Or.inr (List.mem_map.mpr ⟨_, hregistered, rfl⟩))
  have htimed : ∀ answer', Timed s.world.armed (.waited (registeredEvents s) answer') :=
    fun _ => ⟨timer, ticks, hmem, harmed, hpos, hle⟩
  intro o ho
  unfold waitForEvents at ho
  split at ho
  · cases ho
  · split at ho
    · cases ho
    · dsimp only at ho
      split at ho
      · rename_i hnone
        rw [hnone] at hmem
        exact absurd hmem List.not_mem_nil
      · split at ho
        · split at ho
          · obtain rfl := List.mem_singleton.mp ho
            exact htimed _
          · obtain rfl := List.mem_singleton.mp ho
            exact htimed _
        · obtain rfl := List.mem_singleton.mp ho
          exact htimed _

omit [DecidableEq E] in
/-- What is armed stays armed, in the log of the world. -/
theorem armed_poll (p : Platform M σ) (fw : Firmware M E) (socket : σ) (armed : List (E × ℕ)) :
    PollRule (sleepTasks (onMachine fw) (resume p))
    fun ids tasks w => Running p socket ids tasks w ∧ armed <+: w.armed := by
  intro ids tasks w id task h hlookup
  obtain ⟨body, hresumes⟩ := h.1.resumes fw hlookup
  exact ⟨running_poll p fw socket ids tasks w id task h.1 hlookup, h.2.trans hresumes.armed⟩

/-- **One step of the loop.** -/
theorem Timely.step (hfw : Reliable fw) {tr : List (Obs E)}
    {s : Pc × State (SleepTask Body E) (Futures.World (World M σ) E) E}
    (h : Timely p fw socket tr s) (i : Executor.Input E) :
    Timely p fw socket (tr ++ (runStep (sleepTasks (onMachine fw) (resume p)) s i).2)
      (runStep (sleepTasks (onMachine fw) (resume p)) s i).1 := by
  have hquiet := h.good.good.inv.quiet
  have hrunning : HoldsAt (fun ids tasks w => Running p socket ids tasks w
      ∧ s.2.world.armed <+: w.armed) tr s.2 := ⟨h.running, List.prefix_refl _⟩
  have hstep := hrunning.step (armed_poll p fw socket s.2.world.armed) hquiet i
  refine ⟨h.good.step _ i, h.asleep.step (resume p) (onMachine_reliable hfw) hquiet i,
    h.queued.step _ h.good.good i, hstep.1, fun o ho => ?_⟩
  rcases List.mem_append.mp ho with ho | ho
  · exact (h.timed o ho).mono hstep.2
  · refine Timed.mono hstep.2 ?_
    obtain ⟨pc, s⟩ := s
    cases i with
    | wake id =>
        obtain rfl := List.mem_singleton.mp ho
        trivial
    | advance answer =>
        cases pc with
        | loopHead =>
            unfold runStep at ho
            dsimp only at ho
            by_cases hkeys : s.tasks.keys = []
            · rw [if_pos hkeys] at ho
              cases ho
            · rw [if_neg hkeys] at ho
              exact runOnce_timed _ s _ o ho
        | waiting => exact h.wait answer o ho
        | returned => cases ho

/-- **Every state of every run.** -/
theorem program_timely (hfw : Reliable fw) (p : Platform M σ) (m : M) (socket : σ)
    (inputs : List (Executor.Input E)) :
    Timely p fw socket (program p fw m socket inputs).2 (program p fw m socket inputs).1 := by
  have hfresh := (spawnAll_fresh (sleepTasks (onMachine fw) (resume p))
    ⟨World.start m socket, []⟩ (newTasks bodies)).2
  have hstart : Timely p fw socket
      (spawnAll (sleepTasks (onMachine fw) (resume p)) ⟨World.start m socket, []⟩
        (newTasks bodies)).2
      (.loopHead, (spawnAll (sleepTasks (onMachine fw) (resume p)) ⟨World.start m socket, []⟩
        (newTasks bodies)).1) := by
    refine ⟨⟨spawnAll_good _ _ _, nofun⟩, spawnAll_sleepInv (resume p) _ bodies,
      spawnAll_firstQueued _ _ _, ?_, ?_⟩
    · unfold HoldsAt
      rw [hfresh]
      exact running_start p fw m socket
    · intro o ho
      change o ∈ [Obs.spawned 0, .spawned 1] at ho
      rcases List.mem_cons.mp ho with rfl | ho
      · trivial
      · obtain rfl := List.mem_singleton.mp ho
        trivial
  exact (runLoop _).run_invariant (fun _ _ i h => h.step hfw i) hstart inputs

/-- **The program never waits without a timer.**  On a firmware that gives each timer it is asked
for, in every run, whatever the machine, the client and the user do: the processor is never stalled,
and among the events of every call of `wait_for_event` is a timer that has been armed for 100 ms at
most.  When the loop is about to wait, such a timer is registered for the network task. -/
theorem never_waits_without_timer (hfw : Reliable fw) (p : Platform M σ) (m : M) (socket : σ)
    (inputs : List (Executor.Input E)) :
    let r := program p fw m socket inputs
    .stalled ∉ r.2
      ∧ (∀ events answer, .waited events answer ∈ r.2 → ∃ timer ticks, timer ∈ events
          ∧ (timer, ticks) ∈ r.1.2.world.armed ∧ 0 < ticks ∧ ticks ≤ 1000000)
      ∧ (r.1.1 = .waiting → ∃ timer ticks, (timer, networkTask) ∈ r.1.2.eventRegistry
          ∧ (timer, ticks) ∈ r.1.2.world.armed ∧ 0 < ticks ∧ ticks ≤ 1000000) := by
  intro r
  have htimely : Timely p fw socket r.2 r.1 := program_timely hfw p m socket inputs
  refine ⟨fun hstalled => htimely.timed _ hstalled, fun events answer hwaited =>
    htimely.timed _ hwaited, fun hwaiting => ?_⟩
  have hat : Timely p fw socket r.2 (.waiting, r.1.2) := by
    rw [← hwaiting]
    exact htimely
  exact hat.network_timer

/-- A machine that counts the timers it has made, with nobody at the keyboard. -/
def idlePlatform : Platform ℕ Socket where
  env := windowsOnly
  codes := slintKeys
  getMsSinceStart m := (0, m)
  ifacePoll m _ := (id, m)
  getKeyPresses m := ([], m)
  clicks m := ([], m)
  osHandles _ := .ok []
  linuxHandles _ := none
  afterBoot m := m
  pause m := (⟨0, 16000000, Duration.zero.secs_lt, by decide⟩, m)

/-- The first wait. -/
theorem never_waits_without_timer_idle :
    ∃ timer ticks, timer ∈ [1, 0, 2]
      ∧ (timer, ticks) ∈ [(1, 1000000), (2, 160000)] ∧ 0 < ticks ∧ ticks ≤ 1000000 :=
  (never_waits_without_timer countingFirmware_reliable idlePlatform 1 ⟨.closed, [], 0⟩
    [.advance fun _ => none, .advance fun _ => none, .advance fun _ => none]).2.1 [1, 0, 2] none
    (by decide)

end WebUiBoot.Program
