import WebUiBoot.Executor.Delivery

/-!
# What only polls change

Between two polls the executor moves identifiers and events about, and leaves the tasks' futures and
the world alone.  So what is said of these, and of the order of the polls, has to be proved for one
poll only.

* `PollRule` — what one poll has to preserve;
* `run_polls` — then it holds in every state of every run of `Executor::run`;
* `run_not_returned` — and when it keeps a task live, the run does not come to an end;
* `FirstQueued` — a live task that has not been polled is queued, and so when the loop waits every
  live task has been polled.
-/

namespace WebUiBoot.Executor

open WebUiBoot.PushNew WebUiBoot.Trace

variable {F W E : Type*}

/-- A property of the tasks that have been polled so far, of the futures and of the world is
preserved by each poll of a live task. -/
def PollRule (fut : Futures F W E) (I : List TaskId → (AList fun _ : TaskId => F) → W → Prop) :
    Prop :=
  ∀ ids tasks w id future, I ids tasks w → tasks.lookup id = some future →
    I (ids ++ [id]) (settled tasks id (fut.poll id future w).future (fut.poll id future w).result)
      (fut.poll id future w).world

/-- The property in a state, behind a trace. -/
def HoldsAt (I : List TaskId → (AList fun _ : TaskId => F) → W → Prop) (tr : List (Obs E))
    (s : State F W E) : Prop :=
  I (polledIds tr) s.tasks s.world

/-- What is done between two polls. -/
theorem HoldsAt.other {I : List TaskId → (AList fun _ : TaskId => F) → W → Prop}
    {tr obs : List (Obs E)} {s s' : State F W E} (h : HoldsAt I tr s) (hobs : polledIds obs = [])
    (htasks : s'.tasks = s.tasks) (hworld : s'.world = s.world) : HoldsAt I (tr ++ obs) s' := by
  unfold HoldsAt
  rw [polledIds_append, hobs, List.append_nil, htasks, hworld]
  exact h

variable [DecidableEq E] {fut : Futures F W E}
  {I : List TaskId → (AList fun _ : TaskId => F) → W → Prop}

theorem HoldsAt.afterPoll (hI : PollRule fut I) {tr : List (Obs E)} {s : State F W E}
    (h : HoldsAt I tr s) (hq : Quiet s) (id : TaskId) :
    HoldsAt I (tr ++ (pollTask fut s id).2) (pollTask fut s id).1 := by
  cases hf : s.tasks.lookup id with
  | none =>
      rw [pollTask_of_lookup_none fut hf]
      exact h.other rfl rfl rfl
  | some future =>
      rw [pollTask_eq fut hq hf]
      unfold HoldsAt
      rw [polledIds_append]
      exact hI _ _ _ id future h hf

theorem HoldsAt.afterRunOnce (hI : PollRule fut I) {tr : List (Obs E)} {s : State F W E}
    (h : HoldsAt I tr s) (hq : Quiet s) :
    HoldsAt I (tr ++ (runOnce fut s).2.2) (runOnce fut s).2.1 := by
  have hstart : HoldsAt I (tr ++ [.roundBegin]) (roundStart s) := h.other rfl rfl rfl
  have hrun := runList_invariant fut (fun _ _ id h hq => h.afterPoll hI hq id) hstart
    ⟨hq.current, hq.global⟩ (drainAwake s).runQueue
  rw [List.append_assoc] at hrun
  rw [runOnce_eq]
  exact hrun

theorem HoldsAt.afterWait {tr : List (Obs E)} {s : State F W E} (h : HoldsAt I tr s)
    (answer : List E → Option ℕ) :
    HoldsAt I (tr ++ (waitForEvents s answer).2) (waitForEvents s answer).1 := by
  rcases waitForEvents_cases s answer with hw | ⟨o, hw, hpoll, _⟩ | ⟨i, signaled, _, _, _, hw⟩
  · rw [hw]
    exact h.other rfl rfl rfl
  · rw [hw]
    refine h.other ?_ rfl rfl
    simp [polledIds, hpoll]
  · rw [hw]
    exact h.other rfl rfl rfl

/-- **One step of the loop.** -/
theorem HoldsAt.step (hI : PollRule fut I) {tr : List (Obs E)} {p : Pc × State F W E}
    (h : HoldsAt I tr p.2) (hq : Quiet p.2) (i : Input E) :
    HoldsAt I (tr ++ (runStep fut p i).2) (runStep fut p i).1.2 := by
  obtain ⟨pc, s⟩ := p
  cases i with
  | wake id =>
      have hkept : (wakeWaker s id).tasks = s.tasks := rfl
      exact h.other (by simp [runStep, polledIds, Obs.polledId]) hkept rfl
  | advance answer =>
      cases pc with
      | loopHead =>
          unfold runStep
          dsimp only
          by_cases hkeys : s.tasks.keys = []
          · rw [if_pos hkeys]
            exact h.other rfl rfl rfl
          · rw [if_neg hkeys]
            exact h.afterRunOnce hI hq
      | waiting => exact h.afterWait answer
      | returned => exact h.other rfl rfl rfl

/-- **The rule for runs**, from any state. -/
theorem HoldsAt.run (hI : PollRule fut I) {tr : List (Obs E)} {p : Pc × State F W E}
    (hgood : RunGood tr p) (h : HoldsAt I tr p.2) (inputs : List (Input E)) :
    HoldsAt I (tr ++ ((runLoop fut).run p inputs).2) ((runLoop fut).run p inputs).1.2 :=
  ((runLoop fut).run_invariant (I := fun tr p => RunGood tr p ∧ HoldsAt I tr p.2)
    (fun _ _ i h => ⟨h.1.step fut i, h.2.step hI h.1.good.inv.quiet i⟩) ⟨hgood, h⟩ inputs).2

/-- **The rule for runs.**  What holds of the spawned tasks, and is preserved by each poll, holds in
every state of `Executor::run`. -/
theorem run_polls (hI : PollRule fut I) (w : W) (spawned : Spawned F)
    (hstart : I [] (spawnAll fut w spawned).1.tasks (spawnAll fut w spawned).1.world)
    (inputs : List (Input E)) :
    I (polledIds (run fut w spawned inputs).2) (run fut w spawned inputs).1.2.tasks
      (run fut w spawned inputs).1.2.world := by
  have hgood : RunGood (spawnAll fut w spawned).2 (.loopHead, (spawnAll fut w spawned).1) :=
    ⟨spawnAll_good fut w spawned, nofun⟩
  have hholds : HoldsAt I (spawnAll fut w spawned).2 (spawnAll fut w spawned).1 := by
    unfold HoldsAt
    rw [(spawnAll_fresh fut w spawned).2]
    exact hstart
  exact hholds.run hI hgood inputs

/-- The loop is left only when no task is live. -/
theorem runStep_not_returned {p : Pc × State F W E} (h : p.1 ≠ .returned)
    (hlive : p.2.tasks.keys ≠ []) (i : Input E) : (runStep fut p i).1.1 ≠ .returned := by
  obtain ⟨pc, s⟩ := p
  cases i with
  | wake id => exact h
  | advance answer =>
      cases pc with
      | loopHead =>
          unfold runStep
          dsimp only
          rw [if_neg hlive]
          cases (runOnce fut s).1 with
          | true => exact nofun
          | false => exact nofun
      | waiting => exact nofun
      | returned => exact absurd rfl h

theorem run_not_returned (hI : PollRule fut I)
    (hlive : ∀ ids tasks w, I ids tasks w → tasks.keys ≠ []) (w : W) (spawned : Spawned F)
    (hstart : I [] (spawnAll fut w spawned).1.tasks (spawnAll fut w spawned).1.world)
    (inputs : List (Input E)) : (run fut w spawned inputs).1.1 ≠ .returned := by
  induction inputs using List.reverseRecOn with
  | nil => exact nofun
  | append_singleton inputs i ih =>
      have hbefore := hlive _ _ _ (run_polls hI w spawned hstart inputs)
      have hrun : (run fut w spawned (inputs ++ [i])).1
          = (runStep fut (run fut w spawned inputs).1 i).1 := by
        show ((runLoop fut).run (.loopHead, (spawnAll fut w spawned).1) (inputs ++ [i])).1 = _
        rw [Machine.run_append, Machine.run_singleton]
        rfl
      rw [hrun]
      exact runStep_not_returned ih hbefore i

/-! ### The first poll -/

/-- A live task that has not been polled is queued. -/
def FirstQueued (tr : List (Obs E)) (s : State F W E) : Prop :=
  ∀ id ∈ s.tasks, id ∉ polledIds tr → id ∈ s.runQueue

theorem spawnAll_firstQueued (fut : Futures F W E) (w : W) (spawned : Spawned F) :
    FirstQueued (spawnAll fut w spawned).2 (spawnAll fut w spawned).1 := by
  have hlive : ∀ id ∈ (spawnAll fut w spawned).1.tasks,
      id ∈ (spawnAll fut w spawned).1.runQueue := by
    refine spawnAll_invariant fut w spawned
      (I := fun _ s => ∀ id ∈ s.tasks, id ∈ s.runQueue) (fun id h => ?_) ?_
    · exact absurd h (AList.notMem_empty id)
    · intro tr s future _ h id hid
      rcases mem_spawn.mp hid with rfl | hid
      · exact List.mem_append_right _ (List.mem_singleton_self _)
      · exact List.mem_append_left _ (h id hid)
  exact fun id hid _ => hlive id hid

/-- A round polls all that is queued, and no task begins to live in it. -/
theorem FirstQueued.afterRunOnce {tr : List (Obs E)} {s : State F W E} (fut : Futures F W E)
    (h : FirstQueued tr s) (hgood : Good tr s) :
    FirstQueued (tr ++ (runOnce fut s).2.2) (runOnce fut s).2.1 := by
  intro id hid hnew
  rw [polledIds_append, List.mem_append, not_or, (hgood.runOnce_polled fut).1] at hnew
  have hlive : id ∈ s.tasks := by
    rw [runOnce_eq] at hid
    exact ((runList_mem_tasks fut (drainAwake s).runQueue hgood.inv.afterDrain.quiet).mp hid).1
  exact absurd (mem_pushAll.mpr (Or.inl (h id hlive hnew.1))) hnew.2

/-- **One step of the loop.** -/
theorem FirstQueued.step {tr : List (Obs E)} {p : Pc × State F W E} (fut : Futures F W E)
    (h : FirstQueued tr p.2) (hgood : Good tr p.2) (i : Input E) :
    FirstQueued (tr ++ (runStep fut p i).2) (runStep fut p i).1.2 := by
  obtain ⟨pc, s⟩ := p
  have hkept : ∀ {obs : List (Obs E)} {s' : State F W E}, (∀ id, id ∈ s'.tasks → id ∈ s.tasks) →
      (∀ id ∈ s.runQueue, id ∈ s'.runQueue) → FirstQueued (tr ++ obs) s' := by
    intro obs s' htasks hqueue id hid hnew
    rw [polledIds_append, List.mem_append, not_or] at hnew
    exact hqueue id (h id (htasks id hid) hnew.1)
  cases i with
  | wake id => exact hkept (fun _ hid => hid) fun _ hid => hid
  | advance answer =>
      cases pc with
      | loopHead =>
          unfold runStep
          dsimp only
          by_cases hkeys : s.tasks.keys = []
          · rw [if_pos hkeys]
            exact hkept (fun _ hid => hid) fun _ hid => hid
          · rw [if_neg hkeys]
            exact h.afterRunOnce fut hgood
      | waiting =>
          show FirstQueued (tr ++ (waitForEvents s answer).2) (waitForEvents s answer).1
          rcases waitForEvents_cases s answer with hw | ⟨o, hw, _⟩ | ⟨i, signaled, _, _, _, hw⟩
          · rw [hw]
            exact hkept (fun _ hid => hid) fun _ hid => hid
          · rw [hw]
            exact hkept (fun _ hid => hid) fun _ hid => hid
          · rw [hw]
            exact hkept (fun _ hid => hid) fun _ hid => mem_pushAll.mpr (Or.inl hid)
      | returned => exact hkept (fun _ hid => hid) fun _ hid => hid

end WebUiBoot.Executor
