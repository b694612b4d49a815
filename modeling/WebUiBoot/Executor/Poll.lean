import WebUiBoot.Executor.History

/-!
# What one poll does to the executor

The loop body of `run_once` sets a static, drops and moves registry entries, and cleans up after
a finished task.  Between polls the static `CURRENT_TASK` is `None` and the global registry is
empty (`Quiet`), and then the whole body has a closed form.

* `pollTask_eq` — the state after polling a live task;
* `pollTask_of_lookup_none` — the branch that is not meant to be taken;
* `runList_invariant` — the invariant rule for a round;
* `runList_mem_tasks` — a round removes exactly the tasks that finish in it;
* `runList_polled` — a duplicate-free run list of live tasks is polled in order, each task once.
-/

namespace WebUiBoot.Executor

open WebUiBoot.PushNew WebUiBoot.Trace

variable {F W E : Type*} [DecidableEq E]

/-- No poll is going on: no current task, and no registration waiting to be moved. -/
structure Quiet (s : State F W E) : Prop where
  current : s.currentTask = none
  global : s.globalEventRegistry = []

/-- The calls of a poll only reach the two statics of the running task. -/
theorem doActions_eq (id : TaskId) (actions : List (Action E)) :
    ∀ {s : State F W E}, s.currentTask = some id →
      doActions s actions = { s with
        awakeTasks := pushAll s.awakeTasks (wakes actions)
        globalEventRegistry :=
          pushAll s.globalEventRegistry ((registrations actions).map (·, id)) } := by
  induction actions with
  | nil => intro s _; rfl
  | cons a actions ih =>
      intro s hs
      show doActions (doAction s a) actions = _
      cases a with
      | wake id' =>
          rw [ih (s := doAction s (.wake id')) hs]
          rfl
      | register event =>
          have hstep : doAction s (.register event)
              = { s with globalEventRegistry := pushNew s.globalEventRegistry (event, id) } := by
            simp only [doAction, registerEventForCurrentTask, hs]
          rw [hstep, ih (by exact hs)]
          rfl

/-- The task map after a poll: the future is stored back, and dropped when it is finished. -/
def settled (tasks : AList fun _ : TaskId => F) (id : TaskId) (future : F) :
    Poll → AList fun _ : TaskId => F
  | .ready => (tasks.insert id future).erase id
  | .pending => tasks.insert id future

theorem mem_settled {tasks : AList fun _ : TaskId => F} {id id' : TaskId} {future : F}
    {result : Poll} (h : id ∈ tasks) :
    id' ∈ settled tasks id future result ↔ id' ∈ tasks ∧ (result = .ready → id' ≠ id) := by
  cases result with
  | ready =>
      rw [settled, AList.mem_erase, AList.mem_insert]
      constructor
      · rintro ⟨hne, heq | hmem⟩
        · exact absurd heq hne
        · exact ⟨hmem, fun _ => hne⟩
      · rintro ⟨hmem, hne⟩
        exact ⟨hne rfl, Or.inr hmem⟩
  | pending =>
      rw [settled, AList.mem_insert]
      constructor
      · rintro (rfl | hmem)
        · exact ⟨h, by simp⟩
        · exact ⟨hmem, by simp⟩
      · rintro ⟨hmem, _⟩
        exact Or.inr hmem

/-- **One poll.**  Outside of a poll, polling a live task stores the future back, replaces the
task's entries in the registry by those of this poll, and adds the wakes of the poll. -/
theorem pollTask_eq (fut : Futures F W E) {s : State F W E} {id : TaskId} {future : F}
    (hq : Quiet s) (h : s.tasks.lookup id = some future) :
    pollTask fut s id =
      ({ s with
          tasks := settled s.tasks id (fut.poll id future s.world).future
            (fut.poll id future s.world).result
          eventRegistry := s.eventRegistry.filter (·.2 ≠ id)
            ++ entries id (fut.poll id future s.world).actions (fut.poll id future s.world).result
          awakeTasks := pushAll s.awakeTasks (wakes (fut.poll id future s.world).actions)
          world := (fut.poll id future s.world).world },
        [.polled id (fut.poll id future s.world).actions (fut.poll id future s.world).result]) := by
  have hinj : Function.Injective fun e : E => (e, id) := fun _ _ h => (Prod.mk.inj h).1
  have hglobal : pushAll s.globalEventRegistry
      ((registrations (fut.poll id future s.world).actions).map (·, id))
        = (pushAll [] (registrations (fut.poll id future s.world).actions)).map (·, id) := by
    rw [hq.global, ← pushAll_map hinj, List.map_nil]
  have hothers : ∀ l : List E, (l.map fun e => (e, id)).filter (·.2 ≠ id) = [] := by
    intro l
    simp
  have hown : ∀ l : List E, (l.map fun e => (e, id)).filter (·.2 = id) = l.map (·, id) := by
    intro l
    simp
  simp only [pollTask, h, beginPoll]
  rw [doActions_eq id _ rfl]
  simp only [hglobal]
  cases (fut.poll id future s.world).result with
  | ready =>
      simp only [takeRegistrations, finishPoll, hothers, settled, entries, List.filter_filter,
        List.append_nil, hq.current, hq.global, Bool.and_self]
  | pending =>
      simp only [takeRegistrations, finishPoll, hothers, hown, settled, entries, hq.current,
        hq.global]

theorem pollTask_of_lookup_none (fut : Futures F W E) {s : State F W E} {id : TaskId}
    (h : s.tasks.lookup id = none) : pollTask fut s id = (s, [.missing id]) := by
  simp only [pollTask, h]

/-- The fields of the state that a poll does not touch. -/
structure Framed (s s' : State F W E) : Prop where
  quiet : Quiet s'
  runQueue : s'.runQueue = s.runQueue
  nextId : s'.nextId = s.nextId

theorem pollTask_framed (fut : Futures F W E) {s : State F W E} (hq : Quiet s) (id : TaskId) :
    Framed s (pollTask fut s id).1 := by
  cases h : s.tasks.lookup id with
  | none =>
      rw [pollTask_of_lookup_none fut h]
      exact ⟨hq, rfl, rfl⟩
  | some future =>
      rw [pollTask_eq fut hq h]
      exact ⟨⟨hq.current, hq.global⟩, rfl, rfl⟩

theorem mem_iff_lookup {tasks : AList fun _ : TaskId => F} {id : TaskId} :
    id ∈ tasks ↔ ∃ future, tasks.lookup id = some future := by
  rw [← AList.lookup_isSome, Option.isSome_iff_exists]

/-- A live task is polled, and nothing else is seen. -/
theorem pollTask_obs (fut : Futures F W E) {s : State F W E} {id : TaskId} (hq : Quiet s)
    (h : id ∈ s.tasks) :
    ∃ actions result, (pollTask fut s id).2 = [.polled id actions result] := by
  obtain ⟨future, hf⟩ := mem_iff_lookup.mp h
  rw [pollTask_eq fut hq hf]
  exact ⟨_, _, rfl⟩

/-- A poll removes its task when the task finishes, and no other. -/
theorem pollTask_mem_tasks (fut : Futures F W E) {s : State F W E} {id id' : TaskId}
    (hq : Quiet s) :
    id' ∈ (pollTask fut s id).1.tasks
      ↔ id' ∈ s.tasks ∧ ¬ Finished (pollTask fut s id).2 id' := by
  cases h : s.tasks.lookup id with
  | none => simp [pollTask_of_lookup_none fut h, Finished]
  | some future =>
      have hmem : id ∈ s.tasks := mem_iff_lookup.mpr ⟨future, h⟩
      rw [pollTask_eq fut hq h, mem_settled hmem]
      simp only [Finished, List.mem_singleton, Obs.polled.injEq, not_exists, not_and]
      refine and_congr_right fun _ => ?_
      constructor
      · rintro hne actions rfl _ hres
        exact hne hres.symm rfl
      · rintro hne hres rfl
        exact hne _ rfl rfl hres.symm

/-! ### The loop over the run list -/

theorem runList_cons (fut : Futures F W E) (s : State F W E) (id : TaskId) (ids : List TaskId) :
    (runList fut).run s (id :: ids)
      = (((runList fut).run (pollTask fut s id).1 ids).1,
          (pollTask fut s id).2 ++ ((runList fut).run (pollTask fut s id).1 ids).2) := rfl

theorem runList_framed (fut : Futures F W E) (ids : List TaskId) :
    ∀ {s : State F W E}, Quiet s → Framed s ((runList fut).run s ids).1 := by
  induction ids with
  | nil => exact fun hq => ⟨hq, rfl, rfl⟩
  | cons id ids ih =>
      intro s hq
      have hpoll := pollTask_framed fut hq id
      have hrest := ih hpoll.quiet
      rw [runList_cons]
      exact ⟨hrest.quiet, hrest.runQueue.trans hpoll.runQueue, hrest.nextId.trans hpoll.nextId⟩

/-- **The rule for run lists.**  A relation between trace and state that each poll preserves, from
a state in which no poll is going on, is preserved by a run list. -/
theorem runList_invariant (fut : Futures F W E) {I : List (Obs E) → State F W E → Prop}
    (hpoll : ∀ tr s id, I tr s → Quiet s →
      I (tr ++ (pollTask fut s id).2) (pollTask fut s id).1)
    {tr : List (Obs E)} {s : State F W E} (h : I tr s) (hq : Quiet s) (ids : List TaskId) :
    I (tr ++ ((runList fut).run s ids).2) ((runList fut).run s ids).1 :=
  ((runList fut).run_invariant (I := fun tr s => I tr s ∧ Quiet s)
    (fun tr s id h => ⟨hpoll tr s id h.1 h.2, (pollTask_framed fut h.2 id).quiet⟩) ⟨h, hq⟩ ids).1

/-- A round removes exactly the tasks that finish in it. -/
theorem runList_mem_tasks (fut : Futures F W E) {id' : TaskId} (ids : List TaskId) :
    ∀ {s : State F W E}, Quiet s →
      (id' ∈ ((runList fut).run s ids).1.tasks
        ↔ id' ∈ s.tasks ∧ ¬ Finished ((runList fut).run s ids).2 id') := by
  induction ids with
  | nil => intro s _; simp [Finished]
  | cons id ids ih =>
      intro s hq
      rw [runList_cons, ih (pollTask_framed fut hq id).quiet, finished_append, not_or, ← and_assoc]
      exact and_congr_left fun _ => pollTask_mem_tasks fut hq

/-- A poll of another task leaves a task live. -/
theorem pollTask_mem_of_ne (fut : Futures F W E) {s : State F W E} {id id' : TaskId}
    (hq : Quiet s) (h : id' ∈ s.tasks) (hne : id' ≠ id) : id' ∈ (pollTask fut s id).1.tasks := by
  cases hf : s.tasks.lookup id with
  | none => rwa [pollTask_of_lookup_none fut hf]
  | some future =>
      rw [pollTask_eq fut hq hf]
      exact (mem_settled (mem_iff_lookup.mpr ⟨future, hf⟩)).mpr ⟨h, fun _ => hne⟩

/-- **The run list.**  A duplicate-free run list of live tasks is polled in order, each task
once, and every task of it is found when its turn comes. -/
theorem runList_polled (fut : Futures F W E) {ids : List TaskId} (hnd : ids.Nodup) :
    ∀ {s : State F W E}, Quiet s → (∀ id ∈ ids, id ∈ s.tasks) →
      polledIds ((runList fut).run s ids).2 = ids
        ∧ ∀ id, Obs.missing id ∉ ((runList fut).run s ids).2 := by
  induction ids with
  | nil => intro s _ _; simp
  | cons id ids ih =>
      intro s hq hlive
      obtain ⟨hid, hnd'⟩ := List.nodup_cons.mp hnd
      have hlive' : ∀ id' ∈ ids, id' ∈ (pollTask fut s id).1.tasks := fun id' h' =>
        pollTask_mem_of_ne fut hq (hlive id' (List.mem_cons_of_mem _ h'))
          (fun heq => hid (heq ▸ h'))
      obtain ⟨hids, hmiss⟩ := ih hnd' (pollTask_framed fut hq id).quiet hlive'
      obtain ⟨actions, result, hobs⟩ := pollTask_obs fut hq (hlive id List.mem_cons_self)
      rw [runList_cons, hobs, polledIds_append]
      refine ⟨?_, fun id' => ?_⟩
      · show id :: polledIds _ = id :: ids
        rw [hids]
      · simpa using hmiss id'

end WebUiBoot.Executor
