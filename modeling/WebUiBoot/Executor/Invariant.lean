import WebUiBoot.Executor.Poll

/-!
# The invariants of the executor

Four groups of facts tie the executor's state to the trace it has produced.

* `Inv` — the bookkeeping: no registration is in flight, the registry holds exactly the
  registrations of the latest polls, and every task with a wake that has not been answered is
  queued or in `AWAKE_TASKS`.  It needs nothing about identifiers.
* `QueueOk` — the run queue has no duplicates and holds live tasks only.
* `Sound` — live tasks are unfinished, and no poll ever hit a finished task.
* `Fresh` — identifiers are handed out in order, as long as `NEXT_ID` has not wrapped around.

Each operation preserves them (`Good.afterSpawn`, `Good.afterWake`, `Good.afterRunOnce`,
`Good.afterWait`), and so they hold after every run: `operations_good` for arbitrary sequences of
operations, `run_good` for the loop of `Executor::run`.
-/

namespace WebUiBoot.Executor

open WebUiBoot.PushNew WebUiBoot.Trace

variable {F W E : Type*} [DecidableEq E]

/-! ### Bookkeeping -/

/-- The bookkeeping invariant; `q` is the run queue, or what is left of the run list while a
round is going on. -/
structure Inv (tr : List (Obs E)) (q : List TaskId) (s : State F W E) : Prop where
  quiet : Quiet s
  awake_nodup : s.awakeTasks.Nodup
  registry : s.eventRegistry = latestRegistrations tr
  registry_live : ∀ p ∈ s.eventRegistry, p.2 ∈ s.tasks
  woken : ∀ id ∈ s.tasks, WokenUnpolled tr id → id ∈ s.awakeTasks ∨ id ∈ q
  woken_round : ∀ id, WokenSinceRound tr id → id ∈ s.awakeTasks

/-- An observation that is neither a poll nor a waker call. -/
theorem Inv.snoc {tr : List (Obs E)} {q : List TaskId} {s : State F W E} (h : Inv tr q s)
    {o : Obs E} (hpoll : o.polledId = none) (hwakes : o.wakes = []) : Inv (tr ++ [o]) q s where
  quiet := h.quiet
  awake_nodup := h.awake_nodup
  registry := h.registry.trans (latestRegistrations_snoc_other tr hpoll).symm
  registry_live := h.registry_live
  woken id hid hw := by
    rw [WokenUnpolled, since_append_singleton, hwakes] at hw
    rcases hw with hw | ⟨hw, _⟩
    · simp at hw
    · exact h.woken id hid hw
  woken_round id hw := by
    rw [WokenSinceRound, since_append_singleton, hwakes] at hw
    rcases hw with hw | ⟨hw, _⟩
    · simp at hw
    · exact h.woken_round id hw

/-- A longer queue, and any value of the `run_queue` field. -/
theorem Inv.queue {tr : List (Obs E)} {q q' : List TaskId} {s : State F W E} (h : Inv tr q s)
    (hq : ∀ id ∈ q, id ∈ q') (rq : List TaskId) : Inv tr q' { s with runQueue := rq } where
  quiet := ⟨h.quiet.current, h.quiet.global⟩
  awake_nodup := h.awake_nodup
  registry := h.registry
  registry_live := h.registry_live
  woken id hid hw := (h.woken id hid hw).imp_right (hq id)
  woken_round := h.woken_round

theorem Inv.afterWake {tr : List (Obs E)} {q : List TaskId} {s : State F W E} (h : Inv tr q s)
    (id : TaskId) : Inv (tr ++ [.woken id]) q (wakeWaker s id) where
  quiet := ⟨h.quiet.current, h.quiet.global⟩
  awake_nodup := pushNew_nodup h.awake_nodup id
  registry := h.registry.trans (latestRegistrations_snoc_other tr rfl).symm
  registry_live := h.registry_live
  woken id' hid' hw := by
    rw [WokenUnpolled, since_append_singleton] at hw
    show id' ∈ pushNew s.awakeTasks id ∨ id' ∈ q
    rw [mem_pushNew]
    rcases hw with hw | ⟨hw, _⟩
    · exact Or.inl (Or.inr (List.mem_singleton.mp hw))
    · exact (h.woken id' hid' hw).imp_left Or.inl
  woken_round id' hw := by
    rw [WokenSinceRound, since_append_singleton] at hw
    refine mem_pushNew.mpr ?_
    rcases hw with hw | ⟨hw, _⟩
    · exact Or.inr (List.mem_singleton.mp hw)
    · exact Or.inl (h.woken_round id' hw)

/-- **One poll keeps the books.**  The polled task leaves the queue: its earlier wakes are
answered, and the wakes of this poll are in `AWAKE_TASKS`. -/
theorem Inv.afterPoll {tr : List (Obs E)} {q : List TaskId} {s : State F W E} {id : TaskId}
    (fut : Futures F W E) (h : Inv tr (id :: q) s) :
    Inv (tr ++ (pollTask fut s id).2) q (pollTask fut s id).1 := by
  cases hf : s.tasks.lookup id with
  | none =>
      rw [pollTask_of_lookup_none fut hf]
      have hid : id ∉ s.tasks := by
        rw [mem_iff_lookup, hf]
        simp
      have h' := h.snoc (o := .missing id) rfl rfl
      refine ⟨h'.quiet, h'.awake_nodup, h'.registry, h'.registry_live, ?_, h'.woken_round⟩
      intro id' hid' hw
      refine (h'.woken id' hid' hw).imp_right fun hmem => ?_
      exact (List.mem_cons.mp hmem).resolve_left fun heq => hid (heq ▸ hid')
  | some future =>
      have hid : id ∈ s.tasks := mem_iff_lookup.mpr ⟨future, hf⟩
      rw [pollTask_eq fut h.quiet hf]
      generalize fut.poll id future s.world = r
      refine ⟨⟨h.quiet.current, h.quiet.global⟩, pushAll_nodup h.awake_nodup _, ?_, ?_, ?_, ?_⟩
      · show s.eventRegistry.filter (·.2 ≠ id) ++ entries id r.actions r.result = _
        rw [latestRegistrations_snoc_polled, h.registry]
      · intro p hp
        rw [mem_settled hid]
        rcases List.mem_append.mp hp with hp | hp
        · obtain ⟨hp, hne⟩ := List.mem_filter.mp hp
          exact ⟨h.registry_live p hp, fun _ => of_decide_eq_true hne⟩
        · obtain ⟨hres, _, hpid⟩ := mem_entries.mp hp
          rw [hpid]
          exact ⟨hid, fun hready => absurd (hres.symm.trans hready) (by decide)⟩
      · intro id' hid' hw
        obtain ⟨hid', _⟩ := (mem_settled hid).mp hid'
        rw [WokenUnpolled, since_append_singleton] at hw
        show id' ∈ pushAll s.awakeTasks (wakes r.actions) ∨ id' ∈ q
        rw [mem_pushAll]
        rcases hw with hw | ⟨hw, hne⟩
        · exact Or.inl (Or.inr hw)
        · rcases h.woken id' hid' hw with hmem | hmem
          · exact Or.inl (Or.inl hmem)
          · exact Or.inr ((List.mem_cons.mp hmem).resolve_left fun heq => hne (heq ▸ rfl))
      · intro id' hw
        rw [WokenSinceRound, since_append_singleton] at hw
        refine mem_pushAll.mpr ?_
        rcases hw with hw | ⟨hw, _⟩
        · exact Or.inr hw
        · exact Or.inl (h.woken_round id' hw)

theorem Inv.afterList (fut : Futures F W E) (ids : List TaskId) :
    ∀ {tr : List (Obs E)} {s : State F W E}, Inv tr ids s →
      Inv (tr ++ ((runList fut).run s ids).2) [] ((runList fut).run s ids).1 := by
  induction ids with
  | nil =>
      intro tr s h
      simpa using h
  | cons id ids ih =>
      intro tr s h
      rw [runList_cons, ← List.append_assoc]
      exact ih (h.afterPoll fut)

/-! ### The round as a whole -/

/-- The state in which the loop of a round starts: drained, with the run queue taken out. -/
def roundStart (s : State F W E) : State F W E := { drainAwake s with runQueue := [] }

/-- A round is the run over the drained queue, also when that is empty. -/
theorem runOnce_eq (fut : Futures F W E) (s : State F W E) :
    runOnce fut s = (decide ((drainAwake s).runQueue ≠ []),
      ((runList fut).run (roundStart s) (drainAwake s).runQueue).1,
      .roundBegin :: ((runList fut).run (roundStart s) (drainAwake s).runQueue).2) := by
  unfold runOnce
  by_cases h : (drainAwake s).runQueue = []
  · have hstart : roundStart s = drainAwake s := by
      rw [roundStart, ← h]
    simp [h, hstart]
  · simp [h, roundStart]

theorem Inv.afterDrain {tr : List (Obs E)} {s : State F W E} (h : Inv tr s.runQueue s) :
    Inv (tr ++ [.roundBegin]) (drainAwake s).runQueue (roundStart s) where
  quiet := ⟨h.quiet.current, h.quiet.global⟩
  awake_nodup := List.nodup_nil
  registry := h.registry.trans (latestRegistrations_snoc_other tr rfl).symm
  registry_live := h.registry_live
  woken id hid hw := by
    refine Or.inr (mem_pushAll.mpr ?_)
    rw [WokenUnpolled, since_append_singleton] at hw
    rcases hw with hw | ⟨hw, _⟩
    · exact absurd hw List.not_mem_nil
    · rcases h.woken id hid hw with hmem | hmem
      · exact Or.inr (List.mem_filter.mpr ⟨hmem, decide_eq_true hid⟩)
      · exact Or.inl hmem
  woken_round id hw := by
    rw [WokenSinceRound, since_append_singleton] at hw
    rcases hw with hw | ⟨_, hne⟩
    · exact absurd hw List.not_mem_nil
    · exact absurd rfl hne

theorem Inv.afterRunOnce {tr : List (Obs E)} {s : State F W E} (fut : Futures F W E)
    (h : Inv tr s.runQueue s) :
    Inv (tr ++ (runOnce fut s).2.2) (runOnce fut s).2.1.runQueue (runOnce fut s).2.1
      ∧ (runOnce fut s).2.1.runQueue = [] := by
  have hrun := h.afterDrain.afterList fut
  have hqueue := (runList_framed fut (drainAwake s).runQueue h.afterDrain.quiet).runQueue
  rw [runOnce_eq, hqueue]
  refine ⟨?_, rfl⟩
  rw [List.append_assoc] at hrun
  exact hrun

/-! ### Waiting -/

/-- `wait_for_events` only changes the run queue, by adding registered tasks to it, and what is
seen of it concerns no poll, no wake and no spawn. -/
theorem waitForEvents_cases (s : State F W E) (answer : List E → Option ℕ) :
    waitForEvents s answer = (s, [])
      ∨ (∃ o, waitForEvents s answer = (s, [o]) ∧ o.polledId = none ∧ o.wakes = []
          ∧ o.isSpawn = false ∧ (∀ id, o ≠ .missing id) ∧ o.delivered = none ∧ o ≠ .roundBegin)
      ∨ ∃ i signaled, answer (registeredEvents s) = some i
          ∧ (registeredEvents s)[i]? = some signaled ∧ s.awakeTasks = []
          ∧ waitForEvents s answer
            = (queueSignaled s signaled, [.waited (registeredEvents s) (some i)]) := by
  unfold waitForEvents
  split
  · exact Or.inl rfl
  · split
    · exact Or.inl rfl
    · rename_i hawake
      dsimp only
      split
      · exact Or.inr (Or.inl ⟨_, rfl, rfl, rfl, rfl, nofun, rfl, nofun⟩)
      · split
        · rename_i i hans
          split
          · rename_i signaled hget
            exact Or.inr (Or.inr ⟨i, signaled, hans, hget, not_not.mp hawake, rfl⟩)
          · rename_i hget
            exact Or.inr (Or.inl ⟨_, rfl, rfl, rfl, rfl, nofun, hget, nofun⟩)
        · exact Or.inr (Or.inl ⟨_, rfl, rfl, rfl, rfl, nofun, rfl, nofun⟩)

theorem mem_queueSignaled {s : State F W E} {signaled : E} {id : TaskId} :
    id ∈ (queueSignaled s signaled).runQueue
      ↔ id ∈ s.runQueue ∨ (signaled, id) ∈ s.eventRegistry := by
  simp [queueSignaled, mem_pushAll]

theorem Inv.afterWait {tr : List (Obs E)} {s : State F W E}
    (h : Inv tr s.runQueue s) (answer : List E → Option ℕ) :
    Inv (tr ++ (waitForEvents s answer).2) (waitForEvents s answer).1.runQueue
      (waitForEvents s answer).1 := by
  rcases waitForEvents_cases s answer with hw | ⟨o, hw, hpoll, hwakes, _⟩
    | ⟨i, signaled, _, _, _, hw⟩
  · rw [hw]
    simpa using h
  · rw [hw]
    exact h.snoc hpoll hwakes
  · rw [hw]
    exact (h.snoc rfl rfl).queue (fun id hid => mem_queueSignaled.mpr (Or.inl hid)) _

end WebUiBoot.Executor
