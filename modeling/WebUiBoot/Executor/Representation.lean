import WebUiBoot.Executor.Runs

/-!
# The representation of the executor

What holds of the fields of the executor and of the statics beside it, between any two operations.

* `latestActions` — what a task did during its latest poll;
* `filter_latestRegistrations` — the entries of one task among those of all;
* `Represents` — the invariant, with the trace that led to the state;
* `representation_invariant` — it holds after any sequence of operations.
-/

namespace WebUiBoot.Executor

open WebUiBoot.PushNew WebUiBoot.Trace

variable {F W E : Type*}

/-- What a task did during its latest poll; nothing when it was never polled. -/
def latestActions (tr : List (Obs E)) (id : TaskId) : List (Action E) :=
  tr.foldl (fun latest o => match o with
    | .polled id' actions _ => if id' = id then actions else latest
    | _ => latest) []

theorem latestActions_snoc_polled (tr : List (Obs E)) (id id' : TaskId)
    (actions : List (Action E)) (result : Poll) :
    latestActions (tr ++ [.polled id' actions result]) id
      = if id' = id then actions else latestActions tr id := by
  unfold latestActions
  rw [List.foldl_append]
  rfl

theorem latestActions_snoc_other (tr : List (Obs E)) (id : TaskId) {o : Obs E}
    (ho : o.polledId = none) : latestActions (tr ++ [o]) id = latestActions tr id := by
  unfold latestActions
  rw [List.foldl_append]
  cases o with
  | polled id' actions result => cases ho
  | _ => rfl

/-- Entries of one task, when those of a task have been dropped. -/
theorem filter_filter_ne (registry : List (E × TaskId)) (id id' : TaskId) :
    (registry.filter (·.2 ≠ id')).filter (·.2 = id)
      = if id' = id then [] else registry.filter (·.2 = id) := by
  rw [List.filter_filter]
  by_cases hid : id' = id
  · rw [if_pos hid, List.filter_eq_nil_iff]
    intro p _ hp
    simp [hid] at hp
  · rw [if_neg hid]
    refine List.filter_congr fun p _ => ?_
    by_cases hp : p.2 = id
    · simp [hp, Ne.symm hid]
    · simp [hp]

variable [DecidableEq E]

/-- The entries of a poll are those of its task. -/
theorem filter_entries (id id' : TaskId) (actions : List (Action E)) (result : Poll) :
    (entries id' actions result).filter (·.2 = id)
      = if id' = id then entries id' actions result else [] := by
  by_cases hid : id' = id
  · rw [if_pos hid, List.filter_eq_self]
    intro p hp
    exact decide_eq_true ((mem_entries.mp hp).2.2.trans hid)
  · rw [if_neg hid, List.filter_eq_nil_iff]
    intro p hp heq
    exact hid ((mem_entries.mp hp).2.2.symm.trans (of_decide_eq_true heq))

/-- **The entries of one task.**  While it is not finished, they are the events that it registered
during its latest poll, in the order in which it did so first. -/
theorem filter_latestRegistrations {tr : List (Obs E)} {id : TaskId} (hlive : ¬ Finished tr id) :
    (latestRegistrations tr).filter (·.2 = id)
      = (registrations (latestActions tr id)).eraseDups.map (·, id) := by
  induction tr using List.reverseRecOn with
  | nil => rfl
  | append_singleton tr o ih =>
      have ih := ih fun h => hlive (finished_append.mpr (Or.inl h))
      cases hpoll : o.polledId with
      | none => rw [latestRegistrations_snoc_other tr hpoll, latestActions_snoc_other tr id hpoll, ih]
      | some id' =>
          cases o with
          | polled id'' actions result =>
              rw [latestRegistrations_snoc_polled, latestActions_snoc_polled, List.filter_append,
                filter_entries, filter_filter_ne]
              by_cases hid : id'' = id
              · have hresult : result = .pending := by
                  cases result with
                  | pending => rfl
                  | ready =>
                      refine absurd (finished_append.mpr (Or.inr ⟨actions, ?_⟩)) hlive
                      rw [hid]
                      exact List.mem_singleton_self _
                rw [if_pos hid, if_pos hid, if_pos hid, hresult, hid, List.nil_append, entries,
                  pushAll_nil_eq_eraseDups]
              · rw [if_neg hid, if_neg hid, if_neg hid, List.append_nil, ih]
          | _ => cases hpoll

/-! ### The invariant -/

/-- The invariant of the fields of the executor and of the statics, behind a trace. -/
structure Represents (tr : List (Obs E)) (s : State F W E) : Prop where
  runQueue_nodup : s.runQueue.Nodup
  awakeTasks_nodup : s.awakeTasks.Nodup
  runQueue_live : ∀ id ∈ s.runQueue, id ∈ s.tasks
  eventRegistry_live : ∀ p ∈ s.eventRegistry, p.2 ∈ s.tasks
  eventRegistry_nodup : s.eventRegistry.Nodup
  /-- The entries of a live task, in their order. -/
  entries_eq : ∀ id ∈ s.tasks,
    (s.eventRegistry.filter (·.2 = id)).map Prod.fst
      = (registrations (latestActions tr id)).eraseDups
  currentTask_none : s.currentTask = none
  globalEventRegistry_nil : s.globalEventRegistry = []

theorem Good.represents {tr : List (Obs E)} {s : State F W E} (h : Good tr s) :
    Represents tr s where
  runQueue_nodup := h.queue.nodup
  awakeTasks_nodup := h.inv.awake_nodup
  runQueue_live := h.queue.live
  eventRegistry_live := h.inv.registry_live
  eventRegistry_nodup := by
    rw [h.inv.registry]
    exact latestRegistrations_nodup tr
  entries_eq id hid := by
    rw [h.inv.registry, filter_latestRegistrations (h.sound.unfinished id hid), List.map_map]
    exact List.map_id _
  currentTask_none := h.inv.quiet.current
  globalEventRegistry_nil := h.inv.quiet.global

/-- **The representation invariant.**  It holds after any sequence of operations with fewer than
`2 ^ 64` spawns, and right after `run_once` nothing is queued. -/
theorem representation_invariant (fut : Futures F W E) (w : W) (ops : List (Op F E))
    (hcard : ops.countP Op.isSpawn < usizeCard) :
    Represents ((operations fut).run (State.new w) ops).2 ((operations fut).run (State.new w) ops).1
      ∧ ∀ before, ops = before ++ [.runOnce] →
        ((operations fut).run (State.new w) ops).1.runQueue = [] := by
  refine ⟨(operations_good fut w hcard).represents, ?_⟩
  intro before hops
  have hcard' : before.countP Op.isSpawn < usizeCard := by
    rw [hops, List.countP_append] at hcard
    omega
  have hbefore := operations_good (E := E) fut w hcard'
  rw [hops, Machine.run_append]
  exact (hbefore.inv.afterRunOnce fut).2

/-- A task that registers the events 3 and 7 whenever it is polled, and one of them twice. -/
def twoEvents : Futures Unit Unit ℕ where
  poll _ _ _ := ⟨(), (), [.register 7, .register 3, .register 7], .pending⟩

theorem representation_two_events :
    Represents ((operations twoEvents).run (State.new ()) [.spawn (), .runOnce]).2
        ((operations twoEvents).run (State.new ()) [.spawn (), .runOnce]).1
      ∧ ∀ before : List (Op Unit ℕ), [.spawn (), .runOnce] = before ++ [Op.runOnce] →
        ((operations twoEvents).run (State.new ()) [.spawn (), .runOnce]).1.runQueue = [] :=
  representation_invariant twoEvents () [.spawn (), .runOnce] (by decide)

example : ((operations twoEvents).run (State.new ()) [.spawn (), .runOnce]).1.eventRegistry
    = [(7, 0), (3, 0)] := by decide

end WebUiBoot.Executor
