import Mathlib.Data.List.Nodup
import WebUiBoot.Executor.Scheduler

/-!
# The executor is a scheduler

The queues and registries of the executor are one way to keep the sets of a `Scheduler`.

* `State.scheduled` — the sets that a state of the executor stands for;
* `spawnAll_scheduled`, `runOnce_scheduled`, `waitForEvents_scheduled` — each part of a run is made
  of steps of the scheduler;
* `executor_schedules` — so is the run as a whole, and each of its rounds polls the tasks that there
  is a reason to poll, and no others.

The static `GLOBAL_EVENT_REGISTRY` and `CURRENT_TASK` are in none of the sets: nothing is in them
between two polls.
-/

namespace WebUiBoot.Executor

open WebUiBoot.PushNew WebUiBoot.Trace WebUiBoot.Transition

variable {F W E : Type*}

/-- The scheduler that a state stands for, with `due` left of the run list. -/
def State.scheduled (s : State F W E) (due : List TaskId) : Scheduler E where
  used := {id | id < s.nextId}
  live := {id | id ∈ s.tasks}
  due := {id | id ∈ due}
  next := {id | id ∈ s.runQueue ∨ id ∈ s.awakeTasks}
  interest id := {event | (event, id) ∈ s.eventRegistry}

@[ext] theorem Scheduler.ext {t t' : Scheduler E} (hused : ∀ id, id ∈ t.used ↔ id ∈ t'.used)
    (hlive : ∀ id, id ∈ t.live ↔ id ∈ t'.live) (hdue : ∀ id, id ∈ t.due ↔ id ∈ t'.due)
    (hnext : ∀ id, id ∈ t.next ↔ id ∈ t'.next)
    (hinterest : ∀ id event, event ∈ t.interest id ↔ event ∈ t'.interest id) : t = t' := by
  obtain ⟨used, live, due, next, interest⟩ := t
  obtain rfl := Set.ext hused
  obtain rfl := Set.ext hlive
  obtain rfl := Set.ext hdue
  obtain rfl := Set.ext hnext
  obtain rfl := funext fun id => Set.ext (hinterest id)
  rfl

variable [DecidableEq E]

/-! ### Spawning -/

omit [DecidableEq E] in
theorem scheduled_new (w : W) : (State.new w : State F W E).scheduled [] = .empty := by
  ext id
  · exact iff_of_false (Nat.not_lt_zero id) (Set.notMem_empty id)
  · exact iff_of_false (AList.notMem_empty id) (Set.notMem_empty id)
  · exact iff_of_false List.not_mem_nil (Set.notMem_empty id)
  · exact iff_of_false (by simp [State.scheduled, State.new]) (Set.notMem_empty id)
  · exact iff_of_false (by simp [State.scheduled, State.new]) (Set.notMem_empty _)

omit [DecidableEq E] in
theorem scheduled_spawn {s : State F W E} (hcard : s.nextId + 1 < usizeCard) (future : F) :
    (spawn s future).1.scheduled [] = (s.scheduled []).spawn s.nextId := by
  have hnext : (spawn s future).1.nextId = s.nextId + 1 := Nat.mod_eq_of_lt hcard
  ext id
  · show id < (spawn s future).1.nextId ↔ id = s.nextId ∨ id < s.nextId
    rw [hnext]
    exact Nat.lt_succ_iff_lt_or_eq.trans or_comm
  · exact mem_spawn
  · exact Iff.rfl
  · show id ∈ s.runQueue ++ [s.nextId] ∨ id ∈ s.awakeTasks
      ↔ id = s.nextId ∨ id ∈ s.runQueue ∨ id ∈ s.awakeTasks
    rw [List.mem_append, List.mem_singleton]
    tauto
  · exact Iff.rfl

/-- **Spawning.** -/
theorem spawnAll_scheduled (fut : Futures F W E) (w : W) (spawned : Spawned F) :
    scheduler.Exec .empty (spawnAll fut w spawned).2 ((spawnAll fut w spawned).1.scheduled []) := by
  have hrun : ∀ (futures : List F) (s : State F W E), s.nextId + futures.length < usizeCard →
      scheduler.Exec (s.scheduled []) ((operations fut).run s (futures.map .spawn)).2
        (((operations fut).run s (futures.map .spawn)).1.scheduled []) := by
    intro futures
    induction futures with
    | nil => exact fun _ _ => .refl
    | cons future futures ih =>
        intro s hcard
        rw [List.length_cons] at hcard
        have hnext : (spawn s future).1.nextId = s.nextId + 1 :=
          Nat.mod_eq_of_lt (show s.nextId + 1 < usizeCard by omega)
        have hstep : scheduler.step (s.scheduled []) [.spawned s.nextId]
            ((s.scheduled []).spawn s.nextId) :=
          .spawn _ _ (Nat.lt_irrefl s.nextId) (Set.eq_empty_of_forall_notMem fun _ => List.not_mem_nil)
        rw [← scheduled_spawn (by omega) future] at hstep
        have hrest := ih (spawn s future).1 (by rw [hnext]; omega)
        exact (System.Exec.single hstep).trans hrest
  have hstart := hrun spawned.futures (State.new w) (by
    show 0 + spawned.futures.length < usizeCard
    rw [Nat.zero_add]
    exact spawned.length_lt)
  rw [scheduled_new] at hstart
  exact hstart

/-! ### A round -/

/-- **A poll.** -/
theorem scheduled_poll {s : State F W E} {id : TaskId} {ids : List TaskId} {future : F}
    (fut : Futures F W E) (hq : Quiet s) (hf : s.tasks.lookup id = some future) (hid : id ∉ ids) :
    (pollTask fut s id).1.scheduled ids
      = (s.scheduled (id :: ids)).poll id (fut.poll id future s.world).actions
          (fut.poll id future s.world).result := by
  have hlive : id ∈ s.tasks := mem_iff_lookup.mpr ⟨future, hf⟩
  rw [pollTask_eq fut hq hf]
  generalize fut.poll id future s.world = r
  ext id'
  · exact Iff.rfl
  · exact mem_settled hlive
  · show id' ∈ ids ↔ id' ∈ id :: ids ∧ id' ≠ id
    rw [List.mem_cons, or_and_right, and_not_self_iff, false_or]
    refine (and_iff_left_of_imp fun hmem => ?_).symm
    rintro rfl
    exact hid hmem
  · show id' ∈ s.runQueue ∨ id' ∈ pushAll s.awakeTasks (wakes r.actions)
      ↔ (id' ∈ s.runQueue ∨ id' ∈ s.awakeTasks) ∨ id' ∈ wakes r.actions
    rw [mem_pushAll, or_assoc]
  · rename_i event
    show (event, id') ∈ s.eventRegistry.filter (·.2 ≠ id) ++ entries id r.actions r.result
      ↔ event ∈ Function.update (s.scheduled (id :: ids)).interest id _ id'
    rw [List.mem_append, mem_entries, List.mem_filter]
    by_cases heq : id' = id
    · subst heq
      rw [Function.update_self]
      cases r.result with
      | pending => simp [Scheduler.interests]
      | ready => simp [Scheduler.interests]
    · rw [Function.update_of_ne heq]
      simp [heq, State.scheduled]

theorem runList_scheduled (fut : Futures F W E) {ids : List TaskId} (hnodup : ids.Nodup) :
    ∀ {s : State F W E}, Quiet s → (∀ id ∈ ids, id ∈ s.tasks) →
      scheduler.Exec (s.scheduled ids) ((runList fut).run s ids).2
        (((runList fut).run s ids).1.scheduled []) := by
  induction ids with
  | nil => exact fun {_} _ _ => .refl
  | cons id ids ih =>
      intro s hq hlive
      obtain ⟨hid, hnodup⟩ := List.nodup_cons.mp hnodup
      obtain ⟨future, hf⟩ := mem_iff_lookup.mp (hlive id List.mem_cons_self)
      have hstep : scheduler.step (s.scheduled (id :: ids)) (pollTask fut s id).2
          ((pollTask fut s id).1.scheduled ids) := by
        rw [scheduled_poll fut hq hf hid, pollTask_eq fut hq hf]
        exact .poll _ id _ _ (show id ∈ id :: ids from List.mem_cons_self)
      have hrest := ih hnodup (pollTask_framed fut hq id).quiet fun id' hid' =>
        pollTask_mem_of_ne fut hq (hlive id' (List.mem_cons_of_mem _ hid')) fun heq =>
          hid (heq ▸ hid')
      rw [runList_cons]
      exact (System.Exec.single hstep).trans hrest

/-- **A round.**  It begins with the tasks of the queue, and those of `AWAKE_TASKS` that are
live. -/
theorem runOnce_scheduled {tr : List (Obs E)} {s : State F W E} (fut : Futures F W E)
    (h : Good tr s) :
    scheduler.Exec (s.scheduled []) (runOnce fut s).2.2 ((runOnce fut s).2.1.scheduled []) := by
  have hdrain := drainAwake_queueOk h.queue
  have hround : (s.scheduled []).round = (roundStart s).scheduled (drainAwake s).runQueue := by
    ext id
    · exact Iff.rfl
    · exact Iff.rfl
    · show (id ∈ s.runQueue ∨ id ∈ s.awakeTasks) ∧ id ∈ s.tasks
        ↔ id ∈ pushAll s.runQueue (s.awakeTasks.filter (· ∈ s.tasks))
      rw [mem_pushAll, List.mem_filter, decide_eq_true_iff, or_and_right]
      exact or_congr_left (and_iff_left_of_imp (h.queue.live id))
    · exact iff_of_false (Set.notMem_empty id) (by simp [roundStart, State.scheduled, drainAwake])
    · exact Iff.rfl
  have hstep : scheduler.step (s.scheduled []) [.roundBegin] (s.scheduled []).round :=
    .round _ (Set.eq_empty_of_forall_notMem fun _ => List.not_mem_nil)
  rw [hround] at hstep
  have hpolls := runList_scheduled fut hdrain.nodup (s := roundStart s)
    ⟨h.inv.quiet.current, h.inv.quiet.global⟩ hdrain.live
  rw [runOnce_eq]
  exact (System.Exec.single hstep).trans hpolls

/-! ### Waiting -/

omit [DecidableEq E] in
theorem scheduled_wake (s : State F W E) (id : TaskId) :
    (wakeWaker s id).scheduled [] = (s.scheduled []).wake id := by
  ext id'
  · exact Iff.rfl
  · exact Iff.rfl
  · exact Iff.rfl
  · show id' ∈ s.runQueue ∨ id' ∈ pushNew s.awakeTasks id
      ↔ id' = id ∨ id' ∈ s.runQueue ∨ id' ∈ s.awakeTasks
    rw [mem_pushNew]
    tauto
  · exact Iff.rfl

theorem scheduled_queueSignaled (s : State F W E) (signaled : E) :
    (queueSignaled s signaled).scheduled [] = (s.scheduled []).signal (some signaled) := by
  ext id
  · exact Iff.rfl
  · exact Iff.rfl
  · exact Iff.rfl
  · show id ∈ (queueSignaled s signaled).runQueue ∨ id ∈ s.awakeTasks
      ↔ (id ∈ s.runQueue ∨ id ∈ s.awakeTasks)
        ∨ ∃ event, (event, id) ∈ s.eventRegistry ∧ some signaled = some event
    rw [mem_queueSignaled]
    simp only [Option.some.injEq, exists_eq_right']
    tauto
  · exact Iff.rfl

omit [DecidableEq E] in
theorem signal_none (t : Scheduler E) : t.signal none = t := by
  ext id
  · exact Iff.rfl
  · exact Iff.rfl
  · exact Iff.rfl
  · exact or_iff_left fun ⟨_, _, h⟩ => by cases h
  · exact Iff.rfl

/-- **A wait.**  With nothing queued it is one of the steps of the scheduler, or does nothing. -/
theorem waitForEvents_scheduled {tr : List (Obs E)} {s : State F W E} (h : Good tr s)
    (hidle : s.runQueue = []) (answer : List E → Option ℕ) :
    scheduler.Exec (s.scheduled []) (waitForEvents s answer).2
      ((waitForEvents s answer).1.scheduled []) := by
  have hevents : ∀ event, event ∈ registeredEvents s
      ↔ ∃ id ∈ (s.scheduled []).live, event ∈ (s.scheduled []).interest id := by
    intro event
    rw [registeredEvents, mem_pushAll, or_iff_right List.not_mem_nil, List.mem_map]
    constructor
    · rintro ⟨⟨event, id⟩, hmem, rfl⟩
      exact ⟨id, h.inv.registry_live _ hmem, hmem⟩
    · rintro ⟨id, _, hmem⟩
      exact ⟨(event, id), hmem, rfl⟩
  unfold waitForEvents
  by_cases hkeys : s.tasks.keys = []
  · rw [if_pos hkeys]
    exact .refl
  · rw [if_neg hkeys]
    by_cases hawake : s.awakeTasks = []
    · rw [if_neg (not_not.mpr hawake)]
      have hrest : (s.scheduled []).Idle := by
        refine ⟨Set.eq_empty_of_forall_notMem fun _ => List.not_mem_nil, fun id hid => ?_⟩
        change id ∈ s.runQueue ∨ id ∈ s.awakeTasks at hid
        rw [hidle, hawake, or_self] at hid
        exact absurd hid List.not_mem_nil
      have hwait : ∀ index, scheduler.step (s.scheduled []) [.waited (registeredEvents s) index]
          ((s.scheduled []).signal (Obs.waited (registeredEvents s) index).delivered) := fun index =>
        .wait _ hrest _ index (pushAll_nodup List.nodup_nil _) hevents
      by_cases hnone : registeredEvents s = []
      · dsimp only
        rw [if_pos hnone]
        refine System.Exec.single (.stall _ hrest ?_ fun id hid => ?_)
        · obtain ⟨id, hid⟩ := List.exists_mem_of_ne_nil _ hkeys
          exact ⟨id, hid⟩
        · refine Set.eq_empty_of_forall_notMem fun event hevent => ?_
          have hmem := (hevents event).mpr ⟨id, hid, hevent⟩
          rw [hnone] at hmem
          exact List.not_mem_nil hmem
      · dsimp only
        rw [if_neg hnone]
        cases hindex : answer (registeredEvents s) with
        | none =>
            have hstep : scheduler.step (s.scheduled []) [.waited (registeredEvents s) none]
                ((s.scheduled []).signal none) := hwait none
            rw [signal_none] at hstep
            exact .single hstep
        | some index =>
            have hstep := hwait (some index)
            cases hget : (registeredEvents s)[index]? with
            | none =>
                rw [Obs.delivered, hget, signal_none] at hstep
                dsimp only
                rw [hget]
                exact .single hstep
            | some signaled =>
                rw [Obs.delivered, hget, ← scheduled_queueSignaled] at hstep
                dsimp only
                rw [hget]
                exact .single hstep
    · rw [if_pos hawake]
      exact .refl

/-! ### Runs -/

theorem runStep_scheduled {tr : List (Obs E)} {p : Pc × State F W E} (fut : Futures F W E)
    (h : RunGood tr p) (i : Input E) :
    scheduler.Exec (p.2.scheduled []) (runStep fut p i).2 ((runStep fut p i).1.2.scheduled []) := by
  obtain ⟨pc, s⟩ := p
  cases i with
  | wake id =>
      show scheduler.Exec (s.scheduled []) [.woken id] ((wakeWaker s id).scheduled [])
      rw [scheduled_wake]
      exact .single (.wake _ id)
  | advance answer =>
      cases pc with
      | loopHead =>
          unfold runStep
          dsimp only
          by_cases hkeys : s.tasks.keys = []
          · rw [if_pos hkeys]
            exact .refl
          · rw [if_neg hkeys]
            exact runOnce_scheduled fut h.good
      | waiting => exact waitForEvents_scheduled h.good (h.idle rfl) answer
      | returned => exact .refl

/-- **The executor schedules.**  Every run of `Executor::run`, whatever the futures, the wakers and
the firmware do, is an execution of the scheduler with the same trace, and each of its rounds polls
the live tasks that were spawned or woken since the round before, or wait for an event that was
returned since then: each once, before the next round begins and before the firmware is asked to
wait, and no other task. -/
theorem executor_schedules (fut : Futures F W E) (w : W) (spawned : Spawned F)
    (inputs : List (Input E)) :
    scheduler.Exec .empty (run fut w spawned inputs).2
        ((run fut w spawned inputs).1.2.scheduled [])
      ∧ Always RoundComplete (run fut w spawned inputs).2 := by
  have hloop := run_exec (runLoop fut) scheduler (fun p => p.2.scheduled []) (I := RunGood)
    (fun _ _ i h => h.step fut i) (fun _ _ i h => runStep_scheduled fut h i) inputs
    (s := (.loopHead, (spawnAll fut w spawned).1)) ⟨spawnAll_good fut w spawned, nofun⟩
  have hrun := (spawnAll_scheduled fut w spawned).trans hloop
  exact ⟨hrun, scheduler_rounds hrun⟩

end WebUiBoot.Executor
