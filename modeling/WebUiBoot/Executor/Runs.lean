import WebUiBoot.Executor.Invariant

/-!
# Runs of the executor

The invariants along whole runs.  Identifiers are fresh as long as fewer than `2 ^ 64` tasks have
been spawned, and then the run queue never holds an identifier twice or one that is not live, no
finished task is polled, and no task of a run list is missing.

* `operations_inv`, `runLoop_inv` — the books, which need no bound;
* `operations_good` — after any sequence of spawns, waker calls, rounds and waits;
* `run_good` — in every state of `Executor::run`, where the run queue is moreover empty
  whenever `wait_for_events` is about to be called.
-/

namespace WebUiBoot.Executor

open WebUiBoot.PushNew WebUiBoot.Trace

variable {F W E : Type*} [DecidableEq E]

/-! ### The invariants that need fresh identifiers -/

structure QueueOk (s : State F W E) : Prop where
  nodup : s.runQueue.Nodup
  live : ∀ id ∈ s.runQueue, id ∈ s.tasks

/-- A task is live from its spawn until it finishes, and no poll of the trace is one of a
finished task. -/
structure Sound (tr : List (Obs E)) (s : State F W E) : Prop where
  unfinished : ∀ id ∈ s.tasks, ¬ Finished tr id
  kept : ∀ id, .spawned id ∈ tr → ¬ Finished tr id → id ∈ s.tasks
  once : Always (fun past o => ∀ id, o.polledId = some id → ¬ Finished past id) tr

/-- Identifiers have been handed out in order. -/
structure Fresh (tr : List (Obs E)) (s : State F W E) : Prop where
  nextId : s.nextId = spawnCount tr
  tasks_lt : ∀ id ∈ s.tasks, id < s.nextId
  finished_lt : ∀ id, Finished tr id → id < s.nextId

/-- Everything that holds between two operations. -/
structure Good (tr : List (Obs E)) (s : State F W E) : Prop where
  inv : Inv tr s.runQueue s
  queue : QueueOk s
  sound : Sound tr s
  fresh : Fresh tr s
  found : ∀ id, .missing id ∉ tr

omit [DecidableEq E] in
theorem not_finished_singleton {o : Obs E} (ho : o.polledId = none) (id : TaskId) :
    ¬ Finished [o] id := by
  rintro ⟨actions, h⟩
  rw [List.mem_singleton] at h
  rw [← h] at ho
  exact Option.some_ne_none id ho

omit [DecidableEq E] in
/-- A trace extended by something that is no poll. -/
theorem Sound.snoc {tr : List (Obs E)} {s s' : State F W E} (h : Sound tr s) {o : Obs E}
    (ho : o.polledId = none) (htasks : ∀ id ∈ s'.tasks, ¬ Finished tr id)
    (hkept : ∀ id, id ∈ s.tasks ∨ o = .spawned id → id ∈ s'.tasks) : Sound (tr ++ [o]) s' where
  unfinished id hid hf := (finished_append.mp hf).elim (htasks id hid)
    (not_finished_singleton ho id)
  kept id hid hf := by
    rw [finished_append, not_or] at hf
    refine hkept id ?_
    rcases List.mem_append.mp hid with hid | hid
    · exact Or.inl (h.kept id hid hf.1)
    · exact Or.inr (List.mem_singleton.mp hid).symm
  once := always_append_singleton.mpr
    ⟨h.once, fun _ hid => absurd (ho.symm.trans hid) (Option.some_ne_none _).symm⟩

theorem Sound.afterPoll {tr : List (Obs E)} {s : State F W E} (fut : Futures F W E)
    (h : Sound tr s) (hq : Quiet s) (id : TaskId) :
    Sound (tr ++ (pollTask fut s id).2) (pollTask fut s id).1 := by
  cases hf : s.tasks.lookup id with
  | none =>
      rw [pollTask_of_lookup_none fut hf]
      exact h.snoc rfl h.unfinished fun _ hkept => hkept.resolve_right nofun
  | some future =>
      have hid : id ∈ s.tasks := mem_iff_lookup.mpr ⟨future, hf⟩
      obtain ⟨actions, result, hobs⟩ := pollTask_obs fut hq hid
      refine ⟨fun id' hid' hfin => ?_, fun id' hid' hfin => ?_, ?_⟩
      · obtain ⟨hid', hnew⟩ := (pollTask_mem_tasks fut hq).mp hid'
        exact (finished_append.mp hfin).elim (h.unfinished id' hid') hnew
      · rw [finished_append, not_or] at hfin
        have hspawned : Obs.spawned id' ∈ tr := by
          rw [hobs] at hid'
          exact (List.mem_append.mp hid').resolve_right (by simp)
        exact (pollTask_mem_tasks fut hq).mpr ⟨h.kept id' hspawned hfin.1, hfin.2⟩
      · rw [hobs]
        refine always_append_singleton.mpr ⟨h.once, fun id' hpoll => ?_⟩
        exact Option.some.inj hpoll ▸ h.unfinished id hid

theorem Sound.afterList {tr : List (Obs E)} {s : State F W E} (fut : Futures F W E)
    (h : Sound tr s) (hq : Quiet s) (ids : List TaskId) :
    Sound (tr ++ ((runList fut).run s ids).2) ((runList fut).run s ids).1 :=
  runList_invariant fut (fun _ _ id h hq => h.afterPoll fut hq id) h hq ids

/-- A round spawns nothing, and only tasks of its run list finish in it. -/
theorem runList_obs (fut : Futures F W E) (ids : List TaskId) :
    ∀ {s : State F W E}, Quiet s →
      spawnCount ((runList fut).run s ids).2 = 0
        ∧ ∀ id, Finished ((runList fut).run s ids).2 id → id ∈ s.tasks := by
  induction ids with
  | nil =>
      intro s _
      simp [Finished, spawnCount]
  | cons id ids ih =>
      intro s hq
      obtain ⟨hcount, hfin⟩ := ih (pollTask_framed fut hq id).quiet
      rw [runList_cons, spawnCount_append, hcount]
      refine ⟨?_, fun id' h => ?_⟩
      · cases hf : s.tasks.lookup id with
        | none => rw [pollTask_of_lookup_none fut hf]; rfl
        | some future => rw [pollTask_eq fut hq hf]; rfl
      · rcases finished_append.mp h with h | h
        · cases hf : s.tasks.lookup id with
          | none =>
              rw [pollTask_of_lookup_none fut hf] at h
              exact absurd h (not_finished_singleton rfl id')
          | some future =>
              obtain ⟨actions, result, hobs⟩ :=
                pollTask_obs fut hq (mem_iff_lookup.mpr ⟨future, hf⟩)
              obtain ⟨actions', h⟩ := h
              rw [hobs, List.mem_singleton, Obs.polled.injEq] at h
              exact h.1 ▸ mem_iff_lookup.mpr ⟨future, hf⟩
        · exact ((pollTask_mem_tasks fut hq).mp (hfin id' h)).1

/-! ### The operations -/

omit [DecidableEq E] in
theorem drainAwake_queueOk {s : State F W E} (h : QueueOk s) : QueueOk (drainAwake s) where
  nodup := pushAll_nodup h.nodup _
  live id hid := by
    rcases mem_pushAll.mp hid with hid | hid
    · exact h.live id hid
    · exact of_decide_eq_true (List.mem_filter.mp hid).2

theorem good_new (w : W) : Good ([] : List (Obs E)) (State.new w : State F W E) where
  inv := ⟨⟨rfl, rfl⟩, List.nodup_nil, rfl, by simp [State.new], by simp [WokenUnpolled],
    by simp [WokenSinceRound]⟩
  queue := ⟨List.nodup_nil, by simp [State.new]⟩
  sound := ⟨by simp [Finished], by simp, by simp⟩
  fresh := ⟨rfl, fun id hid => absurd hid (AList.notMem_empty id), by simp [Finished]⟩
  found := by simp

omit [DecidableEq E] in
theorem mem_spawn {s : State F W E} {future : F} {id : TaskId} :
    id ∈ (spawn s future).1.tasks ↔ id = s.nextId ∨ id ∈ s.tasks := AList.mem_insert s.tasks

omit [DecidableEq E] in
theorem Fresh.notMem {tr : List (Obs E)} {s : State F W E} (h : Fresh tr s) :
    s.nextId ∉ s.tasks := fun hmem => lt_irrefl _ (h.tasks_lt _ hmem)

theorem Inv.afterSpawn {tr : List (Obs E)} {s : State F W E} (h : Inv tr s.runQueue s)
    (future : F) :
    Inv (tr ++ (spawn s future).2) (spawn s future).1.runQueue (spawn s future).1 := by
  have h' := h.snoc (o := .spawned s.nextId) rfl rfl
  refine ⟨⟨h'.quiet.current, h'.quiet.global⟩, h'.awake_nodup, h'.registry, fun p hp => ?_,
    fun id hid hw => ?_, h'.woken_round⟩
  · exact mem_spawn.mpr (Or.inr (h'.registry_live p hp))
  · show id ∈ s.awakeTasks ∨ id ∈ s.runQueue ++ [s.nextId]
    rw [List.mem_append, List.mem_singleton]
    rcases mem_spawn.mp hid with heq | hid
    · exact Or.inr (Or.inr heq)
    · exact (h'.woken id hid hw).imp_right Or.inl

omit [DecidableEq E] in
theorem QueueOk.afterSpawn {s : State F W E} (h : QueueOk s) (hnew : s.nextId ∉ s.tasks)
    (future : F) : QueueOk (spawn s future).1 where
  nodup := by
    show (s.runQueue ++ [s.nextId]).Nodup
    refine List.nodup_append_comm.mp (List.nodup_cons.mpr ⟨?_, h.nodup⟩)
    exact fun hq => hnew (h.live _ hq)
  live id hid := by
    refine mem_spawn.mpr ?_
    rcases List.mem_append.mp hid with hid | hid
    · exact Or.inr (h.live id hid)
    · exact Or.inl (List.mem_singleton.mp hid)

omit [DecidableEq E] in
theorem Sound.afterSpawn {tr : List (Obs E)} {s : State F W E} (h : Sound tr s)
    (hfresh : Fresh tr s) (future : F) :
    Sound (tr ++ (spawn s future).2) (spawn s future).1 := by
  refine h.snoc rfl (fun id hid hfin => ?_) fun id hid => mem_spawn.mpr ?_
  · rcases mem_spawn.mp hid with rfl | hid
    · exact lt_irrefl _ (hfresh.finished_lt _ hfin)
    · exact h.unfinished id hid hfin
  · exact hid.symm.imp_left fun heq => (Obs.spawned.inj heq).symm

omit [DecidableEq E] in
/-- Below `2 ^ 64` spawns `NEXT_ID` does not wrap around. -/
theorem Fresh.afterSpawn {tr : List (Obs E)} {s : State F W E} (h : Fresh tr s) (future : F)
    (hcard : spawnCount tr + 1 < usizeCard) :
    Fresh (tr ++ (spawn s future).2) (spawn s future).1 := by
  have hnext : (spawn s future).1.nextId = s.nextId + 1 := by
    show (s.nextId + 1) % usizeCard = s.nextId + 1
    rw [h.nextId]
    exact Nat.mod_eq_of_lt hcard
  refine ⟨?_, fun id hid => ?_, fun id hfin => ?_⟩
  · rw [hnext, spawnCount_append, h.nextId]
    rfl
  · rw [hnext]
    rcases mem_spawn.mp hid with rfl | hid
    · exact Nat.lt_succ_self _
    · exact Nat.lt_succ_of_lt (h.tasks_lt id hid)
  · rw [hnext]
    rcases finished_append.mp hfin with hfin | hfin
    · exact Nat.lt_succ_of_lt (h.finished_lt id hfin)
    · exact absurd hfin (not_finished_singleton rfl id)

/-- Below `2 ^ 64` spawns a new task gets an identifier that was never used. -/
theorem Good.afterSpawn {tr : List (Obs E)} {s : State F W E} (h : Good tr s) (future : F)
    (hcard : spawnCount tr + 1 < usizeCard) :
    Good (tr ++ (spawn s future).2) (spawn s future).1 where
  inv := h.inv.afterSpawn future
  queue := h.queue.afterSpawn h.fresh.notMem future
  sound := h.sound.afterSpawn h.fresh future
  fresh := h.fresh.afterSpawn future hcard
  found id := by
    simpa [Executor.spawn] using h.found id

/-- An operation that polls and spawns nothing, and keeps the task map. -/
theorem Good.snoc {tr : List (Obs E)} {s s' : State F W E} (h : Good tr s) {o : Obs E}
    (hpoll : o.polledId = none) (hspawn : o.isSpawn = false) (hmiss : ∀ id, o ≠ .missing id)
    (htasks : s'.tasks = s.tasks) (hnext : s'.nextId = s.nextId)
    (hinv : Inv (tr ++ [o]) s'.runQueue s') (hqueue : QueueOk s') : Good (tr ++ [o]) s' where
  inv := hinv
  queue := hqueue
  sound := by
    refine h.sound.snoc hpoll (by rw [htasks]; exact h.sound.unfinished) fun id hid => ?_
    rw [htasks]
    refine hid.resolve_right fun heq => ?_
    rw [heq] at hspawn
    cases hspawn
  fresh := by
    refine ⟨?_, ?_, fun id hfin => ?_⟩
    · rw [hnext, spawnCount_append, h.fresh.nextId]
      simp [spawnCount, hspawn]
    · rw [htasks, hnext]
      exact h.fresh.tasks_lt
    · rw [hnext]
      exact (finished_append.mp hfin).elim (h.fresh.finished_lt id)
        fun h' => absurd h' (not_finished_singleton hpoll id)
  found id hmem := by
    rcases List.mem_append.mp hmem with hmem | hmem
    · exact h.found id hmem
    · exact hmiss id (List.mem_singleton.mp hmem).symm

theorem Good.afterWake {tr : List (Obs E)} {s : State F W E} (h : Good tr s) (id : TaskId) :
    Good (tr ++ [.woken id]) (wakeWaker s id) :=
  h.snoc rfl rfl nofun rfl rfl (h.inv.afterWake id) ⟨h.queue.nodup, h.queue.live⟩

theorem Good.afterWait {tr : List (Obs E)} {s : State F W E} (h : Good tr s)
    (answer : List E → Option ℕ) :
    Good (tr ++ (waitForEvents s answer).2) (waitForEvents s answer).1 := by
  have hinv := h.inv.afterWait answer
  rcases waitForEvents_cases s answer with hw | ⟨o, hw, hpoll, _, hspawn, hmiss, _⟩
    | ⟨i, signaled, _, _, _, hw⟩
  · rw [hw]
    simpa using h
  · rw [hw] at hinv ⊢
    exact h.snoc hpoll hspawn hmiss rfl rfl hinv h.queue
  · rw [hw] at hinv ⊢
    refine h.snoc rfl rfl nofun rfl rfl hinv ⟨pushAll_nodup h.queue.nodup _, fun id hid => ?_⟩
    rcases mem_queueSignaled.mp hid with hid | hid
    · exact h.queue.live id hid
    · exact h.inv.registry_live _ hid

/-- What a round polls: the drained queue, in order. -/
theorem Good.runOnce_polled {tr : List (Obs E)} {s : State F W E} (fut : Futures F W E)
    (h : Good tr s) :
    polledIds (runOnce fut s).2.2 = (drainAwake s).runQueue
      ∧ ∀ id, .missing id ∉ (runOnce fut s).2.2 := by
  have hq := drainAwake_queueOk h.queue
  obtain ⟨hids, hmiss⟩ := runList_polled fut hq.nodup h.inv.afterDrain.quiet hq.live
  rw [runOnce_eq]
  refine ⟨hids, fun id hmem => ?_⟩
  rcases List.mem_cons.mp hmem with hmem | hmem
  · cases hmem
  · exact hmiss id hmem

theorem Good.afterRunOnce {tr : List (Obs E)} {s : State F W E} (fut : Futures F W E)
    (h : Good tr s) : Good (tr ++ (runOnce fut s).2.2) (runOnce fut s).2.1 := by
  obtain ⟨hinv, hempty⟩ := h.inv.afterRunOnce fut
  have hmiss := (h.runOnce_polled fut).2
  have hquiet := h.inv.afterDrain.quiet
  have hframe := runList_framed fut (drainAwake s).runQueue hquiet
  obtain ⟨hcount, hfin⟩ := runList_obs fut (drainAwake s).runQueue hquiet
  have hsound : Sound (tr ++ [.roundBegin]) (roundStart s) :=
    h.sound.snoc rfl h.sound.unfinished fun _ hkept => hkept.resolve_right nofun
  have hsound := hsound.afterList fut hquiet (drainAwake s).runQueue
  rw [List.append_assoc] at hsound
  rw [runOnce_eq] at hinv hempty hmiss ⊢
  refine ⟨hinv, ?_, hsound, ⟨?_, fun id hid => ?_, fun id hid => ?_⟩, fun id hmem => ?_⟩
  · refine ⟨?_, fun id hid => ?_⟩
    · rw [hempty]
      exact List.nodup_nil
    · rw [hempty] at hid
      exact absurd hid List.not_mem_nil
  · show ((runList fut).run (roundStart s) (drainAwake s).runQueue).1.nextId = _
    rw [hframe.nextId, spawnCount_append]
    show s.nextId = spawnCount tr + spawnCount ((runList fut).run _ _).2
    rw [hcount]
    exact h.fresh.nextId
  · show id < ((runList fut).run (roundStart s) (drainAwake s).runQueue).1.nextId
    rw [hframe.nextId]
    exact h.fresh.tasks_lt id ((runList_mem_tasks fut _ hquiet).mp hid).1
  · show id < ((runList fut).run (roundStart s) (drainAwake s).runQueue).1.nextId
    rw [hframe.nextId]
    rcases finished_append.mp hid with hid | ⟨actions, hid⟩
    · exact h.fresh.finished_lt id hid
    · exact h.fresh.tasks_lt id (hfin id ⟨actions, (List.mem_cons.mp hid).resolve_left nofun⟩)
  · exact (List.mem_append.mp hmem).elim (h.found id) (hmiss id)

/-! ### Whole runs -/

/-- The spawns among a sequence of operations. -/
def Op.isSpawn : Op F E → Bool
  | .spawn _ => true
  | _ => false

/-- What is seen of an operation tells whether it is a spawn. -/
theorem spawnCount_step (fut : Futures F W E) {s : State F W E} (hq : Quiet s) (op : Op F E) :
    spawnCount ((operations fut).step s op).2 = if op.isSpawn then 1 else 0 := by
  cases op with
  | spawn future => rfl
  | wake id => rfl
  | runOnce =>
      show spawnCount (runOnce fut s).2.2 = 0
      rw [runOnce_eq]
      exact (runList_obs fut _ (s := roundStart s) ⟨hq.current, hq.global⟩).1
  | waitForEvents answer =>
      show spawnCount (waitForEvents s answer).2 = 0
      rcases waitForEvents_cases s answer with hw | ⟨o, hw, _, _, hspawn, _⟩
        | ⟨i, signaled, _, _, _, hw⟩
      · rw [hw]
        rfl
      · rw [hw]
        simp [spawnCount, hspawn]
      · rw [hw]
        rfl

/-- The bookkeeping invariant alone needs no bound on the number of spawns. -/
theorem quiet_step (fut : Futures F W E) {s : State F W E} (hq : Quiet s) (op : Op F E) :
    Quiet ((operations fut).step s op).1 := by
  cases op with
  | spawn future => exact ⟨hq.current, hq.global⟩
  | wake id => exact ⟨hq.current, hq.global⟩
  | runOnce =>
      show Quiet (runOnce fut s).2.1
      rw [runOnce_eq]
      exact (runList_framed fut _ (s := roundStart s) ⟨hq.current, hq.global⟩).quiet
  | waitForEvents answer =>
      show Quiet (waitForEvents s answer).1
      rcases waitForEvents_cases s answer with hw | ⟨o, hw, _⟩ | ⟨i, signaled, _, _, _, hw⟩
      · rw [hw]
        exact hq
      · rw [hw]
        exact hq
      · rw [hw]
        exact ⟨hq.current, hq.global⟩

/-- The trace of a run shows as many spawns as there were. -/
theorem spawnCount_run (fut : Futures F W E) (ops : List (Op F E)) :
    ∀ {s : State F W E}, Quiet s →
      spawnCount ((operations fut).run s ops).2 = ops.countP Op.isSpawn := by
  induction ops with
  | nil => exact fun _ => rfl
  | cons op ops ih =>
      intro s hq
      rw [Machine.run_cons, spawnCount_append, spawnCount_step fut hq, ih (quiet_step fut hq op),
        List.countP_cons, Nat.add_comm]

/-- The books are kept by every operation, also when `NEXT_ID` wraps around. -/
theorem Inv.step {tr : List (Obs E)} {s : State F W E} (fut : Futures F W E)
    (h : Inv tr s.runQueue s) (op : Op F E) :
    Inv (tr ++ ((operations fut).step s op).2) ((operations fut).step s op).1.runQueue
      ((operations fut).step s op).1 := by
  cases op with
  | spawn future => exact h.afterSpawn future
  | wake id => exact h.afterWake id
  | runOnce => exact (h.afterRunOnce fut).1
  | waitForEvents answer => exact h.afterWait answer

/-- **Any number of spawns.**  The books are right after every run. -/
theorem operations_inv (fut : Futures F W E) (w : W) (ops : List (Op F E)) :
    Inv ((operations fut).run (State.new w) ops).2
      ((operations fut).run (State.new w) ops).1.runQueue
      ((operations fut).run (State.new w) ops).1 :=
  (operations fut).run_invariant (I := fun tr s => Inv tr s.runQueue s)
    (fun _ _ op h => h.step fut op) (good_new w).inv ops

/-- **Any sequence of operations.**  The invariants hold after every run with fewer than `2 ^ 64`
spawns. -/
theorem operations_good (fut : Futures F W E) (w : W) {ops : List (Op F E)}
    (hcard : ops.countP Op.isSpawn < usizeCard) :
    Good ((operations fut).run (State.new w) ops).2 ((operations fut).run (State.new w) ops).1 := by
  have hcount := spawnCount_run fut ops (good_new (E := E) w).inv.quiet
  have hnew : spawnCount ([] : List (Obs E)) < usizeCard → Good [] (State.new w : State F W E) :=
    fun _ => good_new w
  have hrun := (operations fut).run_invariant
    (I := fun tr s => spawnCount tr < usizeCard → Good tr s) ?_ hnew ops
  · exact hrun (by rw [List.nil_append, hcount]; exact hcard)
  · intro tr s op ih hlt
    rw [spawnCount_append] at hlt
    have h := ih (by omega)
    cases op with
    | spawn future => exact h.afterSpawn future hlt
    | wake id => exact h.afterWake id
    | runOnce => exact h.afterRunOnce fut
    | waitForEvents answer => exact h.afterWait answer

/-! ### The loop of `Executor::run` -/

/-- The books, and nothing is queued when `wait_for_events` is about to be called. -/
structure RunInv (tr : List (Obs E)) (p : Pc × State F W E) : Prop where
  inv : Inv tr p.2.runQueue p.2
  idle : p.1 = .waiting → p.2.runQueue = []

theorem RunInv.step {tr : List (Obs E)} {p : Pc × State F W E} (fut : Futures F W E)
    (h : RunInv tr p) (i : Input E) :
    RunInv (tr ++ (runStep fut p i).2) (runStep fut p i).1 := by
  obtain ⟨pc, s⟩ := p
  cases i with
  | wake id => exact ⟨h.inv.afterWake id, h.idle⟩
  | advance answer =>
      cases pc with
      | loopHead =>
          show RunInv (tr ++ (if s.tasks.keys = [] then _ else _ : _ × _).2) _
          unfold runStep
          dsimp only
          split
          · exact ⟨by simpa using h.inv, fun hwaiting => by cases hwaiting⟩
          · exact ⟨(h.inv.afterRunOnce fut).1, fun _ => (h.inv.afterRunOnce fut).2⟩
      | waiting => exact ⟨h.inv.afterWait answer, fun hwaiting => by cases hwaiting⟩
      | returned => exact ⟨by simpa [runStep] using h.inv, fun hwaiting => by cases hwaiting⟩

/-- The loop keeps the books, wherever it is entered. -/
theorem runLoop_inv (fut : Futures F W E) {tr : List (Obs E)} {s : State F W E}
    (h : Inv tr s.runQueue s) (inputs : List (Input E)) :
    RunInv (tr ++ ((runLoop fut).run (.loopHead, s) inputs).2)
      ((runLoop fut).run (.loopHead, s) inputs).1 :=
  (runLoop fut).run_invariant (fun _ _ i h => h.step fut i) ⟨h, nofun⟩ inputs

/-- What holds in every state of `Executor::run`: when `wait_for_events` is about to be called,
nothing is queued. -/
structure RunGood (tr : List (Obs E)) (p : Pc × State F W E) : Prop where
  good : Good tr p.2
  idle : p.1 = .waiting → p.2.runQueue = []

theorem RunGood.step {tr : List (Obs E)} {p : Pc × State F W E} (fut : Futures F W E)
    (h : RunGood tr p) (i : Input E) :
    RunGood (tr ++ (runStep fut p i).2) (runStep fut p i).1 := by
  have hbooks : RunInv tr p := ⟨h.good.inv, h.idle⟩
  refine ⟨?_, (hbooks.step fut i).idle⟩
  obtain ⟨pc, s⟩ := p
  cases i with
  | wake id => exact h.good.afterWake id
  | advance answer =>
      cases pc with
      | loopHead =>
          show Good (tr ++ (if s.tasks.keys = [] then _ else _ : _ × _).2) _
          unfold runStep
          dsimp only
          split
          · simpa using h.good
          · exact h.good.afterRunOnce fut
      | waiting => exact h.good.afterWait answer
      | returned => simpa [runStep] using h.good

theorem spawnAll_good (fut : Futures F W E) (w : W) (spawned : Spawned F) :
    Good (spawnAll fut w spawned).2 (spawnAll fut w spawned).1 := by
  refine operations_good fut w ?_
  have hall : ((spawned.futures.map .spawn : List (Op F E))).countP Op.isSpawn
      = spawned.futures.length := by
    rw [List.countP_map]
    exact List.countP_eq_length.mpr fun _ _ => rfl
  rw [hall]
  exact spawned.length_lt

/-- The loop keeps the invariants, wherever it is entered. -/
theorem runLoop_good (fut : Futures F W E) {tr : List (Obs E)} {s : State F W E} (h : Good tr s)
    (inputs : List (Input E)) :
    RunGood (tr ++ ((runLoop fut).run (.loopHead, s) inputs).2)
      ((runLoop fut).run (.loopHead, s) inputs).1 :=
  (runLoop fut).run_invariant (fun _ _ i h => h.step fut i) ⟨h, nofun⟩ inputs

/-- **The loop.**  The invariants hold in every state of `Executor::run`. -/
theorem run_good (fut : Futures F W E) (w : W) (spawned : Spawned F) (inputs : List (Input E)) :
    RunGood (run fut w spawned inputs).2 (run fut w spawned inputs).1 :=
  runLoop_good fut (spawnAll_good fut w spawned) inputs

end WebUiBoot.Executor
