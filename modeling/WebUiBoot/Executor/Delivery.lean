import WebUiBoot.Executor.Runs

/-!
# Exact delivery of events

A signalled event wakes exactly the tasks that are waiting for it.  Registrations travel from the
running task through a static into the registry, and are dropped before the next poll, so that the
registry holds the registrations of the latest polls and nothing else (`Inv.registry`).

* `runOnce_after_wait` — the round after a wait polls the tasks registered for the event, in the
  order of their registrations;
* `Delivered` — the reason why a task may be polled again when no waker is ever called;
* `exact_delivery` — both, for every run of `Executor::run`.
-/

namespace WebUiBoot.Executor

open WebUiBoot.PushNew WebUiBoot.Trace

variable {F W E : Type*} [DecidableEq E]

/-! ### The round after a wait -/

/-- The tasks registered for an event, in the order of their entries. -/
def registeredFor (registry : List (E × TaskId)) (event : E) : List TaskId :=
  (registry.filter (·.1 = event)).map Prod.snd

theorem mem_registeredFor {registry : List (E × TaskId)} {event : E} {id : TaskId} :
    id ∈ registeredFor registry event ↔ (event, id) ∈ registry := by
  simp [registeredFor]

theorem registeredFor_nodup {registry : List (E × TaskId)} (h : registry.Nodup) (event : E) :
    (registeredFor registry event).Nodup := by
  refine List.Nodup.map_on ?_ (h.filter _)
  intro p hp q hq heq
  have hp := of_decide_eq_true (List.mem_filter.mp hp).2
  have hq := of_decide_eq_true (List.mem_filter.mp hq).2
  exact Prod.ext (hp.trans hq.symm) heq

/-- A successful wait with nothing queued makes the tasks of the event the next run list. -/
theorem runOnce_after_wait {tr : List (Obs E)} {s : State F W E} (fut : Futures F W E)
    (h : Good tr s) (hidle : s.runQueue = []) {answer : List E → Option ℕ} {events : List E}
    {i : ℕ} {event : E} (hw : (waitForEvents s answer).2 = [.waited events (some i)])
    (hi : events[i]? = some event) :
    polledIds (runOnce fut (waitForEvents s answer).1).2.2
        = registeredFor s.eventRegistry event
      ∧ event ∈ registeredEvents s := by
  have hgood := h.afterWait answer
  rcases waitForEvents_cases s answer with hw' | ⟨o, hw', _, _, _, _, hnone, _⟩
    | ⟨j, signaled, _, hj, hawake, hw'⟩
  · rw [hw'] at hw
    cases hw
  · rw [hw', List.cons.injEq] at hw
    rw [hw.1] at hnone
    exact absurd (hi.symm.trans hnone) (Option.some_ne_none event)
  · rw [hw'] at hw hgood ⊢
    obtain ⟨rfl, rfl⟩ : registeredEvents s = events ∧ j = i := by simpa using hw
    obtain rfl : signaled = event := Option.some.inj (hj.symm.trans hi)
    refine ⟨?_, List.mem_of_getElem? hi⟩
    have hnodup : (registeredFor s.eventRegistry signaled).Nodup := by
      rw [h.inv.registry]
      exact registeredFor_nodup (latestRegistrations_nodup tr) signaled
    calc polledIds (runOnce fut (queueSignaled s signaled)).2.2
        = (drainAwake (queueSignaled s signaled)).runQueue := (hgood.runOnce_polled fut).1
      _ = (queueSignaled s signaled).runQueue := by
          simp [drainAwake, queueSignaled, hawake]
      _ = pushAll [] (registeredFor s.eventRegistry signaled) := by
          simp [queueSignaled, registeredFor, hidle]
      _ = registeredFor s.eventRegistry signaled := pushAll_of_nodup (by simpa using hnodup)

/-! ### Runs without waker calls -/

/-- Since its latest poll, a wait has returned an event that the task registered in that poll. -/
def Delivered (tr : List (Obs E)) (id : TaskId) : Prop :=
  ∃ event, RegisteredInLatestPoll tr id event
    ∧ Since (fun o => o.delivered = some event) (fun o => o.polledId = some id) tr

/-- A poll of a task that was polled before has an event behind it. -/
def Caused (past : List (Obs E)) (o : Obs E) : Prop :=
  ∀ id, o.polledId = some id → id ∈ polledIds past → Delivered past id

/-- All the queued tasks that were polled before have an event behind them. -/
def QueueCaused (tr : List (Obs E)) (q : List TaskId) : Prop :=
  ∀ id ∈ q, id ∈ polledIds tr → Delivered tr id

omit [DecidableEq E] in
theorem Delivered.snoc {tr : List (Obs E)} {id : TaskId} (h : Delivered tr id) {o : Obs E}
    (ho : o.polledId ≠ some id) : Delivered (tr ++ [o]) id := by
  obtain ⟨event, hreg, hdel⟩ := h
  exact ⟨event, since_append_singleton.mpr (Or.inr ⟨hreg, ho⟩),
    since_append_singleton.mpr (Or.inr ⟨hdel, ho⟩)⟩

omit [DecidableEq E] in
theorem QueueCaused.snoc {tr : List (Obs E)} {q : List TaskId} (h : QueueCaused tr q) {o : Obs E}
    (ho : ∀ id ∈ q, o.polledId ≠ some id) : QueueCaused (tr ++ [o]) q := by
  intro id hid hpolled
  refine (h id hid ?_).snoc (ho id hid)
  rw [polledIds_append, List.mem_append] at hpolled
  refine hpolled.resolve_right fun hmem => ho id hid ?_
  simpa [polledIds] using hmem

/-- A poll that calls no waker leaves `AWAKE_TASKS` alone. -/
theorem pollTask_awakeTasks (fut : Futures F W E) {s : State F W E} {id : TaskId} (hq : Quiet s)
    (hno : ∀ o ∈ (pollTask fut s id).2, o.wakes = []) :
    (pollTask fut s id).1.awakeTasks = s.awakeTasks := by
  cases hf : s.tasks.lookup id with
  | none => rw [pollTask_of_lookup_none fut hf]
  | some future =>
      rw [pollTask_eq fut hq hf] at hno ⊢
      have hnone : wakes (fut.poll id future s.world).actions = [] :=
        hno _ (List.mem_singleton.mpr rfl)
      show pushAll s.awakeTasks _ = _
      rw [hnone, pushAll_nil]

/-- A round over a caused, duplicate-free run list, without waker calls. -/
theorem runList_caused (fut : Futures F W E) (ids : List TaskId) :
    ∀ {tr : List (Obs E)} {s : State F W E}, Quiet s → ids.Nodup →
      Always Caused tr → QueueCaused tr ids →
      (∀ o ∈ ((runList fut).run s ids).2, o.wakes = []) →
      Always Caused (tr ++ ((runList fut).run s ids).2)
        ∧ ((runList fut).run s ids).1.awakeTasks = s.awakeTasks := by
  induction ids with
  | nil =>
      intro tr s _ _ halways _ _
      simpa using halways
  | cons id ids ih =>
      intro tr s hq hnd halways hcaused hno
      obtain ⟨hid, hnd⟩ := List.nodup_cons.mp hnd
      rw [runList_cons] at hno
      have hno₁ := fun o ho => hno o (List.mem_append_left _ ho)
      have hno₂ := fun o ho => hno o (List.mem_append_right _ ho)
      obtain ⟨o, hobs, hpoll⟩ : ∃ o, (pollTask fut s id).2 = [o]
          ∧ (o.polledId = none ∨ o.polledId = some id) := by
        cases hf : s.tasks.lookup id with
        | none => exact ⟨_, by rw [pollTask_of_lookup_none fut hf], Or.inl rfl⟩
        | some future => exact ⟨_, by rw [pollTask_eq fut hq hf], Or.inr rfl⟩
      have hcause : Caused tr o := by
        intro id' hid' hmem
        rcases hpoll with hpoll | hpoll
        · exact absurd (hpoll.symm.trans hid') (Option.some_ne_none id').symm
        · obtain rfl := Option.some.inj (hpoll.symm.trans hid')
          exact hcaused id List.mem_cons_self hmem
      have hrest : QueueCaused (tr ++ [o]) ids := by
        refine QueueCaused.snoc (fun id' h' => hcaused id' (List.mem_cons_of_mem _ h')) ?_
        intro id' hid' heq
        rcases hpoll with hpoll | hpoll
        · exact Option.some_ne_none id' (heq.symm.trans hpoll)
        · exact hid (Option.some.inj (hpoll.symm.trans heq) ▸ hid')
      obtain ⟨h₁, h₂⟩ := ih (pollTask_framed fut hq id).quiet hnd
        (always_append_singleton.mpr ⟨halways, hcause⟩) hrest hno₂
      rw [runList_cons, ← List.append_assoc, hobs]
      exact ⟨h₁, h₂.trans (pollTask_awakeTasks fut hq hno₁)⟩

/-- What holds in every state of a run of the loop without waker calls. -/
structure Unwoken (tr : List (Obs E)) (s : State F W E) : Prop where
  awake : s.awakeTasks = []
  always : Always Caused tr
  queue : QueueCaused tr s.runQueue

theorem Unwoken.afterRunOnce {tr : List (Obs E)} {s : State F W E} (fut : Futures F W E)
    (h : Unwoken tr s) (hgood : Good tr s) (hno : ∀ o ∈ (runOnce fut s).2.2, o.wakes = []) :
    Unwoken (tr ++ (runOnce fut s).2.2) (runOnce fut s).2.1 := by
  have hempty := (hgood.inv.afterRunOnce fut).2
  have hlist : (drainAwake s).runQueue = s.runQueue := by
    simp [drainAwake, h.awake]
  have hround : QueueCaused (tr ++ [.roundBegin]) s.runQueue := h.queue.snoc nofun
  have halways : Always Caused (tr ++ [.roundBegin]) :=
    always_append_singleton.mpr ⟨h.always, nofun⟩
  rw [runOnce_eq, hlist] at hno hempty ⊢
  obtain ⟨h₁, h₂⟩ := runList_caused fut s.runQueue (s := roundStart s)
    hgood.inv.afterDrain.quiet hgood.queue.nodup halways hround
    (fun o ho => hno o (List.mem_cons_of_mem _ ho))
  refine ⟨h₂, ?_, fun id hid => ?_⟩
  · rw [List.append_assoc] at h₁
    exact h₁
  · rw [hempty] at hid
    exact absurd hid List.not_mem_nil

theorem Unwoken.afterWait {tr : List (Obs E)} {s : State F W E}
    (h : Unwoken tr s) (hgood : Good tr s) (answer : List E → Option ℕ) :
    Unwoken (tr ++ (waitForEvents s answer).2) (waitForEvents s answer).1 := by
  rcases waitForEvents_cases s answer with hw | ⟨o, hw, hpoll, _⟩
    | ⟨i, signaled, _, hi, _, hw⟩
  · rw [hw]
    simpa using h
  · rw [hw]
    refine ⟨h.awake, always_append_singleton.mpr ⟨h.always, fun id hid => ?_⟩,
      h.queue.snoc fun id _ hid => ?_⟩
    · exact absurd (hpoll.symm.trans hid) (Option.some_ne_none id).symm
    · exact absurd (hpoll.symm.trans hid) (Option.some_ne_none id).symm
  · rw [hw]
    refine ⟨h.awake, always_append_singleton.mpr ⟨h.always, nofun⟩, fun id hid hmem => ?_⟩
    rw [polledIds_append, List.mem_append] at hmem
    have hmem := hmem.resolve_right List.not_mem_nil
    rcases mem_queueSignaled.mp hid with hid | hid
    · exact (h.queue id hid hmem).snoc nofun
    · rw [hgood.inv.registry] at hid
      have hreg := registeredInLatestPoll_of_mem hid
      exact ⟨signaled, since_append_singleton.mpr (Or.inr ⟨hreg, nofun⟩),
        since_append_singleton.mpr (Or.inl hi)⟩

theorem Unwoken.step {tr : List (Obs E)} {p : Pc × State F W E} (fut : Futures F W E)
    (h : Unwoken tr p.2) (hgood : RunGood tr p) (i : Input E)
    (hno : ∀ o ∈ (runStep fut p i).2, o.wakes = []) :
    Unwoken (tr ++ (runStep fut p i).2) (runStep fut p i).1.2 := by
  obtain ⟨pc, s⟩ := p
  cases i with
  | wake id => exact absurd (hno _ (List.mem_singleton.mpr rfl)) (List.cons_ne_nil id [])
  | advance answer =>
      cases pc with
      | loopHead =>
          unfold runStep at hno ⊢
          dsimp only at hno ⊢
          split at hno
          · rename_i hempty
            rw [if_pos hempty]
            simpa using h
          · rename_i htasks
            rw [if_neg htasks]
            exact h.afterRunOnce fut hgood.good hno
      | waiting => exact h.afterWait hgood.good answer
      | returned => simpa [runStep] using h

/-- What every spawn preserves holds when the loop starts. -/
theorem spawnAll_invariant (fut : Futures F W E) (w : W) (spawned : Spawned F)
    {I : List (Obs E) → State F W E → Prop} (hnew : I [] (State.new w))
    (hspawn : ∀ tr s future, future ∈ spawned.futures → I tr s →
      I (tr ++ (spawn s future).2) (spawn s future).1) :
    I (spawnAll fut w spawned).2 (spawnAll fut w spawned).1 := by
  have halong : (operations fut).Along (fun _ op => ∃ future ∈ spawned.futures, op = .spawn future)
      (State.new w) (spawned.futures.map .spawn) := by
    refine (operations fut).along_of_forall (fun op hop s => ?_) _
    obtain ⟨future, hmem, rfl⟩ := List.mem_map.mp hop
    exact ⟨future, hmem, rfl⟩
  refine (operations fut).run_invariant_along (fun tr s op h hop => ?_) hnew halong
  obtain ⟨future, hmem, rfl⟩ := hop
  exact hspawn tr s future hmem h

/-- Nothing has been polled or woken when the loop starts. -/
theorem spawnAll_fresh (fut : Futures F W E) (w : W) (spawned : Spawned F) :
    (spawnAll fut w spawned).1.awakeTasks = [] ∧ polledIds (spawnAll fut w spawned).2 = [] := by
  have hnew : (State.new w : State F W E).awakeTasks = [] ∧ polledIds ([] : List (Obs E)) = [] :=
    ⟨rfl, rfl⟩
  refine spawnAll_invariant fut w spawned (I := fun tr s => s.awakeTasks = [] ∧ polledIds tr = [])
    hnew fun tr s future _ h => ⟨h.1, ?_⟩
  rw [polledIds_append, h.2]
  rfl

theorem spawnAll_unwoken (fut : Futures F W E) (w : W) (spawned : Spawned F) :
    Unwoken (spawnAll fut w spawned).2 (spawnAll fut w spawned).1 := by
  obtain ⟨hawake, hpolled⟩ := spawnAll_fresh fut w spawned
  refine ⟨hawake, ?_, ?_⟩
  · intro a o b htr id _ hmem
    rw [htr, polledIds_append, List.append_eq_nil_iff] at hpolled
    rw [hpolled.1] at hmem
    exact absurd hmem List.not_mem_nil
  · intro id _ hmem
    rw [hpolled] at hmem
    exact absurd hmem List.not_mem_nil

/-- **Runs without waker calls.**  Every repeated poll has an event of the latest poll behind
it. -/
theorem run_unwoken (fut : Futures F W E) (w : W) (spawned : Spawned F) (inputs : List (Input E))
    (hno : ∀ o ∈ (run fut w spawned inputs).2, o.wakes = []) :
    Unwoken (run fut w spawned inputs).2 (run fut w spawned inputs).1.2 := by
  have hstart : RunGood (spawnAll fut w spawned).2 (.loopHead, (spawnAll fut w spawned).1) :=
    ⟨spawnAll_good fut w spawned, nofun⟩
  refine ((runLoop fut).run_invariant
    (I := fun tr p => RunGood tr p ∧ ((∀ o ∈ tr, o.wakes = []) → Unwoken tr p.2))
    (fun tr p i h => ?_) ⟨hstart, fun _ => spawnAll_unwoken fut w spawned⟩ inputs).2 hno
  refine ⟨h.1.step fut i, fun hno => ?_⟩
  have hpast := h.2 fun o ho => hno o (List.mem_append_left _ ho)
  exact hpast.step fut h.1 i fun o ho => hno o (List.mem_append_right _ ho)

/-! ### The claim of the module -/

/-- **Exact delivery.**  When `boot::wait_for_event` returns the index of an event to the loop,
the next round polls exactly the live tasks that registered that event during their most recent
poll, each once, in the order of the registrations, and there is at least one.  In a run without
waker calls a task is polled again only after a wait has returned an event that it registered
during its most recent poll. -/
theorem exact_delivery (fut : Futures F W E) (w : W) (spawned : Spawned F)
    (inputs : List (Input E)) :
    (∀ s tr answer events i event, run fut w spawned inputs = ((.waiting, s), tr) →
      (waitForEvents s answer).2 = [.waited events (some i)] → events[i]? = some event →
      polledIds (runOnce fut (waitForEvents s answer).1).2.2
          = registeredFor (latestRegistrations tr) event
        ∧ (registeredFor (latestRegistrations tr) event).Nodup
        ∧ registeredFor (latestRegistrations tr) event ≠ []
        ∧ ∀ id, id ∈ registeredFor (latestRegistrations tr) event
            ↔ id ∈ s.tasks ∧ RegisteredInLatestPoll tr id event)
    ∧ ((∀ o ∈ (run fut w spawned inputs).2, o.wakes = []) →
        Always Caused (run fut w spawned inputs).2) := by
  refine ⟨?_, fun hno => (run_unwoken fut w spawned inputs hno).always⟩
  intro s tr answer events i event hrun hwait hevent
  have hgood := run_good fut w spawned inputs
  rw [hrun] at hgood
  have hreg := hgood.good.inv.registry
  obtain ⟨hids, hmem⟩ := runOnce_after_wait fut hgood.good (hgood.idle rfl) hwait hevent
  rw [hreg] at hids
  refine ⟨hids, registeredFor_nodup (latestRegistrations_nodup tr) event, ?_, fun id => ?_⟩
  · obtain ⟨p, hp, rfl⟩ := List.mem_map.mp ((mem_pushAll.mp hmem).resolve_left List.not_mem_nil)
    rw [hreg] at hp
    exact List.ne_nil_of_mem (mem_registeredFor.mpr hp)
  · rw [mem_registeredFor]
    constructor
    · intro hid
      refine ⟨?_, registeredInLatestPoll_of_mem hid⟩
      rw [← hreg] at hid
      exact hgood.good.inv.registry_live _ hid
    · rintro ⟨hlive, hid⟩
      exact (mem_latestRegistrations_iff (hgood.good.sound.unfinished id hlive)).mpr hid

/-- Tasks that wait for the one event there is, again and again. -/
def waiters : Futures Unit Unit Unit where
  poll _ future w := ⟨future, w, [.register ()], .pending⟩

/-- Two such tasks after their first round. -/
def waitersState : State Unit Unit Unit :=
  { (State.new () : State Unit Unit Unit) with
    tasks := (AList.singleton 0 ()).insert 1 ()
    eventRegistry := [((), 0), ((), 1)]
    nextId := 2 }

theorem exact_delivery_waiters :
    polledIds (runOnce waiters (waitForEvents waitersState fun _ => some 0).1).2.2 = [0, 1] := by
  have hrun : run waiters () ⟨[(), ()], by decide⟩ [.advance fun _ => none, .advance fun _ => none]
      = ((.waiting, waitersState), [.spawned 0, .spawned 1, .roundBegin,
          .polled 0 [.register ()] .pending, .polled 1 [.register ()] .pending,
          .roundBegin]) := rfl
  have hwait : (waitForEvents waitersState fun _ => some 0).2 = [.waited [()] (some 0)] := rfl
  exact ((exact_delivery waiters () ⟨[(), ()], by decide⟩
    [.advance fun _ => none, .advance fun _ => none]).1 _ _ _ _ _ () hrun hwait rfl).1

end WebUiBoot.Executor
