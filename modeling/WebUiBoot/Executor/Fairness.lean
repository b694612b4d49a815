import WebUiBoot.Executor.Delivery
import WebUiBoot.Lib.Position

/-!
# Event waits starve no task

The wait scans the registry from the front, and a polled task's entries are taken out and come
back at the end.  So the number of entries in front of a registered event that stays signalled is
a measure, which every successful wait together with the round after it decreases.

* `signaledLoop` — the loop of `Executor::run` against a firmware whose events are signalled or
  not, and whose `boot::wait_for_event` returns and clears the first signalled event;
* `runOnce_registry` — what a round does to the registry;
* `Waiting` / `Waiting.step` — the measure, along one step;
* `event_wait_decreases` — the measure along all runs, and the bound on the number of waits.
-/

namespace WebUiBoot.Executor

open WebUiBoot.Position WebUiBoot.PushNew WebUiBoot.Trace

variable {F W E : Type*} [DecidableEq E]

/-! ### The firmware's events -/

/-- What happens next in a run of the loop with the events of the firmware. -/
inductive SignalInput (E : Type*)
  | wake (id : TaskId)
  /-- The firmware signals an event. -/
  | signal (event : E)
  /-- The loop goes on; `boot::wait_for_event` looks for the first signalled event. -/
  | advance
  /-- The loop goes on; a `boot::wait_for_event` call in this step returns an error. -/
  | fail

/-- What `boot::wait_for_event` returns: the index of the first signalled event. -/
def firstSignaled (signals : E → Bool) (events : List E) : Option ℕ := events.findIdx? signals

/-- `boot::wait_for_event` clears the event with which it returns, and no other. -/
def clearDelivered (signals : E → Bool) (obs : List (Obs E)) : E → Bool :=
  obs.foldl (fun signals o =>
    match o.delivered with
    | some event => Function.update signals event false
    | none => signals) signals

def signaledStep (fut : Futures F W E) (p : (Pc × State F W E) × (E → Bool)) :
    SignalInput E → ((Pc × State F W E) × (E → Bool)) × List (Obs E)
  | .wake id =>
      let r := runStep fut p.1 (.wake id)
      ((r.1, p.2), r.2)
  | .signal event => ((p.1, Function.update p.2 event true), [])
  | .advance =>
      let r := runStep fut p.1 (.advance (firstSignaled p.2))
      ((r.1, clearDelivered p.2 r.2), r.2)
  | .fail =>
      let r := runStep fut p.1 (.advance fun _ => none)
      ((r.1, clearDelivered p.2 r.2), r.2)

def signaledLoop (fut : Futures F W E) :
    Machine ((Pc × State F W E) × (E → Bool)) (SignalInput E) (Obs E) :=
  ⟨signaledStep fut⟩

/-- The states and traces of `Executor::run`, with the signals of the firmware. -/
def signaledRun (fut : Futures F W E) (w : W) (spawned : Spawned F) (signals : E → Bool)
    (inputs : List (SignalInput E)) : ((Pc × State F W E) × (E → Bool)) × List (Obs E) :=
  let start := spawnAll fut w spawned
  let r := (signaledLoop fut).run ((.loopHead, start.1), signals) inputs
  (r.1, start.2 ++ r.2)

theorem signaledStep_good (fut : Futures F W E) {tr : List (Obs E)}
    {p : (Pc × State F W E) × (E → Bool)} (h : RunGood tr p.1) (i : SignalInput E) :
    RunGood (tr ++ (signaledStep fut p i).2) (signaledStep fut p i).1.1 := by
  cases i with
  | wake id => exact h.step fut (.wake id)
  | signal event => simpa [signaledStep] using h
  | advance => exact h.step fut (.advance (firstSignaled p.2))
  | fail => exact h.step fut (.advance fun _ => none)

theorem signaledRun_good (fut : Futures F W E) (w : W) (spawned : Spawned F)
    (signals : E → Bool) (inputs : List (SignalInput E)) :
    RunGood (signaledRun fut w spawned signals inputs).2
      (signaledRun fut w spawned signals inputs).1.1 := by
  have hstart : RunGood (spawnAll fut w spawned).2 (.loopHead, (spawnAll fut w spawned).1) :=
    ⟨spawnAll_good fut w spawned, nofun⟩
  exact (signaledLoop fut).run_invariant (I := fun tr p => RunGood tr p.1)
    (s := ((.loopHead, (spawnAll fut w spawned).1), signals))
    (fun _ _ i h => signaledStep_good fut h i) hstart inputs

theorem signaledRun_append (fut : Futures F W E) (w : W) (spawned : Spawned F)
    (signals : E → Bool) (before inputs : List (SignalInput E)) :
    let r := signaledRun fut w spawned signals before
    signaledRun fut w spawned signals (before ++ inputs)
      = (((signaledLoop fut).run r.1 inputs).1, r.2 ++ ((signaledLoop fut).run r.1 inputs).2) := by
  unfold signaledRun
  dsimp only
  rw [Machine.run_append, List.append_assoc]

/-- A run with signals is one in which the firmware answers in some way. -/
theorem exists_run_of_signaled (fut : Futures F W E) (inputs : List (SignalInput E)) :
    ∀ p, ∃ is, (runLoop fut).run p.1 is
      = (((signaledLoop fut).run p inputs).1.1, ((signaledLoop fut).run p inputs).2) := by
  induction inputs with
  | nil => exact fun p => ⟨[], rfl⟩
  | cons i inputs ih =>
      intro p
      have hstep : ∃ is, (runLoop fut).run p.1 is
          = ((signaledStep fut p i).1.1, (signaledStep fut p i).2) := by
        cases i with
        | wake id => exact ⟨[.wake id], Machine.run_singleton _ _ _⟩
        | signal event => exact ⟨[], rfl⟩
        | advance => exact ⟨[.advance (firstSignaled p.2)], Machine.run_singleton _ _ _⟩
        | fail => exact ⟨[.advance fun _ => none], Machine.run_singleton _ _ _⟩
      obtain ⟨is, his⟩ := hstep
      obtain ⟨js, hjs⟩ := ih (signaledStep fut p i).1
      refine ⟨is ++ js, ?_⟩
      rw [Machine.run_append, his, hjs]
      rfl

/-! ### Waits and their rounds -/

/-- The number of waits in which `boot::wait_for_event` returned an event. -/
def okWaits (tr : List (Obs E)) : ℕ := tr.countP fun o => o.delivered.isSome

/-- The number of those that were followed by a round. -/
def completedWaits : List (Obs E) → ℕ
  | [] => 0
  | o :: tr =>
      (if o.delivered.isSome ∧ .roundBegin ∈ tr then 1 else 0) + completedWaits tr

omit [DecidableEq E] in
theorem okWaits_append (tr tr' : List (Obs E)) :
    okWaits (tr ++ tr') = okWaits tr + okWaits tr' := List.countP_append

omit [DecidableEq E] in
theorem okWaits_of_none {tr : List (Obs E)} (h : ∀ o ∈ tr, o.delivered = none) :
    okWaits tr = 0 := by
  refine List.countP_eq_zero.mpr fun o ho => ?_
  simp [h o ho]

theorem completedWaits_append_other (tr : List (Obs E)) {tr' : List (Obs E)}
    (h : .roundBegin ∉ tr') : completedWaits (tr ++ tr') = completedWaits tr := by
  induction tr with
  | nil =>
      induction tr' with
      | nil => rfl
      | cons o tr' ih =>
          rw [List.mem_cons, not_or] at h
          have ih := ih h.2
          rw [List.nil_append] at ih ⊢
          simp [completedWaits, h.2, ih]
  | cons o tr ih => simp [completedWaits, ih, h]

/-- A round completes the waits before it. -/
theorem completedWaits_append_round (tr : List (Obs E)) {tr' : List (Obs E)}
    (hround : .roundBegin ∈ tr') (h : ∀ o ∈ tr', o.delivered = none) :
    completedWaits (tr ++ tr') = okWaits tr := by
  induction tr with
  | nil =>
      have hzero : ∀ {l : List (Obs E)}, (∀ o ∈ l, o.delivered = none) → completedWaits l = 0 := by
        intro l hl
        induction l with
        | nil => rfl
        | cons o l ih =>
            rw [completedWaits, ih fun o' ho' => hl o' (List.mem_cons_of_mem _ ho'),
              hl o List.mem_cons_self]
            simp
      exact hzero h
  | cons o tr ih =>
      rw [List.cons_append, completedWaits, ih, okWaits, okWaits, List.countP_cons, Nat.add_comm]
      simp [hround]

/-! ### A round and the registry -/

omit [DecidableEq E] in
theorem clearDelivered_of_none [DecidableEq E] (signals : E → Bool) {obs : List (Obs E)}
    (h : ∀ o ∈ obs, o.delivered = none) : clearDelivered signals obs = signals := by
  induction obs with
  | nil => rfl
  | cons o obs ih =>
      rw [clearDelivered, List.foldl_cons, h o List.mem_cons_self]
      exact ih fun o' ho' => h o' (List.mem_cons_of_mem _ ho')

theorem pollTask_delivered (fut : Futures F W E) (s : State F W E) (id : TaskId) :
    ∀ o ∈ (pollTask fut s id).2, o.delivered = none := by
  intro o ho
  unfold pollTask at ho
  split at ho
  · rw [List.mem_singleton.mp ho]
    rfl
  · rw [List.mem_singleton.mp ho]
    rfl

/-- A round waits for nothing. -/
theorem runOnce_delivered (fut : Futures F W E) (s : State F W E) :
    ∀ o ∈ (runOnce fut s).2.2, o.delivered = none := by
  have hlist : ∀ (ids : List TaskId) (s : State F W E),
      ∀ o ∈ ((runList fut).run s ids).2, o.delivered = none := by
    intro ids
    induction ids with
    | nil => intro s o ho; exact absurd ho List.not_mem_nil
    | cons id ids ih =>
        intro s o ho
        rw [runList_cons] at ho
        exact (List.mem_append.mp ho).elim (pollTask_delivered fut s id o) (ih _ o)
  intro o ho
  rw [runOnce_eq] at ho
  rcases List.mem_cons.mp ho with rfl | ho
  · rfl
  · exact hlist _ _ o ho

/-- The entries of the polled tasks are taken out; what they register is appended. -/
theorem runList_registry (fut : Futures F W E) (ids : List TaskId) :
    ∀ {s : State F W E}, Quiet s → ∃ new, ((runList fut).run s ids).1.eventRegistry
      = s.eventRegistry.filter (fun p => p.2 ∉ polledIds ((runList fut).run s ids).2) ++ new := by
  induction ids with
  | nil =>
      intro s _
      exact ⟨[], by simp⟩
  | cons id ids ih =>
      intro s hq
      obtain ⟨new, hnew⟩ := ih (pollTask_framed fut hq id).quiet
      rw [runList_cons, hnew, polledIds_append]
      cases hf : s.tasks.lookup id with
      | none => exact ⟨new, by rw [pollTask_of_lookup_none fut hf]; rfl⟩
      | some future =>
          rw [pollTask_eq fut hq hf]
          generalize fut.poll id future s.world = r
          have hid : polledIds [Obs.polled (E := E) id r.actions r.result] = [id] := rfl
          rw [List.filter_append, List.filter_filter, List.append_assoc, hid]
          refine ⟨_, congrArg (· ++ _) (List.filter_congr fun p _ => ?_)⟩
          simp [Bool.and_comm]

theorem runOnce_registry {tr : List (Obs E)} {s : State F W E} (fut : Futures F W E)
    (h : Good tr s) : ∃ new, (runOnce fut s).2.1.eventRegistry
      = s.eventRegistry.filter (fun p => p.2 ∉ (drainAwake s).runQueue) ++ new := by
  have hids := (h.runOnce_polled fut).1
  obtain ⟨new, hnew⟩ := runList_registry fut (drainAwake s).runQueue h.inv.afterDrain.quiet
  rw [runOnce_eq] at hids ⊢
  have hids : polledIds ((runList fut).run (roundStart s) (drainAwake s).runQueue).2
      = (drainAwake s).runQueue := hids
  rw [hids] at hnew
  exact ⟨new, hnew⟩

/-! ### The measure -/

/-- A task waits for a signalled event, or is about to be polled for it, or a task with an entry in
front of it is; and every completed wait has moved the entry forward. -/
structure Waiting (bound : ℕ) (event : E) (id : TaskId) (tr : List (Obs E))
    (s : State F W E) (signals : E → Bool) : Prop where
  mem : (event, id) ∈ s.eventRegistry
  measure : s.eventRegistry.idxOf (event, id) + completedWaits tr ≤ bound
  phase : (okWaits tr = completedWaits tr ∧ signals event = true)
    ∨ (okWaits tr = completedWaits tr + 1 ∧ id ∈ s.runQueue)
    ∨ (okWaits tr = completedWaits tr + 1 ∧ signals event = true
        ∧ ∃ p ∈ s.eventRegistry.take (s.eventRegistry.idxOf (event, id)), p.2 ∈ s.runQueue)

variable {bound : ℕ} {event : E} {id : TaskId} {tr : List (Obs E)} {s : State F W E}
  {signals : E → Bool}

/-- Observations that are neither rounds nor successful waits, with the executor's queue and
registry unchanged. -/
theorem Waiting.append (h : Waiting bound event id tr s signals) {obs : List (Obs E)}
    (hround : .roundBegin ∉ obs) (hwait : ∀ o ∈ obs, o.delivered = none) {s' : State F W E}
    (hqueue : s'.runQueue = s.runQueue) (hreg : s'.eventRegistry = s.eventRegistry)
    {signals' : E → Bool} (hsig : signals event = true → signals' event = true) :
    Waiting bound event id (tr ++ obs) s' signals' := by
  have hok : okWaits (tr ++ obs) = okWaits tr := by
    rw [okWaits_append, okWaits_of_none hwait, Nat.add_zero]
  have hcompleted := completedWaits_append_other tr hround
  refine ⟨?_, ?_, ?_⟩
  · rw [hreg]
    exact h.mem
  · rw [hreg, hcompleted]
    exact h.measure
  · rw [hreg, hqueue, hok, hcompleted]
    rcases h.phase with ⟨hcount, hs⟩ | hid | ⟨hcount, hs, hfront⟩
    · exact Or.inl ⟨hcount, hsig hs⟩
    · exact Or.inr (Or.inl hid)
    · exact Or.inr (Or.inr ⟨hcount, hsig hs, hfront⟩)

/-- **The round.**  A round that does not poll the task polls the one in front of it, if a wait
has queued that. -/
theorem Waiting.afterRunOnce (fut : Futures F W E) {past : List (Obs E)} (hgood : Good past s)
    (h : Waiting bound event id tr s signals) (hid : id ∉ polledIds (runOnce fut s).2.2) :
    Waiting bound event id (tr ++ (runOnce fut s).2.2) (runOnce fut s).2.1 signals := by
  have hpolled := (hgood.runOnce_polled fut).1
  have hqueue : ∀ id' ∈ s.runQueue, id' ∈ (drainAwake s).runQueue :=
    fun _ h' => mem_pushAll.mpr (Or.inl h')
  rw [hpolled] at hid
  have hnotin : id ∉ s.runQueue := fun h' => hid (hqueue id h')
  obtain ⟨new, hnew⟩ := runOnce_registry fut hgood
  have hkeep : (event, id) ∈ s.eventRegistry.filter (fun p => p.2 ∉ (drainAwake s).runQueue) :=
    List.mem_filter.mpr ⟨h.mem, by simpa using hid⟩
  have hidx : (runOnce fut s).2.1.eventRegistry.idxOf (event, id)
      = (s.eventRegistry.filter (fun p => p.2 ∉ (drainAwake s).runQueue)).idxOf (event, id) := by
    rw [hnew, List.idxOf_append_of_mem hkeep]
  have hcompleted : completedWaits (tr ++ (runOnce fut s).2.2) = okWaits tr := by
    refine completedWaits_append_round tr ?_ (runOnce_delivered fut s)
    rw [runOnce_eq]
    exact List.mem_cons_self
  have hok : okWaits (tr ++ (runOnce fut s).2.2) = okWaits tr := by
    rw [okWaits_append, okWaits_of_none (runOnce_delivered fut s), Nat.add_zero]
  have hmeasure := h.measure
  refine ⟨?_, ?_, Or.inl ⟨hok.trans hcompleted.symm, ?_⟩⟩
  · rw [hnew]
    exact List.mem_append_left _ hkeep
  · rw [hidx, hcompleted]
    rcases h.phase with ⟨hcount, _⟩ | ⟨_, hmem⟩ | ⟨hcount, _, p, hp, hpq⟩
    · have hle := idxOf_filter_le (p := fun p => decide (p.2 ∉ (drainAwake s).runQueue))
        (List.mem_filter.mp hkeep).2 h.mem
      omega
    · exact absurd hmem hnotin
    · have hlt := idxOf_filter_lt (p := fun p => decide (p.2 ∉ (drainAwake s).runQueue))
        (List.mem_filter.mp hkeep).2 h.mem hp (by simpa using hqueue p.2 hpq)
      omega
  · rcases h.phase with ⟨_, hs⟩ | ⟨_, hmem⟩ | ⟨_, hs, _⟩
    · exact hs
    · exact absurd hmem hnotin
    · exact hs

/-- A wait in which no event is delivered. -/
theorem Waiting.afterUndelivered (h : Waiting bound event id tr s signals)
    {answer : List E → Option ℕ} (hsame : (waitForEvents s answer).1 = s)
    (hround : .roundBegin ∉ (waitForEvents s answer).2)
    (hwait : ∀ o ∈ (waitForEvents s answer).2, o.delivered = none) :
    Waiting bound event id (tr ++ (waitForEvents s answer).2) (waitForEvents s answer).1
      (clearDelivered signals (waitForEvents s answer).2) := by
  rw [hsame, clearDelivered_of_none signals hwait]
  exact h.append hround hwait rfl rfl fun hs => hs

/-- **The wait.**  The first signalled event belongs to the task, or to an entry in front of its
own. -/
theorem Waiting.afterWait (hidle : s.runQueue = [])
    (h : Waiting bound event id tr s signals) :
    Waiting bound event id (tr ++ (waitForEvents s (firstSignaled signals)).2)
      (waitForEvents s (firstSignaled signals)).1
      (clearDelivered signals (waitForEvents s (firstSignaled signals)).2) := by
  rcases waitForEvents_cases s (firstSignaled signals) with hw | ⟨o, hw, _, _, _, _, hnone, hround⟩
    | ⟨i, signaled, hans, hi, _, hw⟩
  · exact h.afterUndelivered (by rw [hw]) (by simp [hw]) (by simp [hw])
  · exact h.afterUndelivered (by rw [hw]) (by simp [hw, hround.symm]) (by simp [hw, hnone])
  · obtain ⟨hcount, hs⟩ : okWaits tr = completedWaits tr ∧ signals event = true := by
      rcases h.phase with hphase | ⟨_, hmem⟩ | ⟨_, _, p, _, hp⟩
      · exact hphase
      · rw [hidle] at hmem
        exact absurd hmem List.not_mem_nil
      · rw [hidle] at hp
        exact absurd hp List.not_mem_nil
    -- the registry is scanned up to the task's own entry at most
    obtain ⟨rest, hrest⟩ := take_idxOf_append h.mem
    generalize hfront : s.eventRegistry.take (s.eventRegistry.idxOf (event, id)) = front at hrest
    have hscanned : event ∈ (front ++ [(event, id)]).map Prod.fst := by simp
    obtain ⟨j, signaled', hj, hget, hmem, _⟩ := findIdx?_pushAll hscanned hs (rest.map Prod.fst)
    rw [← List.map_append, ← hrest] at hj hget
    obtain rfl : i = j := Option.some.inj (hans.symm.trans hj)
    obtain rfl : signaled = signaled' := Option.some.inj (hi.symm.trans hget)
    have hdelivered : (Obs.waited (registeredEvents s) (some i)).delivered = some signaled := hi
    have hok : okWaits (tr ++ [.waited (registeredEvents s) (some i)]) = completedWaits tr + 1 := by
      rw [okWaits_append, hcount]
      simp [okWaits, hdelivered]
    have hcompleted : completedWaits (tr ++ [.waited (registeredEvents s) (some i)])
        = completedWaits tr := completedWaits_append_other tr (by simp)
    rw [hw]
    refine ⟨h.mem, by rw [hcompleted]; exact h.measure, Or.inr ?_⟩
    rw [hok, hcompleted]
    by_cases heq : signaled = event
    · exact Or.inl ⟨rfl, mem_queueSignaled.mpr (Or.inr (heq ▸ h.mem))⟩
    · refine Or.inr ⟨rfl, ?_, ?_⟩
      · simp [clearDelivered, hdelivered, Function.update_of_ne (Ne.symm heq), hs]
      · obtain ⟨p, hp, rfl⟩ := List.mem_map.mp hmem
        have hp : p ∈ front := by
          rcases List.mem_append.mp hp with hp | hp
          · exact hp
          · exact absurd (congrArg Prod.fst (List.mem_singleton.mp hp)) heq
        refine ⟨p, hfront ▸ hp, mem_queueSignaled.mpr (Or.inr ?_)⟩
        exact List.mem_of_mem_take (hfront ▸ hp)

/-- A step of the loop whose wait, if there is one, finds the first signalled event or fails. -/
theorem Waiting.advance (fut : Futures F W E) {past : List (Obs E)} {pc : Pc}
    (hgood : RunGood past (pc, s)) (h : Waiting bound event id tr s signals)
    {answer : List E → Option ℕ}
    (hanswer : answer = firstSignaled signals ∨ answer = fun _ => none)
    (hid : id ∉ polledIds (runStep fut (pc, s) (.advance answer)).2) :
    Waiting bound event id (tr ++ (runStep fut (pc, s) (.advance answer)).2)
      (runStep fut (pc, s) (.advance answer)).1.2
      (clearDelivered signals (runStep fut (pc, s) (.advance answer)).2) := by
  cases pc with
  | loopHead =>
      unfold runStep at hid ⊢
      dsimp only at hid ⊢
      split at hid
      · rename_i hempty
        rw [if_pos hempty]
        simpa [clearDelivered] using h
      · rename_i htasks
        rw [if_neg htasks]
        show Waiting bound event id (tr ++ (runOnce fut s).2.2) (runOnce fut s).2.1
          (clearDelivered signals (runOnce fut s).2.2)
        rw [clearDelivered_of_none signals (runOnce_delivered fut s)]
        exact h.afterRunOnce fut hgood.good hid
  | waiting =>
      rcases hanswer with rfl | rfl
      · exact h.afterWait (hgood.idle rfl)
      · show Waiting bound event id (tr ++ (waitForEvents s fun _ => none).2)
          (waitForEvents s fun _ => none).1 (clearDelivered signals (waitForEvents s fun _ => none).2)
        rcases waitForEvents_cases s (fun _ => none) with hw | ⟨o, hw, _, _, _, _, hnone, hround⟩
          | ⟨i, signaled, hans, _⟩
        · exact h.afterUndelivered (by rw [hw]) (by simp [hw]) (by simp [hw])
        · exact h.afterUndelivered (by rw [hw]) (by simp [hw, hround.symm]) (by simp [hw, hnone])
        · cases hans
  | returned => simpa [runStep, clearDelivered] using h

/-- **One step of the loop.** -/
theorem Waiting.step (fut : Futures F W E) {past : List (Obs E)}
    {p : (Pc × State F W E) × (E → Bool)} (hgood : RunGood past p.1)
    (h : Waiting bound event id tr p.1.2 p.2) (i : SignalInput E)
    (hid : id ∉ polledIds (signaledStep fut p i).2) :
    Waiting bound event id (tr ++ (signaledStep fut p i).2) (signaledStep fut p i).1.1.2
      (signaledStep fut p i).1.2 := by
  obtain ⟨⟨pc, s⟩, signals⟩ := p
  cases i with
  | wake id' =>
      show Waiting bound event id (tr ++ [.woken id']) (wakeWaker s id') signals
      have hwait : ∀ o ∈ [Obs.woken (E := E) id'], o.delivered = none := by
        simp [Obs.delivered]
      have hqueue : (wakeWaker s id').runQueue = s.runQueue := rfl
      exact h.append (by simp) hwait hqueue rfl fun hs => hs
  | signal event' =>
      show Waiting bound event id (tr ++ []) s (Function.update signals event' true)
      refine h.append List.not_mem_nil (by simp) rfl rfl fun hs => ?_
      by_cases heq : event = event'
      · rw [heq, Function.update_self]
      · rw [Function.update_of_ne heq]
        exact hs
  | advance => exact h.advance fut hgood (Or.inl rfl) hid
  | fail => exact h.advance fut hgood (Or.inr rfl) hid

/-- **Whole runs.**  As long as the task is not polled. -/
theorem Waiting.run (fut : Futures F W E) {past : List (Obs E)}
    {p : (Pc × State F W E) × (E → Bool)} (hgood : RunGood past p.1)
    (h : Waiting bound event id [] p.1.2 p.2) (inputs : List (SignalInput E))
    (hid : id ∉ polledIds ((signaledLoop fut).run p inputs).2) :
    Waiting bound event id ((signaledLoop fut).run p inputs).2
      ((signaledLoop fut).run p inputs).1.1.2 ((signaledLoop fut).run p inputs).1.2 := by
  have hrun := (signaledLoop fut).run_invariant (s := p) (I := fun tr q =>
    RunGood (past ++ tr) q.1 ∧ (id ∉ polledIds tr → Waiting bound event id tr q.1.2 q.2))
    (fun tr q i ih => ?_) ⟨by rwa [List.append_nil], fun _ => h⟩ inputs
  · exact hrun.2 hid
  · have hstep := signaledStep_good fut ih.1 i
    rw [List.append_assoc] at hstep
    refine ⟨hstep, fun hnew => ?_⟩
    rw [polledIds_append, List.mem_append, not_or] at hnew
    exact (ih.2 hnew.1).step fut ih.1 i hnew.2

/-- When more waits have returned than there were entries, the task has been polled. -/
theorem polled_of_okWaits (fut : Futures F W E) {past : List (Obs E)}
    {p : (Pc × State F W E) × (E → Bool)} (hgood : RunGood past p.1)
    (hmem : (event, id) ∈ p.1.2.eventRegistry) (hs : p.2 event = true)
    {inputs : List (SignalInput E)}
    (hwaits : p.1.2.eventRegistry.length < okWaits ((signaledLoop fut).run p inputs).2) :
    id ∈ polledIds ((signaledLoop fut).run p inputs).2 := by
  by_contra hid
  have hstart : Waiting (p.1.2.eventRegistry.idxOf (event, id)) event id [] p.1.2 p.2 :=
    ⟨hmem, le_refl _, Or.inl ⟨rfl, hs⟩⟩
  have h := hstart.run fut hgood inputs hid
  have hmeasure := h.measure
  have hindex := List.idxOf_lt_length_of_mem hmem
  rcases h.phase with ⟨hcount, _⟩ | ⟨hcount, _⟩ | ⟨hcount, _⟩
  · omega
  · omega
  · omega

/-- **Starvation freedom.**  In every run, from a state in which a task has a registered event
that is signalled: as long as the task is not polled its entry stays in the registry, each
successful wait together with the round after it decreases the number of entries in front, and so
at most that many waits and one more pass before the task is polled. -/
theorem event_wait_decreases (fut : Futures F W E) (w : W) (spawned : Spawned F)
    (signals : E → Bool) (before : List (SignalInput E)) :
    ∀ p tr, signaledRun fut w spawned signals before = (p, tr) →
      ∀ id event, (event, id) ∈ p.1.2.eventRegistry → p.2 event = true →
        ∀ inputs q obs, (signaledLoop fut).run p inputs = (q, obs) →
          id ∉ polledIds obs →
          (event, id) ∈ q.1.2.eventRegistry
            ∧ q.1.2.eventRegistry.idxOf (event, id) + completedWaits obs
                ≤ p.1.2.eventRegistry.idxOf (event, id)
            ∧ okWaits obs ≤ p.1.2.eventRegistry.idxOf (event, id) + 1 := by
  intro p tr hp id event hmem hs inputs q obs hq hid
  have hgood := signaledRun_good fut w spawned signals before
  rw [hp] at hgood
  have hstart : Waiting (p.1.2.eventRegistry.idxOf (event, id)) event id [] p.1.2 p.2 :=
    ⟨hmem, le_refl _, Or.inl ⟨rfl, hs⟩⟩
  have h : Waiting (p.1.2.eventRegistry.idxOf (event, id)) event id obs q.1.2 q.2 := by
    have h := hstart.run fut hgood inputs (by rwa [hq])
    rwa [hq] at h
  have hmeasure := h.measure
  refine ⟨h.mem, hmeasure, ?_⟩
  rcases h.phase with ⟨hcount, _⟩ | ⟨hcount, _⟩ | ⟨hcount, _⟩
  · omega
  · omega
  · omega

/-- Tasks each of which waits for an event of its own. -/
def ownEvents : Futures Unit Unit ℕ where
  poll id future w := ⟨future, w, [.register id], .pending⟩

/-- Two such tasks after their first round. -/
def ownEventsState : State Unit Unit ℕ :=
  { (State.new () : State Unit Unit ℕ) with
    tasks := (AList.singleton 0 ()).insert 1 ()
    eventRegistry := [(0, 0), (1, 1)]
    nextId := 2 }

theorem event_wait_decreases_second :
    ((signaledLoop ownEvents).run ((.waiting, ownEventsState), fun _ => true)
      [.advance, .advance]).1.1.2.eventRegistry.idxOf (1, 1) + 1 ≤ 1 := by
  have hrun : signaledRun ownEvents () ⟨[(), ()], by decide⟩ (fun _ => true) [.advance, .advance]
      = (((.waiting, ownEventsState), fun _ => true), [.spawned 0, .spawned 1, .roundBegin,
          .polled 0 [.register 0] .pending, .polled 1 [.register 1] .pending, .roundBegin]) := rfl
  have hobs : ((signaledLoop ownEvents).run ((.waiting, ownEventsState), fun _ => true)
      [.advance, .advance]).2
      = [.waited [0, 1] (some 0), .roundBegin, .polled 0 [.register 0] .pending] := rfl
  exact (event_wait_decreases ownEvents () ⟨[(), ()], by decide⟩ (fun _ => true)
    [.advance, .advance] _ _ hrun 1 1 (by decide) rfl
    [.advance, .advance] _ _ (Prod.ext rfl hobs) (by decide)).2.1

end WebUiBoot.Executor
