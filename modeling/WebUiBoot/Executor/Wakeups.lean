import WebUiBoot.Executor.Runs

/-!
# Wakes are answered, and finished tasks stay finished

* `no_lost_wakeup` — a task that is woken and does not finish is polled exactly once by the next
  round, and the loop never blocks in the firmware while a woken task waits;
* `wakeup_polled_twice` — once `NEXT_ID` has wrapped around, a live identifier can be queued twice;
* `no_poll_after_ready` — no task is polled after completion or twice in a round, and every task
  of a run list is found.
-/

namespace WebUiBoot.Executor

open WebUiBoot.PushNew WebUiBoot.Trace

variable {F W E : Type*} [DecidableEq E]

/-! ### Wakes -/

/-- A live task that was woken since the last round is polled exactly once by the next one. -/
theorem Good.polled_once {tr : List (Obs E)} {s : State F W E} (fut : Futures F W E)
    (h : Good tr s) {id : TaskId} (hlive : id ∈ s.tasks) (hwoken : WokenSinceRound tr id) :
    (polledIds (runOnce fut s).2.2).count id = 1 := by
  rw [(h.runOnce_polled fut).1]
  refine List.count_eq_one_of_mem (drainAwake_queueOk h.queue).nodup (mem_pushAll.mpr (Or.inr ?_))
  exact List.mem_filter.mpr ⟨h.inv.woken_round id hwoken, decide_eq_true hlive⟩

/-- **No lost wake-up.**  When a waker of an existing task is called and the task has not returned
`Ready` when the next round starts, that round polls it exactly once, as long as there were fewer
than `2 ^ 64` spawns.  And with any number of spawns: when `Executor::run`, entered at any time,
waits or stalls in the firmware, no live task has been woken and not polled since. -/
theorem no_lost_wakeup (fut : Futures F W E) (w : W) (ops : List (Op F E)) :
    (ops.countP Op.isSpawn < usizeCard →
      ∀ a o b id, ((operations fut).run (State.new w) ops).2 = a ++ o :: b →
        id ∈ o.wakes → .roundBegin ∉ b → .spawned id ∈ a →
        ¬ Finished ((operations fut).run (State.new w) ops).2 id →
        (polledIds (runOnce fut ((operations fut).run (State.new w) ops).1).2.2).count id = 1)
    ∧ ∀ inputs s tr answer,
        (runLoop fut).run (.loopHead, ((operations fut).run (State.new w) ops).1) inputs
          = ((.waiting, s), tr) →
        (waitForEvents s answer).2 ≠ [] →
        ∀ id ∈ s.tasks, ¬ WokenUnpolled (((operations fut).run (State.new w) ops).2 ++ tr) id := by
  constructor
  · intro hcard a o b id htr hwake hround hspawned hfin
    have hgood := operations_good fut w hcard
    refine hgood.polled_once fut (hgood.sound.kept id ?_ hfin) ?_
    · rw [htr]
      exact List.mem_append_left _ hspawned
    · exact ⟨a, o, b, htr, hwake, fun o' ho' heq => hround (heq ▸ ho')⟩
  · intro inputs s tr answer hrun hblocks id hid hwoken
    have hinv := runLoop_inv fut (operations_inv fut w ops) inputs
    rw [hrun] at hinv
    have hawake : s.awakeTasks = [] := by
      by_contra hne
      exact hblocks (by simp [waitForEvents, hne])
    rcases hinv.inv.woken id hid hwoken with hmem | hmem
    · exact List.not_mem_nil (hawake ▸ hmem)
    · exact List.not_mem_nil (hinv.idle rfl ▸ hmem)

/-- Two kinds of tasks: `false` registers the one event there is and stays pending, `true`
finishes at once. -/
def wrapFutures : Futures Bool Unit Unit where
  poll _ future w :=
    if future then ⟨future, w, [], .ready⟩ else ⟨future, w, [.register ()], .pending⟩

/-- Only the first task is there, and waits for the event. -/
def wrapState (n : ℕ) : State Bool Unit Unit :=
  { (State.new () : State Bool Unit Unit) with
    tasks := AList.singleton 0 false
    eventRegistry := [((), 0)]
    nextId := n }

theorem no_lost_wakeup_pending :
    (polledIds (runOnce wrapFutures ((operations wrapFutures).run (State.new ())
        [.spawn false, .runOnce, .wake 0, .wake 0]).1).2.2).count 0 = 1
      ∧ ¬ WokenUnpolled [.spawned 0, .roundBegin, .polled 0 [.register ()] .pending, .woken 0,
          .woken 0, .roundBegin, .polled 0 [.register ()] .pending, .roundBegin] 0 := by
  have hfin : ¬ Finished ([.spawned 0, .roundBegin, .polled 0 [.register ()] .pending, .woken 0,
      .woken 0] : List (Obs Unit)) 0 := by
    simp [Finished]
  have hrun : (runLoop wrapFutures).run (.loopHead, ((operations wrapFutures).run (State.new ())
      [.spawn false, .runOnce, .wake 0, .wake 0]).1) [.advance fun _ => none, .advance fun _ => none]
      = ((.waiting, wrapState 1),
          [.roundBegin, .polled 0 [.register ()] .pending, .roundBegin]) := rfl
  have h := no_lost_wakeup wrapFutures () [.spawn false, .runOnce, .wake 0, .wake 0]
  constructor
  · exact h.1 (by decide) [.spawned 0, .roundBegin, .polled 0 [.register ()] .pending] (.woken 0)
      [.woken 0] 0 rfl (by decide) (by decide) (by decide) hfin
  · exact h.2 _ _ _ (fun _ => some 0) hrun (by decide) 0 (by decide)

/-! #### Beyond the range of the identifiers -/

/-- One task stays; `2 ^ 64 - 1` tasks come and go; then the event of the first task is
signalled, one more task is spawned and gets the identifier `0` again, and `0` is woken. -/
def wrapOps : List (Op Bool Unit) :=
  [.spawn false, .runOnce] ++ (List.replicate (usizeCard - 1) [.spawn true, .runOnce]).flatten
    ++ [.waitForEvents fun _ => some 0, .spawn false, .wake 0]

theorem wrap_pair {n : ℕ} (hn : n ≠ 0) :
    (operations wrapFutures).run (wrapState n) [.spawn true, .runOnce]
      = (wrapState ((n + 1) % usizeCard), [.spawned n, .roundBegin, .polled n [] .ready]) := by
  have htasks : ((AList.singleton 0 false : AList fun _ : TaskId => Bool).insert n true).erase n
      = AList.singleton 0 false := by
    apply AList.ext
    show List.kerase n (List.kinsert n true [(⟨0, false⟩ : Sigma fun _ : TaskId => Bool)])
      = [⟨0, false⟩]
    simp [List.kinsert, List.kerase, hn]
  have hlookup : ((AList.singleton 0 false : AList fun _ : TaskId => Bool).insert n true).lookup n
      = some true := AList.lookup_insert _
  simp only [operations, Machine.run, spawn, runOnce_eq, drainAwake, roundStart, wrapState,
    State.new, List.filter_nil, pushAll_nil, List.nil_append, runList_cons]
  rw [pollTask_eq wrapFutures ⟨rfl, rfl⟩ hlookup]
  simp [wrapFutures, settled, htasks, entries, wakes, hn.symm]

/-- The tasks that come and go leave nothing but the counter behind, which ends at `0`. -/
theorem wrap_pairs (k : ℕ) : ∀ {n : ℕ}, n ≠ 0 → n + (k + 1) = usizeCard →
    ((operations wrapFutures).run (wrapState n)
        (List.replicate (k + 1) [.spawn true, .runOnce]).flatten).1 = wrapState 0
      ∧ ¬ Finished ((operations wrapFutures).run (wrapState n)
        (List.replicate (k + 1) [.spawn true, .runOnce]).flatten).2 0 := by
  induction k with
  | zero =>
      intro n hn hle
      have hfin : ¬ Finished ([.spawned n, .roundBegin, .polled n [] .ready] : List (Obs Unit)) 0 := by
        simp [Finished, hn.symm]
      rw [List.replicate_one, List.flatten_singleton, wrap_pair hn, hle, Nat.mod_self]
      exact ⟨rfl, hfin⟩
  | succ k ih =>
      intro n hn hle
      have hfin : ¬ Finished ([.spawned n, .roundBegin, .polled n [] .ready] : List (Obs Unit)) 0 := by
        simp [Finished, hn.symm]
      obtain ⟨hstate, hrest⟩ := ih (n := n + 1) (Nat.succ_ne_zero n) (by omega)
      rw [List.replicate_succ, List.flatten_cons, Machine.run_append, wrap_pair hn,
        Nat.mod_eq_of_lt (by omega)]
      exact ⟨hstate, fun h => (finished_append.mp h).elim hfin hrest⟩

/-- **After `2 ^ 64` spawns a woken task can be polled twice in the next round.**  The event of the
first task and the new task that got its identifier each queue it. -/
theorem wakeup_polled_twice :
    ∃ a o b, ((operations wrapFutures).run (State.new ()) wrapOps).2 = a ++ o :: b
      ∧ 0 ∈ o.wakes ∧ .roundBegin ∉ b ∧ .spawned 0 ∈ a
      ∧ ¬ Finished ((operations wrapFutures).run (State.new ()) wrapOps).2 0
      ∧ (polledIds (runOnce wrapFutures
          ((operations wrapFutures).run (State.new ()) wrapOps).1).2.2).count 0 = 2 := by
  have hfirst : (operations wrapFutures).run (State.new ()) [.spawn false, .runOnce]
      = (wrapState 1, [.spawned 0, .roundBegin, .polled 0 [.register ()] .pending]) := rfl
  obtain ⟨k, hk⟩ : ∃ k, usizeCard - 1 = k + 1 := ⟨2 ^ 64 - 2, rfl⟩
  obtain ⟨hstate, hfin⟩ := wrap_pairs k (n := 1) Nat.one_ne_zero (by rw [← hk]; rfl)
  have hlast : (operations wrapFutures).run (wrapState 0)
      [.waitForEvents fun _ => some 0, .spawn false, .wake 0]
      = ({ wrapState 0 with
            runQueue := [0, 0], awakeTasks := [0], nextId := 1 },
          [.waited [()] (some 0), .spawned 0, .woken 0]) := rfl
  rw [wrapOps, Machine.run_append, Machine.run_append, hfirst, hk, hstate, hlast]
  generalize ((operations wrapFutures).run (wrapState 1) _).2 = middle at hfin ⊢
  refine ⟨[.spawned 0, .roundBegin, .polled 0 [.register ()] .pending] ++ middle
      ++ [.waited [()] (some 0), .spawned 0], .woken 0, [], by simp, by simp [Obs.wakes],
    by simp, by simp, ?_, rfl⟩
  simp only [finished_append, not_or]
  exact ⟨⟨by simp [Finished], hfin⟩, by simp [Finished]⟩

/-! ### Finished tasks -/

/-- **No poll after completion.**  Below `2 ^ 64` spawns, whatever the futures do and in whatever
order tasks are woken and events are signalled: a task whose poll has returned `Ready` is never
polled again, each round polls each task at most once, and every task of a run list is found. -/
theorem no_poll_after_ready (fut : Futures F W E) (w : W) (ops : List (Op F E))
    (hcard : ops.countP Op.isSpawn < usizeCard) :
    (∀ a id actions b, ((operations fut).run (State.new w) ops).2
        = a ++ .polled id actions .ready :: b → id ∉ polledIds b)
    ∧ (∀ before after, ops = before ++ .runOnce :: after →
        (polledIds (runOnce fut ((operations fut).run (State.new w) before).1).2.2).Nodup)
    ∧ ∀ id, .missing id ∉ ((operations fut).run (State.new w) ops).2 := by
  have hgood := operations_good fut w hcard
  refine ⟨?_, ?_, hgood.found⟩
  · intro a id actions b htr hmem
    obtain ⟨actions', result, hmem⟩ := mem_polledIds.mp hmem
    obtain ⟨b₁, b₂, rfl⟩ := List.append_of_mem hmem
    refine hgood.sound.once (a ++ .polled id actions .ready :: b₁) (.polled id actions' result) b₂
      (by simp [htr]) id rfl ?_
    exact ⟨actions, by simp⟩
  · intro before after hops
    have hbefore : before.countP Op.isSpawn < usizeCard := by
      rw [hops, List.countP_append] at hcard
      omega
    have h := operations_good fut w hbefore
    rw [(h.runOnce_polled fut).1]
    exact (drainAwake_queueOk h.queue).nodup

theorem no_poll_after_ready_stale :
    0 ∉ polledIds ([.woken 0, .roundBegin] : List (Obs Unit)) :=
  (no_poll_after_ready wrapFutures () [.spawn true, .runOnce, .wake 0, .runOnce] (by decide)).1
    [.spawned 0, .roundBegin] 0 [] [.woken 0, .roundBegin] rfl

end WebUiBoot.Executor
