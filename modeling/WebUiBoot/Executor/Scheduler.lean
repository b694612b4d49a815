import Mathlib.Data.Set.Insert
import WebUiBoot.Executor.Delivery
import WebUiBoot.Lib.Transition

/-!
# What the executor is for

A scheduler in which nothing but sets is left of the queues and registries: the tasks that are live,
those that the round is still to poll, those that the next round is to poll, and the events in which
each task is interested.

* `Scheduler`, `scheduler` — the states, and what may happen;
* `Reason` — why a round polls a task: since the round before, the task was spawned or woken, or an
  event that it waits for was returned;
* `Explained` — what a trace says of the state that it leads to;
* `scheduler_rounds` — a round polls the live tasks that there is a reason to poll, each once, and
  no other task.
-/

namespace WebUiBoot.Executor

open WebUiBoot.Trace WebUiBoot.Transition

variable {E : Type*}

/-! ### The scheduler -/

structure Scheduler (E : Type*) where
  /-- The identifiers that have been given to tasks. -/
  used : Set TaskId
  live : Set TaskId
  /-- The tasks that the round is still to poll. -/
  due : Set TaskId
  /-- The tasks that the next round is to poll, if they are live then. -/
  next : Set TaskId
  interest : TaskId → Set E

namespace Scheduler

def empty : Scheduler E := ⟨∅, ∅, ∅, ∅, fun _ => ∅⟩

/-- No task is to be polled. -/
def Idle (t : Scheduler E) : Prop := t.due = ∅ ∧ ∀ id ∈ t.next, id ∉ t.live

def spawn (t : Scheduler E) (id : TaskId) : Scheduler E :=
  { t with used := insert id t.used, live := insert id t.live, next := insert id t.next }

def wake (t : Scheduler E) (id : TaskId) : Scheduler E := { t with next := insert id t.next }

def round (t : Scheduler E) : Scheduler E := { t with due := t.next ∩ t.live, next := ∅ }

/-- The interests that a poll leaves behind. -/
def interests (actions : List (Action E)) : Poll → Set E
  | .pending => {e | e ∈ registrations actions}
  | .ready => ∅

def poll (t : Scheduler E) (id : TaskId) (actions : List (Action E)) (result : Poll) :
    Scheduler E :=
  { t with
    live := {id' ∈ t.live | result = .ready → id' ≠ id}
    due := t.due \ {id}
    next := t.next ∪ {id' | id' ∈ wakes actions}
    interest := Function.update t.interest id (interests actions result) }

/-- The tasks that are interested in an event are to be polled. -/
def signal (t : Scheduler E) (event : Option E) : Scheduler E :=
  { t with next := t.next ∪ {id | ∃ e ∈ t.interest id, event = some e} }

end Scheduler

/-- What may happen. -/
inductive SchedulerStep : Scheduler E → List (Obs E) → Scheduler E → Prop
  | spawn (t : Scheduler E) (id : TaskId) (hnew : id ∉ t.used) (hrest : t.due = ∅) :
      SchedulerStep t [.spawned id] (t.spawn id)
  | wake (t : Scheduler E) (id : TaskId) : SchedulerStep t [.woken id] (t.wake id)
  | round (t : Scheduler E) (hrest : t.due = ∅) : SchedulerStep t [.roundBegin] t.round
  | poll (t : Scheduler E) (id : TaskId) (actions : List (Action E)) (result : Poll)
      (hdue : id ∈ t.due) : SchedulerStep t [.polled id actions result] (t.poll id actions result)
  | stall (t : Scheduler E) (hidle : t.Idle) (hlive : t.live.Nonempty)
      (hnone : ∀ id ∈ t.live, t.interest id = ∅) : SchedulerStep t [.stalled] t
  | wait (t : Scheduler E) (hidle : t.Idle) (events : List E) (answer : Option ℕ)
      (hnodup : events.Nodup) (hevents : ∀ e, e ∈ events ↔ ∃ id ∈ t.live, e ∈ t.interest id) :
      SchedulerStep t [.waited events answer] (t.signal (Obs.waited events answer).delivered)

def scheduler : System (Scheduler E) (Obs E) := ⟨SchedulerStep⟩

/-! ### Why a task is polled -/

/-- An event was returned since the last round began. -/
def DeliveredSinceRound (tr : List (Obs E)) (event : E) : Prop :=
  Since (fun o => o.delivered = some event) (· = .roundBegin) tr

/-- A reason to poll a task in the next round. -/
def Reason (tr : List (Obs E)) (id : TaskId) : Prop :=
  Since (· = .spawned id) (· = .roundBegin) tr ∨ WokenSinceRound tr id
    ∨ ∃ event, RegisteredInLatestPoll tr id event ∧ DeliveredSinceRound tr event

/-- The task was spawned, is not finished, and there is a reason to poll it. -/
def Called (tr : List (Obs E)) (id : TaskId) : Prop :=
  .spawned id ∈ tr ∧ ¬ Finished tr id ∧ Reason tr id

/-- The observation ends a round: the next one begins, or the firmware is called. -/
def Obs.endsRound : Obs E → Bool
  | .roundBegin | .waited _ _ | .stalled => true
  | _ => false

/-- **What a round is to do.**  Where a round has come to its end, it has polled each task that was
called before it once, and no other. -/
def RoundComplete (past : List (Obs E)) (o : Obs E) : Prop :=
  o.endsRound = true → ∀ before polls, past = before ++ .roundBegin :: polls →
    .roundBegin ∉ polls → (polledIds polls).Nodup ∧ ∀ id, id ∈ polledIds polls ↔ Called before id

/-- The round that is going on, from the trace. -/
inductive RoundGoing (t : Scheduler E) : List (Obs E) → Prop
  | before {tr : List (Obs E)} (hround : .roundBegin ∉ tr) (hdue : t.due = ∅) : RoundGoing t tr
  | going {before polls : List (Obs E)} (hround : .roundBegin ∉ polls)
      (hnodup : (polledIds polls).Nodup) (hleft : ∀ id ∈ t.due, id ∉ polledIds polls)
      (hcalled : ∀ id, id ∈ t.due ∨ id ∈ polledIds polls ↔ Called before id) :
      RoundGoing t (before ++ .roundBegin :: polls)

/-- What a trace says of the state that it leads to. -/
structure Explained (tr : List (Obs E)) (t : Scheduler E) : Prop where
  used : ∀ id, id ∈ t.used ↔ .spawned id ∈ tr
  polled_used : ∀ id ∈ polledIds tr, id ∈ t.used
  live : ∀ id, id ∈ t.live ↔ .spawned id ∈ tr ∧ ¬ Finished tr id
  due_live : t.due ⊆ t.live
  unused : ∀ id, id ∉ t.used → t.interest id = ∅
  interest : ∀ id ∈ t.live, ∀ e, e ∈ t.interest id ↔ RegisteredInLatestPoll tr id e
  next : ∀ id ∈ t.live, id ∈ t.next ↔ Reason tr id
  /-- While a round is going on, no event is returned. -/
  quiet : t.due.Nonempty → ∀ event, ¬ DeliveredSinceRound tr event
  round : RoundGoing t tr
  complete : Always RoundComplete tr

/-! ### One more observation -/

variable {tr : List (Obs E)} {o : Obs E} {t : Scheduler E} {id : TaskId}

theorem registeredInLatestPoll_snoc (hpoll : o.polledId = none) (event : E) :
    RegisteredInLatestPoll (tr ++ [o]) id event ↔ RegisteredInLatestPoll tr id event := by
  have hnot : ¬ Obs.Registers id event o := by
    intro h
    cases o with
    | polled id' actions result => cases hpoll
    | _ => exact h
  rw [RegisteredInLatestPoll, since_append_singleton, or_iff_right hnot, hpoll]
  exact and_iff_left (Option.some_ne_none id).symm

theorem deliveredSinceRound_snoc (hround : o ≠ .roundBegin) (event : E) :
    DeliveredSinceRound (tr ++ [o]) event
      ↔ o.delivered = some event ∨ DeliveredSinceRound tr event := by
  rw [DeliveredSinceRound, since_append_singleton, and_iff_left hround]
  exact Iff.rfl

/-- When a round begins, every reason is used up. -/
theorem not_reason_round : ¬ Reason (tr ++ [.roundBegin]) id := by
  unfold Reason WokenSinceRound DeliveredSinceRound
  simp [since_append_singleton, Obs.wakes, Obs.delivered]

/-- Reasons behind an observation that is no poll. -/
theorem reason_snoc (hround : o ≠ .roundBegin) (hpoll : o.polledId = none) :
    Reason (tr ++ [o]) id ↔ Reason tr id ∨ o = .spawned id ∨ id ∈ o.wakes
      ∨ ∃ event, RegisteredInLatestPoll tr id event ∧ o.delivered = some event := by
  unfold Reason WokenSinceRound
  rw [since_append_singleton, since_append_singleton, and_iff_left hround, and_iff_left hround]
  simp only [registeredInLatestPoll_snoc hpoll, deliveredSinceRound_snoc hround, and_or_left,
    exists_or]
  grind

/-- Reasons behind a poll, while no event has been returned. -/
theorem reason_snoc_polled {id' : TaskId} {actions : List (Action E)} {result : Poll}
    (hquiet : ∀ event, ¬ DeliveredSinceRound tr event) :
    Reason (tr ++ [.polled id' actions result]) id ↔ Reason tr id ∨ id ∈ wakes actions := by
  have hquiet' : ∀ event, ¬ DeliveredSinceRound (tr ++ [.polled id' actions result]) event := by
    intro event
    have hround : Obs.polled id' actions result ≠ .roundBegin := nofun
    rw [deliveredSinceRound_snoc hround]
    exact fun h => h.elim nofun (hquiet event)
  unfold Reason WokenSinceRound
  rw [since_append_singleton, since_append_singleton, and_iff_left nofun, and_iff_left nofun]
  have hnone : ¬ ∃ event, RegisteredInLatestPoll tr id event ∧ DeliveredSinceRound tr event :=
    fun ⟨event, _, h⟩ => hquiet event h
  have hnone' : ¬ ∃ event, RegisteredInLatestPoll (tr ++ [.polled id' actions result]) id event
      ∧ DeliveredSinceRound (tr ++ [.polled id' actions result]) event :=
    fun ⟨event, _, h⟩ => hquiet' event h
  have hspawn : ¬ Obs.polled id' actions result = .spawned id := nofun
  rw [or_iff_left hnone, or_iff_left hnone', or_iff_right hspawn, or_assoc]
  exact or_congr_right or_comm

/-- A round goes on through an observation that polls nothing. -/
theorem RoundGoing.snoc (h : RoundGoing t tr) {t' : Scheduler E} (hdue : t'.due = t.due)
    (hround : o ≠ .roundBegin) (hpoll : o.polledId = none) : RoundGoing t' (tr ++ [o]) := by
  have hbegin : ∀ {polls : List (Obs E)}, .roundBegin ∉ polls → .roundBegin ∉ polls ++ [o] := by
    intro polls hnot hmem
    rcases List.mem_append.mp hmem with hmem | hmem
    · exact hnot hmem
    · exact hround (List.mem_singleton.mp hmem).symm
  cases h with
  | before hnot hnone => exact .before (hbegin hnot) (hdue.trans hnone)
  | going hnot hnodup hleft hcalled =>
      rename_i before polls
      have hids : polledIds (polls ++ [o]) = polledIds polls := by
        rw [polledIds_append]
        simp [polledIds, hpoll]
      rw [List.append_assoc, List.cons_append]
      refine .going (hbegin hnot) ?_ ?_ ?_
      · rw [hids]
        exact hnodup
      · rw [hids, hdue]
        exact hleft
      · rw [hids, hdue]
        exact hcalled

/-- A round that has nothing left to poll is complete. -/
theorem RoundGoing.complete (h : RoundGoing t tr) (hrest : t.due = ∅) : RoundComplete tr o := by
  intro _ before polls htr hnot
  cases h with
  | before hnone _ =>
      rw [htr] at hnone
      exact absurd (List.mem_append_right before List.mem_cons_self) hnone
  | going hnot' hnodup _ hcalled =>
      obtain ⟨rfl, rfl⟩ := append_cons_inj_last hnot' hnot htr
      refine ⟨hnodup, fun id => ?_⟩
      rw [← hcalled id, hrest]
      exact (or_iff_right (Set.notMem_empty id)).symm

/-! ### One step -/

theorem explained_empty : Explained ([] : List (Obs E)) .empty where
  used _ := iff_of_false (Set.notMem_empty _) List.not_mem_nil
  polled_used _ h := absurd h List.not_mem_nil
  live _ := iff_of_false (Set.notMem_empty _) fun h => List.not_mem_nil h.1
  due_live := Set.empty_subset _
  unused _ _ := rfl
  interest _ h := absurd h (Set.notMem_empty _)
  next _ h := absurd h (Set.notMem_empty _)
  quiet h := absurd h Set.not_nonempty_empty
  round := .before List.not_mem_nil rfl
  complete := always_nil

theorem finished_snoc (hpoll : o.polledId = none) :
    Finished (tr ++ [o]) id ↔ Finished tr id := by
  rw [finished_append]
  exact or_iff_left (not_finished_singleton hpoll id)

theorem polledIds_snoc (hpoll : o.polledId = none) : polledIds (tr ++ [o]) = polledIds tr := by
  rw [polledIds_append]
  simp [polledIds, hpoll]

/-- A wake or a call of the firmware: what it adds to the next round is what there is a new reason
for. -/
theorem Explained.other (h : Explained tr t) {next : Set TaskId} (hround : o ≠ .roundBegin)
    (hpoll : o.polledId = none) (hspawn : o.isSpawn = false)
    (hrest : o.endsRound = true → t.due = ∅) (hdelivered : t.due.Nonempty → o.delivered = none)
    (hnext : ∀ id ∈ t.live, id ∈ next ↔ id ∈ t.next ∨ id ∈ o.wakes
      ∨ ∃ event ∈ t.interest id, o.delivered = some event) :
    Explained (tr ++ [o]) { t with next := next } := by
  have hnot : ∀ id, ¬ o = .spawned id := by
    intro id heq
    rw [heq] at hspawn
    cases hspawn
  have hspawned : ∀ id, .spawned id ∈ tr ++ [o] ↔ .spawned id ∈ tr := by
    intro id
    rw [List.mem_append, List.mem_singleton]
    exact or_iff_left fun heq => hnot id heq.symm
  refine ⟨fun id => ?_, ?_, fun id => ?_, h.due_live, h.unused, fun id hid event => ?_,
    fun id hid => ?_, fun hdue event => ?_, ?_, ?_⟩
  · rw [hspawned]
    exact h.used id
  · rw [polledIds_snoc hpoll]
    exact h.polled_used
  · rw [hspawned, finished_snoc hpoll]
    exact h.live id
  · rw [registeredInLatestPoll_snoc hpoll]
    exact h.interest id hid event
  · rw [reason_snoc hround hpoll, ← h.next id hid, or_iff_right (hnot id)]
    simp only [← h.interest id hid]
    exact hnext id hid
  · rw [deliveredSinceRound_snoc hround, hdelivered hdue]
    exact fun hevent => hevent.elim nofun (h.quiet hdue event)
  · exact h.round.snoc rfl hround hpoll
  · exact always_append_singleton.mpr ⟨h.complete, fun hends =>
      h.round.complete (hrest hends) hends⟩

theorem Explained.spawn (h : Explained tr t) (hnew : id ∉ t.used) (hrest : t.due = ∅) :
    Explained (tr ++ [.spawned id]) (t.spawn id) := by
  have hround : Obs.spawned id ≠ (.roundBegin : Obs E) := nofun
  have hunpolled : id ∉ polledIds tr := fun hmem => hnew (h.polled_used id hmem)
  have hspawned : ∀ id', .spawned id' ∈ tr ++ [.spawned id] ↔ id' = id ∨ .spawned id' ∈ tr := by
    intro id'
    rw [List.mem_append, List.mem_singleton, Obs.spawned.injEq]
    exact or_comm
  have hunregistered : ∀ event, ¬ RegisteredInLatestPoll tr id event := by
    rintro event ⟨past, o, rest, rfl, hregisters, _⟩
    cases o with
    | polled id' actions result =>
        exact hunpolled (mem_polledIds.mpr ⟨actions, result, by simp [hregisters.1]⟩)
    | _ => exact hregisters
  have hunfinished : ¬ Finished tr id := fun ⟨actions, hmem⟩ =>
    hunpolled (mem_polledIds.mpr ⟨actions, .ready, hmem⟩)
  refine ⟨fun id' => ?_, ?_, fun id' => ?_, ?_, fun id' hid => ?_, fun id' hid event => ?_,
    fun id' hid => ?_, ?_, h.round.snoc rfl hround rfl,
    always_append_singleton.mpr ⟨h.complete, nofun⟩⟩
  · rw [hspawned, ← h.used]
    exact Iff.rfl
  · rw [polledIds_snoc rfl]
    exact fun id' hid => Or.inr (h.polled_used id' hid)
  · rw [hspawned, finished_snoc rfl]
    show id' = id ∨ id' ∈ t.live ↔ _
    rw [h.live id', or_and_right]
    exact or_congr_left (and_iff_left_of_imp fun heq => heq ▸ hunfinished).symm
  · exact fun id' hid => Or.inr (h.due_live hid)
  · exact h.unused id' fun hused => hid (Or.inr hused)
  · rw [registeredInLatestPoll_snoc rfl]
    rcases hid with rfl | hid
    · show event ∈ t.interest id' ↔ _
      rw [h.unused id' hnew]
      exact iff_of_false (Set.notMem_empty event) (hunregistered event)
    · exact h.interest id' hid event
  · rw [reason_snoc hround rfl]
    show id' = id ∨ id' ∈ t.next ↔ _
    by_cases heq : id' = id
    · exact iff_of_true (Or.inl heq) (Or.inr (Or.inl (by rw [heq])))
    · have hlive : id' ∈ t.live := hid.resolve_left heq
      have hnone : ¬ (Obs.spawned id = (.spawned id' : Obs E) ∨ id' ∈ (Obs.spawned id : Obs E).wakes
          ∨ ∃ event, RegisteredInLatestPoll tr id' event
            ∧ (Obs.spawned id : Obs E).delivered = some event) := by
        rintro (hsame | hwoken | ⟨_, _, hdelivered⟩)
        · exact heq (Obs.spawned.inj hsame).symm
        · exact List.not_mem_nil hwoken
        · cases hdelivered
      rw [or_iff_right heq, or_iff_left hnone]
      exact h.next id' hlive
  · intro hdue
    rw [show (t.spawn id).due = ∅ from hrest] at hdue
    exact absurd hdue Set.not_nonempty_empty

theorem Explained.beginRound (h : Explained tr t) (hrest : t.due = ∅) :
    Explained (tr ++ [.roundBegin]) t.round := by
  have hspawned : ∀ id, .spawned id ∈ tr ++ [.roundBegin] ↔ .spawned id ∈ tr := by
    intro id
    rw [List.mem_append, List.mem_singleton]
    exact or_iff_left nofun
  have hcalled : ∀ id, id ∈ t.next ∩ t.live ↔ Called tr id := by
    intro id
    show id ∈ t.next ∧ id ∈ t.live ↔ _
    constructor
    · intro ⟨hnext, hlive⟩
      have hspawn := (h.live id).mp hlive
      exact ⟨hspawn.1, hspawn.2, (h.next id hlive).mp hnext⟩
    · intro ⟨hspawn, hunfinished, hreason⟩
      have hlive := (h.live id).mpr ⟨hspawn, hunfinished⟩
      exact ⟨(h.next id hlive).mpr hreason, hlive⟩
  refine ⟨fun id => ?_, ?_, fun id => ?_, Set.inter_subset_right, h.unused,
    fun id hid event => ?_, fun id _ => ?_, ?_, ?_, ?_⟩
  · rw [hspawned]
    exact h.used id
  · rw [polledIds_snoc rfl]
    exact h.polled_used
  · rw [hspawned, finished_snoc rfl]
    exact h.live id
  · rw [registeredInLatestPoll_snoc rfl]
    exact h.interest id hid event
  · exact iff_of_false (Set.notMem_empty id) not_reason_round
  · intro _ event
    rw [DeliveredSinceRound, since_append_singleton]
    simp [Obs.delivered]
  · refine .going List.not_mem_nil List.nodup_nil (fun _ _ => List.not_mem_nil) fun id => ?_
    rw [← hcalled id]
    exact or_iff_left List.not_mem_nil
  · exact always_append_singleton.mpr ⟨h.complete, h.round.complete hrest⟩

theorem Explained.poll (h : Explained tr t) (hdue : id ∈ t.due) (actions : List (Action E))
    (result : Poll) : Explained (tr ++ [.polled id actions result]) (t.poll id actions result) := by
  have hround : Obs.polled id actions result ≠ .roundBegin := by simp
  have hlive : id ∈ t.live := h.due_live hdue
  have hquiet := h.quiet ⟨id, hdue⟩
  have hspawned : ∀ id', .spawned id' ∈ tr ++ [.polled id actions result] ↔ .spawned id' ∈ tr := by
    intro id'
    rw [List.mem_append, List.mem_singleton]
    exact or_iff_left (by simp)
  have hpolled : polledIds (tr ++ [.polled id actions result]) = polledIds tr ++ [id] :=
    polledIds_append _ _
  refine ⟨fun id' => ?_, fun id' hid => ?_, fun id' => ?_, ?_, fun id' hid => ?_,
    fun id' hid event => ?_, fun id' hid => ?_, fun _ event => ?_, ?_, ?_⟩
  · rw [hspawned]
    exact h.used id'
  · rw [hpolled, List.mem_append, List.mem_singleton] at hid
    rcases hid with hid | rfl
    · exact h.polled_used id' hid
    · exact (h.used id').mpr ((h.live id').mp hlive).1
  · have hfinished : Finished [Obs.polled id actions result] id' ↔ result = .ready ∧ id' = id := by
      simp only [Finished, List.mem_singleton, Obs.polled.injEq]
      constructor
      · rintro ⟨actions', rfl, rfl, rfl⟩
        exact ⟨rfl, rfl⟩
      · rintro ⟨rfl, rfl⟩
        exact ⟨actions, rfl, rfl, rfl⟩
    rw [hspawned, finished_append, hfinished, not_or, ← and_assoc, ← h.live id']
    exact and_congr_right fun _ => (not_and (b := id' = id)).symm
  · exact fun id' hid => ⟨h.due_live hid.1, fun _ => hid.2⟩
  · have hne : id' ≠ id := by
      rintro rfl
      exact hid ((h.used id').mpr ((h.live id').mp hlive).1)
    show Function.update t.interest id _ id' = ∅
    rw [Function.update_of_ne hne]
    exact h.unused id' hid
  · rw [RegisteredInLatestPoll, since_append_singleton]
    show event ∈ Function.update t.interest id _ id' ↔ _
    by_cases heq : id' = id
    · have hpending : result = .pending := by
        cases result with
        | pending => rfl
        | ready => exact absurd heq (hid.2 rfl)
      subst heq
      rw [Function.update_self, hpending]
      constructor
      · exact fun hmem => Or.inl ⟨rfl, hmem⟩
      · rintro (hnew | ⟨_, hne⟩)
        · exact hnew.2
        · exact absurd rfl hne
    · rw [Function.update_of_ne heq, h.interest id' hid.1 event]
      constructor
      · exact fun hreg => Or.inr ⟨hreg, fun hsame => heq (Option.some.inj hsame).symm⟩
      · rintro (hnew | hold)
        · exact absurd hnew.1.symm heq
        · exact hold.1
  · rw [reason_snoc_polled hquiet, ← h.next id' hid.1]
    exact Iff.rfl
  · rw [deliveredSinceRound_snoc hround]
    exact fun hevent => hevent.elim (Option.some_ne_none event).symm (hquiet event)
  · cases h.round with
    | before hnot hnone =>
        rw [hnone] at hdue
        exact absurd hdue (Set.notMem_empty id)
    | going hnot hnodup hleft hcalled =>
        rename_i before polls
        have hids : polledIds (polls ++ [.polled id actions result]) = polledIds polls ++ [id] :=
          polledIds_append _ _
        rw [List.append_assoc, List.cons_append]
        refine .going ?_ ?_ (fun id' hid => ?_) fun id' => ?_
        · rw [List.mem_append, List.mem_singleton, not_or]
          exact ⟨hnot, hround.symm⟩
        · rw [hids]
          exact List.nodup_append_comm.mp (List.nodup_cons.mpr ⟨hleft id hdue, hnodup⟩)
        · rw [hids, List.mem_append, List.mem_singleton, not_or]
          exact ⟨hleft id' hid.1, hid.2⟩
        · rw [hids, List.mem_append, List.mem_singleton, ← hcalled id']
          show (id' ∈ t.due ∧ id' ≠ id) ∨ _ ↔ _
          by_cases heq : id' = id
          · exact iff_of_true (Or.inr (Or.inr heq)) (Or.inl (heq ▸ hdue))
          · rw [or_iff_left heq, and_iff_left heq]
  · exact always_append_singleton.mpr ⟨h.complete, fun hends => by cases hends⟩

/-- **One step.** -/
theorem Explained.step (h : Explained tr t) {os : List (Obs E)} {t' : Scheduler E}
    (hstep : scheduler.step t os t') : Explained (tr ++ os) t' := by
  cases hstep with
  | spawn id hnew hrest => exact h.spawn hnew hrest
  | wake id =>
      refine h.other (o := .woken id) nofun rfl rfl nofun (fun _ => rfl) fun id' _ => ?_
      show id' = id ∨ id' ∈ t.next ↔ _
      simp [Obs.wakes, Obs.delivered, or_comm]
  | round hrest => exact h.beginRound hrest
  | poll id actions result hdue => exact h.poll hdue actions result
  | stall hidle hlive hnone =>
      refine h.other (o := .stalled) nofun rfl rfl (fun _ => hidle.1) (fun _ => rfl) fun id _ => ?_
      simp [Obs.wakes, Obs.delivered]
  | wait hidle events answer hnodup hevents =>
      refine h.other (o := .waited events answer) nofun rfl rfl (fun _ => hidle.1) (fun hdue => ?_)
        fun id _ => ?_
      · rw [hidle.1] at hdue
        exact absurd hdue Set.not_nonempty_empty
      · show id ∈ t.next ∨ (∃ e ∈ t.interest id, _) ↔ _
        simp [Obs.wakes]

/-- **Rounds.**  In every execution of the scheduler a round polls the live tasks that there is a
reason to poll, each once, and no other, before the next round begins and before the firmware is
asked to wait. -/
theorem scheduler_rounds {t : Scheduler E} (h : scheduler.Exec .empty tr t) :
    Always RoundComplete tr := by
  have hrun := h.invariant (I := Explained) (fun _ _ _ _ hI hs => hI.step hs) explained_empty
  exact hrun.complete

end WebUiBoot.Executor
