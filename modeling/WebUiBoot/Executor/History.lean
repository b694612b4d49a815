import Mathlib.Data.List.Induction
import WebUiBoot.Executor.Model

/-!
# What a trace of the executor says

The properties of the executor are properties of its traces: which task was woken and not
polled since, which events a task registered during its most recent poll.  This file names these
notions, independently of the executor's own bookkeeping.

* `WokenUnpolled` / `WokenSinceRound` — pending wakes, as past-time properties;
* `RegisteredInLatestPoll` — the registrations that count;
* `latestRegistrations` — all of them, in the order in which they were made;
* `latestRegistrations_snoc` — how one more observation changes the list, and
  `mem_latestRegistrations_iff` — its members.
-/

namespace WebUiBoot.Executor

open WebUiBoot.PushNew WebUiBoot.Trace

variable {E : Type*}

/-! ### What one observation says -/

/-- The tasks woken by the calls of a poll. -/
def wakes (actions : List (Action E)) : List TaskId :=
  actions.filterMap fun
    | .wake id => some id
    | .register _ => none

/-- The events registered by the calls of a poll. -/
def registrations (actions : List (Action E)) : List E :=
  actions.filterMap fun
    | .wake _ => none
    | .register event => some event

namespace Obs

/-- The tasks whose waker is called, outside of polls or during one. -/
def wakes : Obs E → List TaskId
  | .woken id => [id]
  | .polled _ actions _ => Executor.wakes actions
  | _ => []

def polledId : Obs E → Option TaskId
  | .polled id _ _ => some id
  | _ => none

/-- The observation is a poll of `id` in which `event` is registered. -/
def Registers (id : TaskId) (event : E) : Obs E → Prop
  | .polled id' actions _ => id' = id ∧ event ∈ registrations actions
  | _ => False

/-- The event with which a wait returns. -/
def delivered : Obs E → Option E
  | .waited events (some index) => events[index]?
  | _ => none

def isSpawn : Obs E → Bool
  | .spawned _ => true
  | _ => false

end Obs

/-- The tasks polled in a trace, in order. -/
def polledIds (tr : List (Obs E)) : List TaskId := tr.filterMap Obs.polledId

def spawnCount (tr : List (Obs E)) : ℕ := tr.countP Obs.isSpawn

@[simp] theorem polledIds_nil : polledIds ([] : List (Obs E)) = [] := rfl

theorem polledIds_append (tr tr' : List (Obs E)) :
    polledIds (tr ++ tr') = polledIds tr ++ polledIds tr' := List.filterMap_append

theorem mem_polledIds {tr : List (Obs E)} {id : TaskId} :
    id ∈ polledIds tr ↔ ∃ actions result, .polled id actions result ∈ tr := by
  unfold polledIds
  rw [List.mem_filterMap]
  constructor
  · rintro ⟨o, ho, h⟩
    cases o with
    | polled id' actions result =>
        obtain rfl : id' = id := by simpa [Obs.polledId] using h
        exact ⟨actions, result, ho⟩
    | _ => simp [Obs.polledId] at h
  · rintro ⟨actions, result, h⟩
    exact ⟨_, h, rfl⟩

theorem spawnCount_append (tr tr' : List (Obs E)) :
    spawnCount (tr ++ tr') = spawnCount tr + spawnCount tr' := List.countP_append

/-! ### What a trace says -/

/-- A waker of the task has been called, and the task has not been polled since. -/
def WokenUnpolled (tr : List (Obs E)) (id : TaskId) : Prop :=
  Since (fun o => id ∈ o.wakes) (fun o => o.polledId = some id) tr

/-- A waker of the task has been called since `run_once` was last entered. -/
def WokenSinceRound (tr : List (Obs E)) (id : TaskId) : Prop :=
  Since (fun o => id ∈ o.wakes) (· = .roundBegin) tr

/-- The task registered the event during its most recent poll. -/
def RegisteredInLatestPoll (tr : List (Obs E)) (id : TaskId) (event : E) : Prop :=
  Since (Obs.Registers id event) (fun o => o.polledId = some id) tr

/-- Some poll of the task has returned `Ready`. -/
def Finished (tr : List (Obs E)) (id : TaskId) : Prop :=
  ∃ actions, Obs.polled id actions .ready ∈ tr

theorem finished_append {tr tr' : List (Obs E)} {id : TaskId} :
    Finished (tr ++ tr') id ↔ Finished tr id ∨ Finished tr' id := by
  simp only [Finished, List.mem_append, exists_or]

variable [DecidableEq E]

/-- The registry entries that a poll leaves behind: each registered event once, in the order of
the first registrations, unless the task is finished. -/
def entries (id : TaskId) (actions : List (Action E)) : Poll → List (E × TaskId)
  | .pending => (pushAll [] (registrations actions)).map (·, id)
  | .ready => []

/-- The registrations made during the most recent polls of the tasks, in the order in which
they were made. -/
def latestRegistrations : List (Obs E) → List (E × TaskId)
  | [] => []
  | .polled id actions result :: tr =>
      (if id ∈ polledIds tr then [] else entries id actions result) ++ latestRegistrations tr
  | _ :: tr => latestRegistrations tr

theorem mem_entries {id : TaskId} {actions : List (Action E)} {result : Poll}
    {p : E × TaskId} :
    p ∈ entries id actions result ↔
      result = .pending ∧ p.1 ∈ registrations actions ∧ p.2 = id := by
  obtain ⟨e, id'⟩ := p
  cases result <;> simp [entries, mem_pushAll, eq_comm]

theorem entries_nodup (id : TaskId) (actions : List (Action E)) (result : Poll) :
    (entries id actions result).Nodup := by
  cases result with
  | pending =>
      exact (pushAll_nodup List.nodup_nil _).map fun _ _ h => (Prod.mk.inj h).1
  | ready => exact List.nodup_nil

/-- Every entry comes from a poll. -/
theorem mem_polledIds_of_mem_latestRegistrations {tr : List (Obs E)} {p : E × TaskId}
    (h : p ∈ latestRegistrations tr) : p.2 ∈ polledIds tr := by
  induction tr with
  | nil => simp [latestRegistrations] at h
  | cons o tr ih =>
      cases o with
      | polled id actions result =>
          show p.2 ∈ id :: polledIds tr
          rw [latestRegistrations, List.mem_append] at h
          rcases h with h | h
          · split at h
            · simp at h
            · rw [(mem_entries.mp h).2.2]
              exact List.mem_cons_self
          · exact List.mem_cons_of_mem _ (ih h)
      | _ => exact ih h

/-- **One more poll.**  The earlier entries of the polled task go, and its new ones come last. -/
theorem latestRegistrations_snoc_polled (tr : List (Obs E)) (id : TaskId)
    (actions : List (Action E)) (result : Poll) :
    latestRegistrations (tr ++ [.polled id actions result])
      = (latestRegistrations tr).filter (·.2 ≠ id) ++ entries id actions result := by
  induction tr with
  | nil => simp [latestRegistrations]
  | cons o tr ih =>
      cases o with
      | polled id' actions' result' =>
          rw [List.cons_append, latestRegistrations, latestRegistrations, ih, List.filter_append,
            List.append_assoc]
          congr 1
          have hids : id' ∈ polledIds (tr ++ [.polled id actions result])
              ↔ id' ∈ polledIds tr ∨ id' = id := by
            rw [polledIds_append, List.mem_append]
            simp [polledIds, Obs.polledId]
          by_cases hmem : id' ∈ polledIds tr
          · rw [if_pos hmem, if_pos (hids.mpr (Or.inl hmem))]
            rfl
          · rw [if_neg hmem]
            by_cases hid : id' = id
            · rw [if_pos (hids.mpr (Or.inr hid))]
              refine (List.filter_eq_nil_iff.mpr fun p hp => ?_).symm
              simp [(mem_entries.mp hp).2.2, hid]
            · rw [if_neg (fun h => (hids.mp h).elim hmem hid)]
              refine (List.filter_eq_self.mpr fun p hp => ?_).symm
              simp [(mem_entries.mp hp).2.2, hid]
      | _ => exact ih

/-- An observation that is no poll changes nothing. -/
theorem latestRegistrations_snoc_other (tr : List (Obs E)) {o : Obs E} (ho : o.polledId = none) :
    latestRegistrations (tr ++ [o]) = latestRegistrations tr := by
  induction tr with
  | nil => cases o <;> simp_all [latestRegistrations, Obs.polledId]
  | cons o' tr ih =>
      cases o' with
      | polled id actions result =>
          rw [List.cons_append, latestRegistrations, latestRegistrations, ih, polledIds_append,
            show polledIds [o] = [] by simp [polledIds, ho], List.append_nil]
      | _ => exact ih

theorem latestRegistrations_nodup (tr : List (Obs E)) : (latestRegistrations tr).Nodup := by
  induction tr with
  | nil => exact List.nodup_nil
  | cons o tr ih =>
      cases o with
      | polled id actions result =>
          rw [latestRegistrations]
          split
          · exact ih
          · rename_i hid
            refine List.nodup_append.mpr ⟨entries_nodup _ _ _, ih, ?_⟩
            intro p hp q hq hpq
            subst hpq
            exact hid ((mem_entries.mp hp).2.2 ▸ mem_polledIds_of_mem_latestRegistrations hq)
      | _ => exact ih

/-- An entry of the list is a registration of the most recent poll, whether or not the task is
finished. -/
theorem registeredInLatestPoll_of_mem {tr : List (Obs E)} {id : TaskId} {event : E}
    (h : (event, id) ∈ latestRegistrations tr) : RegisteredInLatestPoll tr id event := by
  induction tr using List.reverseRecOn with
  | nil => simp [latestRegistrations] at h
  | append_singleton tr o ih =>
      rw [RegisteredInLatestPoll, since_append_singleton]
      cases o with
      | polled id' actions result =>
          rw [latestRegistrations_snoc_polled, List.mem_append, List.mem_filter, mem_entries] at h
          rcases h with ⟨h, hid⟩ | ⟨_, h, hid⟩
          · refine Or.inr ⟨ih h, fun hpoll => ?_⟩
            obtain rfl : id' = id := Option.some.inj hpoll
            simp at hid
          · exact Or.inl ⟨hid.symm, h⟩
      | _ =>
          rw [latestRegistrations_snoc_other tr rfl] at h
          exact Or.inr ⟨ih h, by simp [Obs.polledId]⟩

/-- **The entries.**  A task's entries are the events it registered during its most recent poll,
as long as it is not finished. -/
theorem mem_latestRegistrations_iff {tr : List (Obs E)} {id : TaskId} {event : E}
    (hlive : ¬ Finished tr id) :
    (event, id) ∈ latestRegistrations tr ↔ RegisteredInLatestPoll tr id event := by
  refine ⟨registeredInLatestPoll_of_mem, ?_⟩
  induction tr using List.reverseRecOn with
  | nil => exact fun h => absurd h not_since_nil
  | append_singleton tr o ih =>
      have ih := ih fun h => hlive (finished_append.mpr (Or.inl h))
      rw [RegisteredInLatestPoll, since_append_singleton]
      cases o with
      | polled id' actions result =>
          rw [latestRegistrations_snoc_polled, List.mem_append, List.mem_filter, mem_entries]
          rintro (⟨hid, hreg⟩ | ⟨h, hid⟩)
          · have hres : result = .pending := by
              cases result with
              | pending => rfl
              | ready => exact absurd (finished_append.mpr (Or.inr ⟨actions, by simp [hid]⟩)) hlive
            exact Or.inr ⟨hres, hreg, hid.symm⟩
          · refine Or.inl ⟨ih h, decide_eq_true fun heq => hid ?_⟩
            exact congrArg some heq.symm
      | _ =>
          rw [latestRegistrations_snoc_other tr rfl]
          rintro (h | ⟨h, _⟩)
          · exact h.elim
          · exact ih h

end WebUiBoot.Executor
