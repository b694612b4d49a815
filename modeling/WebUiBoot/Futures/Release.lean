import WebUiBoot.Executor.World
import WebUiBoot.Futures.Timers

/-!
# Timer events and who closes them

A sleep future owns the timer event that it creates, and its `drop` takes the event out of the
future.  `uefi::Event` has no destructor, so what is taken out is forgotten and not closed.

* `Ledger` — the firmware with a record of its timer events, `SleepFuture.drop` — the three `drop`
  functions, `recordedTasks` — the tasks of `sleepTasks`, with the drops at the end of each await;
* `recordedTasks_run` — the record does not change what the executor does;
* `LedgerInv` — each timer event is held by a live sleep future or was dropped with one, and none
  is closed;
* `timers_released_iff` — so the timer events are released exactly as long as no task is resumed
  from a future that holds one.
-/

namespace WebUiBoot.Futures

open WebUiBoot.Executor WebUiBoot.Trace

variable {B E σ : Type*}

/-! ### Model -/

/-- The state of the firmware with a record of the timer events: the results of `create_event`, the
events in the sleep futures that were dropped, and the arguments of `close_event`. -/
structure Ledger (B E : Type*) where
  boot : B
  created : List E
  dropped : List E
  closed : List E

def Ledger.new (b : B) : Ledger B E := ⟨b, [], [], []⟩

/-- The boot services, with the record kept. -/
def recording (fw : Firmware B E) : Firmware (Ledger B E) E where
  createEvent l :=
    let r := fw.createEvent l.boot
    (r.1, { l with boot := r.2, created := l.created ++ r.1.toList })
  setTimer l timer ticks :=
    let r := fw.setTimer l.boot timer ticks
    (r.1, { l with boot := r.2 })
  waitForKeyEvent l := fw.waitForKeyEvent l.boot
  waitForInputEvents l := fw.waitForInputEvents l.boot
  getPacketWaitEvent l := fw.getPacketWaitEvent l.boot
  waitPacketWorkaround := fw.waitPacketWorkaround

/-- What a task does between two suspensions concerns no timer event of a sleep future. -/
def recordingResume (resume : TaskId → σ → B → Resumed σ B) (id : TaskId) (body : σ)
    (l : Ledger B E) : Resumed σ (Ledger B E) :=
  let r := resume id body l.boot
  ⟨{ l with boot := r.boot }, r.wakes, r.next⟩

/-- `let _ = self.timer_event.take()`: the event goes out of scope, and having no destructor it
stays open. -/
def dropTimerEvent (timerEvent : Option E) (l : Ledger B E) : Ledger B E :=
  { l with dropped := l.dropped ++ timerEvent.toList }

def NetworkSleepFuture.drop (f : NetworkSleepFuture E) (l : Ledger B E) : Ledger B E :=
  dropTimerEvent f.timerEvent l

def SlintSleepFuture.drop (f : SlintSleepFuture E) (l : Ledger B E) : Ledger B E :=
  dropTimerEvent f.timerEvent l

def TimerSleepFuture.drop (f : TimerSleepFuture E) (l : Ledger B E) : Ledger B E :=
  dropTimerEvent f.timerEvent l

def SleepFuture.drop : SleepFuture E → Ledger B E → Ledger B E
  | .network f, l => f.drop l
  | .slint f, l => f.drop l
  | .timer f, l => f.drop l

/-- `SleepTask.poll` with the record: when the sleep future is ready, the `await` drops it before
the task goes on. -/
def SleepTask.pollRecorded (fw : Firmware B E) (resume : TaskId → σ → B → Resumed σ B)
    (id : TaskId) (task : SleepTask σ E) (w : World (Ledger B E) E) :
    Polled (SleepTask σ E) (World (Ledger B E) E) E :=
  match task.sleeping with
  | none => resumeTask (recording fw) (recordingResume resume) id task.body w
  | some sleep =>
      let p := sleep.poll (recording fw) w
      match p.result with
      | .pending => ⟨⟨task.body, some p.future⟩, p.world, p.actions, .pending⟩
      | .ready =>
          let r := resumeTask (recording fw) (recordingResume resume) id task.body
            ⟨p.future.drop p.world.boot, p.world.armed⟩
          ⟨r.future, r.world, p.actions ++ r.actions, r.result⟩

def recordedTasks (fw : Firmware B E) (resume : TaskId → σ → B → Resumed σ B) :
    Futures (SleepTask σ E) (World (Ledger B E) E) E :=
  ⟨SleepTask.pollRecorded fw resume⟩

/-! ### The record changes nothing -/

def World.forget (w : World (Ledger B E) E) : World B E := ⟨w.boot.boot, w.armed⟩

theorem armTimer_forget (fw : Firmware B E) (w : World (Ledger B E) E) (ticks : ℕ) :
    armTimer fw w.forget ticks
      = ((armTimer (recording fw) w ticks).1, (armTimer (recording fw) w ticks).2.1.forget,
          (armTimer (recording fw) w ticks).2.2) := by
  unfold armTimer
  rw [show w.forget.boot = w.boot.boot from rfl]
  simp only [recording]
  cases hcreate : fw.createEvent w.boot.boot with
  | mk timer boot =>
      cases timer with
      | none => rfl
      | some timer => rfl

theorem SleepFuture.poll_forget (fw : Firmware B E) (w : World (Ledger B E) E)
    (sleep : SleepFuture E) :
    sleep.poll fw w.forget = (sleep.poll (recording fw) w).mapWorld World.forget := by
  cases sleep with
  | network f =>
      simp only [SleepFuture.poll, NetworkSleepFuture.poll]
      by_cases hstarted : f.isStarted
      · rw [if_pos hstarted, if_pos hstarted]
        rfl
      · rw [if_neg hstarted, if_neg hstarted, armTimer_forget]
        rfl
  | slint f | timer f =>
      simp only [SleepFuture.poll, SlintSleepFuture.poll, TimerSleepFuture.poll]
      by_cases hstarted : f.isStarted
      · rw [if_pos hstarted, if_pos hstarted]
        rfl
      · rw [if_neg hstarted, if_neg hstarted]
        by_cases hticks : f.duration.ticks > 0
        · rw [if_pos hticks, if_pos hticks, armTimer_forget]
          rfl
        · rw [if_neg hticks, if_neg hticks]
          rfl

variable (fw : Firmware B E) (resume : TaskId → σ → B → Resumed σ B)

theorem resumeTask_forget (id : TaskId) (body : σ) (w : World (Ledger B E) E) :
    resumeTask fw resume id body w.forget
      = (resumeTask (recording fw) (recordingResume resume) id body w).mapWorld World.forget := by
  have hboot : w.forget.boot = w.boot.boot := rfl
  unfold resumeTask
  simp only [recordingResume, hboot]
  cases hnext : (resume id body w.boot.boot).next with
  | none => rfl
  | some next =>
      obtain ⟨request, body'⟩ := next
      have hpoll := SleepFuture.poll_forget fw
        ⟨{ w.boot with boot := (resume id body w.boot.boot).boot }, w.armed⟩
        (SleepFuture.new request)
      dsimp only [World.forget] at hpoll ⊢
      rw [hpoll]
      rfl

theorem drop_boot (sleep : SleepFuture E) (l : Ledger B E) : (sleep.drop l).boot = l.boot := by
  cases sleep <;> rfl

/-- With or without the record, a task is polled alike. -/
theorem recordedTasks_simulates :
    Simulates World.forget (recordedTasks fw resume) (sleepTasks fw resume) := by
  intro id task w
  show SleepTask.poll fw resume id task w.forget
    = (SleepTask.pollRecorded fw resume id task w).mapWorld World.forget
  unfold SleepTask.poll SleepTask.pollRecorded
  cases task.sleeping with
  | none => exact resumeTask_forget fw resume id task.body w
  | some sleep =>
      dsimp only
      rw [SleepFuture.poll_forget]
      cases hres : (sleep.poll (recording fw) w).result with
      | pending =>
          simp only [Polled.mapWorld, hres]
      | ready =>
          have hresume := resumeTask_forget fw resume id task.body
            ⟨(sleep.poll (recording fw) w).future.drop (sleep.poll (recording fw) w).world.boot,
              (sleep.poll (recording fw) w).world.armed⟩
          simp only [World.forget, drop_boot] at hresume
          simp only [Polled.mapWorld, hres, World.forget, hresume]

/-- **The record does not change what the executor does.** -/
theorem recordedTasks_run [DecidableEq E] (w : World (Ledger B E) E) (bodies : Spawned σ)
    (inputs : List (Input E)) :
    run (sleepTasks fw resume) w.forget (newTasks bodies) inputs
      = (((run (recordedTasks fw resume) w (newTasks bodies) inputs).1.1,
            (run (recordedTasks fw resume) w (newTasks bodies) inputs).1.2.mapWorld World.forget),
          (run (recordedTasks fw resume) w (newTasks bodies) inputs).2) :=
  run_mapWorld (recordedTasks_simulates fw resume) w (newTasks bodies) inputs

/-! ### One poll -/

/-- The timer that a task holds through the future it sleeps on. -/
def SleepTask.timerEvent (task : SleepTask σ E) : Option E :=
  task.sleeping.bind SleepFuture.timerEvent

/-- From `l` to `l'` the event `old` was dropped, the event `new` created, and none closed. -/
structure Moved (l l' : Ledger B E) (old new : Option E) : Prop where
  created : l'.created = l.created ++ new.toList
  dropped : l'.dropped = l.dropped ++ old.toList
  closed : l'.closed = l.closed

theorem Moved.refl (l : Ledger B E) : Moved l l none none :=
  ⟨(List.append_nil _).symm, (List.append_nil _).symm, rfl⟩

theorem armTimer_moved (w : World (Ledger B E) E) (ticks : ℕ) :
    Moved w.boot (armTimer (recording fw) w ticks).2.1.boot none
      (armTimer (recording fw) w ticks).1 := by
  unfold armTimer
  simp only [recording]
  cases hcreate : fw.createEvent w.boot.boot with
  | mk timer boot =>
      cases timer with
      | none => exact ⟨rfl, (List.append_nil _).symm, rfl⟩
      | some timer => exact ⟨rfl, (List.append_nil _).symm, rfl⟩

/-- What is seen of a poll that leaves a task sleeping. -/
structure FellAsleep (l : Ledger B E)
    (p : Polled (SleepFuture E) (World (Ledger B E) E) E) : Prop where
  moved : Moved l p.world.boot none p.future.timerEvent
  started : p.future.isStarted = true
  pending : p.result = .pending

/-- **The first poll.** -/
theorem SleepFuture.new_poll_moved (request : Request) (w : World (Ledger B E) E) :
    FellAsleep w.boot ((SleepFuture.new request).poll (recording fw) w) := by
  have harm := fun ticks => armTimer_moved fw w ticks
  cases request with
  | network =>
      refine ⟨?_, rfl, rfl⟩
      show Moved w.boot (armTimer (recording fw) w networkTicks).2.1.boot none
        ((armTimer (recording fw) w networkTicks).1.or none)
      rw [Option.or_none]
      exact harm networkTicks
  | slint duration | timer duration =>
      simp only [SleepFuture.new, SleepFuture.poll, SlintSleepFuture.poll, SlintSleepFuture.new,
        TimerSleepFuture.poll, TimerSleepFuture.new, Bool.false_eq_true, if_false]
      by_cases hticks : duration.ticks > 0
      · rw [if_pos hticks, Option.or_none]
        exact ⟨harm duration.ticks, rfl, rfl⟩
      · rw [if_neg hticks]
        exact ⟨Moved.refl _, rfl, rfl⟩

/-- What is seen of the poll of a task that held the event `old`. -/
structure PollMoved (l : Ledger B E) (old : Option E)
    (p : Polled (SleepTask σ E) (World (Ledger B E) E) E) : Prop where
  moved : Moved l p.world.boot old p.future.timerEvent
  started : ∀ sleep, p.future.sleeping = some sleep → sleep.isStarted = true
  ready : p.result = .ready → p.future.sleeping = none

theorem resumeTask_moved (id : TaskId) (body : σ) (w : World (Ledger B E) E) :
    PollMoved w.boot none
      (resumeTask (recording fw) (recordingResume resume) id body w) := by
  unfold resumeTask
  simp only [recordingResume]
  cases (resume id body w.boot.boot).next with
  | none =>
      exact ⟨⟨(List.append_nil _).symm, (List.append_nil _).symm, rfl⟩, nofun, fun _ => rfl⟩
  | some next =>
      obtain ⟨request, body'⟩ := next
      have hpoll := SleepFuture.new_poll_moved fw request
        ⟨{ w.boot with boot := (resume id body w.boot.boot).boot }, w.armed⟩
      refine ⟨⟨hpoll.moved.created, hpoll.moved.dropped, hpoll.moved.closed⟩, ?_, ?_⟩
      · intro sleep hsleep
        exact Option.some.inj hsleep ▸ hpoll.started
      · intro hready
        exact absurd (hpoll.pending.symm.trans hready) nofun

theorem SleepFuture.drop_moved (sleep : SleepFuture E) (l : Ledger B E) :
    Moved l (sleep.drop l) sleep.timerEvent none := by
  cases sleep <;> exact ⟨(List.append_nil _).symm, rfl, rfl⟩

/-- **One poll.**  A task that is polled again drops the timer that it holds, and may create one
to hold. -/
theorem SleepTask.pollRecorded_moved (id : TaskId) {task : SleepTask σ E}
    (w : World (Ledger B E) E) (h : ∀ sleep, task.sleeping = some sleep → sleep.isStarted = true) :
    PollMoved w.boot task.timerEvent (task.pollRecorded fw resume id w) := by
  unfold SleepTask.pollRecorded SleepTask.timerEvent
  cases hsleep : task.sleeping with
  | none => exact resumeTask_moved fw resume id task.body w
  | some sleep =>
      simp only [SleepFuture.poll_started (recording fw) w (h sleep hsleep)]
      have hdrop := sleep.drop_moved w.boot
      obtain ⟨hmoved, hstarted, hready⟩ :=
        resumeTask_moved fw resume id task.body ⟨sleep.drop w.boot, w.armed⟩
      refine ⟨⟨?_, ?_, ?_⟩, hstarted, hready⟩
      · rw [hmoved.created, hdrop.created, Option.toList_none, List.append_nil]
      · rw [hmoved.dropped, hdrop.dropped, Option.toList_none, List.append_nil]
        rfl
      · rw [hmoved.closed, hdrop.closed]

/-! ### Counting tasks -/

/-- The number of live tasks with a property. -/
def countTasks {F : Type*} (p : F → Bool) (tasks : AList fun _ : TaskId => F) : ℕ :=
  tasks.entries.countP fun e => p e.2

section Count

variable {F : Type*} (p : F → Bool) {tasks : AList fun _ : TaskId => F} {id : TaskId}

theorem countTasks_of_lookup {task : F} (h : tasks.lookup id = some task) :
    countTasks p tasks = countTasks p (tasks.erase id) + (p task).toNat := by
  obtain ⟨task', front, back, hfront, hentries, herase⟩ :=
    List.exists_of_kerase (mem_iff_lookup.mpr ⟨task, h⟩ : id ∈ tasks)
  have htask : task' = task := by
    have hlookup : List.dlookup id tasks.entries = some task := h
    have hmem : (⟨id, task'⟩ : Sigma fun _ : TaskId => F) ∈ tasks.entries := by
      rw [hentries]
      exact List.mem_append_right _ List.mem_cons_self
    rw [List.mem_dlookup tasks.nodupKeys hmem] at hlookup
    exact Option.some.inj hlookup
  show tasks.entries.countP _ = (List.kerase id tasks.entries).countP _ + _
  rw [herase, hentries, List.countP_append, List.countP_append, List.countP_cons, htask]
  cases p task with
  | false => rfl
  | true => exact (Nat.add_assoc _ _ _).symm

theorem countTasks_insert (future : F) :
    countTasks p (tasks.insert id future)
      = countTasks p (tasks.erase id) + (p future).toNat := by
  show (tasks.insert id future).entries.countP _ = (List.kerase id tasks.entries).countP _ + _
  rw [AList.entries_insert, List.countP_cons]
  cases p future with
  | false => rfl
  | true => rfl

theorem countTasks_settled {task : F} (h : tasks.lookup id = some task) (future : F)
    (result : Poll) (hready : result = .ready → p future = false) :
    countTasks p (settled tasks id future result) + (p task).toNat
      = countTasks p tasks + (p future).toNat := by
  rw [countTasks_of_lookup p h]
  cases result with
  | pending =>
      show countTasks p (tasks.insert id future) + _ = _
      rw [countTasks_insert]
      omega
  | ready =>
      have herase : ((tasks.insert id future).erase id).entries = (tasks.erase id).entries := by
        show List.kerase id (tasks.insert id future).entries = List.kerase id tasks.entries
        rw [AList.entries_insert]
        exact List.kerase_cons_eq rfl
      show ((tasks.insert id future).erase id).entries.countP _ + _ = _
      rw [herase, hready rfl]
      rfl

end Count

/-! ### Runs -/

section Runs

variable [DecidableEq E]

def SleepTask.isSleeping (task : SleepTask σ E) : Bool := task.sleeping.isSome

def SleepTask.holdsTimer (task : SleepTask σ E) : Bool := task.timerEvent.isSome

/-- Each timer event is held by a live sleep future or was dropped with one, and none is closed. -/
structure LedgerInv (s : State (SleepTask σ E) (World (Ledger B E) E) E) : Prop where
  quiet : Quiet s
  closed : s.world.boot.closed = []
  created : s.world.boot.created.length
    = s.world.boot.dropped.length + countTasks SleepTask.holdsTimer s.tasks
  started : ∀ id task, s.tasks.lookup id = some task →
    ∀ sleep, task.sleeping = some sleep → sleep.isStarted = true

/-- The task that is polled next holds no timer. -/
def ResumesNoTimer (s : State (SleepTask σ E) (World (Ledger B E) E) E) (id : TaskId) : Prop :=
  ∀ task, s.tasks.lookup id = some task → task.timerEvent = none

omit [DecidableEq E] in
theorem LedgerInv.of_eq {s s' : State (SleepTask σ E) (World (Ledger B E) E) E}
    (h : LedgerInv s) (hquiet : Quiet s') (htasks : s'.tasks = s.tasks)
    (hworld : s'.world = s.world) : LedgerInv s' where
  quiet := hquiet
  closed := by rw [hworld]; exact h.closed
  created := by rw [hworld, htasks]; exact h.created
  started := by rw [htasks]; exact h.started

/-- **One poll.** -/
theorem LedgerInv.afterPoll {s : State (SleepTask σ E) (World (Ledger B E) E) E}
    (h : LedgerInv s) (id : TaskId) : LedgerInv (pollTask (recordedTasks fw resume) s id).1 := by
  cases hf : s.tasks.lookup id with
  | none =>
      rw [pollTask_of_lookup_none _ hf]
      exact h
  | some task =>
      obtain ⟨hmoved, hstarted, hready⟩ :=
        SleepTask.pollRecorded_moved fw resume id s.world (h.started id task hf)
      have hquiet := (pollTask_framed (recordedTasks fw resume) h.quiet id).quiet
      rw [pollTask_eq _ h.quiet hf] at hquiet ⊢
      refine ⟨hquiet, hmoved.closed.trans h.closed, ?_, ?_⟩
      · have hcount := countTasks_settled SleepTask.holdsTimer hf
          (task.pollRecorded fw resume id s.world).future
          (task.pollRecorded fw resume id s.world).result fun hres => by
            rw [SleepTask.holdsTimer, SleepTask.timerEvent, hready hres]
            rfl
        have hlength : ∀ event : Option E, event.toList.length = event.isSome.toNat := by
          intro event
          cases event <;> rfl
        have hcreated := h.created
        show (task.pollRecorded fw resume id s.world).world.boot.created.length
          = (task.pollRecorded fw resume id s.world).world.boot.dropped.length
            + countTasks SleepTask.holdsTimer (settled s.tasks id
                (task.pollRecorded fw resume id s.world).future
                (task.pollRecorded fw resume id s.world).result)
        rw [hmoved.created, hmoved.dropped, List.length_append, List.length_append, hlength,
          hlength]
        unfold SleepTask.holdsTimer at hcount hcreated ⊢
        omega
      · intro id' task' hlookup
        rcases lookup_settled hlookup with ⟨_, rfl, _⟩ | ⟨_, hlookup⟩
        · exact hstarted
        · exact h.started id' task' hlookup

/-- A poll drops a timer exactly when its task holds one. -/
theorem LedgerInv.poll_dropped {s : State (SleepTask σ E) (World (Ledger B E) E) E}
    (h : LedgerInv s) (id : TaskId) :
    (pollTask (recordedTasks fw resume) s id).1.world.boot.dropped = []
      ↔ s.world.boot.dropped = [] ∧ ResumesNoTimer s id := by
  cases hf : s.tasks.lookup id with
  | none =>
      rw [pollTask_of_lookup_none _ hf]
      refine ⟨fun hnil => ⟨hnil, fun task hlookup => ?_⟩, And.left⟩
      rw [hf] at hlookup
      cases hlookup
  | some task =>
      have hmoved :=
        (SleepTask.pollRecorded_moved fw resume id s.world (h.started id task hf)).moved
      have honly : ResumesNoTimer s id ↔ task.timerEvent = none := by
        refine ⟨fun hall => hall task hf, fun hnone task' hlookup => ?_⟩
        rw [hf] at hlookup
        exact Option.some.inj hlookup ▸ hnone
      rw [pollTask_eq _ h.quiet hf, honly]
      show (task.pollRecorded fw resume id s.world).world.boot.dropped = [] ↔ _
      rw [hmoved.dropped, List.append_eq_nil_iff, Option.toList_eq_nil_iff]

theorem LedgerInv.afterList {s : State (SleepTask σ E) (World (Ledger B E) E) E}
    (h : LedgerInv s) (ids : List TaskId) :
    LedgerInv ((runList (recordedTasks fw resume)).run s ids).1 :=
  (runList (recordedTasks fw resume)).run_preserves (fun _ id h => h.afterPoll fw resume id) ids h

/-- The tasks polled in this step of the loop hold no timer when their turns come. -/
def StepResumesNoTimer (p : Pc × State (SleepTask σ E) (World (Ledger B E) E) E) :
    Input E → Prop
  | .wake _ => True
  | .advance _ => p.1 = .loopHead → p.2.tasks.keys ≠ [] →
      (runList (recordedTasks fw resume)).Along ResumesNoTimer (roundStart p.2)
        (drainAwake p.2).runQueue

/-- **One step of the loop.** -/
theorem LedgerInv.step {p : Pc × State (SleepTask σ E) (World (Ledger B E) E) E}
    (h : LedgerInv p.2) (i : Input E) :
    LedgerInv (runStep (recordedTasks fw resume) p i).1.2
      ∧ ((runStep (recordedTasks fw resume) p i).1.2.world.boot.dropped = []
          ↔ p.2.world.boot.dropped = [] ∧ StepResumesNoTimer fw resume p i) := by
  obtain ⟨pc, s⟩ := p
  have hstart : LedgerInv (roundStart s) := h.of_eq ⟨h.quiet.current, h.quiet.global⟩ rfl rfl
  cases i with
  | wake id =>
      exact ⟨h.of_eq ⟨h.quiet.current, h.quiet.global⟩ rfl rfl, (and_iff_left trivial).symm⟩
  | advance answer =>
      cases pc with
      | returned => exact ⟨h, (and_iff_left nofun).symm⟩
      | waiting =>
          show LedgerInv (waitForEvents s answer).1
            ∧ ((waitForEvents s answer).1.world.boot.dropped = [] ↔ _)
          rcases waitForEvents_cases s answer with hw | ⟨o, hw, _⟩ | ⟨i, signaled, _, _, _, hw⟩
          · rw [hw]
            exact ⟨h, (and_iff_left nofun).symm⟩
          · rw [hw]
            exact ⟨h, (and_iff_left nofun).symm⟩
          · rw [hw]
            exact ⟨h.of_eq ⟨h.quiet.current, h.quiet.global⟩ rfl rfl, (and_iff_left nofun).symm⟩
      | loopHead =>
          have hround := (runList (recordedTasks fw resume)).run_iff_along (I := LedgerInv)
            (Q := fun s => s.world.boot.dropped = []) (P := ResumesNoTimer)
            (fun s id h => h.afterPoll fw resume id) (fun s id h => h.poll_dropped fw resume id)
            (drainAwake s).runQueue (roundStart s) hstart
          unfold runStep StepResumesNoTimer
          dsimp only
          by_cases hkeys : s.tasks.keys = []
          · rw [if_pos hkeys]
            exact ⟨h, (and_iff_left fun _ hne => absurd hkeys hne).symm⟩
          · rw [if_neg hkeys, runOnce_eq]
            refine ⟨hstart.afterList fw resume _, hround.trans (and_congr_right fun _ => ?_)⟩
            exact ⟨fun halong _ _ => halong, fun halong => halong rfl hkeys⟩

/-- Before the loop starts no timer has been created. -/
theorem spawnAll_ledgerInv (b : B) (armed : List (E × ℕ)) (bodies : Spawned σ) :
    LedgerInv (spawnAll (recordedTasks fw resume) ⟨.new b, armed⟩ (newTasks bodies)).1
      ∧ (spawnAll (recordedTasks fw resume) ⟨.new b, armed⟩
          (newTasks bodies)).1.world.boot.dropped = [] := by
  have hworld := spawnAll_invariant (recordedTasks fw resume) ⟨.new b, armed⟩ (newTasks bodies)
    (I := fun _ s => s.world = ⟨.new b, armed⟩) rfl (fun _ _ _ _ h => h)
  have hnone := spawnAll_not_sleeping (recordedTasks fw resume) ⟨.new b, armed⟩ bodies
  have hquiet := (spawnAll_good (recordedTasks fw resume) ⟨.new b, armed⟩
    (newTasks bodies)).inv.quiet
  have hcount : countTasks SleepTask.holdsTimer (spawnAll (recordedTasks fw resume)
      ⟨.new b, armed⟩ (newTasks bodies)).1.tasks = 0 := by
    refine List.countP_eq_zero.mpr fun e he hholds => ?_
    have hsleep := hnone e.1 e.2 (AList.mem_lookup_iff.mpr he)
    rw [SleepTask.holdsTimer, SleepTask.timerEvent, hsleep] at hholds
    cases hholds
  refine ⟨⟨hquiet, ?_, ?_, ?_⟩, ?_⟩
  · rw [hworld]
    rfl
  · rw [hworld, hcount]
    rfl
  · intro id task hlookup sleep hsleep
    rw [hnone id task hlookup] at hsleep
    cases hsleep
  · rw [hworld]
    rfl

/-- The timer events are released: those of the dropped sleep futures, and no others, have been
closed, each once; no closed one is registered; and there are not more open ones than live sleep
futures. -/
structure Released (s : State (SleepTask σ E) (World (Ledger B E) E) E) : Prop where
  closed_once : List.Perm s.world.boot.closed s.world.boot.dropped
  unregistered : ∀ e id, (e, id) ∈ s.eventRegistry → e ∈ s.world.boot.closed →
    s.world.boot.closed.count e < s.world.boot.created.count e
  open_le : s.world.boot.created.length - s.world.boot.closed.length
    ≤ countTasks SleepTask.isSleeping s.tasks

/-- Nothing is ever closed, so all is well exactly as long as nothing has to be. -/
theorem LedgerInv.released_iff {s : State (SleepTask σ E) (World (Ledger B E) E) E}
    (h : LedgerInv s) : Released s ↔ s.world.boot.dropped = [] := by
  constructor
  · intro hreleased
    have hperm := hreleased.closed_once
    rw [h.closed] at hperm
    exact List.nil_perm.mp hperm
  · intro hdropped
    refine ⟨?_, ?_, ?_⟩
    · rw [h.closed, hdropped]
    · intro e id _ hclosed
      rw [h.closed] at hclosed
      exact absurd hclosed List.not_mem_nil
    · have hcreated := h.created
      rw [hdropped, List.length_nil, Nat.zero_add] at hcreated
      rw [h.closed, hcreated]
      refine List.countP_mono_left fun e _ hholds => ?_
      show e.2.sleeping.isSome = true
      cases hsleep : e.2.sleeping with
      | some sleep => rfl
      | none =>
          rw [SleepTask.holdsTimer, SleepTask.timerEvent, hsleep] at hholds
          cases hholds

/-- The steps of a run of the loop over recorded tasks. -/
theorem run_ledgerInv (b : B) (armed : List (E × ℕ)) (bodies : Spawned σ)
    (inputs : List (Input E)) :
    LedgerInv (run (recordedTasks fw resume) ⟨.new b, armed⟩ (newTasks bodies) inputs).1.2 :=
  (runLoop (recordedTasks fw resume)).run_preserves (I := fun p => LedgerInv p.2)
    (fun _ i h => (h.step fw resume i).1) inputs (spawnAll_ledgerInv fw resume b armed bodies).1

/-- **Timer events are released only as long as none has to be.**  In a run of `Executor::run`
over tasks that await the sleep futures, the timer events are released in the state reached
exactly when no task was polled while the sleep future it waited for held a timer event: a poll
that drops such a future leaves its timer open for good. -/
theorem timers_released_iff (b : B) (armed : List (E × ℕ)) (bodies : Spawned σ)
    (inputs : List (Input E)) :
    Released (run (recordedTasks fw resume) ⟨.new b, armed⟩ (newTasks bodies) inputs).1.2
      ↔ (runLoop (recordedTasks fw resume)).Along (StepResumesNoTimer fw resume)
          (.loopHead, (spawnAll (recordedTasks fw resume) ⟨.new b, armed⟩ (newTasks bodies)).1)
          inputs := by
  obtain ⟨hinv, hdropped⟩ := spawnAll_ledgerInv fw resume b armed bodies
  have hrun := (runLoop (recordedTasks fw resume)).run_iff_along (I := fun p => LedgerInv p.2)
    (Q := fun p => p.2.world.boot.dropped = []) (P := StepResumesNoTimer fw resume)
    (fun p i h => (h.step fw resume i).1) (fun p i h => (h.step fw resume i).2) inputs
    (.loopHead, (spawnAll (recordedTasks fw resume) ⟨.new b, armed⟩ (newTasks bodies)).1) hinv
  rw [(run_ledgerInv fw resume b armed bodies inputs).released_iff]
  exact hrun.trans (and_iff_right hdropped)

end Runs

/-- The loop of `run_network`, with nothing arriving. -/
def networkLoop (_ : TaskId) (_ : Unit) (b : ℕ) : Resumed Unit ℕ := ⟨b, [], some (.network, ())⟩

/-- The network task after two rounds, the second one after its timer has been signalled. -/
def secondRound : State (SleepTask Unit ℕ) (World (Ledger ℕ ℕ) ℕ) ℕ :=
  (run (recordedTasks countingFirmware networkLoop) ⟨.new 1, []⟩ (newTasks oneTask)
    [.advance fun _ => none, .advance fun _ => none, .advance fun _ => some 0,
      .advance fun _ => none]).1.2

/-- **Timers pile up.**  After two rounds one sleep future is live, and two timers are open. -/
theorem second_timer_leaks :
    secondRound.world.boot.created = [1, 2] ∧ secondRound.world.boot.dropped = [1]
      ∧ secondRound.world.boot.closed = []
      ∧ countTasks SleepTask.isSleeping secondRound.tasks = 1 ∧ ¬ Released secondRound := by
  have hopen : secondRound.world.boot.created.length - secondRound.world.boot.closed.length = 2 :=
    by decide +kernel
  have hlive : countTasks SleepTask.isSleeping secondRound.tasks = 1 := by decide +kernel
  refine ⟨by decide +kernel, by decide +kernel, by decide +kernel, hlive, fun h => ?_⟩
  have hle := h.open_le
  omega

end WebUiBoot.Futures
