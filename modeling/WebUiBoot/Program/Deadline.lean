import WebUiBoot.Executor.Fairness
import WebUiBoot.Program.Attempts
import WebUiBoot.Program.Timers

/-!
# The deadline of a request, in the program

That a pending boot has a deadline is of use only if the loop of the web server goes on.  Its task
shares the executor with the user interface, and the firmware hands back one event at a time.

* `signaledProgram` — the program over a firmware whose events are signalled or not;
* `log_grows` — both loops only add to the log;
* `countP_isDone` — the iterations of the web server, from what it has done;
* `exists_booted` — a pending boot, in an iteration behind its deadline;
* `accepted_request_is_booted` — when the timer of the web server has fired, a pending boot is
  attempted after a bounded number of waits.
-/

namespace WebUiBoot.Program

open WebUiBoot.Executor WebUiBoot.Futures WebUiBoot.Boot WebUiBoot.Net WebUiBoot.Web WebUiBoot.Ui
  WebUiBoot.Trace

variable {M σ : Type} {E : Type*}

/-! ### Model -/

/-- `executor.run()`, with the signals of the firmware. -/
def signaledProgram [DecidableEq E] (p : Platform M σ) (fw : Firmware M E) (m : M) (socket : σ)
    (signals : E → Bool) (inputs : List (SignalInput E)) :=
  signaledRun (sleepTasks (onMachine fw) (resume p)) ⟨World.start m socket, []⟩ (newTasks bodies)
    signals inputs

/-! ### The log grows -/

theorem foldl_grows {α : Type*} {f : World M σ → α → World M σ}
    (h : ∀ w a, w.log <+: (f w a).log) (as : List α) :
    ∀ w, w.log <+: (as.foldl f w).log := by
  induction as with
  | nil => exact fun w => List.prefix_refl _
  | cons a as ih => exact fun w => (h w a).trans (ih (f w a))

variable (p : Platform M σ)

theorem attempt_grows (origin : Origin) (w : World M σ) (selection : BootSelection) :
    w.log <+: (attempt p origin w selection).log := List.prefix_append _ _

theorem dispatchKey_grows (w : World M σ) (key : Char) : w.log <+: (dispatchKey p w key).log := by
  let r := keyPressed p.codes w.window key
  let w₁ : World M σ := { w with window := r.window, log := w.log ++ [.key key] }
  have hkey : w.log <+: w₁.log := List.prefix_append _ _
  exact hkey.trans (foldl_grows (attempt_grows p .callback) r.callbacks w₁)

theorem dispatchKeys_grows (keys : List Char) :
    ∀ (w : World M σ) (direct : Option BootSelection),
      w.log <+: (dispatchKeys p w direct keys).1.log := by
  induction keys with
  | nil => exact fun w _ => List.prefix_refl _
  | cons key keys ih => exact fun w _ => (dispatchKey_grows p w key).trans (ih _ _)

theorem click_grows (w : World M σ) (selection : BootSelection) :
    w.log <+: (click p w selection).log := by
  let w₁ : World M σ :=
    { w with window := clickWindow selection, log := w.log ++ [.clicked selection] }
  have hclicked : w.log <+: w₁.log := List.prefix_append _ _
  exact hclicked.trans (attempt_grows p .click w₁ selection)

/-- **Both loops only add to the log.** -/
theorem log_grows (log : List Event) : Preserved p fun w => log <+: w.log where
  machine _ _ h := h
  network w pending h := by
    let clock := p.getMsSinceStart w.machine
    let poll := p.ifacePoll clock.2 clock.1
    let r := iterate p.env (w.socket, pending) ⟨clock.1, poll.1⟩
    let w₁ : World M σ :=
      { w with machine := poll.2, socket := r.1.1, log := w.log ++ r.2.map .network }
    have hevents : w.log <+: w₁.log := List.prefix_append _ _
    have hattempts := foldl_grows (attempt_grows p .remote) (firedSelections r.2) w₁
    exact h.trans (hevents.trans hattempts)
  slint w h := by
    let keys := p.getKeyPresses w.machine
    let w₀ : World M σ := { w with machine := keys.2 }
    let r := dispatchKeys p w₀ none keys.1
    let w₁ := r.2.toList.foldl (attempt p .direct) r.1
    let clicks := p.clicks w₁.machine
    have hkeys : w₀.log <+: r.1.log := dispatchKeys_grows p keys.1 w₀ none
    have hdirect : r.1.log <+: w₁.log := foldl_grows (attempt_grows p .direct) r.2.toList r.1
    have hclicks : w₁.log <+: (clicks.1.foldl (click p) { w₁ with machine := clicks.2 }).log :=
      foldl_grows (click_grows p) clicks.1 { w₁ with machine := clicks.2 }
    exact h.trans (hkeys.trans (hdirect.trans hclicks))

/-! ### Iterations of the web server -/

def isDone : Net.Event → Bool
  | .done _ => true
  | _ => false

theorem iterate_countP_isDone (env : Env σ) (state : σ × Pending) (input : Net.Input σ) :
    (iterate env state input).2.countP isDone = 1 := by
  have hreceive : ∀ ms socket pending, (receive env ms socket pending).2.countP isDone = 0 := by
    intro ms socket pending
    apply List.countP_eq_zero.mpr
    exact receive_forall (fun _ => by simp [isDone]) (fun _ => by simp [isDone])
      (fun _ _ => by simp [isDone]) env ms socket pending
  have hfire : ∀ ms socket pending, (fire env ms socket pending).2.countP isDone = 0 := by
    intro ms socket pending
    unfold fire
    split
    · rfl
    · split
      · rfl
      · rfl
  unfold iterate
  dsimp only
  rw [List.countP_append, List.countP_append, hreceive, hfire]
  rfl

/-- The iterations, from what they have done. -/
theorem countP_isDone (env : Env σ) (iterations : List (Net.Input σ)) :
    ∀ state, ((network env).run state iterations).2.countP isDone = iterations.length := by
  induction iterations with
  | nil => exact fun _ => rfl
  | cons input iterations ih =>
      intro state
      have hone : ((network env).step state input).2.countP isDone = 1 :=
        iterate_countP_isDone env state input
      rw [Machine.run_cons, List.countP_append, hone, ih, List.length_cons, Nat.add_comm]

/-- **The deadline.**  By the end of an iteration 500 ms after the last request, or later, that
request has been booted, or there was another one. -/
theorem exists_booted {selection : BootSelection} {t ms : ℕ} (hms : t + 500 ≤ ms)
    (new : List Net.Event) : ∀ {events : List Net.Event}, Always Right (events ++ new) →
      latest events = some (.accepted selection t) → .done ms ∈ new →
      (∀ e ∈ new, e.isAccepted = false) → ∃ ms state sendQueue,
        .booted selection ms state sendQueue ∈ new := by
  induction new with
  | nil => exact fun _ _ hdone _ => absurd hdone List.not_mem_nil
  | cons e new ih =>
      intro events hright hlatest hdone hnone
      have hfirst : Right events e := hright events e new rfl
      -- what neither accepts nor boots leaves the request the last one
      have hother : (e.isAccepted || e.isBooted) = false → .done ms ∈ new →
          ∃ ms state sendQueue, .booted selection ms state sendQueue ∈ e :: new := by
        intro hother hmem
        have hkept : latest (events ++ [e]) = some (.accepted selection t) := by
          have hempty : latest [e] = none := by
            rw [latest, List.filter_cons_of_neg (by rw [hother]; exact Bool.false_ne_true)]
            rfl
          rw [latest_append, hempty]
          exact hlatest
        obtain ⟨ms', state, sendQueue, hbooted⟩ := ih
          (by rwa [List.append_assoc, List.singleton_append]) hkept hmem
          fun e' he' => hnone e' (List.mem_cons_of_mem _ he')
        exact ⟨ms', state, sendQueue, List.mem_cons_of_mem _ hbooted⟩
      cases e with
      | accepted selection' t' => cases hnone _ List.mem_cons_self
      | booted selection' ms' state sendQueue =>
          obtain ⟨t', hlatest', _⟩ := hfirst
          rw [hlatest] at hlatest'
          cases hlatest'
          exact ⟨ms', state, sendQueue, List.mem_cons_self⟩
      | done ms' =>
          rcases List.mem_cons.mp hdone with heq | hmem
          · cases heq
            have hearly : ms < t + 500 := hfirst selection t hlatest
            omega
          · exact hother rfl hmem
      | received chunk => exact hother rfl ((List.mem_cons.mp hdone).resolve_left (by simp))
      | sent response => exact hother rfl ((List.mem_cons.mp hdone).resolve_left (by simp))

/-! ### Reached states -/

variable {p} {fw : Firmware M E} {socket : σ}

theorem networkEvents_append (log log' : List Event) :
    networkEvents (log ++ log') = networkEvents log ++ networkEvents log' := List.filterMap_append

theorem mem_networkEvents {log : List Event} {event : Net.Event} :
    event ∈ networkEvents log ↔ .network event ∈ log := by
  constructor
  · intro h
    obtain ⟨entry, hentry, heq⟩ := List.mem_filterMap.mp h
    cases entry with
    | network event' =>
        cases heq
        exact hentry
    | key | clicked | attempt => cases heq
  · exact fun h => List.mem_filterMap.mpr ⟨_, h, rfl⟩

/-- The polls of its task, from what the web server has done. -/
theorem Running.iterations_eq {ids : List TaskId}
    {tasks : AList fun _ : TaskId => SleepTask Body E} {w : Futures.World (World M σ) E}
    (h : Running p socket ids tasks w) :
    (networkEvents w.boot.log).countP isDone = ids.count networkTask - 1 := by
  obtain ⟨task, _, hat⟩ := h.network
  obtain ⟨pending, _, iterations, hlength, hrun⟩ := hat.served
  have hcount := countP_isDone p.env iterations (socket, .empty)
  rw [hrun, hlength] at hcount
  exact hcount

/-- What the web server attempts is what it has decided on. -/
theorem Settled.remote {w : World M σ} (h : Settled p w) :
    attempts w.log .remote = firedSelections (networkEvents w.log) :=
  (List.append_nil _).symm.trans (h.exact .remote nofun)

/-- The attempts of the web server in a part of the log. -/
theorem exists_attempt {w w' : World M σ} (h : Settled p w) (h' : Settled p w') {new : List Event}
    (hnew : w'.log = w.log ++ new) {selection : BootSelection}
    (hfired : selection ∈ firedSelections (networkEvents new)) :
    ∃ images, .attempt .remote selection images ∈ new := by
  have hattempts : attempts new .remote = firedSelections (networkEvents new) := by
    have hall := h'.remote
    rw [hnew, attempts_append, networkEvents_append, firedSelections, List.filterMap_append,
      h.remote] at hall
    exact List.append_cancel_left hall
  rw [← hattempts] at hfired
  obtain ⟨entry, hentry, heq⟩ := List.mem_filterMap.mp hfired
  cases entry with
  | attempt origin selection' images =>
      dsimp only at heq
      split at heq
      · rename_i horigin
        cases heq
        exact ⟨images, horigin ▸ hentry⟩
      · cases heq
  | network | key | clicked => cases heq

variable [DecidableEq E]

theorem exists_program (p : Platform M σ) (fw : Firmware M E) (m : M) (socket : σ)
    (signals : E → Bool) (inputs : List (SignalInput E)) :
    ∃ is, program p fw m socket is = ((signaledProgram p fw m socket signals inputs).1.1,
      (signaledProgram p fw m socket signals inputs).2) := by
  have hfut := exists_run_of_signaled (sleepTasks (onMachine fw) (resume p)) inputs
    ((.loopHead, (spawnAll (sleepTasks (onMachine fw) (resume p)) ⟨World.start m socket, []⟩
      (newTasks bodies)).1), signals)
  obtain ⟨is, his⟩ := hfut
  refine ⟨is, ?_⟩
  unfold program Executor.run signaledProgram signaledRun
  dsimp only
  rw [his]

/-- What was shown of runs, for runs with signals. -/
theorem signaledProgram_timely (hfw : Reliable fw) (m : M) (socket : σ) (signals : E → Bool)
    (inputs : List (SignalInput E)) :
    let r := signaledProgram p fw m socket signals inputs
    Timely p fw socket r.2 r.1.1 ∧ Settled p r.1.1.2.world.boot := by
  obtain ⟨is, his⟩ := exists_program p fw m socket signals inputs
  have htimely := program_timely hfw p m socket is
  have hsettled := program_settled p fw m socket is
  rw [his] at htimely hsettled
  exact ⟨htimely, hsettled⟩

/-- What the log of a reached state becomes when the run goes on. -/
theorem exists_new_log (fw : Firmware M E) {tr : List (Obs E)}
    {r : (Pc × State (SleepTask Body E) (Futures.World (World M σ) E) E) × (E → Bool)}
    (h : Timely p fw socket tr r.1) (inputs : List (SignalInput E)) :
    ∃ new, ((signaledLoop (sleepTasks (onMachine fw) (resume p))).run r inputs).1.1.2.world.boot.log
      = r.1.2.world.boot.log ++ new := by
  obtain ⟨is, his⟩ := exists_run_of_signaled (sleepTasks (onMachine fw) (resume p)) inputs r
  have hstart : HoldsAt (fun ids tasks w => Running p socket ids tasks w
      ∧ r.1.2.world.boot.log <+: w.boot.log) tr r.1.2 := ⟨h.running, List.prefix_refl _⟩
  have hgrown := hstart.run ((log_grows p r.1.2.world.boot.log).pollRule p fw socket) h.good is
  rw [his] at hgrown
  obtain ⟨new, hnew⟩ := hgrown.2
  exact ⟨new, hnew.symm⟩

/-- **An accepted request is booted.**  Consider any run on a firmware that gives the timers it is
asked for, and that returns the first signalled event, up to a wait for which the timer of the
network task has fired.  When more waits have returned since then than events were registered, the
web server has made an iteration.  If the clock of one of the iterations since then was past the
deadline of the request that was accepted last, and this was still pending, then it has been
attempted, or another one was accepted. -/
theorem accepted_request_is_booted (hfw : Reliable fw) (p : Platform M σ) (m : M) (socket : σ)
    (signals : E → Bool) (before inputs : List (SignalInput E)) (selection : BootSelection) (t : ℕ) :
    let r := (signaledProgram p fw m socket signals before).1
    let q := (signaledLoop (sleepTasks (onMachine fw) (resume p))).run r inputs
    r.1.1 = .waiting →
    (∀ timer ticks, (timer, networkTask) ∈ r.1.2.eventRegistry →
      (timer, ticks) ∈ r.1.2.world.armed → r.2 timer = true) →
    r.1.2.eventRegistry.length < okWaits q.2 →
    ∃ new, q.1.1.2.world.boot.log = r.1.2.world.boot.log ++ new
      ∧ (∃ ms, .network (.done ms) ∈ new)
      ∧ (latest (networkEvents r.1.2.world.boot.log) = some (.accepted selection t) →
        (∃ ms, .network (.done ms) ∈ new ∧ t + 500 ≤ ms) →
          (∃ images, .attempt .remote selection images ∈ new)
            ∨ ∃ selection' ms, .network (.accepted selection' ms) ∈ new) := by
  intro r q hwaiting hfired hwaits
  let tr := (signaledProgram p fw m socket signals before).2
  obtain ⟨htimely, hsettled⟩ : Timely p fw socket tr r.1 ∧ Settled p r.1.2.world.boot :=
    signaledProgram_timely hfw m socket signals before
  obtain ⟨htimely', hsettled'⟩ : Timely p fw socket (tr ++ q.2) q.1.1
      ∧ Settled p q.1.1.2.world.boot := by
    have h := signaledProgram_timely (p := p) hfw m socket signals (before ++ inputs)
    unfold signaledProgram at h
    rw [signaledRun_append] at h
    exact h
  obtain ⟨new, hnew⟩ : ∃ new, q.1.1.2.world.boot.log = r.1.2.world.boot.log ++ new :=
    exists_new_log fw htimely inputs
  have hwaits' : Timely p fw socket tr (.waiting, r.1.2) := by
    rw [← hwaiting]
    exact htimely
  -- the network task is polled, and so the web server makes an iteration
  obtain ⟨timer, ticks, hregistered, harmed, _, _⟩ := hwaits'.network_timer
  have hpolled : networkTask ∈ polledIds q.2 := polled_of_okWaits _ htimely.good hregistered
    (hfired timer ticks hregistered harmed) hwaits
  have hbefore := List.count_pos_iff.mpr hwaits'.network_polled
  have hbetween := List.count_pos_iff.mpr hpolled
  have hdone := htimely.running.iterations_eq
  have hdone' := htimely'.running.iterations_eq
  rw [hnew, networkEvents_append, List.countP_append, hdone, polledIds_append, List.count_append]
    at hdone'
  obtain ⟨event, hevent, hisDone⟩ :=
    List.countP_pos_iff.mp (show 0 < (networkEvents new).countP isDone by omega)
  obtain ⟨ms, rfl⟩ : ∃ ms, event = .done ms := by
    cases event with
    | done ms => exact ⟨ms, rfl⟩
    | received | sent | accepted | booted => cases hisDone
  refine ⟨new, hnew, ⟨ms, mem_networkEvents.mp hevent⟩, fun hlatest hlate => ?_⟩
  obtain ⟨ms', hdone, hlate⟩ := hlate
  by_cases haccepted : ∃ selection' ms, .network (.accepted selection' ms) ∈ new
  · exact Or.inr haccepted
  · have hnone : ∀ e ∈ networkEvents new, e.isAccepted = false := by
      intro e he
      cases e with
      | accepted selection' ms' => exact absurd ⟨_, _, mem_networkEvents.mp he⟩ haccepted
      | received | sent | booted | done => rfl
    have hright : Always Right (networkEvents r.1.2.world.boot.log ++ networkEvents new) := by
      obtain ⟨task, _, hat⟩ := htimely'.running.network
      obtain ⟨pending, _, iterations, _, hrun⟩ := hat.served
      have hgood := (network_good p.env socket iterations).1
      rw [hrun, hnew, networkEvents_append] at hgood
      exact hgood
    obtain ⟨_, state, sendQueue, hbooted⟩ := exists_booted hlate (networkEvents new) hright hlatest
      (mem_networkEvents.mpr hdone) hnone
    exact Or.inl (exists_attempt hsettled hsettled' hnew (List.mem_filterMap.mpr ⟨_, hbooted, rfl⟩))

/-- A client asks for Windows at 900 ms.  Time passes as timers are made. -/
def requestingPlatform : Platform ℕ Socket :=
  { idlePlatform with
    getMsSinceStart m := (300 * m, m)
    ifacePoll m ms :=
      (fun s => if ms = 900 then
          arrive "POST /boot/windows HTTP/1.1\r\n\r\n" { s with state := .established }
        else s, m) }

/-- The wait behind the iteration that accepts the request. -/
def requestedBoot :=
  (signaledProgram requestingPlatform countingFirmware 1 ⟨.closed, [], 0⟩ (fun _ => true)
    (List.replicate 5 .advance)).1

/-- Four waits later. -/
def laterBoot :=
  (signaledLoop (sleepTasks (onMachine countingFirmware) (resume requestingPlatform))).run
    requestedBoot (List.replicate 12 .advance)

theorem accepted_request_is_booted_client :
    ∃ images, .attempt .remote .windows images ∈ laterBoot.1.1.2.world.boot.log := by
  have htimer : ∀ entry ∈ requestedBoot.1.2.eventRegistry, entry.2 = networkTask →
      requestedBoot.2 entry.1 = true := by decide +kernel
  have hwaits : requestedBoot.1.2.eventRegistry.length < okWaits laterBoot.2 := by decide +kernel
  obtain ⟨new, hnew, _, hboot⟩ := accepted_request_is_booted countingFirmware_reliable
    requestingPlatform 1 ⟨.closed, [], 0⟩ (fun _ => true) (List.replicate 5 .advance)
    (List.replicate 12 .advance) .windows 900 (by decide +kernel)
    (fun timer _ hregistered _ => htimer (timer, networkTask) hregistered rfl) hwaits
  have hevents : networkEvents laterBoot.1.1.2.world.boot.log
      = networkEvents requestedBoot.1.2.world.boot.log
        ++ [.booted .windows 1500 .finWait1 85, .done 1500, .done 2100] := by decide +kernel
  unfold laterBoot requestedBoot at hevents
  rw [hnew, networkEvents_append] at hevents
  have hevents := List.append_cancel_left hevents
  have hdone : .network (.done 1500) ∈ new := by
    apply mem_networkEvents.mp
    rw [hevents]
    exact List.mem_cons_of_mem _ List.mem_cons_self
  have hbooted := hboot (by decide +kernel) ⟨1500, hdone, by omega⟩
  unfold laterBoot requestedBoot
  rw [hnew]
  rcases hbooted with ⟨images, hattempt⟩ | ⟨selection, ms, haccepted⟩
  · exact ⟨images, List.mem_append_right _ hattempt⟩
  · have hmem := mem_networkEvents.mpr haccepted
    rw [hevents] at hmem
    simp at hmem

end WebUiBoot.Program
