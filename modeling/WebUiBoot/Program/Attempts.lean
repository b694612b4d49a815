import WebUiBoot.Program.Running

/-!
# Boot attempts and what they answer

A boot attempt of the program is made by either task: at the end of an iteration of `run_network`,
or in `run_slint_ui`, by a callback of the window, by the variable `direct_boot`, or by a button.

* `requests` — what has been asked for, by whom, from the log;
* `Answers` — what has to stand in front of an attempt;
* `Accounted` / `program_settled` — what holds of the log in every state of every run;
* `attempts_answer_requests` — so each attempt answers one request and each request has its attempt.
-/

namespace WebUiBoot.Program

open WebUiBoot.Executor WebUiBoot.Futures WebUiBoot.Boot WebUiBoot.Net WebUiBoot.Web WebUiBoot.Ui
  WebUiBoot.Trace

variable {M σ : Type} {E : Type*}

/-! ### Requests and attempts -/

def windowStep (codes : KeyCodes) (window : AppWindow) : Event → AppWindow × List BootSelection
  | .key key => ((keyPressed codes window key).window, (denotes window.selectedIndex key).toList)
  | .clicked selection => (clickWindow selection, [])
  | _ => (window, [])

/-- What the window goes through, and the boots that its keys ask for. -/
def windowRun (codes : KeyCodes) (log : List Event) : AppWindow × List BootSelection :=
  (Machine.mk (windowStep codes)).run .new log

/-- What the direct keys ask for. -/
def directRequests (log : List Event) : List BootSelection :=
  log.filterMap fun
    | .key key => directBoot none key
    | _ => none

/-- What the buttons ask for. -/
def clickRequests (log : List Event) : List BootSelection :=
  log.filterMap fun
    | .clicked selection => some selection
    | _ => none

/-- What has been asked for.  Each key that the window boots for is a request to the window, and
each direct key one to the variable `direct_boot`. -/
def requests (codes : KeyCodes) (log : List Event) : Origin → List BootSelection
  | .remote => firedSelections (networkEvents log)
  | .callback => (windowRun codes log).2
  | .direct => directRequests log
  | .click => clickRequests log

/-- What has been attempted. -/
def attempts (log : List Event) (origin : Origin) : List BootSelection :=
  log.filterMap fun
    | .attempt origin' selection _ => if origin' = origin then some selection else none
    | _ => none

def Event.IsAttempt : Event → Prop
  | .attempt _ _ _ => True
  | _ => False

/-- The web server decides to boot a selection. -/
def Event.Fires (selection : BootSelection) (event : Event) : Prop :=
  ∃ ms state sendQueue, event = .network (.booted selection ms state sendQueue)

/-- A key asks for a direct boot of a selection. -/
def Event.AsksDirect (selection : BootSelection) (event : Event) : Prop :=
  ∃ key, event = .key key ∧ directBoot none key = some selection

/-- After this a direct key in front of it is not attempted. -/
def Event.EndsDirect : Event → Prop
  | .key k => IsDirect k
  | .attempt origin _ _ => origin ≠ .callback
  | _ => True

/-- What has to stand in front of an attempt.  The web server boots for its last decision; a
callback for the key that was read last, by what the window has selected at that time; the variable
`direct_boot` for the last direct key of the iteration; and a button for the last click. -/
def Answers (codes : KeyCodes) (past : List Event) : Event → Prop
  | .attempt .remote selection _ => Since (Event.Fires selection) Event.IsAttempt past
  | .attempt .callback selection _ => ∃ before key, past = before ++ [.key key]
      ∧ denotes (windowRun codes before).1.selectedIndex key = some selection
  | .attempt .direct selection _ => Since (Event.AsksDirect selection) Event.EndsDirect past
  | .attempt .click selection _ => ∃ before, past = before ++ [.clicked selection]
  | _ => True

variable {codes : KeyCodes} {log : List Event}

theorem windowRun_append (log' : List Event) : windowRun codes (log ++ log')
    = (((Machine.mk (windowStep codes)).run (windowRun codes log).1 log').1,
      (windowRun codes log).2
        ++ ((Machine.mk (windowStep codes)).run (windowRun codes log).1 log').2) :=
  Machine.run_append _ _ _ _

theorem windowRun_snoc (event : Event) : windowRun codes (log ++ [event])
    = ((windowStep codes (windowRun codes log).1 event).1,
      (windowRun codes log).2 ++ (windowStep codes (windowRun codes log).1 event).2) := by
  rw [windowRun_append, Machine.run_singleton]

theorem attempts_append (log' : List Event) (origin : Origin) :
    attempts (log ++ log') origin = attempts log origin ++ attempts log' origin :=
  List.filterMap_append

/-- An attempt asks for nothing. -/
theorem requests_attempt (origin origin' : Origin) (selection : BootSelection)
    (images : List ImageEvent) :
    requests codes (log ++ [.attempt origin' selection images]) origin
      = requests codes log origin := by
  cases origin with
  | remote => simp [requests, networkEvents]
  | callback => simp [requests, windowRun_snoc, windowStep]
  | direct => simp [requests, directRequests]
  | click => simp [requests, clickRequests]

theorem attempts_attempt (origin origin' : Origin) (selection : BootSelection)
    (images : List ImageEvent) :
    attempts (log ++ [.attempt origin' selection images]) origin
      = attempts log origin ++ if origin' = origin then [selection] else [] := by
  rw [attempts_append]
  by_cases h : origin' = origin
  · simp [attempts, h]
  · simp [attempts, h]

/-! ### One attempt at a time -/

/-- The log is in order, and the window is what it says.  Of what was asked for, all was attempted
but what is due now, and what is remembered in `direct_boot`. -/
structure Accounted (codes : KeyCodes) (due : Option (Origin × BootSelection))
    (direct : Option BootSelection) (log : List Event) (window : AppWindow) : Prop where
  answers : Always (Answers codes) log
  window_eq : (windowRun codes log).1 = window
  exact : ∀ origin, origin ≠ .direct →
    attempts log origin ++ (due.toList.filterMap fun d => if d.1 = origin then some d.2 else none)
      = requests codes log origin
  directs : (attempts log .direct ++ direct.toList).Sublist (requests codes log .direct)
  due_answers : ∀ origin selection images, due = some (origin, selection) →
    origin ≠ .direct ∧ Answers codes log (.attempt origin selection images)
  direct_answers : ∀ selection images, direct = some selection →
    Answers codes log (.attempt .direct selection images)

variable {due : Option (Origin × BootSelection)} {direct : Option BootSelection}
  {window : AppWindow}

/-- What is due is attempted. -/
theorem Accounted.attempt {origin : Origin} {selection : BootSelection}
    (h : Accounted codes (some (origin, selection)) direct log window)
    (hdirect : origin = .callback ∨ direct = none) (images : List ImageEvent) :
    Accounted codes none direct (log ++ [.attempt origin selection images]) window := by
  obtain ⟨horigin, hanswers⟩ := h.due_answers origin selection images rfl
  constructor
  · exact always_append_singleton.mpr ⟨h.answers, hanswers⟩
  · simpa [windowRun_snoc, windowStep] using h.window_eq
  · intro origin' horigin'
    rw [requests_attempt, attempts_attempt, ← h.exact origin' horigin']
    by_cases heq : origin = origin'
    · simp [heq]
    · simp [heq]
  · rw [requests_attempt, attempts_attempt, if_neg horigin, List.append_nil]
    exact h.directs
  · exact nofun
  · intro selection' images' hselection
    rcases hdirect with rfl | rfl
    · exact since_append_singleton.mpr
        (Or.inr ⟨h.direct_answers selection' images' hselection, fun hends => hends rfl⟩)
    · cases hselection

/-- What is remembered in `direct_boot` is attempted. -/
theorem Accounted.attempt_direct {selection : BootSelection}
    (h : Accounted codes none (some selection) log window) (images : List ImageEvent) :
    Accounted codes none none (log ++ [.attempt .direct selection images]) window := by
  constructor
  · exact always_append_singleton.mpr ⟨h.answers, h.direct_answers selection images rfl⟩
  · simpa [windowRun_snoc, windowStep] using h.window_eq
  · intro origin horigin
    rw [requests_attempt, attempts_attempt, if_neg horigin.symm, List.append_nil]
    exact h.exact origin horigin
  · rw [requests_attempt, attempts_attempt, if_pos rfl, Option.toList_none, List.append_nil]
    exact h.directs
  · exact nofun
  · exact nofun

/-! ### One request at a time -/

theorem directBoot_eq_or (direct : Option BootSelection) (key : Char) :
    directBoot direct key = (directBoot none key).or direct := by
  unfold directBoot
  split
  · rfl
  · split
    · rfl
    · rfl

theorem Accounted.key (h : Accounted codes none direct log window) (key : Char) :
    Accounted codes ((denotes window.selectedIndex key).map fun selection => (.callback, selection))
      (directBoot direct key) (log ++ [.key key]) (keyPressed codes window key).window := by
  have hdirects : requests codes (log ++ [.key key]) .direct
      = requests codes log .direct ++ (directBoot none key).toList := by
    cases hkey : directBoot none key with
    | none => simp [requests, directRequests, hkey]
    | some selection => simp [requests, directRequests, hkey]
  have hattempts : ∀ origin, attempts (log ++ [.key key]) origin = attempts log origin := by
    intro origin
    rw [attempts_append]
    exact List.append_nil _
  constructor
  · exact always_append_singleton.mpr ⟨h.answers, trivial⟩
  · simp [windowRun_snoc, windowStep, h.window_eq]
  · intro origin horigin
    rw [hattempts]
    have hexact := h.exact origin horigin
    cases origin with
    | direct => exact absurd rfl horigin
    | callback =>
        cases hkey : denotes window.selectedIndex key with
        | none => simpa [requests, windowRun_snoc, windowStep, h.window_eq, hkey] using hexact
        | some selection =>
            simpa [requests, windowRun_snoc, windowStep, h.window_eq, hkey] using hexact
    | remote | click =>
        cases denotes window.selectedIndex key with
        | none => simpa [requests, networkEvents, clickRequests] using hexact
        | some selection => simpa [requests, networkEvents, clickRequests] using hexact
  · rw [hattempts, hdirects, directBoot_eq_or]
    cases directBoot none key with
    | none => simpa using h.directs
    | some selection =>
        exact ((List.sublist_append_left _ _).trans h.directs).append (.refl [selection])
  · intro origin selection images hdue
    obtain ⟨selection', hkey, heq⟩ := Option.map_eq_some_iff.mp hdue
    cases heq
    exact ⟨by decide, log, key, rfl, h.window_eq ▸ hkey⟩
  · intro selection images hselection
    rw [directBoot_eq_or] at hselection
    cases hkey : directBoot none key with
    | none =>
        rw [hkey, Option.none_or] at hselection
        have hnot : ¬ IsDirect key := (directBoot_eq_none_iff.mp hkey).2
        exact since_append_singleton.mpr
          (Or.inr ⟨h.direct_answers selection images hselection, hnot⟩)
    | some selection' =>
        rw [hkey, Option.some_or] at hselection
        exact since_append_singleton.mpr (Or.inl ⟨key, rfl, hkey.trans hselection⟩)

theorem Accounted.clicked (h : Accounted codes none none log window) (selection : BootSelection) :
    Accounted codes (some (.click, selection)) none (log ++ [.clicked selection])
      (clickWindow selection) := by
  constructor
  · exact always_append_singleton.mpr ⟨h.answers, trivial⟩
  · simp [windowRun_snoc, windowStep]
  · intro origin horigin
    have hexact := h.exact origin horigin
    cases origin with
    | direct => exact absurd rfl horigin
    | remote => simpa [requests, attempts, networkEvents] using hexact
    | callback => simpa [requests, attempts, windowRun_snoc, windowStep] using hexact
    | click => simpa [requests, attempts, clickRequests] using hexact
  · simpa [requests, attempts, directRequests] using h.directs
  · intro origin selection' images hdue
    cases hdue
    exact ⟨by decide, log, rfl⟩
  · intro selection' images hselection
    cases hselection

/-! ### The web server -/

theorem windowRun_network (events : List Net.Event) (window : AppWindow) :
    (Machine.mk (windowStep codes)).run window (events.map .network) = (window, []) := by
  induction events with
  | nil => rfl
  | cons event events ih =>
      rw [List.map_cons, Machine.run_cons]
      exact congrArg (fun r => (r.1, [] ++ r.2)) ih

/-- A part of the log that has only entries of the web server. -/
theorem filterMap_network {α : Type*} {f : Event → Option α} (h : ∀ event, f (.network event) = none)
    (events : List Net.Event) : (events.map Event.network).filterMap f = [] := by
  rw [List.filterMap_map, List.filterMap_eq_nil_iff]
  exact fun event _ => h event

theorem attempts_network (events : List Net.Event) (origin : Origin) :
    attempts (log ++ events.map .network) origin = attempts log origin := by
  rw [attempts_append, show attempts (events.map .network) origin = [] from
    filterMap_network (fun _ => rfl) events, List.append_nil]

theorem requests_network (events : List Net.Event) (origin : Origin) :
    requests codes (log ++ events.map .network) origin
      = requests codes log origin ++ if origin = .remote then firedSelections events else [] := by
  cases origin with
  | remote =>
      have hevents : networkEvents (log ++ events.map .network) = networkEvents log ++ events := by
        rw [networkEvents, List.filterMap_append, List.filterMap_map]
        exact congrArg (networkEvents log ++ ·) List.filterMap_some
      show firedSelections (networkEvents (log ++ events.map .network)) = _
      rw [hevents, firedSelections, List.filterMap_append]
      rfl
  | callback =>
      show (windowRun codes (log ++ events.map .network)).2 = _
      rw [windowRun_append, windowRun_network]
      rfl
  | direct | click =>
      refine List.filterMap_append.trans (congrArg (_ ++ ·) ?_)
      exact filterMap_network (fun _ => rfl) events

theorem always_network (h : Always (Answers codes) log) (events : List Net.Event) :
    Always (Answers codes) (log ++ events.map .network) := by
  induction events using List.reverseRecOn with
  | nil => simpa using h
  | append_singleton events event ih =>
      rw [List.map_append, ← List.append_assoc]
      exact always_append_singleton.mpr ⟨ih, trivial⟩

/-- A decision among them is the last one behind all attempts. -/
theorem fires_network {events : List Net.Event} {selection : BootSelection}
    (h : selection ∈ firedSelections events) :
    Since (Event.Fires selection) Event.IsAttempt (log ++ events.map .network) := by
  obtain ⟨event, hevent, hselection⟩ := List.mem_filterMap.mp h
  obtain ⟨before, after, rfl⟩ := List.append_of_mem hevent
  refine since_append.mpr (Or.inl ⟨before.map .network, .network event, after.map .network, ?_, ?_,
    ?_⟩)
  · rw [List.map_append, List.map_cons]
  · cases event with
    | booted selection' ms state sendQueue =>
        cases hselection
        exact ⟨ms, state, sendQueue, rfl⟩
    | received | sent | accepted | done => cases hselection
  · intro event' hevent'
    obtain ⟨_, _, rfl⟩ := List.mem_map.mp hevent'
    exact id

/-- What the web server does in an iteration, with one decision at most. -/
theorem Accounted.served (h : Accounted codes none none log window) {events : List Net.Event}
    {fired : Option BootSelection} (hfired : firedSelections events = fired.toList) :
    Accounted codes (fired.map fun selection => (.remote, selection)) none
      (log ++ events.map .network) window := by
  constructor
  · exact always_network h.answers events
  · rw [windowRun_append, windowRun_network]
    exact h.window_eq
  · intro origin horigin
    have hexact : attempts log origin = requests codes log origin := by
      simpa using h.exact origin horigin
    rw [attempts_network, requests_network, hexact, hfired]
    cases fired with
    | none => simp
    | some selection =>
        by_cases hremote : Origin.remote = origin
        · simp [← hremote]
        · simp [hremote, Ne.symm hremote]
  · rw [attempts_network, requests_network]
    exact (List.append_nil (requests codes log .direct)).symm ▸ h.directs
  · intro origin selection images hdue
    obtain ⟨selection', hmem, heq⟩ := Option.map_eq_some_iff.mp hdue
    cases heq
    refine ⟨nofun, fires_network ?_⟩
    rw [hfired, hmem]
    exact List.mem_singleton_self selection
  · exact nofun

/-- What is done with a chunk is to receive it, to answer it and to accept a selection. -/
theorem receive_forall {P : Net.Event → Prop} (hreceived : ∀ chunk, P (.received chunk))
    (hsent : ∀ response, P (.sent response)) (haccepted : ∀ selection ms, P (.accepted selection ms))
    (env : Env σ) (ms : ℕ) (socket : σ) (pending : Pending) :
    ∀ e ∈ (receive env ms socket pending).2, P e := by
  unfold receive
  split
  · split
    · simp
    · split
      · simp
      · split
        · simp [hreceived]
        · split
          · simp [hreceived, hsent]
          · simp [hreceived, hsent, haccepted]
  · simp

/-- An iteration of the web server decides at most once, and does so at its end. -/
theorem iterate_fires (env : Env σ) (state : σ × Pending) (input : Net.Input σ) :
    ∃ fired : Option BootSelection, firedSelections (iterate env state input).2 = fired.toList := by
  have hreceive : ∀ ms socket pending, firedSelections (receive env ms socket pending).2 = [] := by
    intro ms socket pending
    apply List.filterMap_eq_nil_iff.mpr
    exact receive_forall (fun _ => rfl) (fun _ => rfl) (fun _ _ => rfl) env ms socket pending
  have hfire : ∀ ms socket pending, ∃ fired : Option BootSelection,
      firedSelections (fire env ms socket pending).2 = fired.toList := by
    intro ms socket pending
    unfold fire
    split
    · exact ⟨none, rfl⟩
    · split
      · exact ⟨some _, rfl⟩
      · exact ⟨none, rfl⟩
  let received := receive env input.ms (reopen env (input.poll state.1)) state.2
  obtain ⟨fired, hfired⟩ := hfire input.ms received.1.1 received.1.2
  refine ⟨fired, ?_⟩
  show firedSelections (received.2 ++ (fire env input.ms received.1.1 received.1.2).2
    ++ [.done input.ms]) = _
  rw [firedSelections, List.filterMap_append, List.filterMap_append]
  show firedSelections received.2 ++ firedSelections (fire _ _ _ _).2 ++ [] = _
  rw [hreceive, hfired, List.nil_append, List.append_nil]

/-! ### The two loops -/

variable (p : Platform M σ)

/-- The accounts of a world, when nothing is due. -/
def Settled (w : World M σ) : Prop := Accounted p.codes none none w.log w.window

variable {p}

theorem Settled.attempt {w : World M σ} {origin : Origin} {selection : BootSelection}
    (h : Accounted p.codes (some (origin, selection)) none w.log w.window) :
    Settled p (attempt p origin w selection) :=
  Accounted.attempt h (Or.inr rfl) _

/-- **One iteration of the web server.** -/
theorem Settled.network {w : World M σ} (h : Settled p w) (pending : Pending) :
    Settled p (networkIteration p w pending).1 := by
  let clock := p.getMsSinceStart w.machine
  let poll := p.ifacePoll clock.2 clock.1
  let r := iterate p.env (w.socket, pending) ⟨clock.1, poll.1⟩
  obtain ⟨fired, hfired⟩ := iterate_fires p.env (w.socket, pending) ⟨clock.1, poll.1⟩
  have hserved := Accounted.served h hfired
  show Settled p ((firedSelections r.2).foldl _ _)
  rw [show firedSelections r.2 = fired.toList from hfired]
  cases fired with
  | none => exact hserved
  | some selection => exact Accounted.attempt hserved (Or.inr rfl) _

/-- **One key.** -/
theorem dispatchKey_accounted {w : World M σ} {direct : Option BootSelection}
    (h : Accounted p.codes none direct w.log w.window) (key : Char) :
    Accounted p.codes none (directBoot direct key) (dispatchKey p w key).log
      (dispatchKey p w key).window := by
  have hkey := h.key key
  unfold dispatchKey
  dsimp only
  rw [keyPressed_callbacks]
  cases hdenotes : denotes w.window.selectedIndex key with
  | none =>
      rw [hdenotes] at hkey
      exact hkey
  | some selection =>
      rw [hdenotes] at hkey
      exact Accounted.attempt hkey (Or.inl rfl) _

/-- **The keys of an iteration.** -/
theorem dispatchKeys_accounted (keys : List Char) :
    ∀ {w : World M σ} {direct : Option BootSelection},
      Accounted p.codes none direct w.log w.window →
        Accounted p.codes none (dispatchKeys p w direct keys).2 (dispatchKeys p w direct keys).1.log
          (dispatchKeys p w direct keys).1.window := by
  induction keys with
  | nil => exact fun h => h
  | cons key keys ih => exact fun h => ih (dispatchKey_accounted h key)

theorem Settled.click {w : World M σ} (h : Settled p w) (selection : BootSelection) :
    Settled p (click p w selection) :=
  Accounted.attempt (Accounted.clicked h selection) (Or.inr rfl) _

theorem Settled.clicks {w : World M σ} (h : Settled p w) (selections : List BootSelection) :
    Settled p (selections.foldl (Program.click p) w) := by
  induction selections generalizing w with
  | nil => exact h
  | cons selection selections ih => exact ih (h.click selection)

/-- **One iteration of the user interface.** -/
theorem Settled.slint {w : World M σ} (h : Settled p w) : Settled p (slintIteration p w).1 := by
  let keys := p.getKeyPresses w.machine
  let r := dispatchKeys p { w with machine := keys.2 } none keys.1
  let w₁ := r.2.toList.foldl (Program.attempt p .direct) r.1
  let clicks := p.clicks w₁.machine
  have hkeys : Accounted p.codes none r.2 r.1.log r.1.window := dispatchKeys_accounted keys.1 h
  have hdirect : Settled p w₁ := by
    show Settled p (r.2.toList.foldl (Program.attempt p .direct) r.1)
    cases hselection : r.2 with
    | none =>
        rw [hselection] at hkeys
        exact hkeys
    | some selection =>
        rw [hselection] at hkeys
        exact hkeys.attempt_direct _
  exact Settled.clicks (w := { w₁ with machine := clicks.2 }) hdirect clicks.1

theorem settled_preserved (p : Platform M σ) : Preserved p (Settled p) where
  machine _ _ h := h
  network _ pending h := h.network pending
  slint _ h := h.slint

variable [DecidableEq E] (p : Platform M σ) (fw : Firmware M E) (m : M) (socket : σ)

/-- **Every state of every run.** -/
theorem program_settled (inputs : List (Executor.Input E)) :
    Settled p (program p fw m socket inputs).1.2.world.boot := by
  refine program_preserves p fw m socket (settled_preserved p) ?_ inputs
  refine ⟨always_nil, rfl, fun origin _ => ?_, List.Sublist.refl [], nofun, nofun⟩
  cases origin with
  | remote | callback | direct | click => rfl

/-- The boots that the web server decides on are no more than what it has accepted. -/
theorem length_fired_le (inputs : List (Executor.Input E)) :
    let events := networkEvents (program p fw m socket inputs).1.2.world.boot.log
    (firedSelections events).length ≤ events.countP Net.Event.isAccepted := by
  intro events
  have hfired : (firedSelections events).length = events.countP Net.Event.isBooted := by
    generalize events = events
    induction events with
    | nil => rfl
    | cons event events ih =>
        cases event with
        | booted selection ms state sendQueue =>
            rw [List.countP_cons_of_pos rfl]
            exact congrArg (· + 1) ih
        | received | sent | accepted | done => exact ih
  have hserved : ∃ iterations, ((network p.env).run (socket, .empty) iterations).2 = events := by
    obtain ⟨task, _, hat⟩ := (program_running p fw m socket inputs).network
    obtain ⟨_, _, iterations, _, hrun⟩ := hat.served
    exact ⟨iterations, congrArg Prod.snd hrun⟩
  obtain ⟨iterations, hrun⟩ := hserved
  have hright : Always Right events := hrun ▸ (network_good p.env socket iterations).1
  have hcount := countP_booted_le hright
  omega

/-- **Attempts answer requests.**  Whatever the machine, the client and the user do, in every state
of every run of both tasks: each boot attempt follows what it answers, and nothing stands in between
that would make it answer another request; the selections that the web server, the window and its
buttons attempt are just those that were asked for, in order; the variable `direct_boot` attempts
some of the direct keys; and the web server attempts no more than it has accepted. -/
theorem attempts_answer_requests (inputs : List (Executor.Input E)) :
    let log := (program p fw m socket inputs).1.2.world.boot.log
    Always (Answers p.codes) log
      ∧ (∀ origin, origin ≠ .direct → attempts log origin = requests p.codes log origin)
      ∧ (attempts log .direct).Sublist (requests p.codes log .direct)
      ∧ (attempts log .remote).length ≤ (networkEvents log).countP Net.Event.isAccepted := by
  intro log
  have hsettled := program_settled p fw m socket inputs
  have hexact : ∀ origin, origin ≠ .direct → attempts log origin = requests p.codes log origin :=
    fun origin horigin => (List.append_nil _).symm.trans (hsettled.exact origin horigin)
  refine ⟨hsettled.answers, hexact, ?_, ?_⟩
  · exact (List.append_nil (attempts log .direct)) ▸ hsettled.directs
  · rw [hexact .remote nofun]
    exact length_fired_le p fw m socket inputs

end WebUiBoot.Program
