import WebUiBoot.Program.Attempts

/-!
# Images over a run

What all the boot attempts of a run do with images, one after the other.

* `FromAttempts` — events that come from any number of attempts to load an image;
* `Preserved.of_log` — what is said of the log holds when each entry of it preserves it;
* `no_image_outlives_its_attempt` — the images of all the boot attempts are released.
-/

namespace WebUiBoot.Program

open WebUiBoot.Executor WebUiBoot.Futures WebUiBoot.Boot WebUiBoot.Net WebUiBoot.Web WebUiBoot.Ui
  WebUiBoot.Trace

variable {M σ : Type}

/-! ### Events from attempts -/

/-- Events that come from attempts to load an image. -/
def FromAttempts (fromEntry : Prop) (events : List ImageEvent) : Prop :=
  ∃ pieces : List (List ImageEvent),
    (∀ piece ∈ pieces, Attempted fromEntry piece) ∧ pieces.flatten = events

theorem FromAttempts.released {fromEntry : Prop} {events : List ImageEvent}
    (h : FromAttempts fromEntry events) : ImagesReleased fromEntry events := by
  obtain ⟨pieces, hpieces, rfl⟩ := h
  rw [← List.flatMap_id]
  exact ImagesReleased.flatMap hpieces

theorem FromAttempts.append {fromEntry : Prop} {events events' : List ImageEvent}
    (h : FromAttempts fromEntry events) (h' : FromAttempts fromEntry events') :
    FromAttempts fromEntry (events ++ events') := by
  obtain ⟨pieces, hpieces, rfl⟩ := h
  obtain ⟨pieces', hpieces', rfl⟩ := h'
  exact ⟨pieces ++ pieces', List.forall_mem_append.mpr ⟨hpieces, hpieces'⟩, List.flatten_append⟩

theorem FromAttempts.flatMap {α : Type*} {fromEntry : Prop} {f : α → List ImageEvent}
    (xs : List α) (h : ∀ x, Attempted fromEntry (f x)) : FromAttempts fromEntry (xs.flatMap f) :=
  ⟨xs.map f, List.forall_mem_map.mpr fun x _ => h x, rfl⟩

theorem attempted_mono {P Q : Prop} (hPQ : Q → P) {events : List ImageEvent}
    (h : Attempted P events) : Attempted Q events := by
  cases h with
  | nothing => exact .nothing
  | unloaded => exact .unloaded _ _
  | failed => exact .failed _ _ _ _
  | succeeded => exact .succeeded _ _ _ _
  | failedPlain hplain => exact .failedPlain (fun hQ => hplain (hPQ hQ)) _ _
  | succeededPlain hplain => exact .succeededPlain (fun hQ => hplain (hPQ hQ)) _ _

theorem bootOs_fromAttempts (handles : Except Status (List OsVolume)) (path : Text.Str) :
    FromAttempts (isSystemdEntry path = true) (imageEvents (bootOs handles path).2) := by
  have htrials : ∀ tried : List OsVolume,
      FromAttempts (isSystemdEntry path = true) (imageEvents (trials path tried)) := by
    intro tried
    rw [imageEvents_trials]
    exact FromAttempts.flatMap tried (attempted_volume path)
  cases handles with
  | error e => exact htrials []
  | ok volumes =>
      rcases bootOs_cases path volumes with ⟨_, heq⟩ | ⟨before, v, _, _, _, _, heq⟩
      · rw [heq]
        exact htrials volumes
      · rw [heq]
        exact htrials (before ++ [v])

theorem bootLinuxDirect_fromAttempts (handles : Option (List LinuxVolume)) :
    FromAttempts True (bootLinuxDirect handles) := by
  rw [bootLinuxDirect_eq]
  exact FromAttempts.flatMap _ fun a => attempted_entry True a.1 a.2

/-! ### The log -/

/-- What the attempts for some selections have done with images. -/
def attemptImages (selections : List BootSelection) (log : List Event) : List ImageEvent :=
  log.flatMap fun
    | .attempt _ selection images => if selection ∈ selections then images else []
    | _ => []

/-- **One boot attempt.**  All images of Linux come from entries. -/
theorem bootImages_fromAttempts (p : Platform M σ) (m : M)
    (selection : BootSelection) :
    FromAttempts (selection = .linux) (bootImages p m selection) := by
  cases selection with
  | windows =>
      obtain ⟨pieces, hpieces, heq⟩ := bootOs_fromAttempts (p.osHandles m) windowsPath
      exact ⟨pieces, fun piece hpiece => attempted_mono nofun (hpieces piece hpiece), heq⟩
  | linux =>
      obtain ⟨pieces, hpieces, heq⟩ := bootLinuxDirect_fromAttempts (p.linuxHandles m)
      exact ⟨pieces, fun piece hpiece => attempted_mono (fun _ => trivial) (hpieces piece hpiece),
        heq⟩

/-- What is said of the log holds when each entry of it preserves it. -/
theorem Preserved.of_log (p : Platform M σ) {J : List Event → Prop}
    (hattempt : ∀ log origin m selection, J log →
      J (log ++ [.attempt origin selection (bootImages p m selection)]))
    (hother : ∀ log event, ¬ event.IsAttempt → J log → J (log ++ [event])) :
    Preserved p fun w => J w.log := by
  have hattempts : ∀ origin (selections : List BootSelection) (w : World M σ), J w.log →
      J (selections.foldl (Program.attempt p origin) w).log := by
    intro origin selections
    induction selections with
    | nil => exact fun _ h => h
    | cons selection selections ih => exact fun w h => ih _ (hattempt w.log origin _ selection h)
  have hkeys : ∀ keys (w : World M σ) direct, J w.log → J (dispatchKeys p w direct keys).1.log := by
    intro keys
    induction keys with
    | nil => exact fun _ _ h => h
    | cons key keys ih =>
        exact fun w direct h => ih _ _ (hattempts .callback _ _ (hother w.log _ id h))
  have hclicks : ∀ (selections : List BootSelection) (w : World M σ), J w.log →
      J (selections.foldl (Program.click p) w).log := by
    intro selections
    induction selections with
    | nil => exact fun _ h => h
    | cons selection selections ih =>
        exact fun w h => ih _ (hattempt _ .click _ selection (hother w.log _ id h))
  constructor
  · exact fun _ _ h => h
  · intro w pending h
    refine hattempts .remote _ _ ?_
    generalize (iterate p.env (w.socket, pending) _).2 = events
    show J (w.log ++ events.map .network)
    induction events using List.reverseRecOn with
    | nil => simpa using h
    | append_singleton events event ih =>
        rw [List.map_append, ← List.append_assoc]
        exact hother _ _ id ih
  · intro w h
    let keys := p.getKeyPresses w.machine
    let r := dispatchKeys p { w with machine := keys.2 } none keys.1
    have hr : J (r.2.toList.foldl (Program.attempt p .direct) r.1).log :=
      hattempts .direct _ _ (hkeys keys.1 _ none h)
    exact hclicks _ _ hr

theorem fromAttempts_preserved (p : Platform M σ) {fromEntry : Prop}
    {selections : List BootSelection}
    (h : ∀ selection ∈ selections, fromEntry → selection = .linux) :
    Preserved p fun w => FromAttempts fromEntry (attemptImages selections w.log) := by
  refine Preserved.of_log p
    (J := fun log => FromAttempts fromEntry (attemptImages selections log)) ?_ ?_
  · intro log origin m selection hlog
    rw [attemptImages, List.flatMap_append]
    refine hlog.append ?_
    show FromAttempts fromEntry ((if selection ∈ selections then _ else []) ++ [])
    rw [List.append_nil]
    by_cases hmem : selection ∈ selections
    · rw [if_pos hmem]
      obtain ⟨pieces, hpieces, heq⟩ := bootImages_fromAttempts p m selection
      exact ⟨pieces, fun piece hpiece => attempted_mono (h selection hmem) (hpieces piece hpiece),
        heq⟩
    · rw [if_neg hmem]
      exact ⟨[], nofun, rfl⟩
  · intro log event hevent hlog
    rw [attemptImages, List.flatMap_append]
    refine hlog.append ?_
    cases event with
    | attempt => exact absurd trivial hevent
    | network | key | clicked => exact ⟨[], nofun, rfl⟩

/-- **No image outlives its attempt.**  Over every run of both tasks, with any number of boot
attempts by the client and the user: each image that is loaded is released before another one is,
by whatever attempt; an image that could not be started is unloaded at once, and one that was is
not unloaded; and the options of the images of Linux are set before they are started. -/
theorem no_image_outlives_its_attempt {E : Type*} [DecidableEq E] (p : Platform M σ)
    (fw : Firmware M E) (m : M) (socket : σ) (inputs : List (Executor.Input E)) :
    let log := (program p fw m socket inputs).1.2.world.boot.log
    ImagesReleased False (attemptImages [.windows, .linux] log)
      ∧ ImagesReleased True (attemptImages [.linux] log) := by
  intro log
  have hpreserved : ∀ {fromEntry : Prop} {selections : List BootSelection},
      (∀ selection ∈ selections, fromEntry → selection = .linux) →
        ImagesReleased fromEntry (attemptImages selections log) :=
    fun h => (program_preserves p fw m socket (fromAttempts_preserved p h) ⟨[], nofun, rfl⟩
      inputs).released
  exact ⟨hpreserved fun _ _ => nofun, hpreserved fun _ hlinux _ => List.mem_singleton.mp hlinux⟩

end WebUiBoot.Program
