import WebUiBoot.Boot.Os

/-!
# Images

Every image that is loaded on the way to an operating system is started or unloaded, in
`boot_linux_from_entry_file`, `boot_linux_direct` and `boot_os` of `src/boot.rs`.

* `Attempted` — what one attempt may do with images; `attempted_entry`, `attempted_volume` — that
  there is nothing else;
* `ImagesReleased` — what is expected of a whole call;
* `ImagesReleased.flatMap` — a call that consists of attempts does it;
* `no_image_is_leaked` — and so `boot_os` and `boot_linux_direct` do.
-/

namespace WebUiBoot.Boot

open WebUiBoot.Text WebUiBoot.Trace WebUiBoot.Loop

/-! ### One attempt -/

/-- What an attempt does with images.  Only an image that is not from an entry file is started
without options. -/
inductive Attempted (fromEntry : Prop) : List ImageEvent → Prop
  | nothing : Attempted fromEntry []
  | unloaded (image : Image) (kernel : Bytes) :
      Attempted fromEntry [.loaded image kernel, .unloaded image]
  | failed (image : Image) (kernel : Bytes) (options : List UInt16) (size : UInt32) :
      Attempted fromEntry [.loaded image kernel, .optionsSet image options size,
        .started image false, .unloaded image]
  | succeeded (image : Image) (kernel : Bytes) (options : List UInt16) (size : UInt32) :
      Attempted fromEntry [.loaded image kernel, .optionsSet image options size,
        .started image true]
  | failedPlain (h : ¬ fromEntry) (image : Image) (buffer : Bytes) :
      Attempted fromEntry [.loaded image buffer, .started image false, .unloaded image]
  | succeededPlain (h : ¬ fromEntry) (image : Image) (buffer : Bytes) :
      Attempted fromEntry [.loaded image buffer, .started image true]

theorem attempted_entry (fromEntry : Prop) (io : EntryIo) (entryPath : Str) :
    Attempted fromEntry (bootLinuxFromEntryFile io entryPath).2 := by
  have hends := attemptEnds io entryPath
  generalize bootLinuxFromEntryFile io entryPath = result at hends ⊢
  cases hends with
  | unprepared h => exact .nothing
  | notLoaded h hload => exact .nothing
  | notOpened h hload hopen => exact .unloaded _ _
  | notConverted h hload hoptions => exact .unloaded _ _
  | failed h hload hopen hoptions hstart => exact .failed _ _ _ _
  | cameBack h hload hopen hoptions hstart => exact .succeeded _ _ _ _

theorem attempted_volume (path : Str) (volume : OsVolume) :
    Attempted (isSystemdEntry path = true) (bootVolume path volume).2 := by
  rcases bootVolume_cases path volume with
    ⟨_, heq⟩ | ⟨_, _, heq⟩ | ⟨hplain, _, image, buffer, heq⟩ | ⟨hplain, _, image, buffer, heq⟩
  · rw [heq]
    exact .nothing
  · rw [heq]
    exact attempted_entry _ volume.entry path
  · rw [heq]
    exact .failedPlain (by simp [hplain]) image buffer
  · rw [heq]
    exact .succeededPlain (by simp [hplain]) image buffer

/-! ### A whole call -/

def ImageEvent.IsLoad : ImageEvent → Prop
  | .loaded _ _ => True
  | _ => False

/-- The image is passed to `start_image` or to `unload_image`. -/
def ImageEvent.Releases (image : Image) (event : ImageEvent) : Prop :=
  (∃ success, event = .started image success) ∨ event = .unloaded image

/-- The image is loaded; a handle that was released may come back so. -/
def ImageEvent.Loads (image : Image) (event : ImageEvent) : Prop :=
  ∃ kernel, event = .loaded image kernel

def ImageEvent.SetsOptions (image : Image) (event : ImageEvent) : Prop :=
  ∃ options size, event = .optionsSet image options size

/-- What is expected of the images of a call. -/
structure ImagesReleased (fromEntry : Prop) (events : List ImageEvent) : Prop where
  /-- An image that was loaded is released before another one is loaded. -/
  released : ∀ past image kernel rest, events = past ++ .loaded image kernel :: rest →
    Before (ImageEvent.Releases image) ImageEvent.IsLoad rest
  /-- When it could not be started, it is unloaded. -/
  failed : ∀ past image rest, events = past ++ .started image false :: rest →
    Before (· = .unloaded image) ImageEvent.IsLoad rest
  /-- After a successful start it is not unloaded. -/
  kept : ∀ past image rest, events = past ++ .unloaded image :: rest →
    ¬ Since (· = .started image true) (ImageEvent.Loads image) past
  /-- When it comes from an entry file, its options are set before it is started. -/
  optionsSet : fromEntry → ∀ past image success rest,
    events = past ++ .started image success :: rest →
      Since (ImageEvent.SetsOptions image) (ImageEvent.Loads image) past

section
variable {fromEntry : Prop} {past rest : List ImageEvent} {image : Image}

theorem Attempted.released {kernel : Bytes}
    (h : Attempted fromEntry (past ++ .loaded image kernel :: rest)) :
    Before (ImageEvent.Releases image) ImageEvent.IsLoad rest := by
  generalize hevents : past ++ ImageEvent.loaded image kernel :: rest = events at h
  cases h <;> simp [List.append_eq_cons_iff, List.cons_eq_append_iff] at hevents
  all_goals
    obtain ⟨_, ⟨rfl, _⟩, rfl⟩ := hevents
    simp [before_cons, ImageEvent.Releases, ImageEvent.IsLoad]

theorem Attempted.unloaded_of_failed
    (h : Attempted fromEntry (past ++ .started image false :: rest)) :
    rest = [.unloaded image] := by
  generalize hevents : past ++ ImageEvent.started image false :: rest = events at h
  cases h <;> simp [List.append_eq_cons_iff, List.cons_eq_append_iff] at hevents
  all_goals
    obtain ⟨_, rfl, hrest⟩ := hevents
    exact hrest

/-- In front of an `unloaded` the image was loaded, and not started successfully. -/
theorem Attempted.before_unloaded
    (h : Attempted fromEntry (past ++ .unloaded image :: rest)) :
    (∃ event ∈ past, event.Loads image) ∧ .started image true ∉ past := by
  generalize hevents : past ++ ImageEvent.unloaded image :: rest = events at h
  cases h <;> simp [List.append_eq_cons_iff, List.cons_eq_append_iff] at hevents
  all_goals
    obtain ⟨rfl, rfl, _⟩ := hevents
    simp [ImageEvent.Loads]

theorem Attempted.optionsSet (hentry : fromEntry) {success : Bool}
    (h : Attempted fromEntry (past ++ .started image success :: rest)) :
    Since (ImageEvent.SetsOptions image) (ImageEvent.Loads image) past := by
  generalize hevents : past ++ ImageEvent.started image success :: rest = events at h
  cases h with
  | failed image' kernel options size | succeeded image' kernel options size =>
      simp [List.append_eq_cons_iff, List.cons_eq_append_iff] at hevents
      obtain ⟨rfl, ⟨rfl, _⟩, _⟩ := hevents
      exact ⟨[.loaded image kernel], .optionsSet image options size, [], rfl,
        ⟨options, size, rfl⟩, fun _ h => absurd h List.not_mem_nil⟩
  | nothing | unloaded =>
      simp [List.append_eq_cons_iff, List.cons_eq_append_iff] at hevents
  | failedPlain hplain | succeededPlain hplain => exact absurd hentry hplain

end

/-- **A call that consists of attempts.** -/
theorem ImagesReleased.flatMap {α : Type*} {fromEntry : Prop} {f : α → List ImageEvent}
    {xs : List α} (h : ∀ x ∈ xs, Attempted fromEntry (f x)) :
    ImagesReleased fromEntry (xs.flatMap f) := by
  -- an event of the call is one of an attempt
  have hattempt : ∀ {past event rest}, xs.flatMap f = past ++ event :: rest →
      ∃ earlier past' rest' later, Attempted fromEntry (past' ++ event :: rest')
        ∧ past = earlier ++ past' ∧ rest = rest' ++ later := by
    intro past event rest heq
    obtain ⟨before, x, after, past', rest', hxs, hx, hpast, hrest⟩ := exists_of_flatMap_eq heq
    exact ⟨before.flatMap f, past', rest', after.flatMap f, hx ▸ h x (by simp [hxs]), hpast, hrest⟩
  constructor
  · intro past image kernel rest heq
    obtain ⟨_, past', rest', later, hattempted, _, rfl⟩ := hattempt heq
    exact hattempted.released.append later
  · intro past image rest heq
    obtain ⟨_, past', rest', later, hattempted, _, rfl⟩ := hattempt heq
    rw [hattempted.unloaded_of_failed]
    exact ⟨[], .unloaded image, later, rfl, rfl, fun _ h => absurd h List.not_mem_nil⟩
  · intro past image rest heq hsince
    obtain ⟨earlier, past', rest', _, hattempted, rfl, _⟩ := hattempt heq
    obtain ⟨⟨event, hmem, hloads⟩, hnotstarted⟩ := hattempted.before_unloaded
    rcases since_append.mp hsince with hsince | ⟨_, hnoload⟩
    · obtain ⟨a, event', b, rfl, rfl, _⟩ := hsince
      exact hnotstarted (List.mem_append_right _ List.mem_cons_self)
    · exact hnoload event hmem hloads
  · intro hentry past image success rest heq
    obtain ⟨earlier, past', rest', _, hattempted, rfl, _⟩ := hattempt heq
    exact since_append.mpr (Or.inl (hattempted.optionsSet hentry))

/-- **No loaded image is leaked.**  For all volumes and entries and all answers of the firmware, a
call of `boot_os` or of `boot_linux_direct` releases every image that it loads before it loads
another one, unloads every image that it could not start, unloads none after a successful start,
and sets the options of every image from an entry file before it starts it. -/
theorem no_image_is_leaked (handles : Except Status (List OsVolume)) (path : Str)
    (linuxHandles : Option (List LinuxVolume)) :
    ImagesReleased (isSystemdEntry path = true) (imageEvents (bootOs handles path).2)
      ∧ ImagesReleased True (bootLinuxDirect linuxHandles) := by
  constructor
  · have htrials : ∀ tried : List OsVolume,
        ImagesReleased (isSystemdEntry path = true) (imageEvents (trials path tried)) := by
      intro tried
      rw [imageEvents_trials]
      exact ImagesReleased.flatMap fun v _ => attempted_volume path v
    cases handles with
    | error e => exact htrials []
    | ok volumes =>
        rcases bootOs_cases path volumes with ⟨_, heq⟩ | ⟨before, v, _, _, _, _, heq⟩
        · rw [heq]
          exact htrials volumes
        · rw [heq]
          exact htrials (before ++ [v])
  · rw [bootLinuxDirect_eq]
    exact ImagesReleased.flatMap fun a _ => attempted_entry True a.1 a.2

end WebUiBoot.Boot
