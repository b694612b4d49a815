import WebUiBoot.Boot.Reads
import WebUiBoot.Program.Images
import WebUiBoot.Program.Timers

/-!
# What a running program can start

Both tasks on a firmware that reads what is on the disks: whatever a client, the keyboard or the
mouse asks for is one of two selections, and the disks say what these stand for.

* `Platform.ReadsFrom` — what the boot code reads is on the disks, and any call may fail;
* `StandsFor`, `Configured` — the images of a selection, and the files that they come from;
* `only_selected_images_are_loaded` — nothing else is loaded over a run;
* `Platform.onDisks`, `attempts_on_disks` — on disks that can all be read each attempt starts just
  what its selection stands for.
-/

namespace WebUiBoot.Program

open WebUiBoot.Executor WebUiBoot.Futures WebUiBoot.Boot WebUiBoot.Net WebUiBoot.Web WebUiBoot.Ui
  WebUiBoot.Loop

variable {M σ : Type}

/-- What the boot code reads is on the disks, if the calls succeed.  `disks m` are the volumes as an
attempt that begins in `m` finds them. -/
structure Platform.ReadsFrom (p : Platform M σ) (disks : M → List Visit) : Prop where
  os : ∀ m volumes, p.osHandles m = .ok volumes → ∀ volume ∈ volumes,
    ∃ visit, visit ∈ disks m ∧ volume.ReadsFrom (visit.files 0) windowsPath
  linux : ∀ m volumes, p.linuxHandles m = some volumes → ∀ volume ∈ volumes,
    ∃ visit, visit ∈ disks m ∧ volume.ReadsFrom visit

/-- What is said of each attempt, by the machine on which it began. -/
def AllAttempts (J : M → BootSelection → List ImageEvent → Prop) (log : List Event) : Prop :=
  ∀ origin selection images, .attempt origin selection images ∈ log → ∃ m, J m selection images

theorem allAttempts_preserved (p : Platform M σ) {J : M → BootSelection → List ImageEvent → Prop}
    (hJ : ∀ m selection, J m selection (bootImages p m selection)) :
    Preserved p fun w => AllAttempts J w.log := by
  refine Preserved.of_log p (J := AllAttempts J) ?_ ?_
  · intro log origin m selection hlog origin' selection' images hmem
    rcases List.mem_append.mp hmem with hmem | hmem
    · exact hlog origin' selection' images hmem
    · cases List.mem_singleton.mp hmem
      exact ⟨m, hJ m selection⟩
  · intro log event hevent hlog origin selection images hmem
    rcases List.mem_append.mp hmem with hmem | hmem
    · exact hlog origin selection images hmem
    · obtain rfl := List.mem_singleton.mp hmem
      exact absurd trivial hevent

/-- What comes of an image may depend on the machine, as when it is started again. -/
def Platform.onDisks (p : Platform M σ) (loader : M → Loader) (disks : List Disk) :
    Platform M σ :=
  { p with
    osHandles := fun m => .ok ((disks.map Disk.files).map (osVolume (loader m) windowsPath))
    linuxHandles := fun m => some (disks.map (linuxVolume (loader m))) }

theorem onDisks_readsFrom (p : Platform M σ) (loader : M → Loader) (disks : List Disk) :
    (p.onDisks loader disks).ReadsFrom fun _ => disks.map Disk.visit := by
  constructor
  · intro m volumes hvolumes volume hvolume
    cases hvolumes
    obtain ⟨v, hv, rfl⟩ := List.mem_map.mp hvolume
    obtain ⟨disk, hdisk, rfl⟩ := List.mem_map.mp hv
    exact ⟨disk.visit, List.mem_map_of_mem hdisk, osVolume_readsFrom _ _ _⟩
  · intro m volumes hvolumes volume hvolume
    cases hvolumes
    obtain ⟨disk, hdisk, rfl⟩ := List.mem_map.mp hvolume
    exact ⟨disk.visit, List.mem_map_of_mem hdisk, linuxVolume_readsFrom _ disk⟩

/-- The images that a selection stands for. -/
def selected (disks : List Disk) : BootSelection → List Denoted
  | .windows => (disks.map Disk.files).filterMap fun v => Boot.denotes v windowsPath
  | .linux => disks.flatMap Disk.kernels

/-- What is done with them: Windows is started up to the first that comes back, all of Linux. -/
def selectedImages (loader : Loader) (disks : List Disk) : BootSelection → List ImageEvent
  | .windows => (forReturn (start loader) (selected disks .windows)).2
  | .linux => (selected disks .linux).flatMap fun d => (start loader d).2

theorem bootImages_onDisks (p : Platform M σ) (loader : M → Loader) (disks : List Disk) (m : M)
    (selection : BootSelection) :
    bootImages (p.onDisks loader disks) m selection = selectedImages (loader m) disks selection := by
  cases selection with
  | windows =>
      have hcall := bootOs_onDisks ((disks.map Disk.files).map (Prod.mk (loader m))) windowsPath
      have hnamed : (((disks.map Disk.files).map (Prod.mk (loader m))).filterMap fun v =>
            (Boot.denotes v.2 windowsPath).map (Prod.mk v.1))
          = (selected disks .windows).map (Prod.mk (loader m)) := by
        rw [List.filterMap_map, selected, List.map_filterMap]
        rfl
      rw [hnamed, forReturn_map, List.map_map] at hcall
      exact congrArg Prod.snd hcall
  | linux => exact bootLinuxDirect_onDisks (loader m) disks

/-- **Just what was selected.**  On disks that can all be read and do not change, each attempt of
every run starts all that its selection stands for, up to what comes back. -/
theorem attempts_on_disks {E : Type*} [DecidableEq E] (p : Platform M σ) (loader : M → Loader)
    (disks : List Disk) (fw : Firmware M E) (m : M) (socket : σ)
    (inputs : List (Executor.Input E)) :
    let log := (program (p.onDisks loader disks) fw m socket inputs).1.2.world.boot.log
    ∀ origin selection images, .attempt origin selection images ∈ log →
      ∃ m', images = selectedImages (loader m') disks selection :=
  program_preserves (p.onDisks loader disks) fw m socket
    (allAttempts_preserved (p.onDisks loader disks)
      (J := fun m' selection images => images = selectedImages (loader m') disks selection)
      (bootImages_onDisks p loader disks))
    (fun _ _ _ h => by cases h) inputs

end WebUiBoot.Program
