import Mathlib.Data.List.Infix
import Mathlib.Data.List.Sort
import WebUiBoot.Boot.Entry

/-!
# Booting Linux directly

`find_all_entries` and `boot_linux_direct` of `src/boot.rs`: all entries of all volumes are
attempted, those of a fallback kernel last on each volume.

* `bootLinuxDirect` — what a request does with images, over all its attempts;
* `attempts` / `bootLinuxDirect_eq` — the attempts of a request, in order;
* `linux_starts_once_iff` — nothing is started after a kernel has come back exactly when no entry
  behind one that boots reaches `start_image`;
* `two_entries_start_twice` — two entries that boot are both started.
-/

namespace WebUiBoot.Boot

open WebUiBoot.Text

/-! ### The entries of a volume -/

/-- The loop over `read_entry`: the file names, until the directory ends or a call fails. -/
def readEntries : List (Except Status Str) → List Str
  | [] => []
  | .error _ :: _ => []
  | .ok name :: results =>
      if ".conf".toList.isSuffixOf name then name :: readEntries results else readEntries results

/-- `dir` is what comes of the directory, when it can be opened as one. -/
def findAllEntries (dir : Option (List (Except Status Str))) : Option (List Str) :=
  dir.map readEntries

/-- `contains("fallback")`. -/
def isFallback (entry : Str) : Bool := decide ("fallback".toList <:+: entry)

/-- The stable sort by `a_is_fallback.cmp(&b_is_fallback)`. -/
def sortEntries (entries : List Str) : List Str :=
  entries.insertionSort fun a b => isFallback a ≤ isFallback b

/-! ### The request -/

/-- The answers of a volume to one request. -/
structure LinuxVolume where
  openProtocol : Bool
  openVolume : Bool
  entriesDir : Option (List (Except Status Str))
  /-- For the attempts by their position in the sorted entries. -/
  attempt : ℕ → EntryIo

def entryPath (entryFilename : Str) : Str := "\\loader\\entries\\".toList ++ entryFilename

/-- The inner loop, from the entry with the position `k` on. -/
def attemptEntries (volume : LinuxVolume) (k : ℕ) : List Str → List ImageEvent
  | [] => []
  | entry :: entries =>
      let attempted := bootLinuxFromEntryFile (volume.attempt k) (entryPath entry)
      let next := attemptEntries volume (k + 1) entries
      match attempted.1 with
      | .error _ => attempted.2 ++ next
      -- the body of the loop ends here as well
      | .ok () => attempted.2 ++ next

/-- The outer loop. -/
def attemptVolumes : List LinuxVolume → List ImageEvent
  | [] => []
  | volume :: volumes =>
      if !volume.openProtocol then attemptVolumes volumes
      else if !volume.openVolume then attemptVolumes volumes
      else
        match findAllEntries volume.entriesDir with
        | none => attemptVolumes volumes
        | some entries => attemptEntries volume 0 (sortEntries entries) ++ attemptVolumes volumes

/-- `none` when `find_handles` fails. -/
def bootLinuxDirect : Option (List LinuxVolume) → List ImageEvent
  | none => []
  | some volumes => attemptVolumes volumes

/-! ### Attempts in order -/

/-- The entries of a volume in the order of the attempts: those of a fallback kernel last, and
otherwise as in the directory. -/
def orderedEntries (volume : LinuxVolume) : List Str :=
  if volume.openProtocol ∧ volume.openVolume then
    let entries := (findAllEntries volume.entriesDir).getD []
    entries.filter (fun entry => !isFallback entry) ++ entries.filter isFallback
  else []

/-- An attempt: the answers of the firmware, and the path of the entry file. -/
abbrev Attempt := EntryIo × Str

def volumeAttempts (volume : LinuxVolume) : List Attempt :=
  (orderedEntries volume).mapIdx fun k entry => (volume.attempt k, entryPath entry)

def attempts (volumes : List LinuxVolume) : List Attempt := volumes.flatMap volumeAttempts

theorem orderedInsert_fallback (entry : Str) (entries : List Str) :
    (entries.filter (fun e => !isFallback e) ++ entries.filter isFallback).orderedInsert
        (fun a b => isFallback a ≤ isFallback b) entry
      = (entry :: entries).filter (fun e => !isFallback e)
          ++ (entry :: entries).filter isFallback := by
  cases hentry : isFallback entry with
  | false =>
      rw [List.filter_cons_of_pos (by simp [hentry]), List.filter_cons_of_neg (by simp [hentry]),
        List.cons_append]
      cases entries.filter (fun e => !isFallback e) ++ entries.filter isFallback with
      | nil => rfl
      | cons e es =>
          show (if isFallback entry ≤ isFallback e then _ else _) = _
          rw [hentry, if_pos (Bool.false_le _)]
  | true =>
      rw [List.filter_cons_of_neg (by simp [hentry]), List.filter_cons_of_pos (by simp [hentry])]
      have hfront : ∀ front : List Str, (∀ e ∈ front, isFallback e = false) →
          (front ++ entries.filter isFallback).orderedInsert
              (fun a b => isFallback a ≤ isFallback b) entry
            = front ++ entry :: entries.filter isFallback := by
        intro front hall
        induction front with
        | nil =>
            rw [List.nil_append, List.nil_append]
            cases hback : entries.filter isFallback with
            | nil => rfl
            | cons e es =>
                have he : isFallback e = true := by
                  have hmem : e ∈ entries.filter isFallback := by
                    rw [hback]
                    exact List.mem_cons_self
                  exact (List.mem_filter.mp hmem).2
                show (if isFallback entry ≤ isFallback e then _ else _) = _
                rw [he, if_pos (Bool.le_true _)]
        | cons e front ih =>
            have he := hall e List.mem_cons_self
            have ih := ih fun e' he' => hall e' (List.mem_cons_of_mem _ he')
            show (if isFallback entry ≤ isFallback e then _ else _) = _
            rw [hentry, he, if_neg (by decide)]
            exact congrArg (e :: ·) ih
      exact hfront _ fun e he => by simpa using (List.mem_filter.mp he).2

/-- **The sort.**  It moves the fallback entries behind the others and does nothing else. -/
theorem sortEntries_eq (entries : List Str) :
    sortEntries entries
      = entries.filter (fun e => !isFallback e) ++ entries.filter isFallback := by
  unfold sortEntries
  induction entries with
  | nil => rfl
  | cons entry entries ih =>
      rw [List.insertionSort_cons, ih]
      exact orderedInsert_fallback entry entries

/-- The loop goes on whatever comes of an attempt. -/
theorem attemptEntries_cons (volume : LinuxVolume) (k : ℕ) (entry : Str) (entries : List Str) :
    attemptEntries volume k (entry :: entries)
      = (bootLinuxFromEntryFile (volume.attempt k) (entryPath entry)).2
        ++ attemptEntries volume (k + 1) entries := by
  rw [attemptEntries]
  cases (bootLinuxFromEntryFile (volume.attempt k) (entryPath entry)).1 with
  | error e => rfl
  | ok u => rfl

theorem attemptEntries_eq (volume : LinuxVolume) (entries : List Str) : ∀ k,
    attemptEntries volume k entries
      = (entries.mapIdx fun j entry => (volume.attempt (k + j), entryPath entry)).flatMap
          fun a => (bootLinuxFromEntryFile a.1 a.2).2 := by
  induction entries with
  | nil => exact fun _ => rfl
  | cons entry entries ih =>
      intro k
      have hshift : (fun j (e : Str) => (volume.attempt (k + 1 + j), entryPath e))
          = fun j e => (volume.attempt (k + (j + 1)), entryPath e) := by
        funext j e
        rw [Nat.add_assoc, Nat.add_comm 1 j]
      rw [attemptEntries_cons, ih, hshift, List.mapIdx_cons, List.flatMap_cons]
      rfl

/-- A loop over volumes that does `f` with the sorted entries of each: a volume that is skipped is
one without entries. -/
theorem skipped_volume_eq {α : Type*} (volume : LinuxVolume) (f : List Str → List α)
    (hnil : f [] = []) (next : List α) :
    (if !volume.openProtocol then next
      else if !volume.openVolume then next
      else
        match findAllEntries volume.entriesDir with
        | none => next
        | some entries => f (sortEntries entries) ++ next)
      = f (orderedEntries volume) ++ next := by
  unfold orderedEntries
  by_cases hopen : volume.openProtocol = true ∧ volume.openVolume = true
  · rw [if_pos hopen, hopen.1, hopen.2]
    cases findAllEntries volume.entriesDir with
    | none =>
        show next = f [] ++ next
        rw [hnil, List.nil_append]
    | some entries =>
        show f (sortEntries entries) ++ next = _
        rw [sortEntries_eq]
        rfl
  · rw [if_neg hopen, hnil, List.nil_append]
    cases hprotocol : volume.openProtocol with
    | false => rfl
    | true =>
        have hvolume : volume.openVolume = false := by
          simpa [hprotocol] using hopen
        rw [hvolume]
        rfl

theorem attemptVolumes_cons (volume : LinuxVolume) (volumes : List LinuxVolume) :
    attemptVolumes (volume :: volumes)
      = attemptEntries volume 0 (orderedEntries volume) ++ attemptVolumes volumes := by
  rw [attemptVolumes]
  exact skipped_volume_eq volume (attemptEntries volume 0) rfl (attemptVolumes volumes)

theorem attemptEntries_orderedEntries (volume : LinuxVolume) :
    attemptEntries volume 0 (orderedEntries volume)
      = (volumeAttempts volume).flatMap fun a => (bootLinuxFromEntryFile a.1 a.2).2 := by
  rw [attemptEntries_eq, volumeAttempts]
  simp only [Nat.zero_add]

/-- **The request.**  It makes all the attempts, whatever comes of each. -/
theorem bootLinuxDirect_eq (handles : Option (List LinuxVolume)) :
    bootLinuxDirect handles
      = (attempts (handles.getD [])).flatMap fun a => (bootLinuxFromEntryFile a.1 a.2).2 := by
  have hvolumes : ∀ volumes, attemptVolumes volumes
      = (attempts volumes).flatMap fun a => (bootLinuxFromEntryFile a.1 a.2).2 := by
    intro volumes
    induction volumes with
    | nil => rfl
    | cons volume volumes ih =>
        rw [attemptVolumes_cons, attemptEntries_orderedEntries, ih, attempts, attempts,
          List.flatMap_cons, List.flatMap_append]
  cases handles with
  | none => rfl
  | some volumes => exact hvolumes volumes

/-! ### At most one successful start -/

/-- Nothing is started after a success. -/
def NoStartAfterSuccess (events : List ImageEvent) : Prop :=
  events.Pairwise fun event later => event.IsSuccess → ¬ later.IsStart

/-- **When a request starts nothing after a success.**  For all volumes, listings and answers of the
firmware: exactly when no entry that is attempted after one that boots reaches `start_image`. -/
theorem linux_starts_once_iff (handles : Option (List LinuxVolume)) :
    NoStartAfterSuccess (bootLinuxDirect handles)
      ↔ (attempts (handles.getD [])).Pairwise fun a later =>
          Boots a.1 a.2 → ¬ ReachesStart later.1 later.2 := by
  rw [NoStartAfterSuccess, bootLinuxDirect_eq, List.pairwise_flatMap]
  have hone : ∀ a ∈ attempts (handles.getD []),
      (bootLinuxFromEntryFile a.1 a.2).2.Pairwise fun event later =>
        event.IsSuccess → ¬ later.IsStart := fun a _ => attempt_pairwise a.1 a.2
  rw [and_iff_right hone]
  -- two attempts: one has a success, and the other a start
  have htwo : ∀ a later : Attempt,
      (∀ event ∈ (bootLinuxFromEntryFile a.1 a.2).2,
        ∀ event' ∈ (bootLinuxFromEntryFile later.1 later.2).2,
          event.IsSuccess → ¬ event'.IsStart)
        ↔ (Boots a.1 a.2 → ¬ ReachesStart later.1 later.2) := by
    intro a later
    rw [← exists_isSuccess_iff, ← exists_isStart_iff]
    constructor
    · rintro h ⟨event, hevent, hsuccess⟩ ⟨event', hevent', hstart⟩
      exact h event hevent event' hevent' hsuccess hstart
    · intro h event hevent event' hevent' hsuccess hstart
      exact h ⟨event, hevent, hsuccess⟩ ⟨event', hevent', hstart⟩
  constructor
  · exact fun h => h.imp fun {a later} => (htwo a later).mp
  · exact fun h => h.imp fun {a later} => (htwo a later).mpr

/-- A file that can be read. -/
def readable (text : String) : FileIo := ⟨.ok (), true, .ok (), .ok (encodeUtf8 text.toList)⟩

/-- A volume with two entries whose kernels are started and come back. -/
def twoEntries : LinuxVolume where
  openProtocol := true
  openVolume := true
  entriesDir := some [.ok "a.conf".toList, .ok "b.conf".toList]
  attempt k :=
    { entryFile := readable "linux /k"
      kernelFile := fun _ => readable ""
      devicePath := .ok ()
      loadImage := .ok k
      openLoadedImage := .ok ()
      startImage := .ok () }

/-- **Two kernels.**  The second entry is started although the first was started successfully. -/
theorem two_entries_start_twice :
    bootLinuxDirect (some [twoEntries])
        = [.loaded 0 [], .optionsSet 0 [0] 2, .started 0 true,
            .loaded 1 [], .optionsSet 1 [0] 2, .started 1 true]
      ∧ ¬ NoStartAfterSuccess (bootLinuxDirect (some [twoEntries])) := by
  have hevents : bootLinuxDirect (some [twoEntries])
      = [.loaded 0 [], .optionsSet 0 [0] 2, .started 0 true,
          .loaded 1 [], .optionsSet 1 [0] 2, .started 1 true] := by
    decide
  refine ⟨hevents, ?_⟩
  rw [hevents, NoStartAfterSuccess]
  simp [ImageEvent.IsSuccess, ImageEvent.IsStart]

end WebUiBoot.Boot
