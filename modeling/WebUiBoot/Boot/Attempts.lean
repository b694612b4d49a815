import WebUiBoot.Boot.LinuxDirect

/-!
# The attempts of a request

Which calls of `boot_linux_from_entry_file` a call of `boot_linux_direct` in `src/boot.rs` makes, and
in which order.

* `linuxCalls` — the loops with a log of the calls; `bootLinuxDirect_eq_linuxCalls` — that they are
  those of `bootLinuxDirect`;
* `linuxCalls_map` — the calls, volume by volume;
* `entries_attempted_in_order` — every entry once, in order.
-/

namespace WebUiBoot.Boot

open WebUiBoot.Text

/-- A call on the volume with an index in handle order, and what came of it. -/
structure EntryCall where
  volume : ℕ
  path : Str
  outcome : Except Status Unit × List ImageEvent

/-- The inner loop, from the entry with the position `k` on. -/
def entryCalls (volume : LinuxVolume) (i k : ℕ) : List Str → List EntryCall
  | [] => []
  | entry :: entries =>
      let attempted := bootLinuxFromEntryFile (volume.attempt k) (entryPath entry)
      let next := entryCalls volume i (k + 1) entries
      match attempted.1 with
      | .error _ => ⟨i, entryPath entry, attempted⟩ :: next
      | .ok () => ⟨i, entryPath entry, attempted⟩ :: next

/-- The outer loop, from the volume with the index `i` on. -/
def volumeCalls (i : ℕ) : List LinuxVolume → List EntryCall
  | [] => []
  | volume :: volumes =>
      if !volume.openProtocol then volumeCalls (i + 1) volumes
      else if !volume.openVolume then volumeCalls (i + 1) volumes
      else
        match findAllEntries volume.entriesDir with
        | none => volumeCalls (i + 1) volumes
        | some entries =>
            entryCalls volume i 0 (sortEntries entries) ++ volumeCalls (i + 1) volumes

def linuxCalls : Option (List LinuxVolume) → List EntryCall
  | none => []
  | some volumes => volumeCalls 0 volumes

theorem entryCalls_cons (volume : LinuxVolume) (i k : ℕ) (entry : Str) (entries : List Str) :
    entryCalls volume i k (entry :: entries)
      = ⟨i, entryPath entry, bootLinuxFromEntryFile (volume.attempt k) (entryPath entry)⟩
        :: entryCalls volume i (k + 1) entries := by
  rw [entryCalls]
  cases (bootLinuxFromEntryFile (volume.attempt k) (entryPath entry)).1 with
  | error e => rfl
  | ok u => rfl

/-- The calls on a volume, those of a volume that is skipped being none. -/
theorem volumeCalls_cons (i : ℕ) (volume : LinuxVolume) (volumes : List LinuxVolume) :
    volumeCalls i (volume :: volumes)
      = entryCalls volume i 0 (orderedEntries volume) ++ volumeCalls (i + 1) volumes := by
  rw [volumeCalls]
  exact skipped_volume_eq volume (entryCalls volume i 0) rfl (volumeCalls (i + 1) volumes)

/-! ### The log -/

theorem attemptEntries_eq_entryCalls (volume : LinuxVolume) (i : ℕ) (entries : List Str) : ∀ k,
    attemptEntries volume k entries
      = (entryCalls volume i k entries).flatMap fun call => call.outcome.2 := by
  induction entries with
  | nil => exact fun _ => rfl
  | cons entry entries ih =>
      intro k
      rw [entryCalls_cons, List.flatMap_cons, ← ih (k + 1), attemptEntries_cons]

/-- What a request does with images is what its calls do. -/
theorem bootLinuxDirect_eq_linuxCalls (handles : Option (List LinuxVolume)) :
    bootLinuxDirect handles = (linuxCalls handles).flatMap fun call => call.outcome.2 := by
  have hvolumes : ∀ (volumes : List LinuxVolume) (i : ℕ), attemptVolumes volumes
      = (volumeCalls i volumes).flatMap fun call => call.outcome.2 := by
    intro volumes
    induction volumes with
    | nil => exact fun _ => rfl
    | cons volume volumes ih =>
        intro i
        rw [attemptVolumes_cons, volumeCalls_cons, List.flatMap_append,
          ← attemptEntries_eq_entryCalls, ← ih (i + 1)]
  cases handles with
  | none => rfl
  | some volumes => exact hvolumes volumes 0

/-- The calls on a volume are those of its entries, in order. -/
theorem entryCalls_map (volume : LinuxVolume) (i : ℕ) (entries : List Str) : ∀ k,
    (entryCalls volume i k entries).map (fun call => (call.volume, call.path))
      = entries.map fun entry => (i, entryPath entry) := by
  induction entries with
  | nil => exact fun _ => rfl
  | cons entry entries ih =>
      intro k
      rw [entryCalls_cons, List.map_cons, ih, List.map_cons]

/-- **The calls.**  Volume by volume, and on each the entries in their order. -/
theorem linuxCalls_map (volumes : List LinuxVolume) :
    (linuxCalls (some volumes)).map (fun call => (call.volume, call.path))
      = volumes.zipIdx.flatMap fun v =>
          (orderedEntries v.1).map fun entry => (v.2, entryPath entry) := by
  have hfrom : ∀ i, (volumeCalls i volumes).map (fun call => (call.volume, call.path))
      = (volumes.zipIdx i).flatMap fun v =>
          (orderedEntries v.1).map fun entry => (v.2, entryPath entry) := by
    induction volumes with
    | nil => exact fun _ => rfl
    | cons volume volumes ih =>
        intro i
        rw [volumeCalls_cons, List.map_append, ih, entryCalls_map, List.zipIdx_cons,
          List.flatMap_cons]
  exact hfrom 0

/-! ### Complete listings -/

/-- `ends_with(".conf")`. -/
def isConf (name : Str) : Bool := ".conf".toList.isSuffixOf name

/-- The directory is read to its end. -/
def ReadWithoutError (volume : LinuxVolume) : Prop :=
  ∀ results, volume.entriesDir = some results → ∀ result ∈ results, ∃ name, result = .ok name

/-- The names in the entries directory; none when the volume cannot be opened or has no such
directory. -/
def directoryNames (volume : LinuxVolume) : List Str :=
  if volume.openProtocol ∧ volume.openVolume then
    (volume.entriesDir.getD []).filterMap Except.toOption
  else []

theorem readEntries_eq_filter {results : List (Except Status Str)}
    (h : ∀ result ∈ results, ∃ name, result = .ok name) :
    readEntries results = (results.filterMap Except.toOption).filter isConf := by
  induction results with
  | nil => rfl
  | cons result results ih =>
      obtain ⟨name, rfl⟩ := h result List.mem_cons_self
      have ih := ih fun result' hresult' => h result' (List.mem_cons_of_mem _ hresult')
      rw [readEntries, ih, List.filterMap_cons_some (show Except.toOption _ = some name from rfl)]
      by_cases hconf : isConf name = true
      · rw [List.filter_cons_of_pos hconf]
        exact if_pos hconf
      · rw [List.filter_cons_of_neg hconf]
        exact if_neg hconf

/-- The entries of a volume, when its directory is read to its end. -/
theorem orderedEntries_eq {volume : LinuxVolume} (h : ReadWithoutError volume) :
    orderedEntries volume
      = ((directoryNames volume).filter isConf).filter (fun entry => !isFallback entry)
        ++ ((directoryNames volume).filter isConf).filter isFallback := by
  unfold orderedEntries directoryNames
  by_cases hopen : volume.openProtocol = true ∧ volume.openVolume = true
  · rw [if_pos hopen, if_pos hopen]
    cases hdir : volume.entriesDir with
    | none => rfl
    | some results =>
        have hentries : (findAllEntries (some results)).getD []
            = (results.filterMap Except.toOption).filter isConf :=
          readEntries_eq_filter (h results hdir)
        dsimp only
        rw [hentries]
        rfl
  · rw [if_neg hopen, if_neg hopen]
    rfl

/-- **Completely and in order.**  For all volumes whose directories are read without an error, and
whatever comes of the attempts: they are made volume by volume in handle order, on each volume for
every name that ends in `.conf` once, those of fallback entries behind the others, and both in the
order of the directory.  Volumes that cannot be opened or have no entries directory have no names,
and change nothing for the others. -/
theorem entries_attempted_in_order (volumes : List LinuxVolume)
    (hread : ∀ volume ∈ volumes, ReadWithoutError volume) :
    (linuxCalls (some volumes)).map (fun call => (call.volume, call.path))
        = volumes.zipIdx.flatMap (fun v =>
            (orderedEntries v.1).map fun entry => (v.2, entryPath entry))
      ∧ ∀ volume ∈ volumes,
          (orderedEntries volume).Perm ((directoryNames volume).filter isConf)
            ∧ ((orderedEntries volume).Pairwise fun entry later =>
                isFallback entry = true → isFallback later = true)
            ∧ ∀ b, (orderedEntries volume).filter (fun entry => isFallback entry = b)
                = ((directoryNames volume).filter isConf).filter fun entry =>
                    isFallback entry = b := by
  refine ⟨linuxCalls_map volumes, fun volume hvolume => ?_⟩
  rw [orderedEntries_eq (hread volume hvolume)]
  generalize (directoryNames volume).filter isConf = entries
  refine ⟨?_, ?_, fun b => ?_⟩
  · have hperm := List.filter_append_perm isFallback entries
    exact List.perm_append_comm.trans hperm
  · rw [List.pairwise_append]
    refine ⟨?_, ?_, ?_⟩
    · exact List.pairwise_of_forall_mem_list fun entry hentry _ _ hfallback => by
        simp [hfallback] at hentry
    · exact List.pairwise_of_forall_mem_list fun _ _ later hlater _ => by
        simpa using (List.mem_filter.mp hlater).2
    · exact fun _ _ later hlater _ => (List.mem_filter.mp hlater).2
  · rw [List.filter_append, List.filter_filter, List.filter_filter]
    cases b with
    | false => simp
    | true => simp

/-- A volume with a directory. -/
def withNames (names : List Str) : LinuxVolume :=
  { twoEntries with entriesDir := some (names.map Except.ok) }

theorem withNames_read (names : List Str) : ReadWithoutError (withNames names) := by
  intro results hresults result hresult
  rw [← Option.some.inj hresults] at hresult
  obtain ⟨name, _, rfl⟩ := List.mem_map.mp hresult
  exact ⟨name, rfl⟩

/-- A fallback entry that comes first in its directory is attempted last. -/
theorem fallback_entry_attempted_last :
    (linuxCalls (some [withNames [],
        withNames ["a-fallback.conf".toList, "a.efi".toList, "b.conf".toList]])).map
          (fun call => (call.volume, call.path))
      = [(1, "\\loader\\entries\\b.conf".toList),
          (1, "\\loader\\entries\\a-fallback.conf".toList)] :=
  (entries_attempted_in_order _ (by
    intro volume hvolume
    rcases List.mem_pair.mp hvolume with rfl | rfl
    · exact withNames_read _
    · exact withNames_read _)).1.trans (by decide)

end WebUiBoot.Boot
