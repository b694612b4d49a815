import WebUiBoot.Boot.Attempts
import WebUiBoot.Boot.Images
import WebUiBoot.Boot.Usage

/-!
# What is on the disks

`boot_os` and `boot_linux_direct` of `src/boot.rs` on volumes whose files can all be read: what is
started depends on what the paths stand for, and on what comes of the images.

* `Loader` — what comes of an image, by its bytes;
* `Denoted`, `kernelOf`, `denotes` — what a path stands for: an image, and for an entry its options;
* `start` — what is done with such an image;
* `fileIo`, `entryIo`, `osVolume`, `linuxVolume` — the firmware on a disk;
* `bootOs_onDisks`, `bootLinuxDirect_onDisks` — the calls, in terms of what the paths stand for;
* `switchOn` — boots as a machine on the disks, each with what comes of images in it;
* `queue_starts_what_it_names` — what successive boots start, by what was on the disks at first.
-/

namespace WebUiBoot.Boot

open WebUiBoot.Text WebUiBoot.Loop WebUiBoot.Trace

/-! ### What a path stands for -/

/-- What comes of an image. -/
structure Loader where
  loadImage : Bytes → Except Status Image
  openLoadedImage : Bytes → Except Status Unit
  startImage : Bytes → Except Status Unit

/-- An image to be started, with the options that it gets when an entry names it. -/
structure Denoted where
  image : Bytes
  options : Option Str
  deriving DecidableEq

def fileAt (v : Volume) (path : Str) : Option Bytes := (v (String.ofList path)).bind Node.content

/-- What an entry file stands for: the file of its kernel, and its options. -/
def kernelOf (v : Volume) (path : Str) : Option (Bytes × Str) := do
  let _ ← cstring16 path
  let content ← decodeUtf8 (← fileAt v path)
  let linuxVal ← (parseEntry content).linuxPath
  let _ ← cstring16 (replaceSlashes linuxVal)
  let kernel ← fileAt v (replaceSlashes linuxVal)
  pure (kernel, (parseEntry content).finalOptions)

def denotes (v : Volume) (path : Str) : Option Denoted :=
  if isSystemdEntry path then (kernelOf v path).map fun kernel => ⟨kernel.1, some kernel.2⟩
  else do
    let _ ← cstring16 path
    let image ← fileAt v path
    pure ⟨image, none⟩

/-- What is done with an image: whether it was started and came back, and the events. -/
def start (loader : Loader) (d : Denoted) : Option Unit × List ImageEvent :=
  match loader.loadImage d.image with
  | .error _ => (none, [])
  | .ok image =>
      match d.options with
      | none =>
          match loader.startImage d.image with
          | .error _ => (none, [.loaded image d.image, .started image false, .unloaded image])
          | .ok () => (some (), [.loaded image d.image, .started image true])
      | some finalOptions =>
          match loader.openLoadedImage d.image with
          | .error _ => (none, [.loaded image d.image, .unloaded image])
          | .ok () =>
              match cstring16 finalOptions with
              | none => (none, [.loaded image d.image, .unloaded image])
              | some options =>
                  let size := UInt32.ofNat (options.length * 2)
                  match loader.startImage d.image with
                  | .error _ =>
                      (none, [.loaded image d.image, .optionsSet image options size,
                        .started image false, .unloaded image])
                  | .ok () =>
                      (some (), [.loaded image d.image, .optionsSet image options size,
                        .started image true])

/-- Nothing but what comes of the image itself counts. -/
theorem start_congr {loader loader' : Loader} {d : Denoted}
    (hload : loader.loadImage d.image = loader'.loadImage d.image)
    (hopen : loader.openLoadedImage d.image = loader'.openLoadedImage d.image)
    (hstart : loader.startImage d.image = loader'.startImage d.image) :
    start loader d = start loader' d := by
  unfold start
  rw [hload, hopen, hstart]

/-! ### Attempts that have an image -/

/-- What comes of the image of an attempt, whatever the image is. -/
def EntryIo.loader (io : EntryIo) : Loader :=
  ⟨fun _ => io.loadImage, fun _ => io.openLoadedImage, fun _ => io.startImage⟩

def OsVolume.loader (volume : OsVolume) : Loader :=
  ⟨fun _ => volume.loadImage, fun _ => .ok (), fun _ => volume.startImage⟩

/-- An attempt that has the kernel in memory starts it. -/
theorem entry_of_prepared {io : EntryIo} {path : Str} {kernel : Bytes} {finalOptions : Str}
    (h : prepareKernel io path = .ok (kernel, finalOptions)) :
    ((bootLinuxFromEntryFile io path).1.toOption, (bootLinuxFromEntryFile io path).2)
      = start io.loader ⟨kernel, some finalOptions⟩ := by
  unfold bootLinuxFromEntryFile start EntryIo.loader
  rw [h]
  dsimp only
  cases io.loadImage with
  | error e => rfl
  | ok image =>
      cases io.openLoadedImage with
      | error e => rfl
      | ok u =>
          cases cstring16 finalOptions with
          | none => rfl
          | some options =>
              cases io.startImage with
              | error e => rfl
              | ok u' => rfl

theorem entry_of_error {io : EntryIo} {path : Str} {e : Status}
    (h : prepareKernel io path = .error e) : bootLinuxFromEntryFile io path = (.error e, []) := by
  unfold bootLinuxFromEntryFile
  rw [h]

/-- A path that is not that of an entry, on a volume that can be opened: a call in front of
`load_image` fails, or the file is in memory and is started. -/
theorem bootVolume_plain (volume : OsVolume) {path : Str} (hprotocol : volume.openProtocol = true)
    (hvolume : volume.openVolume = true) (hpath : isSystemdEntry path = false) :
    (bootVolume path volume = (none, []) ∧ (cstring16 path = none
        ∨ (∃ e, readFile volume.file = .error e) ∨ ∃ e, volume.devicePath = .error e))
      ∨ ∃ path16 buffer, cstring16 path = some path16 ∧ readFile volume.file = .ok buffer
        ∧ bootVolume path volume = start volume.loader ⟨buffer, none⟩ := by
  unfold bootVolume
  rw [hprotocol, hvolume, hpath]
  simp only [Bool.not_true, Bool.false_eq_true, if_false]
  cases cstring16 path with
  | none => exact Or.inl ⟨rfl, Or.inl rfl⟩
  | some path16 =>
      cases readFile volume.file with
      | error e => exact Or.inl ⟨rfl, Or.inr (Or.inl ⟨e, rfl⟩)⟩
      | ok buffer =>
          cases volume.devicePath with
          | error e => exact Or.inl ⟨rfl, Or.inr (Or.inr ⟨e, rfl⟩)⟩
          | ok u =>
              refine Or.inr ⟨path16, buffer, rfl, rfl, ?_⟩
              unfold start OsVolume.loader
              cases volume.loadImage with
              | error e => rfl
              | ok image =>
                  cases volume.startImage with
                  | error e => rfl
                  | ok u' => rfl

/-! ### The firmware on a disk -/

/-- The files of a volume, and the names in `\loader\entries` if that is a directory. -/
structure Disk where
  files : Volume
  entries : Option (List Str)

def fileIo (v : Volume) (path : Str) : FileIo :=
  match v (String.ofList path) with
  | some (.file content) => ⟨.ok (), true, .ok (), .ok content⟩
  | some .dir => ⟨.ok (), false, .ok (), .ok []⟩
  | none => ⟨.error .notFound, false, .ok (), .ok []⟩

/-- An answer about the image that is in memory, if there is one. -/
def onImage {α : Type} (image : Option Bytes) (answer : Bytes → Except Status α) :
    Except Status α :=
  match image with
  | some bytes => answer bytes
  | none => .error .notFound

def entryIo (loader : Loader) (v : Volume) (path : Str) : EntryIo where
  entryFile := fileIo v path
  kernelFile := fileIo v
  devicePath := .ok ()
  loadImage := onImage ((kernelOf v path).map Prod.fst) loader.loadImage
  openLoadedImage := onImage ((kernelOf v path).map Prod.fst) loader.openLoadedImage
  startImage := onImage ((kernelOf v path).map Prod.fst) loader.startImage

def osVolume (loader : Loader) (path : Str) (v : Volume) : OsVolume where
  openProtocol := true
  openVolume := true
  entry := entryIo loader v path
  file := fileIo v path
  devicePath := .ok ()
  loadImage := onImage (fileAt v path) loader.loadImage
  startImage := onImage (fileAt v path) loader.startImage

/-- The entries of a disk in the order of the attempts. -/
def Disk.listed (d : Disk) : List Str := sortEntries ((d.entries.getD []).filter isConf)

def linuxVolume (loader : Loader) (d : Disk) : LinuxVolume where
  openProtocol := true
  openVolume := true
  entriesDir := d.entries.map fun names => names.map .ok
  attempt k := entryIo loader d.files (entryPath (d.listed.getD k []))

/-! ### The calls on a disk -/

variable {loader : Loader} {v : Volume} {path : Str}

theorem toOption_bind {α β : Type} (x : Except Status α) (f : α → Except Status β) :
    (x >>= f).toOption = x.toOption.bind fun a => (f a).toOption := by
  cases x with
  | error e => rfl
  | ok a => rfl

theorem toOption_okOr {α : Type} (o : Option α) (e : Status) : (okOr o e).toOption = o := by
  cases o with
  | none => rfl
  | some a => rfl

theorem toOption_readFile (v : Volume) (path : Str) :
    (readFile (fileIo v path)).toOption = fileAt v path := by
  unfold fileIo fileAt
  cases v (String.ofList path) with
  | none => rfl
  | some node =>
      cases node with
      | file content => rfl
      | dir => rfl

/-- **The kernel in memory** is what the entry file stands for. -/
theorem prepareKernel_onDisk (loader : Loader) (v : Volume) (path : Str) :
    (prepareKernel (entryIo loader v path) path).toOption = kernelOf v path := by
  unfold prepareKernel kernelOf
  simp only [toOption_bind, toOption_okOr]
  rw [show (entryIo loader v path).entryFile = fileIo v path from rfl, toOption_readFile]
  simp only [show (entryIo loader v path).kernelFile = fileIo v from rfl, toOption_readFile]
  rfl

theorem entry_onDisk (loader : Loader) (v : Volume) (path : Str) :
    ((bootLinuxFromEntryFile (entryIo loader v path) path).1.toOption,
        (bootLinuxFromEntryFile (entryIo loader v path) path).2)
      = ((kernelOf v path).map fun kernel => start loader ⟨kernel.1, some kernel.2⟩).getD
          (none, []) := by
  have hprepared := prepareKernel_onDisk loader v path
  cases hprepare : prepareKernel (entryIo loader v path) path with
  | error e =>
      rw [hprepare] at hprepared
      rw [← hprepared, entry_of_error hprepare]
      rfl
  | ok prepared =>
      obtain ⟨kernel, finalOptions⟩ := prepared
      rw [hprepare] at hprepared
      have hkernel : kernelOf v path = some (kernel, finalOptions) := hprepared.symm
      rw [entry_of_prepared hprepare, hkernel]
      -- the image that is in memory is the kernel
      have himage : (kernelOf v path).map Prod.fst = some kernel := by
        rw [hkernel]
        rfl
      refine start_congr ?_ ?_ ?_
      · exact congrArg (onImage · loader.loadImage) himage
      · exact congrArg (onImage · loader.openLoadedImage) himage
      · exact congrArg (onImage · loader.startImage) himage

theorem bootVolume_onDisk (loader : Loader) (v : Volume) (path : Str) :
    bootVolume path (osVolume loader path v)
      = ((denotes v path).map (start loader)).getD (none, []) := by
  unfold denotes
  by_cases hpath : isSystemdEntry path = true
  · rw [bootVolume_entry rfl rfl hpath, if_pos hpath]
    refine (entry_onDisk loader v path).trans ?_
    rw [Option.map_map]
    rfl
  · rw [if_neg hpath]
    rw [Bool.not_eq_true] at hpath
    have hread := toOption_readFile v path
    have hfile : (osVolume loader path v).file = fileIo v path := rfl
    rcases bootVolume_plain (osVolume loader path v) rfl rfl hpath with
      ⟨heq, h16 | ⟨e, herror⟩ | ⟨e, herror⟩⟩ | ⟨path16, buffer, h16, hbuffer, heq⟩
    · rw [heq, h16]
      rfl
    · rw [hfile] at herror
      rw [herror] at hread
      rw [heq, ← hread]
      cases cstring16 path with
      | none => rfl
      | some path16 => rfl
    · cases herror
    · rw [hfile] at hbuffer
      rw [hbuffer] at hread
      have himage : fileAt v path = some buffer := hread.symm
      have hload : (osVolume loader path v).loadImage = loader.loadImage buffer :=
        congrArg (onImage · loader.loadImage) himage
      have hstart : (osVolume loader path v).startImage = loader.startImage buffer :=
        congrArg (onImage · loader.startImage) himage
      rw [heq, h16, himage]
      show _ = start loader ⟨buffer, none⟩
      unfold start OsVolume.loader
      dsimp only
      rw [hload, hstart]

/-- **`boot_os` on disks.**  It is a search through the images that the path stands for on the
volumes that have one, with what comes of them on each. -/
theorem bootOs_onDisks (volumes : List (Loader × Volume)) (path : Str) :
    ((bootOs (.ok (volumes.map fun v => osVolume v.1 path v.2)) path).1.toOption,
        imageEvents (bootOs (.ok (volumes.map fun v => osVolume v.1 path v.2)) path).2)
      = forReturn (fun d : Loader × Denoted => start d.1 d.2)
          (volumes.filterMap fun v => (denotes v.2 path).map (Prod.mk v.1)) := by
  have hloop : ∀ k, ((forReturn (tryVolume path)
        ((volumes.map fun v => osVolume v.1 path v.2).zipIdx k)).1,
      imageEvents (forReturn (tryVolume path)
        ((volumes.map fun v => osVolume v.1 path v.2).zipIdx k)).2)
        = forReturn (fun d : Loader × Denoted => start d.1 d.2)
          (volumes.filterMap fun v => (denotes v.2 path).map (Prod.mk v.1)) := by
    induction volumes with
    | nil => exact fun _ => rfl
    | cons v volumes ih =>
        intro k
        obtain ⟨loader, v⟩ := v
        have hbody := bootVolume_onDisk loader v path
        have htry : tryVolume path (osVolume loader path v, k)
            = ((bootVolume path (osVolume loader path v)).1,
              [⟨k, (bootVolume path (osVolume loader path v)).2⟩]) := rfl
        rw [List.map_cons, List.zipIdx_cons, List.filterMap_cons]
        cases hdenotes : denotes v path with
        | none =>
            rw [hdenotes] at hbody
            show _ = forReturn _ (volumes.filterMap _)
            rw [← ih (k + 1), forReturn_cons_none (by rw [htry, hbody]; rfl), htry, hbody]
            rfl
        | some d =>
            rw [hdenotes] at hbody
            have hbody : bootVolume path (osVolume loader path v) = start loader d := hbody
            show _ = forReturn _ ((loader, d) :: volumes.filterMap _)
            cases hstart : (start loader d).1 with
            | none =>
                rw [forReturn_cons_none (x := (loader, d)) hstart, ← ih (k + 1),
                  forReturn_cons_none (by rw [htry, hbody]; exact hstart), htry, hbody]
                rfl
            | some u =>
                rw [forReturn_cons_some (x := (loader, d)) hstart,
                  forReturn_cons_some (b := u) (by rw [htry, hbody]; exact hstart), htry, hbody]
                show (some u, _ ++ []) = _
                rw [List.append_nil]
  rw [← hloop 0]
  unfold bootOs
  dsimp only
  cases forReturn (tryVolume path)
      ((volumes.map fun v => osVolume v.1 path v.2).zipIdx) with
  | mk result trials =>
      cases result with
      | none => rfl
      | some u => rfl

/-- The images of a disk that `boot_linux_direct` starts. -/
def Disk.kernels (d : Disk) : List Denoted :=
  d.listed.filterMap fun entry => denotes d.files (entryPath entry)

theorem isSystemdEntry_entryPath {entry : Str} (h : isConf entry = true) :
    isSystemdEntry (entryPath entry) = true := by
  have hsuffix : ".conf".toList <:+ entryPath entry :=
    (List.isSuffixOf_iff_suffix.mp h).trans (List.suffix_append _ _)
  rw [isSystemdEntry, List.isSuffixOf_iff_suffix.mpr hsuffix]
  rfl

theorem isConf_of_mem_listed {d : Disk} {entry : Str} (h : entry ∈ d.listed) :
    isConf entry = true := by
  rw [Disk.listed, sortEntries_eq, List.mem_append] at h
  rcases h with h | h
  · exact (List.mem_filter.mp (List.mem_filter.mp h).1).2
  · exact (List.mem_filter.mp (List.mem_filter.mp h).1).2

theorem orderedEntries_onDisk (loader : Loader) (d : Disk) :
    orderedEntries (linuxVolume loader d) = d.listed := by
  have hread : ReadWithoutError (linuxVolume loader d) := by
    intro results hresults result hresult
    obtain ⟨names, _, rfl⟩ := Option.map_eq_some_iff.mp hresults
    obtain ⟨name, _, rfl⟩ := List.mem_map.mp hresult
    exact ⟨name, rfl⟩
  have hnames : directoryNames (linuxVolume loader d) = d.entries.getD [] := by
    unfold directoryNames
    rw [if_pos ⟨rfl, rfl⟩]
    unfold linuxVolume
    cases d.entries with
    | none => rfl
    | some names =>
        show (names.map Except.ok).filterMap Except.toOption = names
        rw [List.filterMap_map]
        exact List.filterMap_some
  rw [orderedEntries_eq hread, hnames, Disk.listed, sortEntries_eq]

theorem volumeAttempts_onDisk (loader : Loader) (d : Disk) :
    volumeAttempts (linuxVolume loader d)
      = d.listed.map fun entry => (entryIo loader d.files (entryPath entry), entryPath entry) := by
  rw [volumeAttempts, orderedEntries_onDisk]
  refine List.ext_getElem (by rw [List.length_mapIdx, List.length_map]) fun k hk hk' => ?_
  rw [List.getElem_mapIdx, List.getElem_map]
  have hlt : k < d.listed.length := by
    rw [List.length_map] at hk'
    exact hk'
  show (entryIo loader d.files (entryPath (d.listed.getD k [])), _) = _
  rw [List.getD_eq_getElem?_getD, List.getElem?_eq_getElem hlt, Option.getD_some]

/-- **`boot_linux_direct` on disks.**  It starts what the entries stand for, one after the other. -/
theorem bootLinuxDirect_onDisks (loader : Loader) (disks : List Disk) :
    bootLinuxDirect (some (disks.map (linuxVolume loader)))
      = (disks.flatMap Disk.kernels).flatMap fun d => (start loader d).2 := by
  rw [bootLinuxDirect_eq, attempts, Option.getD_some, List.flatMap_map, List.flatMap_assoc,
    List.flatMap_assoc]
  refine List.flatMap_congr fun d _ => ?_
  rw [volumeAttempts_onDisk, List.flatMap_map, Disk.kernels, List.filterMap_eq_flatMap_toList,
    List.flatMap_assoc]
  refine List.flatMap_congr fun entry hentry => ?_
  have hevents := congrArg Prod.snd (entry_onDisk loader d.files (entryPath entry))
  rw [denotes, if_pos (isSystemdEntry_entryPath (isConf_of_mem_listed hentry))]
  refine hevents.trans ?_
  cases kernelOf d.files (entryPath entry) with
  | none => rfl
  | some kernel => exact (List.append_nil _).symm

/-! ### What is loaded -/

/-- The path of the kernel that an entry file names. -/
def kernelPath (v : Volume) (path : Str) : Option Str := do
  let content ← decodeUtf8 (← fileAt v path)
  let linuxVal ← (parseEntry content).linuxPath
  pure (replaceSlashes linuxVal)

/-- The paths of the files that are read when a path is booted. -/
def pathsRead (v : Volume) (path : Str) : List Str :=
  path :: if isSystemdEntry path then (kernelPath v path).toList else []

theorem kernelOf_eq_bind (v : Volume) (path : Str) :
    kernelOf v path = (cstring16 path).bind fun _ =>
      ((fileAt v path).bind decodeUtf8).bind fun content =>
        (kernelPath v path).bind fun kernelPath => (cstring16 kernelPath).bind fun _ =>
          (fileAt v kernelPath).bind fun kernel =>
            some (kernel, (parseEntry content).finalOptions) := by
  unfold kernelOf kernelPath
  cases cstring16 path with
  | none => rfl
  | some path16 =>
      cases fileAt v path with
      | none => rfl
      | some bytes =>
          show (decodeUtf8 bytes).bind _ = (decodeUtf8 bytes).bind _
          cases hcontent : decodeUtf8 bytes with
          | none => rfl
          | some content =>
              show (parseEntry content).linuxPath.bind _
                = ((decodeUtf8 bytes).bind _).bind _
              rw [hcontent]
              show _ = ((parseEntry content).linuxPath.bind _).bind _
              cases (parseEntry content).linuxPath with
              | none => rfl
              | some linuxVal => rfl

/-- Nothing but these files counts. -/
theorem denotes_congr {v' : Volume}
    (h : ∀ read ∈ pathsRead v path, v' (String.ofList read) = v (String.ofList read)) :
    denotes v' path = denotes v path := by
  have hpath : fileAt v' path = fileAt v path :=
    congrArg (·.bind Node.content) (h path List.mem_cons_self)
  unfold denotes
  by_cases hentry : isSystemdEntry path = true
  · rw [if_pos hentry, if_pos hentry, kernelOf_eq_bind, kernelOf_eq_bind]
    have hkernelPath : kernelPath v' path = kernelPath v path := by
      rw [kernelPath, kernelPath, hpath]
    rw [hkernelPath, hpath]
    cases hkernel : kernelPath v path with
    | none => rfl
    | some kernel =>
        have hread : fileAt v' kernel = fileAt v kernel := by
          refine congrArg (·.bind Node.content) (h kernel ?_)
          rw [pathsRead, if_pos hentry, hkernel]
          exact List.mem_cons_of_mem _ (List.mem_singleton_self kernel)
        simp only [Option.bind_some, hread]
  · rw [if_neg hentry, if_neg hentry, hpath]

/-! ### Successive boots -/

/-- What a boot has done: the path that was popped, and what came of it. -/
structure SwitchedOn where
  booted : Booted
  result : Option Unit
  events : List ImageEvent
  deriving DecidableEq

/-- The volumes, each with what comes of images there. -/
def withLoaders (loader : ℕ → Loader) (volumes : List Volume) : List (Loader × Volume) :=
  volumes.mapIdx fun i v => (loader i, v)

/-- The machine is switched on: a path is popped, and looked for on the disks as they are then. -/
def switchOn : Machine (List Volume) (BootIo × (ℕ → Loader)) SwitchedOn where
  step volumes input :=
    let r := checkAndProcessBootnext input.1 volumes
    (r.1, r.2.map fun b =>
      let found := (withLoaders input.2 r.1).map fun v => osVolume v.1 b.path v.2
      let call := bootOs (.ok found) b.path
      ⟨b, call.1.toOption, imageEvents call.2⟩)

/-- What comes of a path, by what it stands for. -/
def startNamed (loader : ℕ → Loader) (volumes : List Volume) (b : Booted) : SwitchedOn :=
  let r := forReturn (fun d : Loader × Denoted => start d.1 d.2)
    ((withLoaders loader volumes).filterMap fun v => (denotes v.2 b.path).map (Prod.mk v.1))
  ⟨b, r.1, r.2⟩

theorem switchOn_step (volumes : List Volume) (io : BootIo) (loader : ℕ → Loader) :
    switchOn.step volumes (io, loader)
      = ((boots.step volumes io).1,
          (boots.step volumes io).2.map (startNamed loader (boots.step volumes io).1)) := by
  show (_, _) = (_, _)
  refine congrArg (Prod.mk _) (List.map_congr_left fun b _ => ?_)
  have hcall := bootOs_onDisks (withLoaders loader (checkAndProcessBootnext io volumes).1) b.path
  exact congrArg (fun r : Option Unit × List ImageEvent => (⟨b, r.1, r.2⟩ : SwitchedOn)) hcall

/-- A boot pops one path at most. -/
theorem boots_step_cases (volumes : List Volume) (io : BootIo) :
    (boots.step volumes io).2 = [] ∨ ∃ b, (boots.step volumes io).2 = [b] := by
  show (checkAndProcessBootnext io volumes).2 = []
    ∨ ∃ b, (checkAndProcessBootnext io volumes).2 = [b]
  cases hfile : flagFile io volumes with
  | none =>
      rw [checkAndProcessBootnext_eq, hfile]
      exact Or.inl rfl
  | some found =>
      obtain ⟨i, name, content⟩ := found
      rw [booted_of_flagFile hfile]
      cases (popFlagFile ((io.volume i).flag name) content).target with
      | none => exact Or.inl rfl
      | some target => exact Or.inr ⟨_, rfl⟩

/-- Volumes that differ in their flag files only. -/
def SameFiles (volumes volumes' : List Volume) : Prop :=
  List.Forall₂ (fun v v' : Volume => ∀ name ∉ flagFilenames, v' name = v name) volumes volumes'

theorem SameFiles.refl (volumes : List Volume) : SameFiles volumes volumes :=
  List.forall₂_same.mpr fun _ _ _ _ => rfl

theorem sameFiles_modify {name : String} (hname : name ∈ flagFilenames) (node : Option Node) :
    ∀ {volumes volumes' : List Volume}, SameFiles volumes volumes' → ∀ i : ℕ,
      SameFiles volumes (volumes'.modify i fun v => Function.update v name node) := by
  intro volumes volumes' h
  induction h with
  | nil =>
      intro i
      rw [List.modify_nil]
      exact .nil
  | cons hhead htail ih =>
      intro i
      cases i with
      | zero =>
          rw [List.modify_zero_cons]
          refine .cons (fun name' hname' => ?_) htail
          have hne : name' ≠ name := fun heq => hname' (heq ▸ hname)
          rw [Function.update_of_ne hne]
          exact hhead name' hname'
      | succ i =>
          rw [List.modify_succ_cons]
          exact .cons hhead (ih i)

theorem SameFiles.boot {volumes volumes' : List Volume} (h : SameFiles volumes volumes')
    (io : BootIo) : SameFiles volumes (boots.step volumes' io).1 := by
  show SameFiles volumes (checkAndProcessBootnext io volumes').1
  rw [checkAndProcessBootnext_eq]
  cases hfile : flagFile io volumes' with
  | none => exact h
  | some found =>
      obtain ⟨i, name, content⟩ := found
      exact sameFiles_modify (nodeAt_of_flagFile hfile).1 _ h i

theorem SameFiles.startNamed {volumes volumes' : List Volume} (h : SameFiles volumes volumes')
    (loader : ℕ → Loader) {b : Booted}
    (hapart : ∀ v ∈ volumes, ∀ read ∈ pathsRead v b.path, String.ofList read ∉ flagFilenames) :
    startNamed loader volumes' b = startNamed loader volumes b := by
  have hnamed : ∀ loader : ℕ → Loader,
      ((withLoaders loader volumes').filterMap fun v => (denotes v.2 b.path).map (Prod.mk v.1))
        = (withLoaders loader volumes).filterMap fun v =>
          (denotes v.2 b.path).map (Prod.mk v.1) := by
    induction h with
    | nil => exact fun _ => rfl
    | cons hhead htail ih =>
        intro loader
        rename_i v v' rest rest'
        have hv : denotes v' b.path = denotes v b.path :=
          denotes_congr fun read hread =>
            hhead _ (hapart v List.mem_cons_self read hread)
        have ih := ih (fun v hv => hapart v (List.mem_cons_of_mem _ hv)) fun i => loader (i + 1)
        unfold withLoaders at ih ⊢
        rw [List.mapIdx_cons, List.mapIdx_cons, List.filterMap_cons, List.filterMap_cons, hv, ih]
  rw [Boot.startNamed, Boot.startNamed, hnamed]

/-- **What a run starts.**  The paths are those of the run without the images, each with what comes
of images in its boot. -/
theorem switchOn_run {volumes : List Volume} (inputs : List (BootIo × (ℕ → Loader))) :
    ∀ {volumes' : List Volume}, SameFiles volumes volumes' →
      (∀ b ∈ (boots.run volumes' (inputs.map Prod.fst)).2, ∀ v ∈ volumes,
        ∀ read ∈ pathsRead v b.path, String.ofList read ∉ flagFilenames) →
      ∃ named : List ((ℕ → Loader) × Booted),
        switchOn.run volumes' inputs = ((boots.run volumes' (inputs.map Prod.fst)).1,
            named.map fun b => startNamed b.1 volumes b.2)
          ∧ List.Sublist (named.map Prod.fst) (inputs.map Prod.snd)
          ∧ named.map Prod.snd = (boots.run volumes' (inputs.map Prod.fst)).2
          ∧ SameFiles volumes (boots.run volumes' (inputs.map Prod.fst)).1 := by
  induction inputs with
  | nil => exact fun h _ => ⟨[], rfl, List.nil_sublist _, rfl, h⟩
  | cons input inputs ih =>
      intro volumes' h hapart
      obtain ⟨io, loader⟩ := input
      rw [List.map_cons, Machine.run_cons] at hapart
      have hnext := h.boot io
      obtain ⟨named, hrun, hloaders, hpaths, hsame⟩ :=
        ih hnext fun b hb => hapart b (List.mem_append_right _ hb)
      rw [List.map_cons, Machine.run_cons, Machine.run_cons, switchOn_step, hrun]
      rcases boots_step_cases volumes' io with hnone | ⟨b, hone⟩
      · refine ⟨named, ?_, hloaders.cons loader, ?_, hsame⟩
        · rw [hnone]
          rfl
        · rw [hnone, hpaths]
          rfl
      · refine ⟨(loader, b) :: named, ?_, hloaders.cons_cons loader, ?_, hsame⟩
        · have hmem : b ∈ (boots.step volumes' io).2 := by
            rw [hone]
            exact List.mem_singleton_self b
          rw [hone, List.map_singleton,
            hnext.startNamed loader (hapart b (List.mem_append_left _ hmem))]
          rfl
        · rw [hone, List.map_cons, hpaths]
          rfl

/-- **A queue starts what it names.**  When the flag files are UTF-8 with a byte order mark at the
beginning at most, no call on the disks fails, and no queued path leads to a flag file or to an
entry whose kernel is one, then whatever comes of the images, in each boot and on each volume: the
boots go through the queue in order, and each starts what its path stood for before the first of
them, on the volumes that had such a file, one after the other up to the first that comes back; and
nothing but flag files is changed. -/
theorem queue_starts_what_it_names (loaders : List (ℕ → Loader)) (volumes : List Volume)
    (h : AllWellFormed volumes)
    (hapart : ∀ b ∈ queue volumes, ∀ v ∈ volumes, ∀ read ∈ pathsRead v b.path,
      String.ofList read ∉ flagFilenames) :
    let after := switchOn.run volumes (loaders.map (Prod.mk .ok))
    (∃ named : List ((ℕ → Loader) × Booted),
        after.2 = (named.map fun b => startNamed b.1 volumes b.2)
          ∧ List.Sublist (named.map Prod.fst) loaders
          ∧ named.map Prod.snd <+: queue volumes
          ∧ (calls volumes ≤ loaders.length → named.map Prod.snd = queue volumes))
      ∧ SameFiles volumes after.1 := by
  intro after
  have hqueue := boots_append_queue h loaders.length
  have hios : (loaders.map (Prod.mk BootIo.ok)).map Prod.fst
      = List.replicate loaders.length BootIo.ok := by
    rw [List.map_map]
    exact List.map_const'
  have hloaders : (loaders.map (Prod.mk BootIo.ok)).map Prod.snd = loaders := by
    rw [List.map_map]
    exact List.map_id _
  have hrun := switchOn_run (loaders.map (Prod.mk .ok)) (SameFiles.refl volumes)
  rw [hios, hloaders] at hrun
  obtain ⟨named, hafter, hsublist, hpaths, hsame⟩ :=
    hrun fun b hb => hapart b (hqueue ▸ List.mem_append_left _ hb)
  have hafter : after = _ := hafter
  rw [hafter]
  refine ⟨⟨named, rfl, hsublist, ?_, fun hn => ?_⟩, hsame⟩
  · rw [hpaths, ← hqueue]
    exact List.prefix_append _ _
  · have hcalls := calls_run h loaders.length
    rw [Nat.sub_eq_zero_of_le hn, calls_eq_zero] at hcalls
    have hempty : queue (boots.run volumes (List.replicate loaders.length .ok)).1 = [] := by
      rw [queue, buckets_eq_nil.mpr hcalls]
      rfl
    rw [hempty, List.append_nil] at hqueue
    rw [hpaths, hqueue]

/-- A boot loader and an entry of a kernel, both queued. -/
def twoSystems : Volume := fun name =>
  if name = "\\bootnext.txt" then some (.file (encodeUtf8 "a.efi\n/x.conf\n".toList))
  else if name = "a.efi" then some (.file [1])
  else if name = "\\x.conf" then some (.file (encodeUtf8 "linux /k\noptions q\n".toList))
  else if name = "\\k" then some (.file [2])
  else none

theorem allWellFormed_twoSystems : AllWellFormed [twoSystems] := by
  intro i name hname content hnode
  obtain ⟨v, hv, hnode⟩ := Option.bind_eq_some_iff.mp hnode
  obtain rfl := List.mem_singleton.mp (List.mem_of_getElem? hv)
  rcases List.mem_cons.mp hname with rfl | hname
  · cases hnode
    exact ⟨"a.efi\n/x.conf\n".toList, decodeUtf8_encodeUtf8 _, by decide⟩
  · obtain rfl := List.mem_singleton.mp hname
    cases hnode

/-- What is loaded in the first boot fails, and in the second it comes back. -/
def firstFails : List (ℕ → Loader) :=
  [fun _ => ⟨fun image => .ok image.length, fun _ => .ok (), fun _ => .error .loadError⟩,
    fun _ => ⟨fun image => .ok image.length, fun _ => .ok (), fun _ => .ok ()⟩]

theorem queue_starts_what_it_names_two :
    (∃ named : List ((ℕ → Loader) × Booted),
        (switchOn.run [twoSystems] (firstFails.map (Prod.mk .ok))).2
            = (named.map fun b => startNamed b.1 [twoSystems] b.2)
          ∧ List.Sublist (named.map Prod.fst) firstFails
          ∧ named.map Prod.snd = [⟨0, "\\bootnext.txt", "a.efi".toList⟩,
            ⟨0, "\\bootnext.txt", "\\x.conf".toList⟩])
      ∧ (switchOn.run [twoSystems] (firstFails.map (Prod.mk .ok))).2
        = [⟨⟨0, "\\bootnext.txt", "a.efi".toList⟩, none,
            [.loaded 1 [1], .started 1 false, .unloaded 1]⟩,
          ⟨⟨0, "\\bootnext.txt", "\\x.conf".toList⟩, some (),
            [.loaded 1 [2], .optionsSet 1 [113, 0] 4, .started 1 true]⟩] := by
  obtain ⟨⟨named, hevents, hloaders, _, hall⟩, _⟩ := queue_starts_what_it_names firstFails
    [twoSystems] allWellFormed_twoSystems (by decide +kernel)
  refine ⟨⟨named, hevents, hloaders, (hall (by decide +kernel)).trans ?_⟩, ?_⟩
  · decide +kernel
  · decide +kernel

end WebUiBoot.Boot
