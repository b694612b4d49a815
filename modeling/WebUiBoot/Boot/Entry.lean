import WebUiBoot.Boot.Bootnext

/-!
# A boot loader entry

`boot_linux_from_entry_file` of `src/boot.rs`: an entry file is read and parsed, the kernel that it
names is loaded and started.

* `FileIo`, `EntryIo` — the answers of the firmware to the calls of one attempt, call by call;
* `parseEntry` / `Entry.finalOptions` — the entry file and the load options;
* `bootLinuxFromEntryFile` — the attempt: its result, and what it has done with images;
* `ReachesStart`, `Boots` — the answers for which an image is started, and started successfully;
* `AttemptEnds` / `attemptEnds` — how an attempt may end, and that there is no other way;
* `bootLinuxFromEntryFile_cases` — when it starts the kernel, and what is done with the image.
-/

namespace WebUiBoot.Boot

open WebUiBoot.Text

/-- `uefi::Status`. -/
structure Status where
  code : UInt64
  deriving DecidableEq

def Status.loadError : Status := ⟨0x8000000000000001⟩

def Status.invalidParameter : Status := ⟨0x8000000000000002⟩

def Status.notFound : Status := ⟨0x800000000000000E⟩

/-- `ok_or`. -/
def okOr {α : Type*} (o : Option α) (e : Status) : Except Status α :=
  match o with
  | some a => .ok a
  | none => .error e

/-- `CString16::try_from`: the characters of the basic plane, without NUL, and a NUL behind. -/
def cstring16 (t : Str) : Option (List UInt16) :=
  if t.all fun c => 0 < c.toNat ∧ c.toNat ≤ 0xFFFF then
    some (t.map (fun c => UInt16.ofNat c.toNat) ++ [0])
  else none

/-! ### The firmware -/

/-- The answers to the calls that read a file as a whole. -/
structure FileIo where
  openFile : Except Status Unit
  intoRegularFile : Bool
  getInfo : Except Status Unit
  /-- The buffer after the call. -/
  read : Except Status Bytes

/-- A handle of a loaded image. -/
abbrev Image := ℕ

/-- The answers to the calls of one attempt. -/
structure EntryIo where
  entryFile : FileIo
  /-- By the path of the kernel. -/
  kernelFile : Str → FileIo
  devicePath : Except Status Unit
  loadImage : Except Status Image
  openLoadedImage : Except Status Unit
  startImage : Except Status Unit

/-- What is done with images. -/
inductive ImageEvent
  | loaded (image : Image) (kernel : Bytes)
  | optionsSet (image : Image) (options : List UInt16) (size : UInt32)
  | started (image : Image) (success : Bool)
  | unloaded (image : Image)
  deriving DecidableEq

/-! ### The entry file -/

/-- What is collected from the lines of an entry file. -/
structure Entry where
  linuxPath : Option Str
  initrdPaths : List Str
  optionsStr : Option Str

/-- The body of the loop over the lines. -/
def Entry.addLine (entry : Entry) (line : Str) : Entry :=
  if (trim line).head? = some '#' ∨ trim line = [] then entry
  else
    match splitWhitespace (trim line) with
    | [] => entry
    | key :: parts =>
        let value := List.intercalate [' '] parts
        if value = [] then entry
        else if key = "linux".toList then { entry with linuxPath := some value }
        else if key = "initrd".toList then
          { entry with initrdPaths := entry.initrdPaths ++ [value] }
        else if key = "options".toList then { entry with optionsStr := some value }
        else entry

def parseEntry (content : Str) : Entry := (lines content).foldl Entry.addLine ⟨none, [], none⟩

/-- The body of the loop over the initrds. -/
def addInitrd (finalOptions initrd : Str) : Str :=
  (if finalOptions = [] then [] else finalOptions ++ [' ']) ++ "initrd=".toList
    ++ replaceSlashes initrd

def Entry.finalOptions (entry : Entry) : Str :=
  entry.initrdPaths.foldl addInitrd (entry.optionsStr.getD [])

/-! ### The attempt -/

def readFile (io : FileIo) : Except Status Bytes := do
  io.openFile
  okOr (if io.intoRegularFile then some () else none) .loadError
  io.getInfo
  io.read

/-- Everything in front of `load_image`: the kernel in memory, and its options. -/
def prepareKernel (io : EntryIo) (entryPath : Str) : Except Status (Bytes × Str) := do
  let _ ← okOr (cstring16 entryPath) .invalidParameter
  let buffer ← readFile io.entryFile
  let content ← okOr (decodeUtf8 buffer) .loadError
  let linuxVal ← okOr (parseEntry content).linuxPath .notFound
  let _ ← okOr (cstring16 (replaceSlashes linuxVal)) .invalidParameter
  let kernel ← readFile (io.kernelFile (replaceSlashes linuxVal))
  io.devicePath
  pure (kernel, (parseEntry content).finalOptions)

def bootLinuxFromEntryFile (io : EntryIo) (entryPath : Str) :
    Except Status Unit × List ImageEvent :=
  match prepareKernel io entryPath with
  | .error e => (.error e, [])
  | .ok (kernel, finalOptions) =>
      match io.loadImage with
      | .error e => (.error e, [])
      | .ok image =>
          match io.openLoadedImage with
          | .error e => (.error e, [.loaded image kernel, .unloaded image])
          | .ok () =>
              match cstring16 finalOptions with
              | none => (.error .invalidParameter, [.loaded image kernel, .unloaded image])
              | some options =>
                  let size := UInt32.ofNat (options.length * 2)
                  match io.startImage with
                  | .error e =>
                      (.error e, [.loaded image kernel, .optionsSet image options size,
                        .started image false, .unloaded image])
                  | .ok () =>
                      (.ok (), [.loaded image kernel, .optionsSet image options size,
                        .started image true])

/-! ### When an image is started -/

def ImageEvent.IsStart : ImageEvent → Prop
  | .started _ _ => True
  | _ => False

def ImageEvent.IsSuccess : ImageEvent → Prop
  | .started _ true => True
  | _ => False

/-- A file that can be read as a whole. -/
def FileIo.Reads (io : FileIo) (bytes : Bytes) : Prop :=
  io.openFile = .ok () ∧ io.intoRegularFile = true ∧ io.getInfo = .ok () ∧ io.read = .ok bytes

/-- The entry names a kernel that can be loaded and given its options. -/
def ReachesStart (io : EntryIo) (entryPath : Str) : Prop :=
  (cstring16 entryPath).isSome ∧ ∃ buffer content linuxVal kernel,
    io.entryFile.Reads buffer ∧ decodeUtf8 buffer = some content
      ∧ (parseEntry content).linuxPath = some linuxVal
      ∧ (cstring16 (replaceSlashes linuxVal)).isSome
      ∧ (io.kernelFile (replaceSlashes linuxVal)).Reads kernel
      ∧ io.devicePath = .ok () ∧ (∃ image, io.loadImage = .ok image)
      ∧ io.openLoadedImage = .ok () ∧ (cstring16 (parseEntry content).finalOptions).isSome

/-- The kernel is started, and comes back without an error. -/
def Boots (io : EntryIo) (entryPath : Str) : Prop :=
  ReachesStart io entryPath ∧ io.startImage = .ok ()

theorem bind_eq_ok {α β : Type} {x : Except Status α} {f : α → Except Status β} {b : β} :
    (x >>= f) = .ok b ↔ ∃ a, x = .ok a ∧ f a = .ok b := by
  cases x with
  | error e =>
      constructor
      · intro h
        cases h
      · rintro ⟨a, ha, _⟩
        cases ha
  | ok a =>
      constructor
      · exact fun h => ⟨a, rfl, h⟩
      · rintro ⟨a', ha, h⟩
        cases ha
        exact h

theorem okOr_eq_ok {α : Type*} {o : Option α} {e : Status} {a : α} :
    okOr o e = .ok a ↔ o = some a := by
  cases o with
  | none => simp [okOr]
  | some a' => simp [okOr]

theorem readFile_eq_ok {io : FileIo} {bytes : Bytes} :
    readFile io = .ok bytes ↔ io.Reads bytes := by
  unfold readFile FileIo.Reads
  simp only [bind_eq_ok, okOr_eq_ok]
  constructor
  · rintro ⟨_, hopen, _, hregular, _, hinfo, hread⟩
    refine ⟨hopen, ?_, hinfo, hread⟩
    by_contra h
    rw [if_neg h] at hregular
    cases hregular
  · rintro ⟨hopen, hregular, hinfo, hread⟩
    exact ⟨(), hopen, (), by rw [if_pos hregular], (), hinfo, hread⟩

theorem prepareKernel_eq_ok {io : EntryIo} {entryPath : Str} {kernel : Bytes}
    {finalOptions : Str} :
    prepareKernel io entryPath = .ok (kernel, finalOptions)
      ↔ (cstring16 entryPath).isSome ∧ ∃ buffer content linuxVal,
          io.entryFile.Reads buffer ∧ decodeUtf8 buffer = some content
            ∧ (parseEntry content).linuxPath = some linuxVal
            ∧ (cstring16 (replaceSlashes linuxVal)).isSome
            ∧ (io.kernelFile (replaceSlashes linuxVal)).Reads kernel
            ∧ io.devicePath = .ok () ∧ (parseEntry content).finalOptions = finalOptions := by
  unfold prepareKernel
  simp only [bind_eq_ok, okOr_eq_ok, readFile_eq_ok, Option.isSome_iff_exists]
  constructor
  · rintro ⟨entry16, hentry, buffer, hread, content, htext, linuxVal, hlinux, kernel16, hkernel16,
      kernel', hkernel, _, hpath, hresult⟩
    cases hresult
    exact ⟨⟨entry16, hentry⟩, buffer, content, linuxVal, hread, htext, hlinux,
      ⟨kernel16, hkernel16⟩, hkernel, hpath, rfl⟩
  · rintro ⟨⟨entry16, hentry⟩, buffer, content, linuxVal, hread, htext, hlinux,
      ⟨kernel16, hkernel16⟩, hkernel, hpath, rfl⟩
    exact ⟨entry16, hentry, buffer, hread, content, htext, linuxVal, hlinux, kernel16, hkernel16,
      kernel, hkernel, (), hpath, rfl⟩

/-- With the kernel in memory, three more answers decide. -/
theorem reachesStart_iff_of_prepared {io : EntryIo} {entryPath : Str} {kernel : Bytes}
    {finalOptions : Str} (h : prepareKernel io entryPath = .ok (kernel, finalOptions)) :
    ReachesStart io entryPath ↔ (∃ image, io.loadImage = .ok image)
      ∧ io.openLoadedImage = .ok () ∧ (cstring16 finalOptions).isSome := by
  obtain ⟨hentry, buffer, content, linuxVal, hread, htext, hlinux, hkernel16, hkernel, hpath,
    hoptions⟩ := prepareKernel_eq_ok.mp h
  constructor
  · rintro ⟨_, buffer', content', linuxVal', kernel', hread', htext', _, _, _, _, hload, hopen,
      hoptions'⟩
    have hbuffer : buffer' = buffer := Except.ok.inj (hread'.2.2.2.symm.trans hread.2.2.2)
    subst hbuffer
    have hcontent : content' = content := Option.some.inj (htext'.symm.trans htext)
    subst hcontent
    rw [hoptions] at hoptions'
    exact ⟨hload, hopen, hoptions'⟩
  · rintro ⟨hload, hopen, hoptions'⟩
    rw [← hoptions] at hoptions'
    exact ⟨hentry, buffer, content, linuxVal, kernel, hread, htext, hlinux, hkernel16, hkernel,
      hpath, hload, hopen, hoptions'⟩

/-- How an attempt may end: the answers that lead there, and what comes of it. -/
inductive AttemptEnds (io : EntryIo) (entryPath : Str) :
    Except Status Unit × List ImageEvent → Prop
  | unprepared {e : Status} (h : prepareKernel io entryPath = .error e) :
      AttemptEnds io entryPath (.error e, [])
  | notLoaded {prepared : Bytes × Str} {e : Status} (h : prepareKernel io entryPath = .ok prepared)
      (hload : io.loadImage = .error e) : AttemptEnds io entryPath (.error e, [])
  | notOpened {kernel : Bytes} {finalOptions : Str} {image : Image} {e : Status}
      (h : prepareKernel io entryPath = .ok (kernel, finalOptions))
      (hload : io.loadImage = .ok image) (hopen : io.openLoadedImage = .error e) :
      AttemptEnds io entryPath (.error e, [.loaded image kernel, .unloaded image])
  | notConverted {kernel : Bytes} {finalOptions : Str} {image : Image}
      (h : prepareKernel io entryPath = .ok (kernel, finalOptions))
      (hload : io.loadImage = .ok image) (hoptions : cstring16 finalOptions = none) :
      AttemptEnds io entryPath (.error .invalidParameter, [.loaded image kernel, .unloaded image])
  | failed {kernel : Bytes} {finalOptions : Str} {image : Image} {options : List UInt16}
      {e : Status} (h : prepareKernel io entryPath = .ok (kernel, finalOptions))
      (hload : io.loadImage = .ok image) (hopen : io.openLoadedImage = .ok ())
      (hoptions : cstring16 finalOptions = some options) (hstart : io.startImage = .error e) :
      AttemptEnds io entryPath (.error e, [.loaded image kernel,
        .optionsSet image options (UInt32.ofNat (options.length * 2)), .started image false,
        .unloaded image])
  | cameBack {kernel : Bytes} {finalOptions : Str} {image : Image} {options : List UInt16}
      (h : prepareKernel io entryPath = .ok (kernel, finalOptions))
      (hload : io.loadImage = .ok image) (hopen : io.openLoadedImage = .ok ())
      (hoptions : cstring16 finalOptions = some options) (hstart : io.startImage = .ok ()) :
      AttemptEnds io entryPath (.ok (), [.loaded image kernel,
        .optionsSet image options (UInt32.ofNat (options.length * 2)), .started image true])

/-- **The ways through an attempt.** -/
theorem attemptEnds (io : EntryIo) (entryPath : Str) :
    AttemptEnds io entryPath (bootLinuxFromEntryFile io entryPath) := by
  unfold bootLinuxFromEntryFile
  cases hprepare : prepareKernel io entryPath with
  | error e => exact .unprepared hprepare
  | ok prepared =>
      obtain ⟨kernel, finalOptions⟩ := prepared
      dsimp only
      cases hload : io.loadImage with
      | error e => exact .notLoaded hprepare hload
      | ok image =>
          cases hopen : io.openLoadedImage with
          | error e => exact .notOpened hprepare hload hopen
          | ok u =>
              cases hoptions : cstring16 finalOptions with
              | none => exact .notConverted hprepare hload hoptions
              | some options =>
                  cases hstart : io.startImage with
                  | error e => exact .failed hprepare hload hopen hoptions hstart
                  | ok u' => exact .cameBack hprepare hload hopen hoptions hstart

theorem not_reachesStart_of_error {io : EntryIo} {entryPath : Str} {e : Status}
    (h : prepareKernel io entryPath = .error e) : ¬ ReachesStart io entryPath := by
  rintro ⟨hentry, buffer, content, linuxVal, kernel, hread, htext, hlinux, hkernel16, hkernel,
    hpath, _⟩
  have hok : prepareKernel io entryPath = .ok (kernel, (parseEntry content).finalOptions) :=
    prepareKernel_eq_ok.mpr ⟨hentry, buffer, content, linuxVal, hread, htext, hlinux, hkernel16,
      hkernel, hpath, rfl⟩
  rw [h] at hok
  cases hok

/-- Nothing is started; or the kernel is started and fails; or it is started and comes back. -/
theorem bootLinuxFromEntryFile_cases (io : EntryIo) (entryPath : Str) :
    (¬ ReachesStart io entryPath ∧ ∃ e events,
        bootLinuxFromEntryFile io entryPath = (.error e, events)
          ∧ ∀ event ∈ events, ¬ event.IsStart)
      ∨ (ReachesStart io entryPath ∧ ∃ image kernel options size e,
          io.startImage = .error e ∧ bootLinuxFromEntryFile io entryPath
            = (.error e, [.loaded image kernel, .optionsSet image options size,
                .started image false, .unloaded image]))
      ∨ (Boots io entryPath ∧ ∃ image kernel options size,
          bootLinuxFromEntryFile io entryPath
            = (.ok (), [.loaded image kernel, .optionsSet image options size,
                .started image true])) := by
  have hnostart : ∀ {image : Image} {kernel : Bytes},
      ∀ event ∈ [ImageEvent.loaded image kernel, .unloaded image], ¬ event.IsStart := by
    simp [ImageEvent.IsStart]
  have hends := attemptEnds io entryPath
  generalize bootLinuxFromEntryFile io entryPath = result at hends ⊢
  cases hends with
  | unprepared h =>
      exact Or.inl ⟨not_reachesStart_of_error h, _, [], rfl, List.forall_mem_nil _⟩
  | notLoaded h hload =>
      refine Or.inl ⟨?_, _, [], rfl, List.forall_mem_nil _⟩
      simp [reachesStart_iff_of_prepared h, hload]
  | notOpened h hload hopen =>
      refine Or.inl ⟨?_, _, _, rfl, hnostart⟩
      simp [reachesStart_iff_of_prepared h, hopen]
  | notConverted h hload hoptions =>
      refine Or.inl ⟨?_, _, _, rfl, hnostart⟩
      simp [reachesStart_iff_of_prepared h, hoptions]
  | failed h hload hopen hoptions hstart =>
      have hreaches : ReachesStart io entryPath :=
        (reachesStart_iff_of_prepared h).mpr ⟨⟨_, hload⟩, hopen, by rw [hoptions]; rfl⟩
      exact Or.inr (Or.inl ⟨hreaches, _, _, _, _, _, hstart, rfl⟩)
  | cameBack h hload hopen hoptions hstart =>
      have hreaches : ReachesStart io entryPath :=
        (reachesStart_iff_of_prepared h).mpr ⟨⟨_, hload⟩, hopen, by rw [hoptions]; rfl⟩
      exact Or.inr (Or.inr ⟨⟨hreaches, hstart⟩, _, _, _, _, rfl⟩)

theorem not_boots_of_failed {io : EntryIo} {e : Status} (h : io.startImage = .error e)
    (entryPath : Str) : ¬ Boots io entryPath := by
  intro hboots
  have hok := hboots.2
  rw [h] at hok
  cases hok

theorem ImageEvent.IsSuccess.isStart {event : ImageEvent} (h : event.IsSuccess) :
    event.IsStart := by
  cases event with
  | started image success => trivial
  | loaded | optionsSet | unloaded => exact h

/-- The attempt succeeds exactly when the kernel comes back. -/
theorem bootLinuxFromEntryFile_eq_ok {io : EntryIo} {entryPath : Str} :
    (bootLinuxFromEntryFile io entryPath).1 = .ok () ↔ Boots io entryPath := by
  rcases bootLinuxFromEntryFile_cases io entryPath with
    ⟨hreaches, e, events, heq, _⟩ | ⟨_, _, _, _, _, e, hstart, heq⟩ | ⟨hboots, _, _, _, _, heq⟩
  · rw [heq]
    constructor
    · intro h
      cases h
    · exact fun h => absurd h.1 hreaches
  · rw [heq]
    constructor
    · intro h
      cases h
    · exact fun h => absurd h (not_boots_of_failed hstart entryPath)
  · rw [heq]
    exact ⟨fun _ => hboots, fun _ => rfl⟩

theorem exists_isSuccess_iff {io : EntryIo} {entryPath : Str} :
    (∃ event ∈ (bootLinuxFromEntryFile io entryPath).2, event.IsSuccess)
      ↔ Boots io entryPath := by
  rcases bootLinuxFromEntryFile_cases io entryPath with
    ⟨hreaches, e, events, heq, hnone⟩ | ⟨_, _, _, _, _, e, hstart, heq⟩
      | ⟨hboots, _, _, _, _, heq⟩
  · rw [heq]
    constructor
    · intro ⟨event, hmem, hsuccess⟩
      exact absurd hsuccess.isStart (hnone event hmem)
    · exact fun h => absurd h.1 hreaches
  · rw [heq]
    constructor
    · simp [ImageEvent.IsSuccess]
    · exact fun h => absurd h (not_boots_of_failed hstart entryPath)
  · rw [heq]
    refine ⟨fun _ => hboots, fun _ => ?_⟩
    simp [ImageEvent.IsSuccess]

theorem exists_isStart_iff {io : EntryIo} {entryPath : Str} :
    (∃ event ∈ (bootLinuxFromEntryFile io entryPath).2, event.IsStart)
      ↔ ReachesStart io entryPath := by
  rcases bootLinuxFromEntryFile_cases io entryPath with
    ⟨hreaches, e, events, heq, hnone⟩ | ⟨hreaches, _, _, _, _, e, _, heq⟩
      | ⟨hboots, _, _, _, _, heq⟩
  · rw [heq]
    constructor
    · rintro ⟨event, hmem, hstart⟩
      exact absurd hstart (hnone event hmem)
    · exact fun h => absurd h hreaches
  · rw [heq]
    refine ⟨fun _ => hreaches, fun _ => ?_⟩
    simp [ImageEvent.IsStart]
  · rw [heq]
    refine ⟨fun _ => hboots.1, fun _ => ?_⟩
    simp [ImageEvent.IsStart]

/-- Within an attempt nothing is started after a success. -/
theorem attempt_pairwise (io : EntryIo) (entryPath : Str) :
    (bootLinuxFromEntryFile io entryPath).2.Pairwise fun event later =>
      event.IsSuccess → ¬ later.IsStart := by
  rcases bootLinuxFromEntryFile_cases io entryPath with
    ⟨_, e, events, heq, hnone⟩ | ⟨_, _, _, _, _, e, _, heq⟩ | ⟨_, _, _, _, _, heq⟩
  · rw [heq]
    exact List.pairwise_of_forall_mem_list fun _ _ later hlater _ => hnone later hlater
  · rw [heq]
    simp [ImageEvent.IsSuccess]
  · rw [heq]
    simp [ImageEvent.IsSuccess, ImageEvent.IsStart]

end WebUiBoot.Boot
