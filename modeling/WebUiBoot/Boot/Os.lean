import WebUiBoot.Boot.LinuxDirect
import WebUiBoot.Lib.Loop

/-!
# Booting an operating system

`boot_os` of `src/boot.rs`: a path is looked for on one volume after the other, and what is found
there is started.

* `OsVolume` — the answers of the firmware for one volume;
* `bootVolume` / `bootOs` — the body of the loop, and the call;
* `bootVolume_cases` — the ways through the body of the loop;
* `Succeeds` / `succeeds_iff` — the volumes on which an image is started successfully, and the
  answers for which this is so;
* `boot_os_first_success` — the call is a search for the first of these volumes.
-/

namespace WebUiBoot.Boot

open WebUiBoot.Text WebUiBoot.Loop

/-- The answers of a volume to one call. -/
structure OsVolume where
  openProtocol : Bool
  openVolume : Bool
  /-- To the attempt, when the path is that of an entry file. -/
  entry : EntryIo
  /-- At the path. -/
  file : FileIo
  devicePath : Except Status Unit
  loadImage : Except Status Image
  startImage : Except Status Unit

/-- `path.ends_with(".conf") || path.ends_with(".CONF")`. -/
def isSystemdEntry (path : Str) : Bool :=
  ".conf".toList.isSuffixOf path || ".CONF".toList.isSuffixOf path

/-- The body of the loop: whether the call returns there, and what is done with images. -/
def bootVolume (path : Str) (volume : OsVolume) : Option Unit × List ImageEvent :=
  if !volume.openProtocol then (none, [])
  else if !volume.openVolume then (none, [])
  else if isSystemdEntry path then
    match bootLinuxFromEntryFile volume.entry path with
    | (.error _, events) => (none, events)
    | (.ok (), events) => (some (), events)
  else
    match cstring16 path with
    | none => (none, [])
    | some _ =>
        match readFile volume.file with
        | .error _ => (none, [])
        | .ok buffer =>
            match volume.devicePath with
            | .error _ => (none, [])
            | .ok () =>
                match volume.loadImage with
                | .error _ => (none, [])
                | .ok image =>
                    match volume.startImage with
                    | .error _ => (none, [.loaded image buffer, .started image false,
                        .unloaded image])
                    | .ok () => (some (), [.loaded image buffer, .started image true])

/-- A volume that the call has come to, by its index in handle order, and what was done there. -/
structure Trial where
  volume : ℕ
  events : List ImageEvent

def tryVolume (path : Str) (v : OsVolume × ℕ) : Option Unit × List Trial :=
  ((bootVolume path v.1).1, [⟨v.2, (bootVolume path v.1).2⟩])

def bootOs (handles : Except Status (List OsVolume)) (path : Str) :
    Except Status Unit × List Trial :=
  match handles with
  | .error e => (.error e, [])
  | .ok volumes =>
      match forReturn (tryVolume path) volumes.zipIdx with
      | (some (), trials) => (.ok (), trials)
      | (none, trials) => (.error .notFound, trials)

/-! ### When a volume succeeds -/

/-- An image is started successfully on the volume. -/
def Succeeds (path : Str) (volume : OsVolume) : Prop :=
  ∃ event ∈ (bootVolume path volume).2, event.IsSuccess

/-- The file at the path can be loaded, and comes back without an error when it is started. -/
def FileBoots (path : Str) (volume : OsVolume) : Prop :=
  (cstring16 path).isSome ∧ (∃ buffer, volume.file.Reads buffer) ∧ volume.devicePath = .ok ()
    ∧ (∃ image, volume.loadImage = .ok image) ∧ volume.startImage = .ok ()

variable {path : Str} {volume : OsVolume}

theorem bootVolume_closed (h : ¬ (volume.openProtocol = true ∧ volume.openVolume = true)) :
    bootVolume path volume = (none, []) := by
  unfold bootVolume
  by_cases hprotocol : volume.openProtocol = true
  · have hvolume : volume.openVolume = false := by
      simpa [hprotocol] using h
    rw [hprotocol, hvolume]
    rfl
  · rw [Bool.not_eq_true] at hprotocol
    rw [hprotocol]
    rfl

theorem bootVolume_entry (hprotocol : volume.openProtocol = true)
    (hvolume : volume.openVolume = true) (hpath : isSystemdEntry path = true) :
    bootVolume path volume
      = ((bootLinuxFromEntryFile volume.entry path).1.toOption,
          (bootLinuxFromEntryFile volume.entry path).2) := by
  unfold bootVolume
  rw [hprotocol, hvolume, hpath]
  simp only [Bool.not_true, Bool.false_eq_true, if_false, if_true]
  cases bootLinuxFromEntryFile volume.entry path with
  | mk result events =>
      cases result with
      | error e => rfl
      | ok u => rfl

/-- The ways through the body of the loop when the path is not that of an entry file. -/
theorem bootVolume_file_cases (hprotocol : volume.openProtocol = true)
    (hvolume : volume.openVolume = true) (hpath : isSystemdEntry path = false) :
    (¬ FileBoots path volume ∧ bootVolume path volume = (none, []))
      ∨ (¬ FileBoots path volume ∧ ∃ image buffer, bootVolume path volume
          = (none, [.loaded image buffer, .started image false, .unloaded image]))
      ∨ (FileBoots path volume ∧ ∃ image buffer, bootVolume path volume
          = (some (), [.loaded image buffer, .started image true])) := by
  unfold bootVolume FileBoots
  rw [hprotocol, hvolume, hpath]
  simp only [Bool.not_true, Bool.false_eq_true, if_false]
  cases cstring16 path with
  | none => exact Or.inl ⟨by simp, rfl⟩
  | some path16 =>
      cases hread : readFile volume.file with
      | error e =>
          refine Or.inl ⟨?_, rfl⟩
          rintro ⟨_, ⟨buffer, hreads⟩, _⟩
          rw [readFile_eq_ok.mpr hreads] at hread
          cases hread
      | ok buffer =>
          have hreads : ∃ buffer, volume.file.Reads buffer := ⟨buffer, readFile_eq_ok.mp hread⟩
          cases volume.devicePath with
          | error e => exact Or.inl ⟨by simp, rfl⟩
          | ok u =>
              cases volume.loadImage with
              | error e => exact Or.inl ⟨by simp, rfl⟩
              | ok image =>
                  cases volume.startImage with
                  | error e => exact Or.inr (Or.inl ⟨by simp, image, buffer, rfl⟩)
                  | ok u' =>
                      exact Or.inr (Or.inr
                        ⟨⟨rfl, hreads, rfl, ⟨image, rfl⟩, rfl⟩, image, buffer, rfl⟩)

/-- The answers of a volume for which the path can be booted there. -/
def VolumeBoots (path : Str) (volume : OsVolume) : Prop :=
  volume.openProtocol = true ∧ volume.openVolume = true
    ∧ if isSystemdEntry path then (bootLinuxFromEntryFile volume.entry path).1 = .ok ()
      else FileBoots path volume

/-- **The ways through the body of the loop.** -/
theorem bootVolume_cases (path : Str) (volume : OsVolume) :
    (¬ VolumeBoots path volume ∧ bootVolume path volume = (none, []))
      ∨ (isSystemdEntry path = true
          ∧ (VolumeBoots path volume ↔ (bootLinuxFromEntryFile volume.entry path).1 = .ok ())
          ∧ bootVolume path volume = ((bootLinuxFromEntryFile volume.entry path).1.toOption,
              (bootLinuxFromEntryFile volume.entry path).2))
      ∨ (isSystemdEntry path = false ∧ ¬ VolumeBoots path volume ∧ ∃ image buffer,
          bootVolume path volume
            = (none, [.loaded image buffer, .started image false, .unloaded image]))
      ∨ (isSystemdEntry path = false ∧ VolumeBoots path volume ∧ ∃ image buffer,
          bootVolume path volume = (some (), [.loaded image buffer, .started image true])) := by
  unfold VolumeBoots
  by_cases hopen : volume.openProtocol = true ∧ volume.openVolume = true
  · obtain ⟨hprotocol, hvolume⟩ := hopen
    rw [and_iff_right hprotocol, and_iff_right hvolume]
    cases hpath : isSystemdEntry path with
    | true => exact Or.inr (Or.inl ⟨rfl, Iff.rfl, bootVolume_entry hprotocol hvolume hpath⟩)
    | false =>
        rw [if_neg Bool.false_ne_true]
        rcases bootVolume_file_cases hprotocol hvolume hpath with hnothing | hfailed | hbooted
        · exact Or.inl hnothing
        · exact Or.inr (Or.inr (Or.inl ⟨rfl, hfailed⟩))
        · exact Or.inr (Or.inr (Or.inr ⟨rfl, hbooted⟩))
  · exact Or.inl ⟨fun h => hopen ⟨h.1, h.2.1⟩, bootVolume_closed hopen⟩

/-- The body of the loop: it returns and has started an image successfully, or does neither. -/
theorem bootVolume_returns (path : Str) (volume : OsVolume) :
    (VolumeBoots path volume ∧ (bootVolume path volume).1 = some () ∧ Succeeds path volume)
      ∨ (¬ VolumeBoots path volume ∧ (bootVolume path volume).1 = none
          ∧ ¬ Succeeds path volume) := by
  unfold Succeeds
  rcases bootVolume_cases path volume with
    ⟨hfails, heq⟩ | ⟨_, hboots, heq⟩ | ⟨_, hfails, image, buffer, heq⟩
      | ⟨_, hboots, image, buffer, heq⟩
  · rw [heq]
    exact Or.inr ⟨hfails, rfl, by simp⟩
  · rw [heq, hboots]
    dsimp only
    rw [exists_isSuccess_iff, ← bootLinuxFromEntryFile_eq_ok]
    cases (bootLinuxFromEntryFile volume.entry path).1 with
    | error e => exact Or.inr (by simp [Except.toOption])
    | ok u => exact Or.inl ⟨rfl, rfl, rfl⟩
  · rw [heq]
    exact Or.inr ⟨hfails, rfl, by simp [ImageEvent.IsSuccess]⟩
  · rw [heq]
    exact Or.inl ⟨hboots, rfl, by simp [ImageEvent.IsSuccess]⟩

/-- **When a volume succeeds.**  All calls have to succeed, and for an entry file the attempt to
boot it has to. -/
theorem succeeds_iff : Succeeds path volume ↔ VolumeBoots path volume := by
  rcases bootVolume_returns path volume with ⟨hboots, _, hsucceeds⟩ | ⟨hfails, _, hnone⟩
  · exact iff_of_true hsucceeds hboots
  · exact iff_of_false hnone hfails

theorem bootVolume_eq_some (u : Unit) :
    (bootVolume path volume).1 = some u ↔ Succeeds path volume := by
  rcases bootVolume_returns path volume with ⟨_, hreturns, hsucceeds⟩ | ⟨_, hgoes, hnone⟩
  · exact iff_of_true hreturns hsucceeds
  · exact iff_of_false (by simp [hgoes]) hnone

theorem bootVolume_eq_none : (bootVolume path volume).1 = none ↔ ¬ Succeeds path volume := by
  rw [← bootVolume_eq_some (), Option.eq_none_iff_forall_ne_some]
  exact ⟨fun h => h (), fun h _ => h⟩

/-! ### The search -/

/-- What is done when the volumes are tried in order, the first with the index `k`. -/
def trials (path : Str) (volumes : List OsVolume) : List Trial :=
  volumes.mapIdx fun k volume => ⟨k, (bootVolume path volume).2⟩

def imageEvents (trials : List Trial) : List ImageEvent := trials.flatMap Trial.events

theorem imageEvents_trials (path : Str) (volumes : List OsVolume) :
    imageEvents (trials path volumes) = volumes.flatMap fun v => (bootVolume path v).2 := by
  have hfrom : ∀ k : ℕ, imageEvents
      (volumes.mapIdx fun j volume => ⟨k + j, (bootVolume path volume).2⟩)
        = volumes.flatMap fun v => (bootVolume path v).2 := by
    induction volumes with
    | nil => exact fun _ => rfl
    | cons volume volumes ih =>
        intro k
        have hshift : (fun j (v : OsVolume) => (⟨k + (j + 1), (bootVolume path v).2⟩ : Trial))
            = fun j v => ⟨k + 1 + j, (bootVolume path v).2⟩ := by
          funext j v
          rw [Nat.add_comm j 1, Nat.add_assoc]
        rw [List.mapIdx_cons, hshift, List.flatMap_cons, ← ih (k + 1)]
        rfl
  have hzero := hfrom 0
  simp only [Nat.zero_add] at hzero
  exact hzero

/-- **The search.**  No volume succeeds, and all are tried; or the first that succeeds is the last
that is tried. -/
theorem bootOs_cases (path : Str) (volumes : List OsVolume) :
    ((∀ v ∈ volumes, ¬ Succeeds path v)
        ∧ bootOs (.ok volumes) path = (.error .notFound, trials path volumes))
      ∨ ∃ before v after, volumes = before ++ v :: after ∧ (∀ v' ∈ before, ¬ Succeeds path v')
          ∧ Succeeds path v
          ∧ bootOs (.ok volumes) path = (.ok (), trials path (before ++ [v])) := by
  have htrials : ∀ tried : List OsVolume,
      (tried.zipIdx.flatMap fun v => (tryVolume path v).2) = trials path tried := by
    intro tried
    rw [trials, List.mapIdx_eq_zipIdx_map]
    exact List.map_eq_flatMap.symm
  have hindex : ∀ {tried : List OsVolume} {v : OsVolume}, v ∈ tried →
      ∃ k, (v, k) ∈ tried.zipIdx := by
    intro tried v hv
    obtain ⟨k, hk⟩ := List.mem_iff_getElem?.mp hv
    exact ⟨k, List.mk_mem_zipIdx_iff_getElem?.mpr hk⟩
  have hcall : bootOs (.ok volumes) path
      = match forReturn (tryVolume path) volumes.zipIdx with
        | (some (), trials) => (.ok (), trials)
        | (none, trials) => (.error .notFound, trials) := rfl
  rw [hcall]
  rcases forReturn_cases (tryVolume path) volumes.zipIdx with
    ⟨hall, heq⟩ | ⟨before, x, after, u, hsplit, hbefore, hx, heq⟩
  · left
    constructor
    · intro v hv
      obtain ⟨k, hk⟩ := hindex hv
      exact bootVolume_eq_none.mp (hall (v, k) hk)
    · rw [heq, htrials]
  · right
    obtain ⟨before', rest, hvolumes, rfl, hrest⟩ := List.zipIdx_eq_append_iff.mp hsplit
    obtain ⟨v, after', rfl, rfl, _⟩ := List.zipIdx_eq_cons_iff.mp hrest.symm
    refine ⟨before', v, after', hvolumes, ?_, (bootVolume_eq_some u).mp hx, ?_⟩
    · intro v' hv'
      obtain ⟨k, hk⟩ := hindex hv'
      exact bootVolume_eq_none.mp (hbefore (v', k) hk)
    · rw [heq, ← htrials, List.zipIdx_append]
      rfl

/-- Nothing is started on a volume after a success. -/
theorem bootVolume_pairwise (path : Str) (volume : OsVolume) :
    NoStartAfterSuccess (bootVolume path volume).2 := by
  unfold NoStartAfterSuccess
  rcases bootVolume_cases path volume with
    ⟨_, heq⟩ | ⟨_, _, heq⟩ | ⟨_, _, image, buffer, heq⟩ | ⟨_, _, image, buffer, heq⟩
  · rw [heq]
    exact List.Pairwise.nil
  · rw [heq]
    exact attempt_pairwise volume.entry path
  · rw [heq]
    simp [ImageEvent.IsSuccess]
  · rw [heq]
    simp [ImageEvent.IsSuccess, ImageEvent.IsStart]

/-- Of the volumes that are tried only the last may succeed. -/
theorem trials_noStartAfterSuccess {path : Str} {before : List OsVolume}
    (hbefore : ∀ v ∈ before, ¬ Succeeds path v) (v : OsVolume) :
    NoStartAfterSuccess (imageEvents (trials path (before ++ [v]))) := by
  rw [NoStartAfterSuccess, imageEvents_trials, List.pairwise_flatMap]
  refine ⟨fun v' _ => bootVolume_pairwise path v', ?_⟩
  rw [List.pairwise_append]
  have hnone : ∀ v₁ ∈ before, ∀ v₂, ∀ event ∈ (bootVolume path v₁).2,
      ∀ later ∈ (bootVolume path v₂).2, event.IsSuccess → ¬ later.IsStart :=
    fun v₁ hv₁ _ event hevent _ _ hsuccess =>
      absurd ⟨event, hevent, hsuccess⟩ (hbefore v₁ hv₁)
  refine ⟨?_, List.pairwise_singleton _ _, fun v₁ hv₁ v₂ _ => hnone v₁ hv₁ v₂⟩
  exact List.pairwise_of_forall_mem_list fun v₁ hv₁ v₂ _ => hnone v₁ hv₁ v₂

theorem exists_success_iff {path : Str} {volumes : List OsVolume} :
    (∃ event ∈ imageEvents (trials path volumes), event.IsSuccess)
      ↔ ∃ v ∈ volumes, Succeeds path v := by
  rw [imageEvents_trials]
  constructor
  · rintro ⟨event, hevent, hsuccess⟩
    obtain ⟨v, hv, hmem⟩ := List.mem_flatMap.mp hevent
    exact ⟨v, hv, event, hmem, hsuccess⟩
  · rintro ⟨v, hv, event, hmem, hsuccess⟩
    exact ⟨event, List.mem_flatMap.mpr ⟨v, hv, hmem⟩, hsuccess⟩

/-- **A search for the first success.**  For every path, all volumes and all answers of the
firmware: when `find_handles` fails, so does the call, with its error and without touching a
volume.  Otherwise the volumes are tried in handle order, up to the first that succeeds and not
further; nothing is started after a success; the call returns `Ok` exactly when an image was started
successfully, which is exactly when some volume succeeds, and `NOT_FOUND` with all volumes tried
otherwise.  A volume succeeds exactly when all calls do that boot the path there, which for an entry
file are those of `boot_linux_from_entry_file`. -/
theorem boot_os_first_success (handles : Except Status (List OsVolume)) (path : Str) :
    let call := bootOs handles path
    (∀ e, handles = .error e → call = (.error e, []))
      ∧ ∀ volumes, handles = .ok volumes →
          (∃ tried untried, volumes = tried ++ untried ∧ call.2 = trials path tried
              ∧ (∀ v ∈ tried.dropLast, ¬ Succeeds path v)
              ∧ (untried ≠ [] → ∃ v, tried.getLast? = some v ∧ Succeeds path v))
            ∧ NoStartAfterSuccess (imageEvents call.2)
            ∧ (call.1 = .ok () ↔ ∃ event ∈ imageEvents call.2, event.IsSuccess)
            ∧ (call.1 = .ok () ↔ ∃ v ∈ volumes, Succeeds path v)
            ∧ (call.1 ≠ .ok () → call = (.error .notFound, trials path volumes))
            ∧ ∀ v ∈ volumes, Succeeds path v ↔ VolumeBoots path v := by
  intro call
  refine ⟨fun e he => by rw [show call = bootOs handles path from rfl, he]; rfl, ?_⟩
  rintro volumes rfl
  rcases bootOs_cases path volumes with
    ⟨hnone, heq⟩ | ⟨before, v, after, hvolumes, hbefore, hv, heq⟩
  · have hcall : call = (.error .notFound, trials path volumes) := heq
    rw [hcall]
    have hno : ¬ ∃ v ∈ volumes, Succeeds path v := fun ⟨v, hv, hsucceeds⟩ => hnone v hv hsucceeds
    have herror : (.error .notFound : Except Status Unit) ≠ .ok () := fun h => by cases h
    refine ⟨⟨volumes, [], (List.append_nil _).symm, rfl, ?_, fun h => absurd rfl h⟩, ?_, ?_, ?_,
      fun _ => rfl, fun v _ => succeeds_iff⟩
    · exact fun v hv => hnone v (List.mem_of_mem_dropLast hv)
    · refine List.pairwise_of_forall_mem_list fun event hevent _ _ hsuccess => ?_
      exact absurd (exists_success_iff.mp ⟨event, hevent, hsuccess⟩) hno
    · rw [exists_success_iff]
      exact iff_of_false herror hno
    · exact iff_of_false herror hno
  · have hcall : call = (.ok (), trials path (before ++ [v])) := heq
    rw [hcall]
    have hyes : ∃ v' ∈ before ++ [v], Succeeds path v' := ⟨v, by simp, hv⟩
    refine ⟨⟨before ++ [v], after, ?_, rfl, ?_, ?_⟩, trials_noStartAfterSuccess hbefore v, ?_, ?_,
      fun h => absurd rfl h, fun v _ => succeeds_iff⟩
    · rw [hvolumes, List.append_assoc, List.singleton_append]
    · rw [List.dropLast_concat]
      exact hbefore
    · exact fun _ => ⟨v, List.getLast?_concat, hv⟩
    · rw [exists_success_iff]
      exact iff_of_true rfl hyes
    · exact iff_of_true rfl ⟨v, by simp [hvolumes], hv⟩

end WebUiBoot.Boot
