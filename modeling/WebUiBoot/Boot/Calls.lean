import WebUiBoot.Boot.Pop

/-!
# One call of `check_and_process_bootnext`

A call gets to at most one flag file: the first that it can open, in the first volume that it can
open.  Everything else stays as it is.

* `flagFile` — the flag file that a call gets to;
* `checkAndProcessBootnext_eq` — a call pops from that file, and does nothing else;
* `nodeAt_checkAndProcessBootnext` — the same, path by path.
-/

namespace WebUiBoot.Boot

open WebUiBoot.Text WebUiBoot.Trace

/-- The first flag file of a volume that can be opened. -/
def findFlag (io : VolumeIo) (v : Volume) : List String → Option (String × Bytes)
  | [] => none
  | name :: names =>
      match openFlag (io.flag name) (v name) with
      | none => findFlag io v names
      | some content => some (name, content)

/-- The first flag file that can be opened, from the volume with the index `i` on. -/
def flagFileFrom (io : BootIo) (i : ℕ) : List Volume → Option (ℕ × String × Bytes)
  | [] => none
  | v :: vs =>
      if (io.volume i).openProtocol = true ∧ (io.volume i).openVolume = true then
        match findFlag (io.volume i) v flagFilenames with
        | none => flagFileFrom io (i + 1) vs
        | some found => some (i, found)
      else flagFileFrom io (i + 1) vs

/-- The flag file that a call gets to: volume, name and content. -/
def flagFile (io : BootIo) (volumes : List Volume) : Option (ℕ × String × Bytes) :=
  if io.findHandles then flagFileFrom io 0 volumes else none

/-- What stands at a path of a volume. -/
def nodeAt (volumes : List Volume) (i : ℕ) (name : String) : Option Node :=
  volumes[i]?.bind fun v => v name

/-- The pop from a flag file, for the calls of `io`. -/
def popAt (io : BootIo) (i : ℕ) (name : String) (content : Bytes) : Popped :=
  popFlagFile ((io.volume i).flag name) content

/-- Only the deletion of flag files fails. -/
def deleteFails : BootIo := ⟨true, fun _ => ⟨true, true, fun _ => { FlagIo.ok with delete := false }⟩⟩

/-- A volume with a text in `\bootnext.txt`. -/
def volumeWith (text : String) : Volume := fun name =>
  if name = "\\bootnext.txt" then some (.file (encodeUtf8 text.toList)) else none

/-! ### The two loops -/

theorem processFlags_eq (io : VolumeIo) (v : Volume) (names : List String) :
    processFlags io v names = (findFlag io v names).map fun found =>
      (Function.update v found.1 (popFlagFile (io.flag found.1) found.2).node,
        (popFlagFile (io.flag found.1) found.2).target.map (found.1, ·)) := by
  induction names with
  | nil => rfl
  | cons name names ih =>
      rw [processFlags, findFlag]
      cases openFlag (io.flag name) (v name) with
      | none => exact ih
      | some content => rfl

theorem le_of_flagFileFrom {io : BootIo} {vs : List Volume} :
    ∀ {i j : ℕ} {found : String × Bytes}, flagFileFrom io i vs = some (j, found) → i ≤ j := by
  induction vs with
  | nil => exact fun h => absurd h (by simp [flagFileFrom])
  | cons v vs ih =>
      intro i j found h
      rw [flagFileFrom] at h
      split at h
      · split at h
        · have hle := ih h
          omega
        · cases h
          exact Nat.le_refl i
      · have hle := ih h
        omega

/-- **The outer loop.** -/
theorem processVolumes_eq (io : BootIo) (vs : List Volume) : ∀ i,
    processVolumes io i vs = match flagFileFrom io i vs with
      | none => (vs, [])
      | some (j, name, content) =>
          (vs.modify (j - i) fun v => Function.update v name (popAt io j name content).node,
            ((popAt io j name content).target.map fun target =>
              (⟨j, name, replaceSlashes target⟩ : Booted)).toList) := by
  induction vs with
  | nil => exact fun _ => rfl
  | cons v vs ih =>
      intro i
      -- the volume is left behind with a `continue`, or without having been processed
      have hskip : ∀ {found : Option (ℕ × String × Bytes)}, found = flagFileFrom io (i + 1) vs →
          (v :: (processVolumes io (i + 1) vs).1, (processVolumes io (i + 1) vs).2)
            = match found with
              | none => (v :: vs, [])
              | some (j, name, content) =>
                  ((v :: vs).modify (j - i) fun v =>
                      Function.update v name (popAt io j name content).node,
                    ((popAt io j name content).target.map fun target =>
                      (⟨j, name, replaceSlashes target⟩ : Booted)).toList) := by
        intro found hfound
        subst hfound
        rw [ih (i + 1)]
        cases hfound : flagFileFrom io (i + 1) vs with
        | none => rfl
        | some found =>
            obtain ⟨j, name, content⟩ := found
            have hle := le_of_flagFileFrom hfound
            have hj : j - i = (j - (i + 1)) + 1 := by omega
            dsimp only
            rw [hj, List.modify_succ_cons]
      rw [processVolumes, flagFileFrom]
      by_cases hprotocol : (io.volume i).openProtocol = true
      · by_cases hvolume : (io.volume i).openVolume = true
        · simp only [hprotocol, hvolume, Bool.not_true, Bool.false_eq_true, if_false, and_self,
            if_true, processFlags_eq]
          cases hfind : findFlag (io.volume i) v flagFilenames with
          | none => exact hskip rfl
          | some found =>
              obtain ⟨name, content⟩ := found
              simp only [Option.map_some, popAt, Nat.sub_self, List.modify_zero_cons]
              cases (popFlagFile ((io.volume i).flag name) content).target with
              | none => rfl
              | some target => rfl
        · simp only [hprotocol, hvolume, Bool.not_true, Bool.false_eq_true, if_false, and_false,
            Bool.not_false, if_true]
          exact hskip rfl
      · simp only [hprotocol, Bool.false_eq_true, if_false, false_and, Bool.not_false, if_true]
        exact hskip rfl

/-! ### The call as a whole -/

/-- **One call.**  It pops from the flag file that it gets to, boots the path that it popped, and
does nothing else. -/
theorem checkAndProcessBootnext_eq (io : BootIo) (volumes : List Volume) :
    checkAndProcessBootnext io volumes = match flagFile io volumes with
      | none => (volumes, [])
      | some (i, name, content) =>
          (volumes.modify i fun v => Function.update v name (popAt io i name content).node,
            ((popAt io i name content).target.map fun target =>
              (⟨i, name, replaceSlashes target⟩ : Booted)).toList) := by
  unfold checkAndProcessBootnext flagFile
  by_cases h : io.findHandles = true
  · rw [if_pos h, if_pos h, processVolumes_eq]
    rfl
  · rw [if_neg h, if_neg h]

theorem findFlag_spec {io : VolumeIo} {v : Volume} {names : List String} {name : String}
    {content : Bytes} (h : findFlag io v names = some (name, content)) :
    name ∈ names ∧ v name = some (.file content) := by
  induction names with
  | nil => cases h
  | cons name' names ih =>
      rw [findFlag] at h
      cases hopen : openFlag (io.flag name') (v name') with
      | none =>
          rw [hopen] at h
          obtain ⟨hmem, hv⟩ := ih h
          exact ⟨List.mem_cons_of_mem _ hmem, hv⟩
      | some content' =>
          rw [hopen] at h
          cases h
          refine ⟨List.mem_cons_self, ?_⟩
          unfold openFlag at hopen
          split at hopen
          · split at hopen
            · rename_i hv _
              rw [hv, Option.some.inj hopen]
            · cases hopen
          · cases hopen

/-- The flag file that a call gets to is there. -/
theorem nodeAt_of_flagFile {io : BootIo} {volumes : List Volume} {i : ℕ} {name : String}
    {content : Bytes} (h : flagFile io volumes = some (i, name, content)) :
    name ∈ flagFilenames ∧ nodeAt volumes i name = some (.file content) := by
  have hfrom : ∀ {vs : List Volume} {k : ℕ}, flagFileFrom io k vs = some (i, name, content) →
      name ∈ flagFilenames ∧ nodeAt vs (i - k) name = some (.file content) := by
    intro vs
    induction vs with
    | nil => exact fun h => absurd h (by simp [flagFileFrom])
    | cons v vs ih =>
        intro k h
        have hrest : flagFileFrom io (k + 1) vs = some (i, name, content) →
            name ∈ flagFilenames ∧ nodeAt (v :: vs) (i - k) name = some (.file content) := by
          intro h
          have hle := le_of_flagFileFrom h
          have hk : i - k = (i - (k + 1)) + 1 := by omega
          obtain ⟨hmem, hnode⟩ := ih h
          refine ⟨hmem, ?_⟩
          rw [hk, nodeAt, List.getElem?_cons_succ]
          exact hnode
        rw [flagFileFrom] at h
        split at h
        · split at h
          · exact hrest h
          · rename_i found hfound
            cases h
            obtain ⟨hmem, hv⟩ := findFlag_spec hfound
            rw [Nat.sub_self]
            exact ⟨hmem, hv⟩
        · exact hrest h
  unfold flagFile at h
  split at h
  · exact hfrom h
  · cases h

/-- What stands at the paths after a call. -/
theorem nodeAt_modify (volumes : List Volume) (i j : ℕ) (name name' : String)
    (node : Option Node) (hi : i < volumes.length) :
    nodeAt (volumes.modify i fun v => Function.update v name node) j name'
      = if j = i ∧ name' = name then node else nodeAt volumes j name' := by
  unfold nodeAt
  rw [List.getElem?_modify]
  by_cases hj : j = i
  · subst hj
    rw [List.getElem?_eq_getElem hi]
    by_cases hname : name' = name
    · subst hname
      simp
    · simp [hname]
  · simp [hj, Ne.symm hj]

theorem nodeAt_checkAndProcessBootnext {io : BootIo} {volumes : List Volume} {i : ℕ}
    {name : String} {content : Bytes} (h : flagFile io volumes = some (i, name, content))
    (j : ℕ) (name' : String) :
    nodeAt (checkAndProcessBootnext io volumes).1 j name'
      = if j = i ∧ name' = name then (popAt io i name content).node
        else nodeAt volumes j name' := by
  have hi : i < volumes.length := by
    have hnode := (nodeAt_of_flagFile h).2
    by_contra hge
    rw [nodeAt, List.getElem?_eq_none (by omega)] at hnode
    cases hnode
  rw [checkAndProcessBootnext_eq, h]
  exact nodeAt_modify volumes i j name name' _ hi

/-- What the call boots. -/
theorem booted_of_flagFile {io : BootIo} {volumes : List Volume} {i : ℕ} {name : String}
    {content : Bytes} (h : flagFile io volumes = some (i, name, content)) :
    (checkAndProcessBootnext io volumes).2
      = ((popFlagFile ((io.volume i).flag name) content).target.map fun target =>
          (⟨i, name, replaceSlashes target⟩ : Booted)).toList := by
  rw [checkAndProcessBootnext_eq, h]
  rfl

end WebUiBoot.Boot
