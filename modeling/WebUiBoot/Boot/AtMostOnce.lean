import Mathlib.Data.List.Forall2
import WebUiBoot.Boot.Calls

/-!
# Is a popped path booted at most once?

The path is chosen before the flag file is changed, and it is booted whatever comes of the change.
So a path that could not be removed from its file is booted again at the next call.

* `PopRemoves` — the patterns of failures for which nothing but later lines is left in the file;
* `popFlagFile_removes_iff` — for one flag file;
* `BootedAtMostOnce` — boots that use up the lines of a flag file;
* `bootnext_at_most_once` — a call boots only what it removed exactly under that condition, and
  over successive calls that meet it each line is booted at most once;
* `failed_delete_boots_again` — a deletion that fails makes a boot loop.
-/

namespace WebUiBoot.Boot

open WebUiBoot.Text WebUiBoot.Trace
open scoped List

/-- The flag file cannot be read, or has no path. -/
def PopsNothing (io : FlagIo) (content : Bytes) : Prop :=
  io.getInfo = false ∨ io.read = false ∨ pathsOf content = []

/-- The file is deleted, or the remaining paths are written over the old content and what is left
of that has no lines. -/
def PopRemoves (io : FlagIo) (content : Bytes) : Prop :=
  io.delete = true
    ∨ ((pathsOf content).tail ≠ [] ∧ io.reopen = true ∧ io.reopenRegular = true ∧ io.write = true
        ∧ (decodeUtf8 (content.drop (newBytes (pathsOf content).tail).length) = none
          ∨ BlankLeftover content))

variable {io : FlagIo} {content : Bytes}

/-! ### One flag file -/

theorem popFlagFile_popsNothing (h : PopsNothing io content) :
    (popFlagFile io content).target = none
      ∧ fileLines (popFlagFile io content).node <+ fileLines (some (.file content)) := by
  by_cases hread : io.getInfo = false ∨ io.read = false ∨ decodeUtf8 content = none
  · rw [popFlagFile_unread hread]
    exact ⟨rfl, List.Sublist.refl _⟩
  · simp only [not_or, Bool.not_eq_false] at hread
    obtain ⟨hinfo, hread, htext⟩ := hread
    have hpaths : pathsOf content = [] := by
      rcases h with h | h | h
      · exact absurd (hinfo.symm.trans h) (by decide)
      · exact absurd (hread.symm.trans h) (by decide)
      · exact h
    rw [popFlagFile_nil hinfo hread hpaths htext, deleted]
    refine ⟨rfl, ?_⟩
    split
    · exact List.nil_sublist _
    · exact List.Sublist.refl _

theorem popFlagFile_pops (h : ¬ PopsNothing io content) :
    io.getInfo = true ∧ io.read = true ∧ ∃ target remaining,
      pathsOf content = target :: remaining ∧ (popFlagFile io content).target = some target := by
  simp only [PopsNothing, not_or, Bool.not_eq_false] at h
  obtain ⟨hinfo, hread, hne⟩ := h
  obtain ⟨target, remaining, hpaths⟩ := List.exists_cons_of_ne_nil hne
  refine ⟨hinfo, hread, target, remaining, hpaths, ?_⟩
  rw [popFlagFile_cons hinfo hread hpaths]

/-- The lines of a file that was not changed are too many. -/
theorem not_sublist_remaining {target : Str} {remaining : List Str}
    (h : pathsOf content = target :: remaining) :
    ¬ fileLines (some (.file content)) <+ remaining := by
  intro hsub
  have hle := length_pathsOf_le content
  have hlength := hsub.length_le
  rw [h, List.length_cons] at hle
  omega

/-- Over the old content: what is left of it has no lines, or cannot be read with the rest. -/
theorem overwritten_sublist_iff {target : Str} {remaining : List Str} (hne : remaining ≠ [])
    (hpaths : pathsOf content = target :: remaining) :
    fileLines (some (.file (newBytes remaining ++ content.drop (newBytes remaining).length)))
        <+ remaining
      ↔ decodeUtf8 (content.drop (newBytes remaining).length) = none ∨ BlankLeftover content := by
  have htail : (pathsOf content).tail = remaining := by
    rw [hpaths]
    rfl
  rw [fileLines_newBytes_append hne (isLine_remaining hpaths), BlankLeftover, htail]
  cases decodeUtf8 (content.drop (newBytes remaining).length) with
  | none => simp
  | some text =>
      constructor
      · intro h
        have hlength := h.length_le
        rw [List.length_append] at hlength
        exact Or.inr ⟨text, rfl, List.length_eq_zero_iff.mp (by omega)⟩
      · rintro (h | ⟨text', h, hblank⟩)
        · cases h
        · cases h
          simp [hblank]

/-- **One flag file.**  The file holds nothing but remaining paths exactly when the popped path has
been removed. -/
theorem popFlagFile_removes_iff {target : Str} {remaining : List Str}
    (hinfo : io.getInfo = true) (hread : io.read = true)
    (hpaths : pathsOf content = target :: remaining) :
    fileLines (popFlagFile io content).node <+ remaining ↔ PopRemoves io content := by
  have htail : (pathsOf content).tail = remaining := by
    rw [hpaths]
    rfl
  rw [popFlagFile_cons hinfo hread hpaths, PopRemoves, htail, deleted]
  dsimp only
  by_cases hdelete : io.delete = true
  · refine ⟨fun _ => Or.inl hdelete, fun _ => ?_⟩
    rw [if_pos hdelete]
    by_cases hne : remaining = []
    · rw [if_pos hne]
      exact List.nil_sublist _
    · rw [if_neg hne, rewriteFlagFile_none]
      split
      · split
        · rw [fileLines_newBytes hne (isLine_remaining hpaths)]
        · rw [fileLines_nil]
          exact List.nil_sublist _
      · exact List.nil_sublist _
  · rw [if_neg hdelete, or_iff_right hdelete]
    by_cases hne : remaining = []
    · rw [if_pos hne]
      exact ⟨fun h => absurd h (not_sublist_remaining hpaths), fun h => absurd hne h.1⟩
    · rw [if_neg hne, rewriteFlagFile_some]
      by_cases hall : io.reopen = true ∧ io.reopenRegular = true ∧ io.write = true
      · rw [if_pos hall, overwritten_sublist_iff hne hpaths]
        simp [hne, hall]
      · rw [if_neg hall]
        refine ⟨fun h => absurd h (not_sublist_remaining hpaths), fun h => absurd ?_ hall⟩
        exact ⟨h.2.1, h.2.2.1, h.2.2.2.1⟩

/-! ### One call -/

/-- The paths in what stands at the path of a flag file. -/
def nodePaths : Option Node → List Str
  | some (.file content) => pathsOf content
  | _ => []

/-- The path that was booted was the first in its flag file, and nothing but lines behind it is left
there.  This asks for more than that its line is gone: over the old content, the rest of that may
hold a line once more, or the end of one, and a later call would boot it. -/
def Removed (before after : List Volume) (b : Booted) : Prop :=
  ∃ target remaining, nodePaths (nodeAt before b.volume b.flagFile) = target :: remaining
    ∧ b.path = replaceSlashes target
    ∧ fileLines (nodeAt after b.volume b.flagFile) <+ remaining

/-- The flag file that the call gets to, if any, has nothing to pop, or its path is removed. -/
def RemovesFirst (volumes : List Volume) (io : BootIo) : Prop :=
  ∀ i name content, flagFile io volumes = some (i, name, content) →
    PopsNothing ((io.volume i).flag name) content ∨ PopRemoves ((io.volume i).flag name) content

theorem removed_iff (io : BootIo) (volumes : List Volume) :
    (∀ b ∈ (checkAndProcessBootnext io volumes).2,
        Removed volumes (checkAndProcessBootnext io volumes).1 b) ↔ RemovesFirst volumes io := by
  cases hfile : flagFile io volumes with
  | none =>
      have hnone : (checkAndProcessBootnext io volumes).2 = [] := by
        rw [checkAndProcessBootnext_eq, hfile]
      rw [hnone]
      refine ⟨fun _ i name content h => ?_, fun _ b hb => absurd hb List.not_mem_nil⟩
      rw [hfile] at h
      cases h
  | some found =>
      obtain ⟨i, name, content⟩ := found
      have hfirst : RemovesFirst volumes io ↔ PopsNothing ((io.volume i).flag name) content
          ∨ PopRemoves ((io.volume i).flag name) content := by
        constructor
        · exact fun h => h i name content hfile
        · intro h j name' content' h'
          rw [hfile] at h'
          cases h'
          exact h
      rw [booted_of_flagFile hfile, hfirst]
      by_cases hnothing : PopsNothing ((io.volume i).flag name) content
      · rw [(popFlagFile_popsNothing hnothing).1]
        exact ⟨fun _ => Or.inl hnothing, fun _ b hb => absurd hb List.not_mem_nil⟩
      · obtain ⟨hinfo, hread, target, remaining, hpaths, htarget⟩ := popFlagFile_pops hnothing
        have hnode := nodeAt_checkAndProcessBootnext hfile i name
        rw [if_pos ⟨rfl, rfl⟩] at hnode
        have hbefore : nodePaths (nodeAt volumes i name) = target :: remaining := by
          rw [(nodeAt_of_flagFile hfile).2]
          exact hpaths
        rw [htarget, or_iff_right hnothing, ← popFlagFile_removes_iff hinfo hread hpaths]
        constructor
        · intro h
          obtain ⟨target', remaining', hbefore', _, hsub⟩ :=
            h ⟨i, name, replaceSlashes target⟩ (List.mem_singleton.mpr rfl)
          rw [hbefore] at hbefore'
          cases hbefore'
          rw [hnode] at hsub
          exact hsub
        · intro h b hb
          rw [List.mem_singleton.mp hb]
          refine ⟨target, remaining, hbefore, rfl, ?_⟩
          rw [hnode]
          exact h

/-! ### Successive calls -/

/-- A boot of a line: a byte order mark may have been taken off it. -/
def BootsLine (path line : Str) : Prop :=
  path = replaceSlashes line ∨ path = replaceSlashes (trim (stripBom line))

/-- The boots use up lines, in order: each line is booted at most once. -/
def BootedAtMostOnce (paths lines : List Str) : Prop :=
  ∃ booted, booted <+ lines ∧ List.Forall₂ BootsLine paths booted

/-- The paths that were popped from a flag file and booted. -/
def pathsFrom (i : ℕ) (name : String) (bs : List Booted) : List Str :=
  (bs.filter fun b => b.volume = i ∧ b.flagFile = name).map Booted.path

theorem BootedAtMostOnce.mono {paths lines lines' : List Str} (h : BootedAtMostOnce paths lines)
    (hsub : lines <+ lines') : BootedAtMostOnce paths lines' := by
  obtain ⟨booted, hbooted, hpaths⟩ := h
  exact ⟨booted, hbooted.trans hsub, hpaths⟩

/-- The first path is that of a line, and what remains is behind that line. -/
theorem BootedAtMostOnce.cons {target : Str} {remaining after : List Str} {paths : List Str}
    (hpaths : pathsOf content = target :: remaining) (hsub : after <+ remaining)
    (h : BootedAtMostOnce paths after) :
    BootedAtMostOnce (replaceSlashes target :: paths) (fileLines (some (.file content))) := by
  obtain ⟨booted, hbooted, hforall⟩ := h
  have hbehind := hbooted.trans hsub
  rcases pathsOf_cases content with heq | ⟨line, rest, hlines, heq⟩
  · rw [← heq, hpaths]
    exact ⟨target :: booted, hbehind.cons_cons target, List.Forall₂.cons (Or.inl rfl) hforall⟩
  · rw [hlines]
    rw [hpaths] at heq
    unfold unmarked at heq
    split at heq
    · rw [List.nil_append] at heq
      refine ⟨target :: booted, ?_, List.Forall₂.cons (Or.inl rfl) hforall⟩
      rw [← heq]
      exact (hbehind.cons_cons target).cons line
    · obtain ⟨rfl, rfl⟩ := List.cons.inj heq
      exact ⟨line :: booted, hbehind.cons_cons line, List.Forall₂.cons (Or.inr rfl) hforall⟩

/-- **One call, seen from a flag file.**  What later calls boot from it, they boot from lines
behind the one that this call has booted, if it has. -/
theorem BootedAtMostOnce.step {io : BootIo} {volumes : List Volume}
    (hremoves : RemovesFirst volumes io) {i : ℕ} {name : String} {paths : List Str}
    (h : BootedAtMostOnce paths
      (fileLines (nodeAt (checkAndProcessBootnext io volumes).1 i name))) :
    BootedAtMostOnce (pathsFrom i name (checkAndProcessBootnext io volumes).2 ++ paths)
      (fileLines (nodeAt volumes i name)) := by
  cases hfile : flagFile io volumes with
  | none =>
      rw [checkAndProcessBootnext_eq, hfile] at h ⊢
      exact h
  | some found =>
      obtain ⟨j, name', content⟩ := found
      rw [nodeAt_checkAndProcessBootnext hfile] at h
      rw [booted_of_flagFile hfile]
      by_cases heq : i = j ∧ name = name'
      · obtain ⟨rfl, rfl⟩ := heq
        rw [if_pos ⟨rfl, rfl⟩] at h
        rw [(nodeAt_of_flagFile hfile).2]
        by_cases hnothing : PopsNothing ((io.volume i).flag name) content
        · obtain ⟨htarget, hsub⟩ := popFlagFile_popsNothing hnothing
          rw [htarget]
          exact h.mono hsub
        · obtain ⟨hinfo, hread, target, remaining, hpaths, htarget⟩ := popFlagFile_pops hnothing
          have hsub := (popFlagFile_removes_iff hinfo hread hpaths).mpr
            ((hremoves i name content hfile).resolve_left hnothing)
          have hfrom : pathsFrom i name [⟨i, name, replaceSlashes target⟩]
              = [replaceSlashes target] := by
            simp [pathsFrom]
          rw [htarget, Option.map_some, Option.toList_some, hfrom]
          exact h.cons hpaths hsub
      · rw [if_neg heq] at h
        have hfrom : pathsFrom i name ((popFlagFile ((io.volume j).flag name') content).target.map
            fun target => (⟨j, name', replaceSlashes target⟩ : Booted)).toList = [] := by
          cases (popFlagFile ((io.volume j).flag name') content).target with
          | none => rfl
          | some target =>
              have hne : ¬ (j = i ∧ name' = name) := fun h => heq ⟨h.1.symm, h.2.symm⟩
              simp [pathsFrom, hne]
        rw [hfrom]
        exact h

/-- **At most one boot of each line.**  A call boots only a path of which nothing but later lines is
left in its flag file, if and only if that file could be deleted or overwritten; and over any number
of successive calls that meet this, with any other failures, the paths booted from a flag file are,
in order, those of different lines that it held at the start. -/
theorem bootnext_at_most_once (volumes : List Volume) :
    (∀ io, (∀ b ∈ (checkAndProcessBootnext io volumes).2,
        Removed volumes (checkAndProcessBootnext io volumes).1 b) ↔ RemovesFirst volumes io)
    ∧ ∀ ios, boots.Along RemovesFirst volumes ios → ∀ i name,
        BootedAtMostOnce (pathsFrom i name (boots.run volumes ios).2)
          (fileLines (nodeAt volumes i name)) := by
  refine ⟨fun io => removed_iff io volumes, fun ios => ?_⟩
  induction ios generalizing volumes with
  | nil => exact fun _ i name => ⟨[], List.nil_sublist _, List.Forall₂.nil⟩
  | cons io ios ih =>
      intro halong i name
      have hrest := ih (checkAndProcessBootnext io volumes).1 halong.2 i name
      have hfrom : pathsFrom i name (boots.run volumes (io :: ios)).2
          = pathsFrom i name (checkAndProcessBootnext io volumes).2
            ++ pathsFrom i name (boots.run (checkAndProcessBootnext io volumes).1 ios).2 := by
        rw [Machine.run_cons, pathsFrom, List.filter_append, List.map_append]
        rfl
      rw [hfrom]
      exact hrest.step halong.1

theorem bootnext_at_most_once_deleted :
    BootedAtMostOnce (pathsFrom 0 "\\bootnext.txt"
        (boots.run [volumeWith "a.efi\nb.efi\n"] [.ok, .ok, .ok]).2)
      (fileLines (nodeAt [volumeWith "a.efi\nb.efi\n"] 0 "\\bootnext.txt")) := by
  have hremoves : ∀ volumes, RemovesFirst volumes .ok := fun _ _ _ _ _ => Or.inr (Or.inl rfl)
  exact (bootnext_at_most_once _).2 [.ok, .ok, .ok]
    ⟨hremoves _, hremoves _, hremoves _, trivial⟩ 0 "\\bootnext.txt"

/-- **A boot loop.**  With a deletion that fails, the only line of a file is booted by every
call. -/
theorem failed_delete_boots_again :
    (boots.run [volumeWith "a.efi"] [deleteFails, deleteFails]).2
        = [⟨0, "\\bootnext.txt", "a.efi".toList⟩, ⟨0, "\\bootnext.txt", "a.efi".toList⟩]
      ∧ ¬ BootedAtMostOnce (pathsFrom 0 "\\bootnext.txt"
          (boots.run [volumeWith "a.efi"] [deleteFails, deleteFails]).2)
        (fileLines (nodeAt [volumeWith "a.efi"] 0 "\\bootnext.txt")) := by
  have hboots : (boots.run [volumeWith "a.efi"] [deleteFails, deleteFails]).2
      = [⟨0, "\\bootnext.txt", "a.efi".toList⟩, ⟨0, "\\bootnext.txt", "a.efi".toList⟩] := by
    decide
  refine ⟨hboots, ?_⟩
  rintro ⟨booted, hsub, hforall⟩
  have hlines : fileLines (nodeAt [volumeWith "a.efi"] 0 "\\bootnext.txt") = ["a.efi".toList] := by
    decide
  have hle := hsub.length_le
  have hlength := hforall.length_eq
  rw [hlines, List.length_singleton] at hle
  rw [hboots] at hlength
  simp [pathsFrom] at hlength
  omega

end WebUiBoot.Boot
