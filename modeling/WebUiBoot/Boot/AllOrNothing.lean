import WebUiBoot.Boot.Calls

/-!
# Is a pop all or nothing?

After a call the flag file should be as it was, or hold the remaining lines.  The deletion, the
second `open` and the write can each fail by themselves, and the steps after a failure are taken
all the same.

* `AllOrNothing` — the two admissible outcomes;
* `PopsCleanly` — the patterns of failures, and the contents, for which there is no other one;
* `popFlagFile_allOrNothing_iff` — for one flag file;
* `bootnext_all_or_nothing_iff` — for a call, on all the volumes;
* `failed_delete_mixes_lines` — a deletion that fails leaves a mixture of lines.
-/

namespace WebUiBoot.Boot

open WebUiBoot.Text WebUiBoot.Trace

/-- The remaining paths, and nothing else: no file when there are none. -/
def HoldsRemaining (content : Bytes) (node : Option Node) : Prop :=
  if (pathsOf content).tail = [] then node = none else fileLines node = (pathsOf content).tail

/-- The file is as it was, or holds exactly the remaining paths. -/
def AllOrNothing (content : Bytes) (node : Option Node) : Prop :=
  node = some (.file content) ∨ HoldsRemaining content node

/-- Nothing goes wrong on the way: the content cannot be read, or has at most one path; or, with
several paths, the file is replaced as a whole, or not at all, or what the write leaves of it does
no harm. -/
def PopsCleanly (io : FlagIo) (content : Bytes) : Prop :=
  io.getInfo = false ∨ io.read = false ∨ (pathsOf content).length ≤ 1
    ∨ (io.delete = true ∧ io.reopen = true ∧ io.reopenRegular = true ∧ io.write = true)
    ∨ (io.delete = false ∧ (io.reopen = false ∨ io.reopenRegular = false ∨ io.write = false
        ∨ BlankLeftover content ∨ newBytes (pathsOf content).tail <+: content))

variable {io : FlagIo} {content : Bytes}

/-- With at most one path there is nothing to write back. -/
theorem allOrNothing_deleted (h : (pathsOf content).tail = []) :
    AllOrNothing content (deleted io content) := by
  unfold deleted
  split
  · right
    rw [HoldsRemaining, if_pos h]
  · exact Or.inl rfl

theorem overwritten_eq_iff (content new : Bytes) :
    new ++ content.drop new.length = content ↔ new <+: content := by
  constructor
  · intro h
    exact ⟨_, h⟩
  · rintro ⟨rest, rfl⟩
    rw [List.drop_left]

/-- **Several paths, and the old file is gone.** -/
theorem allOrNothing_rewrite_none {target : Str} {remaining : List Str} (hne : remaining ≠ [])
    (hpaths : pathsOf content = target :: remaining) :
    AllOrNothing content (rewriteFlagFile io none remaining)
      ↔ io.reopen = true ∧ io.reopenRegular = true ∧ io.write = true := by
  have hlines := isLine_remaining hpaths
  have htail : (pathsOf content).tail = remaining := by
    rw [hpaths]
    rfl
  have hcontent : content ≠ [] := by
    intro h
    have hle := length_pathsOf_le content
    rw [hpaths, h, fileLines_nil] at hle
    simp at hle
  rw [rewriteFlagFile_none, AllOrNothing, HoldsRemaining, htail, if_neg hne]
  by_cases hreopen : io.reopen = true
  · by_cases hwrite : io.reopenRegular = true ∧ io.write = true
    · rw [if_pos hreopen, if_pos hwrite, fileLines_newBytes hne hlines]
      exact ⟨fun _ => ⟨hreopen, hwrite⟩, fun _ => Or.inr rfl⟩
    · rw [if_pos hreopen, if_neg hwrite, fileLines_nil]
      constructor
      · rintro (h | h)
        · exact absurd (Node.file.inj (Option.some.inj h)).symm hcontent
        · exact absurd h.symm hne
      · exact fun h => absurd h.2 hwrite
  · rw [if_neg hreopen]
    constructor
    · rintro (h | h)
      · cases h
      · exact absurd h.symm hne
    · exact fun h => absurd h.1 hreopen

/-- **Several paths, and the old file is still there.** -/
theorem allOrNothing_rewrite_some {target : Str} {remaining : List Str} (hne : remaining ≠ [])
    (hpaths : pathsOf content = target :: remaining) :
    AllOrNothing content (rewriteFlagFile io (some (.file content)) remaining)
      ↔ io.reopen = false ∨ io.reopenRegular = false ∨ io.write = false
        ∨ BlankLeftover content ∨ newBytes remaining <+: content := by
  have hlines := isLine_remaining hpaths
  have htail : (pathsOf content).tail = remaining := by
    rw [hpaths]
    rfl
  rw [rewriteFlagFile_some, AllOrNothing, HoldsRemaining, htail, if_neg hne]
  by_cases hall : io.reopen = true ∧ io.reopenRegular = true ∧ io.write = true
  · have hleftover : fileLines (some (.file
        (newBytes remaining ++ content.drop (newBytes remaining).length))) = remaining
        ↔ BlankLeftover content := by
      rw [fileLines_newBytes_append hne hlines, BlankLeftover, htail]
      cases decodeUtf8 (content.drop (newBytes remaining).length) with
      | none => simp [hne.symm]
      | some text => simp
    obtain ⟨hreopen, hregular, hwrite⟩ := hall
    rw [if_pos ⟨hreopen, hregular, hwrite⟩, hleftover, Option.some.injEq, Node.file.injEq,
      overwritten_eq_iff, hreopen, hregular, hwrite]
    simp [or_comm]
  · rw [if_neg hall]
    constructor
    · intro _
      by_contra h
      simp only [not_or, Bool.not_eq_false] at h
      exact hall ⟨h.1, h.2.1, h.2.2.1⟩
    · exact fun _ => Or.inl rfl

/-- **One flag file.**  A pop is all or nothing exactly when it is a clean one. -/
theorem popFlagFile_allOrNothing_iff (io : FlagIo) (content : Bytes) :
    AllOrNothing content (popFlagFile io content).node ↔ PopsCleanly io content := by
  unfold PopsCleanly
  by_cases hinfo : io.getInfo = true
  swap
  · rw [Bool.not_eq_true] at hinfo
    rw [popFlagFile_unread (Or.inl hinfo)]
    exact ⟨fun _ => Or.inl hinfo, fun _ => Or.inl rfl⟩
  by_cases hread : io.read = true
  swap
  · rw [Bool.not_eq_true] at hread
    rw [popFlagFile_unread (Or.inr (Or.inl hread))]
    exact ⟨fun _ => Or.inr (Or.inl hread), fun _ => Or.inl rfl⟩
  cases hpaths : pathsOf content with
  | nil =>
      refine ⟨fun _ => Or.inr (Or.inr (Or.inl (Nat.zero_le 1))), fun _ => ?_⟩
      by_cases htext : decodeUtf8 content = none
      · rw [popFlagFile_unread (Or.inr (Or.inr htext))]
        exact Or.inl rfl
      · rw [popFlagFile_nil hinfo hread hpaths htext]
        exact allOrNothing_deleted (by rw [hpaths]; rfl)
  | cons target remaining =>
      rw [popFlagFile_cons hinfo hread hpaths, hinfo, hread]
      by_cases hne : remaining = []
      · rw [if_pos hne, hne]
        refine ⟨fun _ => Or.inr (Or.inr (Or.inl (Nat.le_refl 1))), fun _ => ?_⟩
        exact allOrNothing_deleted (by rw [hpaths, hne]; rfl)
      · rw [if_neg hne, deleted]
        by_cases hdelete : io.delete = true
        · rw [if_pos hdelete, allOrNothing_rewrite_none hne hpaths]
          simp [hdelete, hne]
        · rw [if_neg hdelete, allOrNothing_rewrite_some hne hpaths]
          simp [hdelete, hne]

/-- **A call is all or nothing exactly when its pop is a clean one.**  For all volumes and all
patterns of failures of the file-system calls: every flag file is as it was before the call or
holds exactly its remaining paths, if and only if the flag file that the call gets to, if any, is
popped from cleanly. -/
theorem bootnext_all_or_nothing_iff (io : BootIo) (volumes : List Volume) :
    (∀ i name content, nodeAt volumes i name = some (.file content) →
        AllOrNothing content (nodeAt (checkAndProcessBootnext io volumes).1 i name))
      ↔ ∀ i name content, flagFile io volumes = some (i, name, content) →
          PopsCleanly ((io.volume i).flag name) content := by
  constructor
  · intro h i name content hfile
    have hafter := h i name content (nodeAt_of_flagFile hfile).2
    rw [nodeAt_checkAndProcessBootnext hfile, if_pos ⟨rfl, rfl⟩] at hafter
    exact (popFlagFile_allOrNothing_iff _ content).mp hafter
  · intro h i name content hnode
    cases hfile : flagFile io volumes with
    | none =>
        rw [checkAndProcessBootnext_eq, hfile, hnode]
        exact Or.inl rfl
    | some found =>
        obtain ⟨j, name', content'⟩ := found
        rw [nodeAt_checkAndProcessBootnext hfile]
        by_cases heq : i = j ∧ name = name'
        · obtain ⟨rfl, rfl⟩ := heq
          have hsame := (nodeAt_of_flagFile hfile).2
          rw [hnode, Option.some.injEq, Node.file.injEq] at hsame
          subst hsame
          rw [if_pos ⟨rfl, rfl⟩]
          exact (popFlagFile_allOrNothing_iff _ content).mpr (h i name content hfile)
        · rw [if_neg heq, hnode]
          exact Or.inl rfl

/-- **Old and new lines are mixed.**  The shorter new content is written over the old one. -/
theorem failed_delete_mixes_lines :
    fileLines (nodeAt (checkAndProcessBootnext deleteFails [volumeWith "a.efi\nb.efi\n"]).1 0
        "\\bootnext.txt") = ["b.efi".toList, ".efi".toList]
      ∧ ¬ AllOrNothing (encodeUtf8 "a.efi\nb.efi\n".toList)
          (nodeAt (checkAndProcessBootnext deleteFails [volumeWith "a.efi\nb.efi\n"]).1 0
            "\\bootnext.txt") := by
  have hlines : fileLines (nodeAt (checkAndProcessBootnext deleteFails
      [volumeWith "a.efi\nb.efi\n"]).1 0 "\\bootnext.txt") = ["b.efi".toList, ".efi".toList] := by
    decide
  have htail : (pathsOf (encodeUtf8 "a.efi\nb.efi\n".toList)).tail = ["b.efi".toList] := by
    decide
  refine ⟨hlines, ?_⟩
  rintro (h | h)
  · exact absurd h (by decide)
  · rw [HoldsRemaining, htail, if_neg (List.cons_ne_nil _ _), hlines] at h
    exact absurd h (by decide)

end WebUiBoot.Boot
