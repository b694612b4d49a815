import WebUiBoot.Boot.Calls
import WebUiBoot.Boot.Rewrite
import WebUiBoot.Lib.Buckets

/-!
# The bootnext queue over successive boots

When no file-system call fails, the flag files of all volumes are one queue, in buckets, and each
boot pops from it.  The file that is written back is parsed anew by the next boot.

* `queue` — the paths of all flag files, in the order of the volumes, names and lines;
* `pathsOf_newBytes` — what is written back is read back, and is well formed again;
* `checkAndProcessBootnext_refines` — a call is a step of the queue in buckets;
* `bootnext_fifo` — any number of boots;
* `blank_file_outlives_queue` — a flag file without a path takes a boot of its own.
-/

namespace WebUiBoot.Boot

open WebUiBoot.Text WebUiBoot.Trace WebUiBoot.Buckets

/-! ### The queue -/

/-- A volume and the name of a flag file. -/
abbrev Place := ℕ × String

/-- The places of flag files, in the order in which a call looks at them. -/
def places (volumes : List Volume) : List Place :=
  (List.range volumes.length).flatMap fun i => flagFilenames.map fun name => (i, name)

def contentAt (volumes : List Volume) (p : Place) : Option Bytes :=
  match nodeAt volumes p.1 p.2 with
  | some (.file content) => some content
  | _ => none

/-- The boots of the paths in a flag file. -/
def bootsOf (p : Place) (content : Bytes) : List Booted :=
  (pathsOf content).map fun path => ⟨p.1, p.2, replaceSlashes path⟩

def bucketAt (volumes : List Volume) (p : Place) : Option (List Booted) :=
  (contentAt volumes p).map (bootsOf p)

/-- The flag files of all volumes, each with its boots. -/
def buckets (volumes : List Volume) : List (List Booted) :=
  (places volumes).filterMap (bucketAt volumes)

/-- The boots of all flag files. -/
def queue (volumes : List Volume) : List Booted := (buckets volumes).flatten

/-- One call for each path, and one for each flag file without a path. -/
def calls (volumes : List Volume) : ℕ := steps (buckets volumes)

/-- UTF-8, with a byte order mark at the very beginning at most. -/
def WellFormed (content : Bytes) : Prop :=
  ∃ text, decodeUtf8 content = some text ∧ '\ufeff' ∉ text.tail

/-- All the flag files are well formed. -/
def AllWellFormed (volumes : List Volume) : Prop :=
  ∀ i, ∀ name ∈ flagFilenames, ∀ content,
    nodeAt volumes i name = some (.file content) → WellFormed content

/-- No volume has a flag file. -/
def NoFlagFile (volumes : List Volume) : Prop :=
  ∀ i, ∀ name ∈ flagFilenames, ∀ content, nodeAt volumes i name ≠ some (.file content)

/-- All that changes is at one path of one volume. -/
def ChangesAtMostOne (before after : List Volume) : Prop :=
  ∃ p : Place, ∀ j name, (j, name) ≠ p → nodeAt after j name = nodeAt before j name

/-! ### Places -/

theorem nodup_places (volumes : List Volume) : (places volumes).Nodup := by
  unfold places
  rw [List.nodup_flatMap]
  refine ⟨fun i _ => ?_, ?_⟩
  · exact List.Nodup.map (fun a b h => (Prod.mk.inj h).2) (by decide)
  · refine List.nodup_range.imp fun {i j} hij p hi hj => ?_
    obtain ⟨name, _, rfl⟩ := List.mem_map.mp hi
    obtain ⟨name', _, h⟩ := List.mem_map.mp hj
    exact hij (Prod.mk.inj h).1.symm

theorem contentAt_eq_some {volumes : List Volume} {p : Place} {content : Bytes} :
    contentAt volumes p = some content ↔ nodeAt volumes p.1 p.2 = some (.file content) := by
  unfold contentAt
  split
  · rename_i h
    simp [h]
  · rename_i h
    simp only [reduceCtorEq, false_iff]
    exact h content

/-- A flag file is at one of the places. -/
theorem mem_places {volumes : List Volume} {i : ℕ} {name : String} {content : Bytes}
    (hname : name ∈ flagFilenames) (h : nodeAt volumes i name = some (.file content)) :
    (i, name) ∈ places volumes := by
  have hi : i < volumes.length := by
    by_contra hge
    rw [nodeAt, List.getElem?_eq_none (by omega)] at h
    cases h
  exact List.mem_flatMap.mpr ⟨i, List.mem_range.mpr hi, List.mem_map.mpr ⟨name, hname, rfl⟩⟩

theorem buckets_eq_nil {volumes : List Volume} : buckets volumes = [] ↔ NoFlagFile volumes := by
  unfold buckets
  rw [List.filterMap_eq_nil_iff]
  constructor
  · intro h i name hname content hnode
    have hp := h (i, name) (mem_places hname hnode)
    rw [bucketAt, contentAt_eq_some.mpr hnode] at hp
    cases hp
  · intro h p hp
    obtain ⟨i, _, hp⟩ := List.mem_flatMap.mp hp
    obtain ⟨name, hname, rfl⟩ := List.mem_map.mp hp
    rw [bucketAt]
    cases hcontent : contentAt volumes (i, name) with
    | none => rfl
    | some content => exact absurd (contentAt_eq_some.mp hcontent) (h i name hname content)

/-- The flag file at a place, as `flagFile` returns it. -/
def foundAt (volumes : List Volume) (p : Place) : Option (ℕ × String × Bytes) :=
  (contentAt volumes p).map fun content => (p.1, p.2, content)

theorem findFlag_ok (v : Volume) (i : ℕ) (volumes : List Volume) (hv : volumes[i]? = some v)
    (names : List String) :
    (findFlag (BootIo.ok.volume i) v names).map (fun found => (i, found))
      = (names.map fun name => (i, name)).findSome? (foundAt volumes) := by
  induction names with
  | nil => rfl
  | cons name names ih =>
      have hnode : nodeAt volumes i name = v name := by
        rw [nodeAt, hv]
        rfl
      rw [findFlag, List.map_cons, List.findSome?_cons, foundAt, contentAt, hnode]
      cases hname : v name with
      | none => exact ih
      | some node =>
          cases node with
          | dir => exact ih
          | file content => rfl

/-- **The search.**  A call gets to the flag file at the first place that has one. -/
theorem flagFile_ok (volumes : List Volume) :
    flagFile .ok volumes = (places volumes).findSome? (foundAt volumes) := by
  have hfrom : ∀ vs front : List Volume, front ++ vs = volumes →
      flagFileFrom .ok front.length vs
        = ((List.range' front.length vs.length).flatMap fun i =>
            flagFilenames.map fun name => (i, name)).findSome? (foundAt volumes) := by
    intro vs
    induction vs with
    | nil => exact fun _ _ => rfl
    | cons v vs ih =>
        intro front hvolumes
        have hv : volumes[front.length]? = some v := by
          rw [← hvolumes]
          simp
        have hrest := ih (front ++ [v]) (by rw [← hvolumes]; simp)
        have hfirst := findFlag_ok v front.length volumes hv flagFilenames
        rw [List.length_append, List.length_singleton] at hrest
        rw [List.length_cons, List.range'_succ, List.flatMap_cons, List.findSome?_append, ← hfirst,
          ← hrest, flagFileFrom, if_pos ⟨rfl, rfl⟩]
        cases findFlag (BootIo.ok.volume front.length) v flagFilenames with
        | none => rfl
        | some found => rfl
  have h := hfrom volumes [] rfl
  rw [places, List.range_eq_range']
  exact h

/-! ### Content -/

/-- No path of a well-formed file has a byte order mark. -/
theorem bom_notMem_pathsOf {content : Bytes} (h : WellFormed content) :
    ∀ line ∈ pathsOf content, '\ufeff' ∉ line := by
  obtain ⟨text, htext, hbom⟩ := h
  have hstrip : '\ufeff' ∉ stripBom text := by
    cases text with
    | nil => exact List.not_mem_nil
    | cons c t =>
        show '\ufeff' ∉ if c = '\ufeff' then t else c :: t
        by_cases hc : c = '\ufeff'
        · rw [if_pos hc]
          exact hbom
        · rw [if_neg hc, List.mem_cons, not_or]
          exact ⟨Ne.symm hc, hbom⟩
  intro line hline hmem
  rw [pathsOf, htext] at hline
  exact hstrip (mem_of_mem_nonBlankLines hline hmem)

/-- **The file that is written back.**  It is well formed, and its paths are those that were
written. -/
theorem pathsOf_newBytes {remaining : List Str} (hne : remaining ≠ [])
    (hlines : ∀ r ∈ remaining, IsLine r) (hbom : ∀ r ∈ remaining, '\ufeff' ∉ r) :
    WellFormed (newBytes remaining) ∧ pathsOf (newBytes remaining) = remaining := by
  have hnone : '\ufeff' ∉ unlines remaining := by
    intro hmem
    obtain ⟨r, hr, hmem⟩ := List.mem_flatMap.mp hmem
    rcases List.mem_append.mp hmem with h | h
    · exact hbom r hr h
    · exact absurd h (by decide)
  refine ⟨⟨unlines remaining, decodeUtf8_newBytes hne, fun h => hnone (List.mem_of_mem_tail h)⟩, ?_⟩
  cases remaining with
  | nil => exact absurd rfl hne
  | cons next rest =>
      have hmark : next.head? ≠ some '\ufeff' := fun h =>
        hbom next List.mem_cons_self (List.mem_of_mem_head? h)
      rw [pathsOf_newBytes_eq hlines, if_neg hmark]
      rfl

/-- What stands in the place of a flag file after a pop without a failure. -/
def popped (content : Bytes) : Option Bytes :=
  if (pathsOf content).tail = [] then none else some (newBytes (pathsOf content).tail)

theorem popFlagFile_ok {content : Bytes} (h : WellFormed content) :
    popFlagFile .ok content = ⟨(pathsOf content).head?, (popped content).map .file⟩ := by
  obtain ⟨text, htext, _⟩ := h
  cases hpaths : pathsOf content with
  | nil =>
      have hdecodes : decodeUtf8 content ≠ none := by
        rw [htext]
        exact Option.some_ne_none text
      rw [popFlagFile_nil rfl rfl hpaths hdecodes, popped, hpaths]
      rfl
  | cons target remaining =>
      rw [popFlagFile_cons rfl rfl hpaths, popped, hpaths]
      by_cases hne : remaining = []
      · subst hne
        rfl
      · rw [if_neg hne, rewriteFlagFile_ok, List.tail_cons, if_neg hne]
        rfl

theorem wellFormed_popped {content content' : Bytes} (h : WellFormed content)
    (hpopped : popped content = some content') :
    WellFormed content' ∧ pathsOf content' = (pathsOf content).tail := by
  unfold popped at hpopped
  split at hpopped
  · cases hpopped
  · rename_i hne
    cases hpopped
    refine pathsOf_newBytes hne (fun r hr => ?_) (fun r hr => ?_)
    · exact isLine_of_mem_pathsOf (List.mem_of_mem_tail hr)
    · exact bom_notMem_pathsOf h r (List.mem_of_mem_tail hr)

/-! ### One call -/

theorem allWellFormed_step {volumes : List Volume} (h : AllWellFormed volumes) :
    AllWellFormed (checkAndProcessBootnext .ok volumes).1 := by
  intro i name hname content hnode
  cases hfile : flagFile .ok volumes with
  | none =>
      rw [checkAndProcessBootnext_eq, hfile] at hnode
      exact h i name hname content hnode
  | some found =>
      obtain ⟨j, name', content'⟩ := found
      rw [nodeAt_checkAndProcessBootnext hfile] at hnode
      split at hnode
      · obtain ⟨hname', hcontent⟩ := nodeAt_of_flagFile hfile
        have hwell := h j name' hname' content' hcontent
        have hpop : popAt .ok j name' content' = _ := popFlagFile_ok hwell
        rw [hpop] at hnode
        cases hpopped : popped content' with
        | none =>
            rw [hpopped] at hnode
            cases hnode
        | some rest =>
            rw [hpopped] at hnode
            cases hnode
            exact (wellFormed_popped hwell hpopped).1
      · exact h i name hname content hnode

/-- The contents of the flag files after a call. -/
theorem contentAt_checkAndProcessBootnext {volumes : List Volume} {i : ℕ} {name : String}
    {content : Bytes} (hfile : flagFile .ok volumes = some (i, name, content))
    (h : WellFormed content) (p : Place) :
    contentAt (checkAndProcessBootnext .ok volumes).1 p
      = if p = (i, name) then popped content else contentAt volumes p := by
  have hpop : popAt .ok i name content = _ := popFlagFile_ok h
  rw [contentAt, nodeAt_checkAndProcessBootnext hfile, hpop]
  by_cases hp : p = (i, name)
  · subst hp
    rw [if_pos ⟨rfl, rfl⟩, if_pos rfl]
    cases popped content with
    | none => rfl
    | some rest => rfl
  · rw [if_neg hp, if_neg fun heq => hp (Prod.ext heq.1 heq.2)]
    rfl

theorem pop_bootsOf {content : Bytes} (h : WellFormed content) (p : Place)
    (bs : List (List Booted)) :
    pop (bootsOf p content :: bs)
      = (((popped content).map (bootsOf p)).toList ++ bs,
          ((pathsOf content).head?.map fun path =>
            (⟨p.1, p.2, replaceSlashes path⟩ : Booted)).toList) := by
  cases hpopped : popped content with
  | none =>
      have htail : (pathsOf content).tail = [] := by
        by_contra hne
        rw [popped, if_neg hne] at hpopped
        cases hpopped
      unfold bootsOf
      cases hpaths : pathsOf content with
      | nil => rfl
      | cons target remaining =>
          rw [hpaths, List.tail_cons] at htail
          subst htail
          rfl
  | some rest =>
      have hrest := (wellFormed_popped h hpopped).2
      have hne : (pathsOf content).tail ≠ [] := by
        intro heq
        rw [popped, if_pos heq] at hpopped
        cases hpopped
      rw [Option.map_some, bootsOf, bootsOf, hrest]
      cases hpaths : pathsOf content with
      | nil => exact absurd (by rw [hpaths]; rfl) hne
      | cons target remaining =>
          cases remaining with
          | nil => exact absurd (by rw [hpaths]; rfl) hne
          | cons target' remaining => rfl

theorem bucketAt_eq_none {volumes : List Volume} {p : Place} (h : foundAt volumes p = none) :
    bucketAt volumes p = none := by
  rw [foundAt, Option.map_eq_none_iff] at h
  rw [bucketAt, h]
  rfl

/-- The places in front of the one that is found have no flag file. -/
theorem places_of_flagFile {volumes : List Volume} {i : ℕ} {name : String} {content : Bytes}
    (hfile : flagFile .ok volumes = some (i, name, content)) :
    ∃ front back, places volumes = front ++ (i, name) :: back
      ∧ ∀ p ∈ front, bucketAt volumes p = none := by
  rw [flagFile_ok] at hfile
  obtain ⟨front, p, back, hsplit, hfound, hfront⟩ := List.findSome?_eq_some_iff.mp hfile
  obtain ⟨_, _, heq⟩ := Option.map_eq_some_iff.mp hfound
  have hp : p = (i, name) := Prod.ext (Prod.mk.inj heq).1 (Prod.mk.inj (Prod.mk.inj heq).2).1
  exact ⟨front, back, hp ▸ hsplit, fun p' hp' => bucketAt_eq_none (hfront p' hp')⟩

/-- **One call.**  It is a step of the queue in buckets. -/
theorem checkAndProcessBootnext_refines {volumes : List Volume} (h : AllWellFormed volumes) :
    pop (buckets volumes)
      = (buckets (checkAndProcessBootnext .ok volumes).1,
          (checkAndProcessBootnext .ok volumes).2) := by
  cases hfile : flagFile .ok volumes with
  | none =>
      have hnone : buckets volumes = [] := by
        rw [flagFile_ok, List.findSome?_eq_none_iff] at hfile
        rw [buckets, List.filterMap_eq_nil_iff]
        exact fun p hp => bucketAt_eq_none (hfile p hp)
      rw [checkAndProcessBootnext_eq, hfile]
      dsimp only
      rw [hnone]
      rfl
  | some found =>
      obtain ⟨i, name, content⟩ := found
      obtain ⟨hname, hnode⟩ := nodeAt_of_flagFile hfile
      have hwell := h i name hname content hnode
      have hcontent := contentAt_checkAndProcessBootnext hfile hwell
      have hplaces : places (checkAndProcessBootnext .ok volumes).1 = places volumes := by
        rw [checkAndProcessBootnext_eq, hfile, places, List.length_modify]
        rfl
      have hboots : (checkAndProcessBootnext .ok volumes).2
          = ((pathsOf content).head?.map fun path =>
              (⟨i, name, replaceSlashes path⟩ : Booted)).toList := by
        have hpop : popFlagFile ((BootIo.ok.volume i).flag name) content = _ := popFlagFile_ok hwell
        rw [booted_of_flagFile hfile, hpop]
      obtain ⟨front, back, hsplit, hfront⟩ := places_of_flagFile hfile
      have hbucket : bucketAt volumes (i, name) = some (bootsOf (i, name) content) := by
        rw [bucketAt, contentAt_eq_some.mpr hnode]
        rfl
      have hothers : ∀ p, p ≠ (i, name) →
          bucketAt (checkAndProcessBootnext .ok volumes).1 p = bucketAt volumes p := by
        intro p hp
        rw [bucketAt, hcontent, if_neg hp]
        rfl
      have hnodup := nodup_places volumes
      rw [hsplit] at hnodup
      obtain ⟨hbefore, hafter⟩ := filterMap_update_of_first hnodup hfront hbucket hothers
      rw [buckets, buckets, hplaces, hsplit, hbefore, hafter, pop_bootsOf hwell, hboots, bucketAt,
        hcontent, if_pos rfl]

/-- Of any state, and whatever fails. -/
theorem changesAtMostOne (io : BootIo) (volumes : List Volume) :
    ChangesAtMostOne volumes (checkAndProcessBootnext io volumes).1
      ∧ (checkAndProcessBootnext io volumes).2.length ≤ 1 := by
  cases hfile : flagFile io volumes with
  | none =>
      rw [checkAndProcessBootnext_eq, hfile]
      exact ⟨⟨(0, ""), fun _ _ _ => rfl⟩, Nat.zero_le 1⟩
  | some found =>
      obtain ⟨i, name, content⟩ := found
      refine ⟨⟨(i, name), fun j name' hne => ?_⟩, ?_⟩
      · rw [nodeAt_checkAndProcessBootnext hfile, if_neg]
        rintro ⟨rfl, rfl⟩
        exact hne rfl
      · rw [booted_of_flagFile hfile]
        cases (popFlagFile ((io.volume i).flag name) content).target with
        | none => exact Nat.zero_le 1
        | some target => exact Nat.le_refl 1

/-! ### Any number of calls -/

variable {volumes : List Volume}

theorem boots_refines (h : AllWellFormed volumes) (n : ℕ) :
    (drain BootIo Booted).run (buckets volumes) (List.replicate n .ok)
      = (buckets (boots.run volumes (List.replicate n .ok)).1,
          (boots.run volumes (List.replicate n .ok)).2) := by
  refine Machine.run_refines boots (drain BootIo Booted) (I := AllWellFormed) (Q := (· = .ok))
    ?_ ?_ ?_ volumes h
  · rintro volumes io h rfl
    exact allWellFormed_step h
  · rintro volumes io h rfl
    exact checkAndProcessBootnext_refines h
  · exact fun io hio => List.eq_of_mem_replicate hio

/-- What has been booted, and what is still in the flag files, is the whole queue. -/
theorem boots_append_queue (h : AllWellFormed volumes) (n : ℕ) :
    (boots.run volumes (List.replicate n .ok)).2
      ++ queue (boots.run volumes (List.replicate n .ok)).1 = queue volumes := by
  have hflatten := flatten_run (List.replicate n BootIo.ok) (buckets volumes)
  rw [boots_refines h] at hflatten
  exact hflatten

theorem calls_run (h : AllWellFormed volumes) (n : ℕ) :
    calls (boots.run volumes (List.replicate n .ok)).1 = calls volumes - n := by
  have hsteps := steps_run (List.replicate n BootIo.ok) (buckets volumes)
  rw [boots_refines h, List.length_replicate] at hsteps
  exact hsteps

theorem calls_eq_zero : calls volumes = 0 ↔ NoFlagFile volumes := by
  rw [calls, steps_eq_zero, buckets_eq_nil]

theorem pathsOf_of_queue_eq_nil (h : queue volumes = []) {i : ℕ} {name : String}
    {content : Bytes} (hname : name ∈ flagFilenames)
    (hnode : nodeAt volumes i name = some (.file content)) : pathsOf content = [] := by
  have hmem : bootsOf (i, name) content ∈ buckets volumes := by
    refine List.mem_filterMap.mpr ⟨(i, name), mem_places hname hnode, ?_⟩
    rw [bucketAt, contentAt_eq_some.mpr hnode]
    rfl
  have hnil := List.flatten_eq_nil_iff.mp h _ hmem
  exact List.map_eq_nil_iff.mp hnil

/-- **A queue over successive boots.**  When no call fails, the first `n` boots take at most one
path each, change at most one flag file each, and boot a beginning of the queue; when there have
been `calls volumes` of them, they have booted the whole queue and all the flag files are gone, but
no sooner; and once the whole queue is booted, only files without a path are left. -/
theorem bootnext_fifo (volumes : List Volume) (h : AllWellFormed volumes) (n : ℕ) :
    let after := boots.run volumes (List.replicate n .ok)
    (ChangesAtMostOne after.1 (checkAndProcessBootnext .ok after.1).1
        ∧ (checkAndProcessBootnext .ok after.1).2.length ≤ 1)
      ∧ after.2 <+: queue volumes
      ∧ (calls volumes ≤ n → after.2 = queue volumes)
      ∧ (NoFlagFile after.1 ↔ calls volumes ≤ n)
      ∧ (after.2 = queue volumes → ∀ i, ∀ name ∈ flagFilenames, ∀ content,
          nodeAt after.1 i name = some (.file content) → pathsOf content = []) := by
  intro after
  have hqueue : after.2 ++ queue after.1 = queue volumes := boots_append_queue h n
  have hcalls : calls after.1 = calls volumes - n := calls_run h n
  have hgone : NoFlagFile after.1 ↔ calls volumes ≤ n := by
    rw [← calls_eq_zero, hcalls]
    omega
  refine ⟨changesAtMostOne .ok after.1, ⟨queue after.1, hqueue⟩, fun hn => ?_, hgone, ?_⟩
  · have hempty : queue after.1 = [] := by
      rw [queue, buckets_eq_nil.mpr (hgone.mpr hn)]
      rfl
    rw [hempty, List.append_nil] at hqueue
    exact hqueue
  · intro hall i name hname content hnode
    rw [hall] at hqueue
    exact pathsOf_of_queue_eq_nil (List.append_right_eq_self.mp hqueue) hname hnode

theorem allWellFormed_volumeWith (texts : List String)
    (h : ∀ text ∈ texts, '\ufeff' ∉ text.toList.tail) : AllWellFormed (texts.map volumeWith) := by
  intro i name _ content hnode
  unfold nodeAt at hnode
  obtain ⟨v, hv, hnode⟩ := Option.bind_eq_some_iff.mp hnode
  obtain ⟨text, htext, rfl⟩ := List.mem_map.mp (List.mem_of_getElem? hv)
  unfold volumeWith at hnode
  split at hnode
  · cases hnode
    exact ⟨text.toList, decodeUtf8_encodeUtf8 _, h text htext⟩
  · cases hnode

theorem bootnext_fifo_two_volumes :
    (boots.run [volumeWith "/a.efi\r\n\n b.efi", volumeWith ""] [.ok, .ok, .ok]).2
        = [⟨0, "\\bootnext.txt", "\\a.efi".toList⟩, ⟨0, "\\bootnext.txt", "b.efi".toList⟩]
      ∧ NoFlagFile
          (boots.run [volumeWith "/a.efi\r\n\n b.efi", volumeWith ""] [.ok, .ok, .ok]).1 := by
  have hwell : AllWellFormed [volumeWith "/a.efi\r\n\n b.efi", volumeWith ""] :=
    allWellFormed_volumeWith ["/a.efi\r\n\n b.efi", ""] (by decide)
  have hfifo := bootnext_fifo _ hwell 3
  have hcalls : calls [volumeWith "/a.efi\r\n\n b.efi", volumeWith ""] ≤ 3 := by decide
  refine ⟨?_, hfifo.2.2.2.1.mpr hcalls⟩
  have hboots := hfifo.2.2.1 hcalls
  refine hboots.trans ?_
  decide

/-- **A file without a path.**  The whole queue has been booted, and there is still a flag file. -/
theorem blank_file_outlives_queue :
    AllWellFormed [volumeWith "a.efi", volumeWith ""]
      ∧ (boots.run [volumeWith "a.efi", volumeWith ""] [.ok]).2
          = queue [volumeWith "a.efi", volumeWith ""]
      ∧ ¬ NoFlagFile (boots.run [volumeWith "a.efi", volumeWith ""] [.ok]).1 := by
  refine ⟨allWellFormed_volumeWith ["a.efi", ""] (by decide), by decide, fun h => ?_⟩
  exact h 1 "\\bootnext.txt" (by decide) [] (by decide)

end WebUiBoot.Boot
