import WebUiBoot.Boot.Fifo
import WebUiBoot.Lib.Accounts

/-!
# A machine in use

Between two boots an operating system runs, which may put further paths into a flag file, at its
end, and may change any other file.  What is written back by `check_and_process_bootnext` ends with
a line end, so a line that is put behind it stays a line of its own.

* `Addition`, `Appendable` — text that may be put into a flag file, and the files that take it;
* `pathsOf_addition` — the paths of a file that text was put into;
* `Use` / `usage` — the boots, and what is done between them;
* `usage_balanced` — each flag file is a queue that accounts for what goes in and out;
* `queued_paths_boot_once` — every path is booted once, in the order of its flag file.

A boot may fail as long as it has written nothing: the search for the flag files, and reading them,
may go wrong in any way.
-/

namespace WebUiBoot.Boot

open WebUiBoot.Text WebUiBoot.Trace WebUiBoot.Accounts WebUiBoot.Buckets

/-! ### Text that is put into a flag file -/

/-- Whole lines, without a byte order mark. -/
structure Addition where
  text : Str
  finished : text.getLast? = some '\n'
  unmarked : '\ufeff' ∉ text

/-- A well-formed file whose last line is finished: what is put behind it begins a line. -/
def Appendable (content : Bytes) : Prop :=
  ∃ text, decodeUtf8 content = some text ∧ '\ufeff' ∉ text.tail
    ∧ (stripBom text = [] ∨ (stripBom text).getLast? = some '\n')

theorem Appendable.wellFormed {content : Bytes} (h : Appendable content) : WellFormed content := by
  obtain ⟨text, htext, hmark, _⟩ := h
  exact ⟨text, htext, hmark⟩

theorem decodeUtf8_append {content : Bytes} {text : Str} (h : decodeUtf8 content = some text)
    (added : Str) : decodeUtf8 (content ++ encodeUtf8 added) = some (text ++ added) := by
  have hwhole : content ++ encodeUtf8 added = encodeUtf8 (text ++ added) := by
    rw [← encodeUtf8_of_decodeUtf8 h, encodeUtf8, encodeUtf8, encodeUtf8, List.flatMap_append]
  rw [hwhole, decodeUtf8_encodeUtf8]

theorem stripBom_append (text : Str) {added : Str} (h : '\ufeff' ∉ added) :
    stripBom (text ++ added) = stripBom text ++ added := by
  cases text with
  | nil =>
      cases added with
      | nil => rfl
      | cons c added =>
          rw [List.mem_cons, not_or] at h
          exact if_neg (Ne.symm h.1)
  | cons c text =>
      show (if c = '\ufeff' then text ++ added else c :: (text ++ added))
        = (if c = '\ufeff' then text else c :: text) ++ added
      by_cases hc : c = '\ufeff'
      · rw [if_pos hc, if_pos hc]
      · rw [if_neg hc, if_neg hc]
        rfl

/-- **Putting text into a file.**  Its paths are found behind those that were there, and more may be
put behind it. -/
theorem pathsOf_addition {content : Bytes} (h : Appendable content) (added : Addition) :
    Appendable (content ++ encodeUtf8 added.text)
      ∧ pathsOf (content ++ encodeUtf8 added.text)
        = pathsOf content ++ nonBlankLines added.text := by
  obtain ⟨text, htext, hmark, hfinished⟩ := h
  have hdecoded := decodeUtf8_append htext added.text
  have hstrip := stripBom_append text added.unmarked
  constructor
  · refine ⟨text ++ added.text, hdecoded, ?_, Or.inr ?_⟩
    · cases text with
      | nil => exact fun hmem => added.unmarked (List.mem_of_mem_tail hmem)
      | cons c text =>
          show '\ufeff' ∉ text ++ added.text
          rw [List.mem_append, not_or]
          exact ⟨hmark, added.unmarked⟩
    · rw [hstrip, List.getLast?_append, added.finished]
      rfl
  · rw [pathsOf, pathsOf, hdecoded, htext]
    show nonBlankLines (stripBom (text ++ added.text)) = _
    rw [hstrip]
    exact nonBlankLines_append hfinished added.text

theorem appendable_nil : Appendable [] := ⟨[], decodeUtf8_nil, List.not_mem_nil, Or.inl rfl⟩

/-- What a boot writes back may be added to. -/
theorem appendable_popped {content content' : Bytes} (h : WellFormed content)
    (hpopped : popped content = some content') : Appendable content' := by
  obtain ⟨hwell, _⟩ := wellFormed_popped h hpopped
  obtain ⟨text, htext, hmark⟩ := hwell
  unfold popped at hpopped
  by_cases hne : (pathsOf content).tail = []
  · rw [if_pos hne] at hpopped
    cases hpopped
  · rw [if_neg hne] at hpopped
    cases hpopped
    have hlines : text = unlines (pathsOf content).tail :=
      Option.some.inj (htext.symm.trans (decodeUtf8_newBytes hne))
    have hbom : '\ufeff' ∉ text := by
      intro hmem
      rw [hlines] at hmem
      obtain ⟨line, hline, hmem⟩ := List.mem_flatMap.mp hmem
      rcases List.mem_append.mp hmem with hmem | hmem
      · exact bom_notMem_pathsOf h line (List.mem_of_mem_tail hline) hmem
      · exact absurd hmem (by decide)
    have hlast : text.getLast? = some '\n' := by
      obtain ⟨lines, line, hsplit⟩ :=
        (List.eq_nil_or_concat' (pathsOf content).tail).resolve_left hne
      rw [hlines, hsplit]
      simp [unlines]
    have hstrip := stripBom_append [] hbom
    exact ⟨text, htext, hmark, Or.inr (hstrip ▸ hlast)⟩

/-! ### Model -/

/-- The calls that change a flag file succeed. -/
structure FlagIo.Rewrites (io : FlagIo) : Prop where
  delete : io.delete = true
  reopen : io.reopen = true
  reopenRegular : io.reopenRegular = true
  write : io.write = true

inductive Use
  /-- The machine is switched on. -/
  | boot (io : BootIo) (rewrites : ∀ i name, ((io.volume i).flag name).Rewrites)
  /-- Text is put behind what is in a flag file, which is made if it is not there. -/
  | queue (place : Place) (flag : place.2 ∈ flagFilenames) (added : Addition)
  /-- Anything is done with another file. -/
  | change (place : Place) (other : place.2 ∉ flagFilenames) (node : Option Node)

inductive QueueEvent
  | queued (b : Booted)
  | booted (b : Booted)
  deriving DecidableEq

def setNode (volumes : List Volume) (p : Place) (node : Option Node) : List Volume :=
  volumes.modify p.1 fun v => Function.update v p.2 node

/-- Nothing comes of it when the volume is not there, or has a directory in the place of the file. -/
def queueText (volumes : List Volume) (p : Place) (added : Addition) :
    List Volume × List QueueEvent :=
  if volumes.length ≤ p.1 ∨ nodeAt volumes p.1 p.2 = some .dir then (volumes, [])
  else
    (setNode volumes p
        (some (.file (bytesOf (nodeAt volumes p.1 p.2) ++ encodeUtf8 added.text))),
      (bootsOf p (encodeUtf8 added.text)).map .queued)

def usage : Machine (List Volume) Use QueueEvent where
  step volumes use :=
    match use with
    | .boot io _ =>
        let r := checkAndProcessBootnext io volumes
        (r.1, r.2.map .booted)
    | .queue place _ added => queueText volumes place added
    | .change place _ node => (setNode volumes place node, [])

/-- The boots of one flag file. -/
def ofPlace (p : Place) (b : Booted) : List Booted := if (b.volume, b.flagFile) = p then [b] else []

/-- The flag files, as queues of boots. -/
def flagFiles : Ledger (List Volume) QueueEvent Place Booted where
  kept volumes p := (bucketAt volumes p).getD []
  put event p :=
    match event with
    | .queued b => ofPlace p b
    | .booted _ => []
  taken event p :=
    match event with
    | .queued _ => []
    | .booted b => ofPlace p b

/-- All the flag files may be added to. -/
def AllAppendable (volumes : List Volume) : Prop :=
  ∀ p : Place, p.2 ∈ flagFilenames → ∀ content, contentAt volumes p = some content →
    Appendable content

variable {volumes : List Volume}

theorem AllAppendable.allWellFormed (h : AllAppendable volumes) : AllWellFormed volumes :=
  fun i name hname content hnode =>
    (h (i, name) hname content (contentAt_eq_some.mpr hnode)).wellFormed

/-! ### One file -/

def Node.content : Node → Option Bytes
  | .file content => some content
  | .dir => none

theorem contentAt_eq_bind (volumes : List Volume) (p : Place) :
    contentAt volumes p = (nodeAt volumes p.1 p.2).bind Node.content := by
  unfold contentAt
  cases nodeAt volumes p.1 p.2 with
  | none => rfl
  | some node =>
      cases node with
      | file content => rfl
      | dir => rfl

theorem contentAt_setNode (p q : Place) (node : Option Node) :
    contentAt (setNode volumes p node) q
      = if q = p ∧ p.1 < volumes.length then node.bind Node.content else contentAt volumes q := by
  rw [contentAt_eq_bind, contentAt_eq_bind]
  by_cases hlt : p.1 < volumes.length
  · rw [setNode, nodeAt_modify volumes p.1 q.1 p.2 q.2 node hlt]
    by_cases hq : q = p
    · subst hq
      rw [if_pos ⟨rfl, rfl⟩, if_pos ⟨rfl, hlt⟩]
    · rw [if_neg fun h => hq (Prod.ext h.1 h.2), if_neg fun h => hq h.1]
  · have hsame : setNode volumes p node = volumes := List.modify_eq_self (by omega)
    rw [hsame, if_neg fun h => hlt h.2]

/-- What stands in the place of a flag file after a pop. -/
def contentAfter (io : FlagIo) (content : Bytes) : Option Bytes :=
  if io.getInfo = true ∧ io.read = true then popped content else some content

theorem popFlagFile_rewrites {io : FlagIo} (hio : io.Rewrites) {content : Bytes}
    (h : WellFormed content) :
    popFlagFile io content = ⟨if io.getInfo = true ∧ io.read = true then (pathsOf content).head?
      else none, (contentAfter io content).map .file⟩ := by
  unfold contentAfter
  by_cases hread : io.getInfo = true ∧ io.read = true
  · rw [if_pos hread, if_pos hread]
    have hdeleted : deleted io content = none := if_pos hio.delete
    obtain ⟨text, htext, _⟩ := h
    cases hpaths : pathsOf content with
    | nil =>
        have hdecodes : decodeUtf8 content ≠ none := by
          rw [htext]
          exact Option.some_ne_none text
        rw [popFlagFile_nil hread.1 hread.2 hpaths hdecodes, popped, hpaths, hdeleted]
        rfl
    | cons target remaining =>
        rw [popFlagFile_cons hread.1 hread.2 hpaths, popped, hpaths, List.tail_cons, hdeleted]
        by_cases hne : remaining = []
        · rw [if_pos hne, if_pos hne]
          rfl
        · rw [if_neg hne, if_neg hne, rewriteFlagFile_none, if_pos hio.reopen,
            if_pos ⟨hio.reopenRegular, hio.write⟩]
          rfl
  · rw [if_neg hread, if_neg hread]
    refine popFlagFile_unread ?_
    rw [not_and_or, Bool.not_eq_true, Bool.not_eq_true] at hread
    exact hread.imp_right Or.inl

/-- A pop takes the first path, if it takes one. -/
theorem bootsOf_contentAfter (io : FlagIo) {content : Bytes} (h : WellFormed content) (p : Place) :
    ((if io.getInfo = true ∧ io.read = true then (pathsOf content).head? else none).map fun path =>
        (⟨p.1, p.2, replaceSlashes path⟩ : Booted)).toList
      ++ ((contentAfter io content).map (bootsOf p)).getD [] = bootsOf p content := by
  unfold contentAfter
  by_cases hread : io.getInfo = true ∧ io.read = true
  · rw [if_pos hread, if_pos hread]
    have hpop := congrArg (fun r => r.2 ++ r.1.flatten) (pop_bootsOf h p [])
    have hflatten := flatten_pop [bootsOf p content]
    rw [List.append_nil] at hpop
    have hkept : ((popped content).map (bootsOf p)).toList.flatten
        = ((popped content).map (bootsOf p)).getD [] := by
      cases (popped content).map (bootsOf p) with
      | none => rfl
      | some boots => exact List.append_nil boots
    rw [← hkept]
    refine hpop.symm.trans (hflatten.trans ?_)
    exact List.append_nil _
  · rw [if_neg hread, if_neg hread]
    rfl

/-! ### One step -/

theorem contentAt_boot {io : BootIo} (hio : ∀ i name, ((io.volume i).flag name).Rewrites)
    {i : ℕ} {name : String} {content : Bytes} (hfile : flagFile io volumes = some (i, name, content))
    (h : WellFormed content) (p : Place) :
    contentAt (checkAndProcessBootnext io volumes).1 p
      = if p = (i, name) then contentAfter ((io.volume i).flag name) content
        else contentAt volumes p := by
  have hpop : popAt io i name content = _ := popFlagFile_rewrites (hio i name) h
  rw [contentAt_eq_bind, nodeAt_checkAndProcessBootnext hfile, hpop]
  by_cases hp : p = (i, name)
  · subst hp
    rw [if_pos ⟨rfl, rfl⟩, if_pos rfl]
    cases contentAfter ((io.volume i).flag name) content with
    | none => rfl
    | some rest => rfl
  · rw [if_neg hp, if_neg fun heq => hp (Prod.ext heq.1 heq.2), contentAt_eq_bind]

theorem appendable_boot {io : BootIo} (hio : ∀ i name, ((io.volume i).flag name).Rewrites)
    (h : AllAppendable volumes) : AllAppendable (checkAndProcessBootnext io volumes).1 := by
  intro p hp content hcontent
  cases hfile : flagFile io volumes with
  | none =>
      rw [checkAndProcessBootnext_eq, hfile] at hcontent
      exact h p hp content hcontent
  | some found =>
      obtain ⟨i, name, old⟩ := found
      obtain ⟨hname, hnode⟩ := nodeAt_of_flagFile hfile
      have hold := h (i, name) hname old (contentAt_eq_some.mpr hnode)
      rw [contentAt_boot hio hfile hold.wellFormed] at hcontent
      by_cases heq : p = (i, name)
      · rw [if_pos heq] at hcontent
        unfold contentAfter at hcontent
        by_cases hread : ((io.volume i).flag name).getInfo = true
            ∧ ((io.volume i).flag name).read = true
        · rw [if_pos hread] at hcontent
          exact appendable_popped hold.wellFormed hcontent
        · rw [if_neg hread] at hcontent
          exact Option.some.inj hcontent ▸ hold
      · rw [if_neg heq] at hcontent
        exact h p hp content hcontent

theorem ofPlace_self (p : Place) (path : Str) : ofPlace p ⟨p.1, p.2, path⟩ = [⟨p.1, p.2, path⟩] :=
  if_pos rfl

/-- **A boot balances.** -/
theorem balanced_boot {io : BootIo} (hio : ∀ i name, ((io.volume i).flag name).Rewrites)
    (h : AllAppendable volumes) (p : Place) :
    Balanced flagFiles p volumes ((checkAndProcessBootnext io volumes).2.map .booted)
      (checkAndProcessBootnext io volumes).1 := by
  cases hfile : flagFile io volumes with
  | none =>
      rw [checkAndProcessBootnext_eq, hfile]
      exact balanced_nil rfl
  | some found =>
      obtain ⟨i, name, content⟩ := found
      obtain ⟨hname, hnode⟩ := nodeAt_of_flagFile hfile
      have hold := (h (i, name) hname content (contentAt_eq_some.mpr hnode)).wellFormed
      have hafter := contentAt_boot hio hfile hold p
      have htarget : (popFlagFile ((io.volume i).flag name) content).target = _ :=
        congrArg Popped.target (popFlagFile_rewrites (hio i name) hold)
      rw [booted_of_flagFile hfile, htarget]
      have htaken := bootsOf_contentAfter ((io.volume i).flag name) hold (i, name)
      revert htaken
      generalize (if ((io.volume i).flag name).getInfo = true
        ∧ ((io.volume i).flag name).read = true then (pathsOf content).head? else none) = target
      intro htaken
      -- what is taken from the place, by the path that is popped
      have hplaces : ∀ q : Place, flagFiles.takes ((target.map fun path =>
          (⟨i, name, replaceSlashes path⟩ : Booted)).toList.map .booted) q
            = if q = (i, name) then (target.map fun path =>
                (⟨i, name, replaceSlashes path⟩ : Booted)).toList else [] := by
        intro q
        cases target with
        | none => exact (ite_self []).symm
        | some path =>
            show ofPlace q ⟨i, name, replaceSlashes path⟩ ++ [] = _
            rw [List.append_nil, ofPlace]
            by_cases hq : q = (i, name)
            · rw [if_pos hq.symm, if_pos hq]
              rfl
            · rw [if_neg (Ne.symm hq), if_neg hq]
      have hputs : flagFiles.puts ((target.map fun path =>
          (⟨i, name, replaceSlashes path⟩ : Booted)).toList.map .booted) p = [] := by
        cases target with
        | none => rfl
        | some path => rfl
      show flagFiles.takes _ p ++ ((contentAt _ p).map (bootsOf p)).getD []
        = ((contentAt volumes p).map (bootsOf p)).getD [] ++ _
      rw [hputs, hplaces, hafter, List.append_nil]
      by_cases hp : p = (i, name)
      · subst hp
        rw [if_pos rfl, if_pos rfl, contentAt_eq_some.mpr hnode]
        exact htaken
      · rw [if_neg hp, if_neg hp]
        rfl

theorem pathsOf_encodeUtf8 (added : Addition) :
    pathsOf (encodeUtf8 added.text) = nonBlankLines added.text := by
  have hpaths := (pathsOf_addition appendable_nil added).2
  rw [List.nil_append] at hpaths
  rw [hpaths, pathsOf, decodeUtf8_nil]
  rfl

/-- What is in the place of a flag file may be added to, and its boots stay in front. -/
theorem appendable_bytesOf (h : AllAppendable volumes) {p : Place} (hp : p.2 ∈ flagFilenames) :
    Appendable (bytesOf (nodeAt volumes p.1 p.2))
      ∧ bootsOf p (bytesOf (nodeAt volumes p.1 p.2)) = (bucketAt volumes p).getD [] := by
  have hnil : bootsOf p [] = [] := by
    rw [bootsOf, pathsOf, decodeUtf8_nil]
    rfl
  have hcontent := h p hp
  rw [bucketAt]
  rw [contentAt_eq_bind] at hcontent ⊢
  cases hnode : nodeAt volumes p.1 p.2 with
  | none => exact ⟨appendable_nil, hnil⟩
  | some node =>
      rw [hnode] at hcontent
      cases node with
      | file content => exact ⟨hcontent content rfl, rfl⟩
      | dir => exact ⟨appendable_nil, hnil⟩

theorem queueText_cases (volumes : List Volume) (p : Place) (added : Addition) :
    queueText volumes p added = (volumes, [])
      ∨ p.1 < volumes.length ∧ queueText volumes p added
        = (setNode volumes p
            (some (.file (bytesOf (nodeAt volumes p.1 p.2) ++ encodeUtf8 added.text))),
          (bootsOf p (encodeUtf8 added.text)).map .queued) := by
  unfold queueText
  by_cases hfails : volumes.length ≤ p.1 ∨ nodeAt volumes p.1 p.2 = some .dir
  · exact Or.inl (if_pos hfails)
  · refine Or.inr ⟨?_, if_neg hfails⟩
    rw [not_or] at hfails
    omega

theorem appendable_queue (h : AllAppendable volumes) {p : Place} (hp : p.2 ∈ flagFilenames)
    (added : Addition) : AllAppendable (queueText volumes p added).1 := by
  rcases queueText_cases volumes p added with heq | ⟨hlt, heq⟩
  · rw [heq]
    exact h
  · rw [heq]
    intro q hq content hcontent
    rw [contentAt_setNode] at hcontent
    by_cases hqp : q = p
    · rw [if_pos ⟨hqp, hlt⟩] at hcontent
      cases hcontent
      exact (pathsOf_addition (appendable_bytesOf h hp).1 added).1
    · rw [if_neg fun heq => hqp heq.1] at hcontent
      exact h q hq content hcontent

/-- **Text that is put into a flag file balances.** -/
theorem balanced_queue (h : AllAppendable volumes) {p : Place} (hp : p.2 ∈ flagFilenames)
    (added : Addition) (q : Place) :
    Balanced flagFiles q volumes (queueText volumes p added).2 (queueText volumes p added).1 := by
  rcases queueText_cases volumes p added with heq | ⟨hlt, heq⟩
  · rw [heq]
    exact balanced_nil rfl
  · rw [heq]
    have hplace : ∀ paths : List Str,
        (paths.map fun path => (⟨p.1, p.2, replaceSlashes path⟩ : Booted)).flatMap (ofPlace q)
          = if q = p then paths.map fun path => ⟨p.1, p.2, replaceSlashes path⟩ else [] := by
      intro paths
      by_cases hqp : q = p
      · subst hqp
        rw [if_pos rfl, List.flatMap_map]
        simp [ofPlace_self, List.map_eq_flatMap]
      · rw [if_neg hqp, List.flatMap_map]
        have hnone : ∀ path : Str, ofPlace q ⟨p.1, p.2, replaceSlashes path⟩ = [] := fun path =>
          if_neg fun heq => hqp heq.symm
        simp [hnone]
    have hputs : flagFiles.puts ((bootsOf p (encodeUtf8 added.text)).map .queued) q
        = if q = p then bootsOf p (encodeUtf8 added.text) else [] := by
      rw [Ledger.puts, List.flatMap_map]
      exact hplace _
    have htakes : flagFiles.takes ((bootsOf p (encodeUtf8 added.text)).map .queued) q = [] := by
      rw [Ledger.takes, List.flatMap_map]
      exact List.flatMap_eq_nil_iff.mpr fun _ _ => rfl
    show flagFiles.takes _ q ++ ((contentAt _ q).map (bootsOf q)).getD []
      = (bucketAt volumes q).getD [] ++ _
    rw [htakes, hputs, List.nil_append, contentAt_setNode]
    by_cases hqp : q = p
    · subst hqp
      obtain ⟨happendable, hkept⟩ := appendable_bytesOf h hp
      rw [if_pos ⟨rfl, hlt⟩, if_pos rfl, ← hkept]
      show bootsOf q (_ ++ encodeUtf8 added.text) = _
      rw [bootsOf, (pathsOf_addition happendable added).2, List.map_append, bootsOf, bootsOf,
        pathsOf_encodeUtf8]
    · rw [if_neg fun heq => hqp heq.1, if_neg hqp, List.append_nil]
      rfl

theorem contentAt_change (volumes : List Volume) {p q : Place} (hp : p.2 ∉ flagFilenames)
    (hq : q.2 ∈ flagFilenames) (node : Option Node) :
    contentAt (setNode volumes p node) q = contentAt volumes q := by
  rw [contentAt_setNode, if_neg]
  rintro ⟨rfl, _⟩
  exact hp hq

theorem appendable_step (h : AllAppendable volumes) (use : Use) :
    AllAppendable (usage.step volumes use).1 := by
  cases use with
  | boot io hio => exact appendable_boot hio h
  | queue place flag added => exact appendable_queue h flag added
  | change place other node =>
      intro q hq content hcontent
      have hsame := contentAt_change volumes other hq node
      exact h q hq content (hsame.symm.trans hcontent)

/-- **Each step balances.** -/
theorem usage_balanced (h : AllAppendable volumes) (use : Use) {p : Place}
    (hp : p.2 ∈ flagFilenames) :
    Balanced flagFiles p volumes (usage.step volumes use).2 (usage.step volumes use).1 := by
  cases use with
  | boot io hio => exact balanced_boot hio h p
  | queue place flag added => exact balanced_queue h flag added p
  | change place other node =>
      have hsame := contentAt_change volumes other hp node
      exact balanced_nil (congrArg (fun content => (content.map (bootsOf p)).getD []) hsame)

/-! ### Any use -/

/-- The boots of a flag file that are among the events, and those that were queued for it. -/
def bootedFrom (p : Place) (events : List QueueEvent) : List Booted := flagFiles.takes events p

def queuedTo (p : Place) (events : List QueueEvent) : List Booted := flagFiles.puts events p

/-- **Every path is booted once.**  From volumes whose flag files may be added to, over any number of
boots in any interleaving with systems that put further paths into the flag files and change all
other files, where a boot may fail to find or read a flag file but not to change it: the boots from
each flag file, and then the paths that are still in it, are the paths that were in it and then those
that were put into it, all in order and none twice.  At any time, as many boots without a failure as
there are paths and blank files empty all the flag files, in the order of the volumes. -/
theorem queued_paths_boot_once (volumes : List Volume) (h : AllAppendable volumes)
    (uses : List Use) :
    let after := usage.run volumes uses
    (∀ p : Place, p.2 ∈ flagFilenames →
        bootedFrom p after.2 ++ (bucketAt after.1 p).getD []
          = (bucketAt volumes p).getD [] ++ queuedTo p after.2)
      ∧ (boots.run after.1 (List.replicate (calls after.1) .ok)).2 = queue after.1
      ∧ NoFlagFile (boots.run after.1 (List.replicate (calls after.1) .ok)).1 := by
  intro after
  have happendable : AllAppendable after.1 :=
    usage.run_preserves (I := AllAppendable) (fun _ use hv => appendable_step hv use) uses h
  have hwell := happendable.allWellFormed
  have hcalls := calls_run hwell (calls after.1)
  rw [Nat.sub_self, calls_eq_zero] at hcalls
  refine ⟨fun p hp => ?_, ?_, hcalls⟩
  · exact (run_balanced usage (fun _ use hv => appendable_step hv use)
      (fun _ use hv => usage_balanced hv use hp) uses h).2
  · have hqueue := boots_append_queue hwell (calls after.1)
    have hempty : queue (boots.run after.1 (List.replicate (calls after.1) .ok)).1 = [] := by
      rw [queue, buckets_eq_nil.mpr hcalls]
      rfl
    rw [hempty, List.append_nil] at hqueue
    exact hqueue

theorem allAppendable_volumeWith {text : String} (hmark : '\ufeff' ∉ text.toList)
    (hfinished : text.toList.getLast? = some '\n') : AllAppendable [volumeWith text] := by
  intro p _ content hcontent
  have hnode := contentAt_eq_some.mp hcontent
  unfold nodeAt at hnode
  obtain ⟨v, hv, hnode⟩ := Option.bind_eq_some_iff.mp hnode
  obtain rfl := List.mem_singleton.mp (List.mem_of_getElem? hv)
  unfold volumeWith at hnode
  split at hnode
  · cases hnode
    have hstrip := stripBom_append [] hmark
    refine ⟨text.toList, decodeUtf8_encodeUtf8 _, fun h => hmark (List.mem_of_mem_tail h), ?_⟩
    exact Or.inr (hstrip ▸ hfinished)
  · cases hnode

/-- A path is put into the file behind the one that is left in it after the first boot. -/
def threeBoots : List Use :=
  let rewrites : ∀ i name, ((BootIo.ok.volume i).flag name).Rewrites := fun _ _ =>
    ⟨rfl, rfl, rfl, rfl⟩
  [.boot .ok rewrites,
    .queue (0, "\\bootnext.txt") (by decide) ⟨"/c.efi\n".toList, by decide, by decide⟩,
    .boot .ok rewrites, .boot .ok rewrites]

theorem queued_paths_boot_once_three :
    (usage.run [volumeWith "a.efi\nb.efi\n"] threeBoots).2.length = 4
      ∧ bootedFrom (0, "\\bootnext.txt") (usage.run [volumeWith "a.efi\nb.efi\n"] threeBoots).2
        = [⟨0, "\\bootnext.txt", "a.efi".toList⟩, ⟨0, "\\bootnext.txt", "b.efi".toList⟩,
          ⟨0, "\\bootnext.txt", "\\c.efi".toList⟩] := by
  have honce := (queued_paths_boot_once [volumeWith "a.efi\nb.efi\n"]
    (allAppendable_volumeWith (by decide) (by decide)) threeBoots).1 (0, "\\bootnext.txt")
    (by decide)
  have hleft : bucketAt (usage.run [volumeWith "a.efi\nb.efi\n"] threeBoots).1
      (0, "\\bootnext.txt") = none := by decide +kernel
  have hqueued : (bucketAt [volumeWith "a.efi\nb.efi\n"] (0, "\\bootnext.txt")).getD []
      ++ queuedTo (0, "\\bootnext.txt") (usage.run [volumeWith "a.efi\nb.efi\n"] threeBoots).2
        = [⟨0, "\\bootnext.txt", "a.efi".toList⟩, ⟨0, "\\bootnext.txt", "b.efi".toList⟩,
          ⟨0, "\\bootnext.txt", "\\c.efi".toList⟩] := by decide +kernel
  rw [hqueued, hleft, Option.getD_none, List.append_nil] at honce
  exact ⟨by decide +kernel, honce⟩

end WebUiBoot.Boot
