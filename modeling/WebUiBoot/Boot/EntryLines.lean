import WebUiBoot.Boot.LinuxDirect
import WebUiBoot.Lib.Words

/-!
# The lines of an entry file

What the loop over the lines in `boot_linux_from_entry_file` of `src/boot.rs` makes of them.

* `lineValue`, `valuesOf` — the values of a key, line by line;
* `parseEntry_eq` — an entry is the last `linux`, all `initrd` and the last `options`;
* `valuesOf_writeLines` — the values of a file that is written line by line, whatever the line ends;
* `only_significant_lines_count` — two files with the same values boot the same.
-/

namespace WebUiBoot.Boot

open WebUiBoot.Text

/-- The value that a line has for a key: the words behind the key, with single spaces between them.
A comment has none, and neither has a line of another key, or one without a second word. -/
def lineValue (key line : Str) : Option Str :=
  if (trim line).head? = some '#' then none
  else
    match splitWhitespace line with
    | k :: v :: words => if k = key then some (joinWords (v :: words)) else none
    | _ => none

/-- The values of a key in a file, in the order of the lines. -/
def valuesOf (key content : Str) : List Str := (lines content).filterMap (lineValue key)

/-! ### The loop -/

theorem filterMap_cons_toList {α β : Type*} (f : α → Option β) (x : α) (xs : List α) :
    (x :: xs).filterMap f = (f x).toList ++ xs.filterMap f := by
  rw [List.filterMap_eq_flatMap_toList, List.flatMap_cons, ← List.filterMap_eq_flatMap_toList]

theorem lineValue_of_comment {line : Str} (h : (trim line).head? = some '#') (key : Str) :
    lineValue key line = none := by
  rw [lineValue, if_pos h]

theorem lineValue_of_words {line : Str} {k v : Str} {words : List Str}
    (h : ¬ (trim line).head? = some '#') (hwords : splitWhitespace line = k :: v :: words)
    (key : Str) : lineValue key line = if k = key then some (joinWords (v :: words)) else none := by
  rw [lineValue, if_neg h, hwords]

theorem lineValue_of_short {line : Str} (hwords : (splitWhitespace line).length ≤ 1) (key : Str) :
    lineValue key line = none := by
  unfold lineValue
  split
  · rfl
  · cases hline : splitWhitespace line with
    | nil => rfl
    | cons k words =>
        cases words with
        | nil => rfl
        | cons v words =>
            rw [hline, List.length_cons, List.length_cons] at hwords
            omega

/-- A line is a comment, or has less than two words, or has a key and a value. -/
theorem line_cases (line : Str) :
    ((trim line).head? = some '#' ∨ (splitWhitespace line).length ≤ 1)
      ∨ ∃ k v words, ¬ (trim line).head? = some '#'
        ∧ splitWhitespace line = k :: v :: words := by
  by_cases hcomment : (trim line).head? = some '#'
  · exact Or.inl (Or.inl hcomment)
  · cases hline : splitWhitespace line with
    | nil => exact Or.inl (Or.inr (Nat.zero_le 1))
    | cons k words =>
        cases words with
        | nil => exact Or.inl (Or.inr (Nat.le_refl 1))
        | cons v words => exact Or.inr ⟨k, v, words, hcomment, rfl⟩

/-- A value is made of words, and has one at least. -/
theorem exists_words_of_lineValue {key line value : Str} (h : lineValue key line = some value) :
    ∃ v words, (∀ w ∈ v :: words, IsWord w) ∧ value = joinWords (v :: words) := by
  rcases line_cases line with (hcomment | hshort) | ⟨k, v, words, hcomment, hwords⟩
  · rw [lineValue_of_comment hcomment] at h
    cases h
  · rw [lineValue_of_short hshort] at h
    cases h
  · rw [lineValue_of_words hcomment hwords] at h
    refine ⟨v, words, fun w hw => ?_, ?_⟩
    · exact isWord_of_mem (t := line) (hwords ▸ List.mem_cons_of_mem k hw)
    · by_cases hkey : k = key
      · rw [if_pos hkey] at h
        exact (Option.some.inj h).symm
      · rw [if_neg hkey] at h
        cases h

/-- A comment, or a line with less than two words, is skipped. -/
theorem Entry.addLine_skipped (entry : Entry) {line : Str}
    (h : (trim line).head? = some '#' ∨ (splitWhitespace line).length ≤ 1) :
    entry.addLine line = entry := by
  unfold Entry.addLine
  by_cases hskip : (trim line).head? = some '#' ∨ trim line = []
  · rw [if_pos hskip]
  · rw [if_neg hskip, splitWhitespace_trim]
    have hshort := h.resolve_left (not_or.mp hskip).1
    cases hwords : splitWhitespace line with
    | nil => rfl
    | cons key words =>
        cases words with
        | nil => rfl
        | cons v words =>
            rw [hwords, List.length_cons, List.length_cons] at hshort
            omega

/-- A line with a key and a value. -/
theorem Entry.addLine_of_words (entry : Entry) {line key v : Str} {words : List Str}
    (hcomment : ¬ (trim line).head? = some '#')
    (hwords : splitWhitespace line = key :: v :: words) :
    entry.addLine line
      = if key = "linux".toList then { entry with linuxPath := some (joinWords (v :: words)) }
        else if key = "initrd".toList then
          { entry with initrdPaths := entry.initrdPaths ++ [joinWords (v :: words)] }
        else if key = "options".toList then
          { entry with optionsStr := some (joinWords (v :: words)) }
        else entry := by
  have hblank : trim line ≠ [] := by
    intro hnil
    rw [← splitWhitespace_trim, hnil] at hwords
    cases hwords
  have hword : ∀ w ∈ v :: words, IsWord w := fun w hw =>
    isWord_of_mem (t := line) (hwords ▸ List.mem_cons_of_mem key hw)
  have hvalue : joinWords (v :: words) ≠ [] := by
    rw [ne_eq, joinWords_eq_nil hword]
    exact List.cons_ne_nil v words
  unfold Entry.addLine
  rw [if_neg (not_or.mpr ⟨hcomment, hblank⟩), splitWhitespace_trim, hwords]
  exact if_neg hvalue

/-- **One line.**  The keys `linux` and `options` keep the value that comes last, and `initrd` keeps
all. -/
theorem Entry.addLine_eq (entry : Entry) (line : Str) :
    entry.addLine line
      = ⟨(lineValue "linux".toList line).or entry.linuxPath,
          entry.initrdPaths ++ (lineValue "initrd".toList line).toList,
          (lineValue "options".toList line).or entry.optionsStr⟩ := by
  rcases line_cases line with hskip | ⟨key, v, words, hcomment, hwords⟩
  · have hnone : ∀ key, lineValue key line = none := fun key =>
      hskip.elim (fun h => lineValue_of_comment h key) (fun h => lineValue_of_short h key)
    rw [entry.addLine_skipped hskip, hnone, hnone, hnone, Option.none_or, Option.none_or,
      Option.toList_none, List.append_nil]
  · rw [entry.addLine_of_words hcomment hwords]
    simp only [lineValue_of_words hcomment hwords]
    by_cases hlinux : key = "linux".toList
    · subst hlinux
      rw [if_pos rfl, if_pos rfl, if_neg (by decide), if_neg (by decide)]
      simp
    · by_cases hinitrd : key = "initrd".toList
      · subst hinitrd
        rw [if_neg (by decide), if_pos rfl, if_neg (by decide), if_pos rfl, if_neg (by decide)]
        simp
      · by_cases hoptions : key = "options".toList
        · subst hoptions
          rw [if_neg (by decide), if_neg (by decide), if_pos rfl, if_neg (by decide),
            if_neg (by decide), if_pos rfl]
          simp
        · rw [if_neg hlinux, if_neg hinitrd, if_neg hoptions, if_neg hlinux, if_neg hinitrd,
            if_neg hoptions]
          simp

theorem foldl_addLine (ls : List Str) : ∀ entry : Entry,
    ls.foldl Entry.addLine entry
      = ⟨(ls.filterMap (lineValue "linux".toList)).getLast?.or entry.linuxPath,
          entry.initrdPaths ++ ls.filterMap (lineValue "initrd".toList),
          (ls.filterMap (lineValue "options".toList)).getLast?.or entry.optionsStr⟩ := by
  induction ls using List.reverseRecOn with
  | nil =>
      intro entry
      rw [List.filterMap_nil, List.filterMap_nil, List.filterMap_nil, List.append_nil]
      rfl
  | append_singleton ls line ih =>
      have hlast : ∀ (key : Str) (o : Option Str),
          ((ls ++ [line]).filterMap (lineValue key)).getLast?.or o
            = (lineValue key line).or ((ls.filterMap (lineValue key)).getLast?.or o) := by
        intro key o
        rw [List.filterMap_append, List.getLast?_append, Option.or_assoc, filterMap_cons_toList,
          List.filterMap_nil, List.append_nil]
        cases lineValue key line with
        | none => rfl
        | some value => rfl
      intro entry
      rw [List.foldl_append, ih, hlast, hlast, List.filterMap_append, filterMap_cons_toList,
        List.filterMap_nil, List.append_nil, ← List.append_assoc]
      show Entry.addLine _ line = _
      rw [Entry.addLine_eq]

/-- **The entry.**  It is made of the values of the three keys. -/
theorem parseEntry_eq (content : Str) :
    parseEntry content
      = ⟨(valuesOf "linux".toList content).getLast?, valuesOf "initrd".toList content,
          (valuesOf "options".toList content).getLast?⟩ := by
  rw [parseEntry, foldl_addLine, Option.or_none, Option.or_none, List.nil_append]
  rfl

/-! ### Files, written line by line -/

/-- Lines with their line ends, LF or CRLF, and a last line without one. -/
def writeLines (ls : List (Str × Bool)) (last : Str) : Str :=
  ls.flatMap (fun l => l.1 ++ (if l.2 then ['\r', '\n'] else ['\n'])) ++ last

theorem lineValue_congr {line line' : Str} (h : trim line = trim line') (key : Str) :
    lineValue key line = lineValue key line' := by
  unfold lineValue
  rw [← splitWhitespace_trim line, h, splitWhitespace_trim]

theorem lineValue_stripCr (key line : Str) : lineValue key (stripCr line) = lineValue key line :=
  lineValue_congr (trim_stripCr line) key

/-- White space around a line does not count. -/
theorem lineValue_indent {indent trailing : Str} (hindent : ∀ c ∈ indent, isWhitespace c = true)
    (htrailing : ∀ c ∈ trailing, isWhitespace c = true) (key line : Str) :
    lineValue key (indent ++ line ++ trailing) = lineValue key line := by
  apply lineValue_congr
  rw [trim_append_of_whitespace _ htrailing, trim, List.dropWhile_append_of_pos hindent]
  rfl

theorem valuesOf_append_newline (key : Str) {line : Str} (h : '\n' ∉ line) (rest : Str) :
    valuesOf key (line ++ '\n' :: rest) = (lineValue key line).toList ++ valuesOf key rest := by
  unfold valuesOf
  rw [lines, linesFrom_newline h, List.nil_append, filterMap_cons_toList, lineValue_stripCr]

theorem valuesOf_of_notMem (key : Str) {line : Str} (h : '\n' ∉ line) :
    valuesOf key line = (lineValue key line).toList := by
  unfold valuesOf
  rw [lines, linesFrom_of_notMem h, List.nil_append]
  by_cases hnil : line = []
  · rw [if_pos hnil, hnil]
    rfl
  · rw [if_neg hnil, filterMap_cons_toList, List.filterMap_nil, List.append_nil]

/-- **Line by line.**  The values of a file are those of its lines, whatever their line ends. -/
theorem valuesOf_writeLines (key : Str) {ls : List (Str × Bool)} {last : Str}
    (h : ∀ l ∈ ls, '\n' ∉ l.1) (hlast : '\n' ∉ last) :
    valuesOf key (writeLines ls last)
      = (ls.map Prod.fst).filterMap (lineValue key) ++ (lineValue key last).toList := by
  induction ls with
  | nil => exact valuesOf_of_notMem key hlast
  | cons l ls ih =>
      have hl : '\n' ∉ l.1 := h l List.mem_cons_self
      have ih := ih fun l' hl' => h l' (List.mem_cons_of_mem _ hl')
      have hfirst : valuesOf key (writeLines (l :: ls) last)
          = (lineValue key l.1).toList ++ valuesOf key (writeLines ls last) := by
        cases hend : l.2 with
        | false =>
            have hsplit : writeLines (l :: ls) last = l.1 ++ '\n' :: writeLines ls last := by
              simp [writeLines, hend]
            rw [hsplit, valuesOf_append_newline key hl]
        | true =>
            have hsplit : writeLines (l :: ls) last
                = (l.1 ++ ['\r']) ++ '\n' :: writeLines ls last := by
              simp [writeLines, hend]
            have hcr : lineValue key (l.1 ++ ['\r']) = lineValue key l.1 :=
              lineValue_congr (trim_append_of_whitespace l.1 (by simp; decide)) key
            rw [hsplit, valuesOf_append_newline key (by simp [hl]), hcr]
      rw [hfirst, ih, List.map_cons, filterMap_cons_toList, List.append_assoc]

/-! ### Two files -/

theorem lineValue_of_other {key line : Str} (h : (splitWhitespace line).head? ≠ some key) :
    lineValue key line = none := by
  unfold lineValue
  split
  · rfl
  · cases hline : splitWhitespace line with
    | nil => rfl
    | cons k words =>
        rw [hline] at h
        cases words with
        | nil => rfl
        | cons v words => exact if_neg fun heq => h (congrArg some heq)

/-- The keys that are looked for. -/
def entryKeys : List Str := ["linux".toList, "initrd".toList, "options".toList]

theorem parseEntry_congr {content content' : Str}
    (hsame : ∀ key ∈ entryKeys, valuesOf key content = valuesOf key content') :
    parseEntry content = parseEntry content' := by
  rw [parseEntry_eq, parseEntry_eq, hsame _ (by simp [entryKeys]), hsame _ (by simp [entryKeys]),
    hsame _ (by simp [entryKeys])]

theorem prepareKernel_of_reads {io : EntryIo} {file : FileIo} {buffer : Bytes} {content : Str}
    (hreads : file.Reads buffer) (htext : decodeUtf8 buffer = some content) (entryPath : Str) :
    prepareKernel { io with entryFile := file } entryPath = (do
      let _ ← okOr (cstring16 entryPath) .invalidParameter
      let linuxVal ← okOr (parseEntry content).linuxPath .notFound
      let _ ← okOr (cstring16 (replaceSlashes linuxVal)) .invalidParameter
      let kernel ← readFile (io.kernelFile (replaceSlashes linuxVal))
      io.devicePath
      pure (kernel, (parseEntry content).finalOptions)) := by
  unfold prepareKernel
  rw [readFile_eq_ok.mpr hreads]
  cases cstring16 entryPath with
  | none => rfl
  | some entry16 =>
      show (okOr (decodeUtf8 buffer) .loadError >>= _) = _
      rw [htext]
      rfl

/-- **Only the significant lines count.**  For any two files in UTF-8 whose lines have the same
values for each of the keys: what is parsed is the same, and so is the whole attempt, whatever the
firmware answers; without a `linux` value it fails with `NOT_FOUND`.  Comments, lines with less than
two words and lines of other keys have no value; white space around a line does not count; and the
values of a file are those of its lines, with LF or CRLF and with or without a last line end. -/
theorem only_significant_lines_count (io : EntryIo) (entryPath : Str) {file file' : FileIo}
    {buffer buffer' : Bytes} {content content' : Str} (hreads : file.Reads buffer)
    (hreads' : file'.Reads buffer') (htext : decodeUtf8 buffer = some content)
    (htext' : decodeUtf8 buffer' = some content')
    (hsame : ∀ key ∈ entryKeys, valuesOf key content = valuesOf key content') :
    parseEntry content = parseEntry content'
      ∧ bootLinuxFromEntryFile { io with entryFile := file } entryPath
          = bootLinuxFromEntryFile { io with entryFile := file' } entryPath
      ∧ ((cstring16 entryPath).isSome → valuesOf "linux".toList content = [] →
          bootLinuxFromEntryFile { io with entryFile := file } entryPath = (.error .notFound, []))
      ∧ (∀ key line, ((trim line).head? = some '#' ∨ (splitWhitespace line).length ≤ 1
          ∨ (splitWhitespace line).head? ≠ some key) → lineValue key line = none)
      ∧ (∀ key indent line trailing, (∀ c ∈ indent, isWhitespace c = true) →
          (∀ c ∈ trailing, isWhitespace c = true) →
            lineValue key (indent ++ line ++ trailing) = lineValue key line)
      ∧ (∀ key ls last, (∀ l ∈ ls, '\n' ∉ l.1) → '\n' ∉ last →
          valuesOf key (writeLines ls last)
            = (ls.map Prod.fst).filterMap (lineValue key) ++ (lineValue key last).toList) := by
  have hparse := parseEntry_congr hsame
  refine ⟨hparse, ?_, ?_, ?_, fun key indent line trailing hindent htrailing =>
    lineValue_indent hindent htrailing key line, fun key ls last h hlast =>
    valuesOf_writeLines key h hlast⟩
  · unfold bootLinuxFromEntryFile
    rw [prepareKernel_of_reads hreads htext, prepareKernel_of_reads hreads' htext', hparse]
  · intro hpath hlinux
    have hnone : (parseEntry content).linuxPath = none := by
      rw [parseEntry_eq, hlinux]
      rfl
    obtain ⟨entry16, hentry⟩ := Option.isSome_iff_exists.mp hpath
    unfold bootLinuxFromEntryFile
    rw [prepareKernel_of_reads hreads htext, hnone, hentry]
    rfl
  · intro key line h
    rcases h with h | h | h
    · exact lineValue_of_comment h key
    · exact lineValue_of_short h key
    · exact lineValue_of_other h

theorem readable_reads (text : String) :
    (readable text).Reads (encodeUtf8 text.toList) := ⟨rfl, rfl, rfl, rfl⟩

/-- The same entry with a comment, an unknown key and CRLF, and without a last line end. -/
theorem significant_lines_of_entry :
    parseEntry "linux /k\noptions quiet\n".toList
      = parseEntry "# boot\r\n\toptions  quiet\r\nversion 6\r\n linux /k".toList :=
  (only_significant_lines_count
    ⟨readable "", fun _ => readable "", .ok (), .ok 0, .ok (), .ok ()⟩ "\\e.conf".toList
    (readable_reads "linux /k\noptions quiet\n")
    (readable_reads "# boot\r\n\toptions  quiet\r\nversion 6\r\n linux /k")
    (decodeUtf8_encodeUtf8 _) (decodeUtf8_encodeUtf8 _) (by decide)).1

end WebUiBoot.Boot
