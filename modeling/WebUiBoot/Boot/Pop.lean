import WebUiBoot.Boot.Bootnext

/-!
# Popping a path from one flag file

What `popFlagFile` leaves behind, for every content and every pattern of failures.

* `pathsOf` / `fileLines` — the paths that the code finds in a flag file, and the lines that the
  file holds; `pathsOf_cases` — they differ by a byte order mark at most;
* `fileLines_newBytes_append` — what is written back is read back;
* `popFlagFile_unread`, `popFlagFile_nil`, `popFlagFile_cons` — the ways through the code;
* `rewriteFlagFile_none` / `rewriteFlagFile_some` — the file after a deletion that succeeded, and
  after one that failed.
-/

namespace WebUiBoot.Boot

open WebUiBoot.Text

/-! ### Content -/

/-- The paths that `check_and_process_bootnext` finds in a flag file. -/
def pathsOf (content : Bytes) : List Str :=
  match decodeUtf8 content with
  | some text => entries text
  | none => []

/-- The trimmed lines, not blank, of what stands at the path of a flag file; none when it is not
a text. -/
def fileLines : Option Node → List Str
  | some (.file content) =>
      match decodeUtf8 content with
      | some text => nonBlankLines text
      | none => []
  | _ => []

theorem isLine_of_mem_entries {text line : Str} (h : line ∈ entries text) : IsLine line :=
  isLine_of_mem h

theorem newContent_eq_unlines {remaining : List Str} (h : remaining ≠ []) :
    newContent remaining = unlines remaining := by
  unfold newContent
  induction remaining with
  | nil => exact absurd rfl h
  | cons r rs ih =>
      cases rs with
      | nil => simp [unlines]
      | cons r' rs =>
          have ih := ih (List.cons_ne_nil r' rs)
          rw [List.intercalate_cons_of_ne_nil (List.cons_ne_nil r' rs), List.append_assoc,
            List.append_assoc, ih]
          simp [unlines]

/-- The bytes that are written back. -/
def newBytes (remaining : List Str) : Bytes := encodeUtf8 (newContent remaining)

theorem decodeUtf8_newBytes {remaining : List Str} (h : remaining ≠ []) :
    decodeUtf8 (newBytes remaining) = some (unlines remaining) := by
  rw [newBytes, newContent_eq_unlines h, decodeUtf8_encodeUtf8]

theorem decodeUtf8_newBytes_append {remaining : List Str} (h : remaining ≠ []) (bytes : Bytes) :
    decodeUtf8 (newBytes remaining ++ bytes)
      = (decodeUtf8 bytes).map (unlines remaining ++ ·) := by
  rw [newBytes, newContent_eq_unlines h, decodeUtf8_encodeUtf8_append]

/-- What writing the remaining paths leaves of the old content is text without a line. -/
def BlankLeftover (content : Bytes) : Prop :=
  ∃ text, decodeUtf8 (content.drop (newBytes (pathsOf content).tail).length) = some text
    ∧ nonBlankLines text = []

/-- Bytes that are left behind what is written add their own lines, or spoil the file. -/
theorem fileLines_newBytes_append {remaining : List Str} (h : remaining ≠ [])
    (hlines : ∀ r ∈ remaining, IsLine r) (bytes : Bytes) :
    fileLines (some (.file (newBytes remaining ++ bytes)))
      = match decodeUtf8 bytes with
        | some text => remaining ++ nonBlankLines text
        | none => [] := by
  simp only [fileLines, decodeUtf8_newBytes_append h]
  cases decodeUtf8 bytes with
  | none => rfl
  | some text => exact nonBlankLines_unlines_append hlines text

theorem fileLines_newBytes {remaining : List Str} (h : remaining ≠ [])
    (hlines : ∀ r ∈ remaining, IsLine r) :
    fileLines (some (.file (newBytes remaining))) = remaining := by
  have hback := fileLines_newBytes_append h hlines []
  rw [List.append_nil, decodeUtf8_nil] at hback
  rw [hback]
  exact List.append_nil remaining

theorem fileLines_nil : fileLines (some (.file [])) = [] := by
  simp only [fileLines, decodeUtf8_nil]
  rfl

/-- What is left of a first line that begins with a byte order mark. -/
def unmarked (line : Str) : List Str :=
  if trim (stripBom line) = [] then [] else [trim (stripBom line)]

theorem nonBlankLines_bom (t : Str) : ∃ line rest,
    nonBlankLines ('\ufeff' :: t) = line :: rest ∧ nonBlankLines t = unmarked line ++ rest := by
  have hline : ∀ a : Str, trim ('\ufeff' :: a) = '\ufeff' :: a.rdropWhile isWhitespace :=
    fun a => trim_cons (by decide) a
  have hunmarked : ∀ a : Str, unmarked (trim ('\ufeff' :: a))
      = if trim a = [] then [] else [trim a] := by
    intro a
    rw [hline, unmarked, stripBom, if_pos rfl, trim_rdropWhile]
  have hblank : ∀ a : Str, trim ('\ufeff' :: a) ≠ [] := by
    intro a
    rw [hline]
    exact List.cons_ne_nil _ _
  induction t using line_induction with
  | last a ha =>
      have ha' : '\n' ∉ '\ufeff' :: a := by
        simp [ha]
      refine ⟨trim ('\ufeff' :: a), [], ?_, ?_⟩
      · rw [nonBlankLines_of_notMem ha', if_neg (hblank a)]
      · rw [nonBlankLines_of_notMem ha, hunmarked, List.append_nil]
  | line a b ha _ =>
      have ha' : '\n' ∉ '\ufeff' :: a := by
        simp [ha]
      refine ⟨trim ('\ufeff' :: a), nonBlankLines b, ?_, ?_⟩
      · have h := nonBlankLines_append_newline ha' b
        rw [if_neg (hblank a), List.singleton_append] at h
        exact h
      · rw [nonBlankLines_append_newline ha, hunmarked]

/-- **Paths and lines.**  They are the same, up to a byte order mark in front of the first
line. -/
theorem pathsOf_cases (content : Bytes) :
    pathsOf content = fileLines (some (.file content))
      ∨ ∃ line rest, fileLines (some (.file content)) = line :: rest
          ∧ pathsOf content = unmarked line ++ rest := by
  simp only [pathsOf, fileLines]
  cases decodeUtf8 content with
  | none => exact Or.inl rfl
  | some text =>
      cases text with
      | nil => exact Or.inl rfl
      | cons c t =>
          by_cases hc : c = '\ufeff'
          · subst hc
            exact Or.inr (nonBlankLines_bom t)
          · left
            show nonBlankLines (if c = '\ufeff' then t else c :: t) = nonBlankLines (c :: t)
            rw [if_neg hc]

theorem length_unmarked_le (line : Str) : (unmarked line).length ≤ 1 := by
  unfold unmarked
  split <;> simp

theorem length_pathsOf_le (content : Bytes) :
    (pathsOf content).length ≤ (fileLines (some (.file content))).length := by
  rcases pathsOf_cases content with h | ⟨line, rest, hlines, hpaths⟩
  · rw [h]
  · have hle := length_unmarked_le line
    rw [hlines, hpaths, List.length_append, List.length_cons]
    omega

/-! ### The ways through the code -/

theorem popFlagFile_unread {io : FlagIo} {content : Bytes}
    (h : io.getInfo = false ∨ io.read = false ∨ decodeUtf8 content = none) :
    popFlagFile io content = ⟨none, some (.file content)⟩ := by
  unfold popFlagFile
  rcases h with h | h | h
  · simp [h]
  · simp [h]
  · simp [h]

variable {io : FlagIo} {content : Bytes}

/-- The node after the deletion. -/
def deleted (io : FlagIo) (content : Bytes) : Option Node :=
  if io.delete then none else some (.file content)

theorem popFlagFile_nil (hinfo : io.getInfo = true) (hread : io.read = true)
    (h : pathsOf content = []) (htext : decodeUtf8 content ≠ none) :
    popFlagFile io content = ⟨none, deleted io content⟩ := by
  obtain ⟨text, htext⟩ := Option.ne_none_iff_exists'.mp htext
  have hentries : entries text = [] := by
    simpa only [pathsOf, htext] using h
  simp [popFlagFile, hinfo, hread, htext, hentries, deleted]

theorem popFlagFile_cons {target : Str} {remaining : List Str} (hinfo : io.getInfo = true)
    (hread : io.read = true) (h : pathsOf content = target :: remaining) :
    popFlagFile io content = ⟨some target,
      if remaining = [] then deleted io content
      else rewriteFlagFile io (deleted io content) remaining⟩ := by
  cases htext : decodeUtf8 content with
  | none => simp [pathsOf, htext] at h
  | some text =>
      have hentries : entries text = target :: remaining := by
        simpa only [pathsOf, htext] using h
      simp only [popFlagFile, hinfo, hread, htext, hentries, deleted, Bool.not_true,
        Bool.false_eq_true, if_false]
      split <;> rfl

/-- What a flag file has when it is opened again. -/
def bytesOf : Option Node → Bytes
  | some (.file content) => content
  | _ => []

theorem rewriteFlagFile_eq (io : FlagIo) (node : Option Node) (remaining : List Str) :
    rewriteFlagFile io node remaining
      = if io.reopen = true then
          some (.file (if io.reopenRegular = true ∧ io.write = true then
            newBytes remaining ++ (bytesOf node).drop (newBytes remaining).length
          else bytesOf node))
        else node := by
  unfold rewriteFlagFile
  by_cases hwrite : io.reopenRegular = true ∧ io.write = true
  · rw [if_pos hwrite, if_pos hwrite]
    rfl
  · rw [if_neg hwrite, if_neg hwrite]
    rfl

/-- After a deletion that succeeded the file is created anew. -/
theorem rewriteFlagFile_none (io : FlagIo) (remaining : List Str) :
    rewriteFlagFile io none remaining
      = if io.reopen = true then
          some (.file (if io.reopenRegular = true ∧ io.write = true then newBytes remaining else []))
        else none := by
  have hbytes : bytesOf none = [] := rfl
  rw [rewriteFlagFile_eq, hbytes, List.drop_nil, List.append_nil]

/-- Without a failure the file has the remaining paths, and nothing else. -/
theorem rewriteFlagFile_ok (content : Bytes) (remaining : List Str) :
    rewriteFlagFile .ok (deleted .ok content) remaining = some (.file (newBytes remaining)) :=
  rewriteFlagFile_none .ok remaining

/-- After a deletion that failed the old content is overwritten. -/
theorem rewriteFlagFile_some (io : FlagIo) (content : Bytes) (remaining : List Str) :
    rewriteFlagFile io (some (.file content)) remaining
      = some (.file (if io.reopen = true ∧ io.reopenRegular = true ∧ io.write = true then
          newBytes remaining ++ content.drop (newBytes remaining).length else content)) := by
  rw [rewriteFlagFile_eq]
  by_cases hreopen : io.reopen = true
  · rw [if_pos hreopen]
    simp only [hreopen, true_and]
    rfl
  · rw [if_neg hreopen, if_neg fun h => hreopen h.1]

theorem isLine_of_mem_pathsOf {line : Str} (h : line ∈ pathsOf content) : IsLine line := by
  unfold pathsOf at h
  split at h
  · exact isLine_of_mem_entries h
  · exact absurd h List.not_mem_nil

theorem isLine_remaining {target : Str} {remaining : List Str}
    (h : pathsOf content = target :: remaining) : ∀ r ∈ remaining, IsLine r := by
  intro r hr
  have hmem : r ∈ pathsOf content := by
    rw [h]
    exact List.mem_cons_of_mem _ hr
  exact isLine_of_mem_pathsOf hmem

end WebUiBoot.Boot
