import WebUiBoot.Boot.Pop
import WebUiBoot.Lib.Words

/-!
# The text that is written back

The paths behind the first are written back with `\r\n` between them, and the next call parses what
was written like any other flag file: it takes a byte order mark off the first line.

* `pathsOf_newBytes_eq` — what is found in the text that is written back;
* `rewrite_reads_back_iff` — when it is what was written;
* `marked_path_is_not_read_back` — a second line that begins with the character of the mark.
-/

namespace WebUiBoot.Boot

open WebUiBoot.Text

/-- **What is written and found again.**  The mark in front of the first path is taken for a byte
order mark. -/
theorem pathsOf_newBytes_eq {next : Str} {rest : List Str}
    (hlines : ∀ r ∈ next :: rest, IsLine r) :
    pathsOf (newBytes (next :: rest))
      = (if next.head? = some '\ufeff' then unmarked next else [next]) ++ rest := by
  have hback := nonBlankLines_unlines hlines
  rw [pathsOf, decodeUtf8_newBytes (List.cons_ne_nil next rest)]
  show nonBlankLines (stripBom (unlines (next :: rest))) = _
  cases next with
  | nil => exact absurd rfl (hlines [] List.mem_cons_self).ne_nil
  | cons c next =>
      have hsplit : unlines ((c :: next) :: rest) = c :: (next ++ ['\r', '\n'] ++ unlines rest) := rfl
      rw [hsplit, stripBom, List.head?_cons]
      by_cases hc : c = '\ufeff'
      · rw [if_pos hc, if_pos (congrArg some hc)]
        obtain ⟨line, lines, hmarked, hunmarked⟩ :=
          nonBlankLines_bom (next ++ ['\r', '\n'] ++ unlines rest)
        rw [hsplit, hc] at hback
        obtain ⟨hline, hrest⟩ := List.cons.inj (hmarked.symm.trans hback)
        rw [hunmarked, hline, hrest, hc]
      · rw [if_neg hc, if_neg fun h => hc (Option.some.inj h), ← hsplit, hback]
        rfl

/-- A line without its mark is another line, or none. -/
theorem unmarked_append_ne {next : Str} (hmark : next.head? = some '\ufeff') (rest : List Str) :
    unmarked next ++ rest ≠ next :: rest := by
  obtain ⟨tail, rfl⟩ := List.head?_eq_some_iff.mp hmark
  have hshort := length_trim_le tail
  rw [unmarked, stripBom, if_pos rfl]
  by_cases hblank : trim tail = []
  · rw [if_pos hblank]
    intro h
    have hlength := congrArg List.length h
    rw [List.nil_append, List.length_cons] at hlength
    omega
  · rw [if_neg hblank]
    intro h
    have hlength := congrArg List.length (List.cons.inj h).1
    rw [List.length_cons] at hlength
    omega

/-- **When the paths are read back.**  For every flag file with two paths or more: what is left of
it is the text of all the paths but the first, and these are found in it again exactly when the
first of them does not begin with U+FEFF. -/
theorem rewrite_reads_back_iff (content : Bytes) (target next : Str) (rest : List Str)
    (h : pathsOf content = target :: next :: rest) :
    popFlagFile .ok content = ⟨some target, some (.file (newBytes (next :: rest)))⟩
      ∧ (pathsOf (newBytes (next :: rest)) = next :: rest ↔ next.head? ≠ some '\ufeff') := by
  constructor
  · rw [popFlagFile_cons rfl rfl h, if_neg (List.cons_ne_nil next rest), rewriteFlagFile_ok]
  · rw [pathsOf_newBytes_eq (isLine_remaining h)]
    by_cases hmark : next.head? = some '\ufeff'
    · rw [if_pos hmark]
      exact iff_of_false (unmarked_append_ne hmark rest) fun hne => hne hmark
    · rw [if_neg hmark]
      exact iff_of_true rfl hmark

/-- A flag file with two paths. -/
theorem two_paths_are_read_back :
    popFlagFile .ok (newBytes ["a".toList, "b".toList])
        = ⟨some "a".toList, some (.file (newBytes ["b".toList]))⟩
      ∧ (pathsOf (newBytes ["b".toList]) = ["b".toList] ↔ "b".toList.head? ≠ some '\ufeff') :=
  rewrite_reads_back_iff (newBytes ["a".toList, "b".toList]) "a".toList "b".toList []
    (by rw [pathsOf, newBytes, decodeUtf8_encodeUtf8]; decide)

/-- **A second path that begins with U+FEFF.**  It is found when the file is read, and another path
is found in what is written for it. -/
theorem marked_path_is_not_read_back :
    pathsOf (encodeUtf8 "a.efi\n\ufeffb.efi\n".toList) = ["a.efi".toList, "\ufeffb.efi".toList]
      ∧ pathsOf (newBytes ["\ufeffb.efi".toList]) = ["b.efi".toList]
      ∧ pathsOf (newBytes ["\ufeffb.efi".toList]) ≠ ["\ufeffb.efi".toList] := by
  have hback : pathsOf (newBytes ["\ufeffb.efi".toList]) = ["b.efi".toList] := by
    rw [pathsOf, newBytes, decodeUtf8_encodeUtf8]
    decide
  refine ⟨?_, hback, ?_⟩
  · rw [pathsOf, decodeUtf8_encodeUtf8]
    decide
  · rw [hback]
    decide

end WebUiBoot.Boot
