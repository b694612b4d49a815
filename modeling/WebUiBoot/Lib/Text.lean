import Mathlib.Data.List.DropRight
import Mathlib.Data.List.TakeWhile

/-!
# Text

Texts are lists of characters, with the operations of Rust's `str` that line based formats need:
`trim`, `lines`, and UTF-8.

* `trim_trim`, `trim_append_of_whitespace` — trimming;
* `nonBlankLines_append_newline` — the lines of a text can be read off one at a time;
* `nonBlankLines_unlines` — what is written line by line is read back;
* `decodeUtf8_encodeUtf8_append` — a text in front of bytes decodes to itself, whatever the
  bytes are.
-/

namespace WebUiBoot.Text

abbrev Str := List Char

/-! ### Trimming -/

/-- `char::is_whitespace`: the Unicode property `White_Space`. -/
def isWhitespace (c : Char) : Bool :=
  (0x9 ≤ c.toNat ∧ c.toNat ≤ 0xD) ∨ c.toNat = 0x20 ∨ c.toNat = 0x85 ∨ c.toNat = 0xA0
    ∨ c.toNat = 0x1680 ∨ (0x2000 ≤ c.toNat ∧ c.toNat ≤ 0x200A) ∨ c.toNat = 0x2028
    ∨ c.toNat = 0x2029 ∨ c.toNat = 0x202F ∨ c.toNat = 0x205F ∨ c.toNat = 0x3000

/-- `str::trim`. -/
def trim (t : Str) : Str := (t.dropWhile isWhitespace).rdropWhile isWhitespace

theorem mem_of_mem_trim {t : Str} {c : Char} (h : c ∈ trim t) : c ∈ t :=
  (List.dropWhile_suffix isWhitespace).subset ((List.rdropWhile_prefix isWhitespace _).subset h)

theorem trim_append_of_whitespace (t : Str) {w : Str} (h : ∀ c ∈ w, isWhitespace c = true) :
    trim (t ++ w) = trim t := by
  induction w using List.reverseRecOn with
  | nil => rw [List.append_nil]
  | append_singleton w c ih =>
      have hc := h c (by simp)
      rw [← ih fun c' hc' => h c' (List.mem_append_left _ hc'), ← List.append_assoc]
      unfold trim
      by_cases hws : ∀ c' ∈ t ++ w, isWhitespace c' = true
      · have hall : ∀ c' ∈ t ++ w ++ [c], isWhitespace c' = true := by
          intro c' hc'
          rcases List.mem_append.mp hc' with hc' | hc'
          · exact hws c' hc'
          · exact List.mem_singleton.mp hc' ▸ hc
        rw [List.dropWhile_eq_nil_iff.mpr hall, List.dropWhile_eq_nil_iff.mpr hws]
      · have hne : ¬ ((t ++ w).dropWhile isWhitespace).isEmpty = true := by
          rw [List.isEmpty_iff, List.dropWhile_eq_nil_iff]
          exact hws
        rw [List.dropWhile_append, if_neg hne, List.rdropWhile_concat_pos _ _ _ hc]

/-- A text that starts and ends with other characters than white space is left alone. -/
theorem trim_trim (t : Str) : trim (trim t) = trim t := by
  have hdrop : (trim t).dropWhile isWhitespace = trim t := by
    by_cases hnil : trim t = []
    · rw [hnil]
      rfl
    · have hne : t.dropWhile isWhitespace ≠ [] := by
        intro heq
        rw [trim, heq] at hnil
        exact hnil rfl
      obtain ⟨rest, hrest⟩ := List.rdropWhile_prefix isWhitespace (t.dropWhile isWhitespace)
      cases htrim : trim t with
      | nil => exact absurd htrim hnil
      | cons c cs =>
          have hhead : (t.dropWhile isWhitespace).head hne = c := by
            rw [trim] at htrim
            rw [htrim] at hrest
            simp [← hrest]
          have hc := List.head_dropWhile_not isWhitespace hne
          rw [hhead] at hc
          exact List.dropWhile_cons_of_neg (by simp [hc])
  rw [trim, hdrop]
  exact List.rdropWhile_idempotent isWhitespace (t.dropWhile isWhitespace)

/-- A first character other than white space stays, and the rest is trimmed at its end. -/
theorem trim_cons {c : Char} (hc : isWhitespace c = false) (t : Str) :
    trim (c :: t) = c :: t.rdropWhile isWhitespace := by
  have hdrop : (c :: t).dropWhile isWhitespace = c :: t :=
    List.dropWhile_cons_of_neg (by simp [hc])
  rw [trim, hdrop]
  induction t using List.reverseRecOn with
  | nil => exact List.rdropWhile_concat_neg isWhitespace [] c (by simp [hc])
  | append_singleton t d ih =>
      by_cases hd : isWhitespace d = true
      · rw [List.rdropWhile_concat_pos _ _ _ hd, ← List.cons_append,
          List.rdropWhile_concat_pos _ _ _ hd]
        exact ih (List.dropWhile_cons_of_neg (by simp [hc]))
      · rw [List.rdropWhile_concat_neg _ _ _ hd, ← List.cons_append,
          List.rdropWhile_concat_neg _ _ _ hd]

theorem trim_rdropWhile (t : Str) : trim (t.rdropWhile isWhitespace) = trim t := by
  have hws : ∀ c ∈ t.rtakeWhile isWhitespace, isWhitespace c = true :=
    fun _ => List.mem_rtakeWhile_imp
  have htail := trim_append_of_whitespace (t.rdropWhile isWhitespace) hws
  rw [List.rdropWhile_append_rtakeWhile] at htail
  exact htail.symm

/-! ### Lines -/

/-- A line end `\r\n` counts as one; a `\r` elsewhere stays. -/
def stripCr (line : Str) : Str :=
  if line.getLast? = some '\r' then line.dropLast else line

def linesFrom (line : Str) : Str → List Str
  | [] => if line = [] then [] else [line]
  | c :: rest =>
      if c = '\n' then stripCr line :: linesFrom [] rest else linesFrom (line ++ [c]) rest

/-- `str::lines`: what stands in front of each line end, and what is left behind the last. -/
def lines (t : Str) : List Str := linesFrom [] t

/-- `lines().map(trim).filter(|line| !line.is_empty())`. -/
def nonBlankLines (t : Str) : List Str := ((lines t).map trim).filter (· ≠ [])

/-- What has no line end in it belongs to the line that is being read. -/
theorem linesFrom_append {a : Str} (h : '\n' ∉ a) (b : Str) :
    ∀ line, linesFrom line (a ++ b) = linesFrom (line ++ a) b := by
  induction a with
  | nil =>
      intro line
      rw [List.append_nil, List.nil_append]
  | cons c a ih =>
      intro line
      rw [List.mem_cons, not_or] at h
      rw [List.cons_append, linesFrom, if_neg (Ne.symm h.1), ih h.2, List.append_assoc,
        List.singleton_append]

theorem linesFrom_newline {a : Str} (h : '\n' ∉ a) (b line : Str) :
    linesFrom line (a ++ '\n' :: b) = stripCr (line ++ a) :: lines b := by
  rw [linesFrom_append h, linesFrom, if_pos rfl]
  rfl

theorem linesFrom_of_notMem {a : Str} (h : '\n' ∉ a) (line : Str) :
    linesFrom line a = if line ++ a = [] then [] else [line ++ a] := by
  have happend := linesFrom_append h [] line
  rw [List.append_nil] at happend
  rw [happend, linesFrom]

theorem trim_stripCr (line : Str) : trim (stripCr line) = trim line := by
  unfold stripCr
  split
  · rename_i h
    obtain ⟨rest, rfl⟩ := List.getLast?_eq_some_iff.mp h
    rw [List.dropLast_concat]
    refine (trim_append_of_whitespace rest ?_).symm
    intro c hc
    rw [List.mem_singleton.mp hc]
    rfl
  · rfl

/-- A line that is blank is dropped, and another one is trimmed. -/
theorem filter_map_trim_cons (line : Str) (ls : List Str) :
    ((line :: ls).map trim).filter (· ≠ [])
      = (if trim line = [] then [] else [trim line]) ++ (ls.map trim).filter (· ≠ []) := by
  rw [List.map_cons]
  by_cases hblank : trim line = []
  · rw [List.filter_cons_of_neg (by simp [hblank]), if_pos hblank, List.nil_append]
  · rw [List.filter_cons_of_pos (by simp [hblank]), if_neg hblank, List.singleton_append]

/-- The line in front of a line end is read off, and the rest is read by itself. -/
theorem nonBlankLines_append_newline {a : Str} (h : '\n' ∉ a) (b : Str) :
    nonBlankLines (a ++ '\n' :: b)
      = (if trim a = [] then [] else [trim a]) ++ nonBlankLines b := by
  unfold nonBlankLines
  rw [lines, linesFrom_newline h, List.nil_append, filter_map_trim_cons, trim_stripCr]

theorem nonBlankLines_of_notMem {a : Str} (h : '\n' ∉ a) :
    nonBlankLines a = if trim a = [] then [] else [trim a] := by
  unfold nonBlankLines
  rw [lines, linesFrom_of_notMem h, List.nil_append]
  by_cases hnil : a = []
  · rw [hnil]
    rfl
  · rw [if_neg hnil, filter_map_trim_cons]
    exact List.append_nil _

/-- **Induction over lines.**  A text is a last line without a line end, or begins with a line
that has one. -/
theorem line_induction {P : Str → Prop} (last : ∀ a, '\n' ∉ a → P a)
    (line : ∀ a b, '\n' ∉ a → P b → P (a ++ '\n' :: b)) (t : Str) : P t := by
  by_cases h : '\n' ∈ t
  · obtain ⟨a, b, hab, ha⟩ := List.eq_append_cons_of_mem h
    have hlt : b.length < t.length := by
      rw [hab, List.length_append, List.length_cons]
      omega
    rw [hab]
    exact line a b ha (line_induction last line b)
  · exact last t h
termination_by t.length

/-- A line as `nonBlankLines` returns it. -/
structure IsLine (line : Str) : Prop where
  trimmed : trim line = line
  ne_nil : line ≠ []
  newline : '\n' ∉ line

theorem isLine_trim {a : Str} (h : '\n' ∉ a) (hblank : trim a ≠ []) : IsLine (trim a) where
  trimmed := trim_trim a
  ne_nil := hblank
  newline hmem := h (mem_of_mem_trim hmem)

/-- Where a line comes from. -/
theorem exists_of_mem_nonBlankLines {t line : Str} (h : line ∈ nonBlankLines t) :
    ∃ a, a ⊆ t ∧ '\n' ∉ a ∧ trim a ≠ [] ∧ line = trim a := by
  have hfirst : ∀ {a : Str}, '\n' ∉ a → line ∈ (if trim a = [] then [] else [trim a]) →
      '\n' ∉ a ∧ trim a ≠ [] ∧ line = trim a := by
    intro a ha hmem
    by_cases hblank : trim a = []
    · rw [if_pos hblank] at hmem
      exact absurd hmem List.not_mem_nil
    · rw [if_neg hblank, List.mem_singleton] at hmem
      exact ⟨ha, hblank, hmem⟩
  induction t using line_induction with
  | last a ha =>
      rw [nonBlankLines_of_notMem ha] at h
      exact ⟨a, List.Subset.refl a, hfirst ha h⟩
  | line a b ha ih =>
      rw [nonBlankLines_append_newline ha, List.mem_append] at h
      rcases h with h | h
      · exact ⟨a, List.subset_append_left a _, hfirst ha h⟩
      · obtain ⟨a', hsub, ha'⟩ := ih h
        exact ⟨a', fun c hc => List.mem_append_right _ (List.mem_cons_of_mem _ (hsub hc)), ha'⟩

theorem isLine_of_mem {t line : Str} (h : line ∈ nonBlankLines t) : IsLine line := by
  obtain ⟨a, _, ha, hblank, rfl⟩ := exists_of_mem_nonBlankLines h
  exact isLine_trim ha hblank

theorem mem_of_mem_nonBlankLines {t line : Str} {c : Char} (hline : line ∈ nonBlankLines t)
    (hc : c ∈ line) : c ∈ t := by
  obtain ⟨a, hsub, _, _, rfl⟩ := exists_of_mem_nonBlankLines hline
  exact hsub (mem_of_mem_trim hc)

/-- Lines, each with its line end. -/
def unlines (rs : List Str) : Str := rs.flatMap fun r => r ++ ['\r', '\n']

/-- **Reading back.**  Lines that were written in front of a text are read back in front of its
own. -/
theorem nonBlankLines_unlines_append {rs : List Str} (h : ∀ r ∈ rs, IsLine r) (t : Str) :
    nonBlankLines (unlines rs ++ t) = rs ++ nonBlankLines t := by
  induction rs with
  | nil => rfl
  | cons r rs ih =>
      have hr := h r List.mem_cons_self
      have ih := ih fun r' hr' => h r' (List.mem_cons_of_mem _ hr')
      have hcr : '\n' ∉ r ++ ['\r'] := by
        simp [hr.newline]
      have htrim : trim (r ++ ['\r']) = r := by
        rw [trim_append_of_whitespace r (by simp; decide), hr.trimmed]
      have hsplit : unlines (r :: rs) ++ t = (r ++ ['\r']) ++ '\n' :: (unlines rs ++ t) := by
        simp [unlines]
      rw [hsplit, nonBlankLines_append_newline hcr, htrim, if_neg hr.ne_nil, ih]
      rfl

theorem nonBlankLines_unlines {rs : List Str} (h : ∀ r ∈ rs, IsLine r) :
    nonBlankLines (unlines rs) = rs := by
  have hback := nonBlankLines_unlines_append h []
  rw [List.append_nil] at hback
  rw [hback]
  exact List.append_nil rs

/-- **Two texts.**  Behind a line end, a text is read by itself. -/
theorem nonBlankLines_append {t : Str} (h : t = [] ∨ t.getLast? = some '\n') (t' : Str) :
    nonBlankLines (t ++ t') = nonBlankLines t ++ nonBlankLines t' := by
  induction t using line_induction with
  | last a ha =>
      have hnil : a = [] :=
        h.resolve_right fun hlast => ha (List.mem_of_getLast? hlast)
      rw [hnil]
      rfl
  | line a b ha ih =>
      have hb : b = [] ∨ b.getLast? = some '\n' := by
        by_cases hnil : b = []
        · exact Or.inl hnil
        · rcases h with h | h
          · exact absurd h (by simp)
          · rw [List.getLast?_append, List.getLast?_cons, List.getLast?_eq_some_getLast hnil] at h
            exact Or.inr (by rw [List.getLast?_eq_some_getLast hnil]; exact h)
      rw [List.append_assoc, List.cons_append, nonBlankLines_append_newline ha,
        nonBlankLines_append_newline ha, ih hb, List.append_assoc]

/-! ### Words -/

/-- `str::split_whitespace`. -/
def splitWhitespace (t : Str) : List Str := (t.splitOnP isWhitespace).filter (· ≠ [])

/-! ### UTF-8 -/

/-- `str::as_bytes`. -/
def encodeUtf8 (t : Str) : List UInt8 := t.flatMap String.utf8EncodeChar

/-- `core::str::from_utf8`. -/
def decodeUtf8 (bytes : List UInt8) : Option Str := bytes.toByteArray.utf8Decode?.map Array.toList

theorem decodeUtf8_encodeUtf8_append (t : Str) (bytes : List UInt8) :
    decodeUtf8 (encodeUtf8 t ++ bytes) = (decodeUtf8 bytes).map (t ++ ·) := by
  induction t with
  | nil => simp [encodeUtf8]
  | cons c t ih =>
      have hsplit : (encodeUtf8 (c :: t) ++ bytes).toByteArray
          = [c].utf8Encode ++ (encodeUtf8 t ++ bytes).toByteArray := by
        simp [encodeUtf8, List.utf8Encode]
      have hmap : ∀ o : Option (Array Char), (o.map (#[c] ++ ·)).map Array.toList
          = (o.map Array.toList).map (c :: ·) := by
        intro o
        cases o <;> simp
      unfold decodeUtf8 at ih ⊢
      rw [hsplit, ByteArray.utf8Decode?_utf8Encode_singleton_append, hmap, ih, Option.map_map]
      rfl

theorem decodeUtf8_nil : decodeUtf8 [] = some [] := by
  simp [decodeUtf8]

theorem decodeUtf8_encodeUtf8 (t : Str) : decodeUtf8 (encodeUtf8 t) = some t := by
  have h := decodeUtf8_encodeUtf8_append t []
  rw [List.append_nil, decodeUtf8_nil] at h
  simpa using h

/-- Bytes that decode are the encoding of what they decode to. -/
theorem encodeUtf8_of_decodeUtf8 {bytes : List UInt8} {t : Str} (h : decodeUtf8 bytes = some t) :
    encodeUtf8 t = bytes := by
  obtain ⟨chars, hchars, rfl⟩ := Option.map_eq_some_iff.mp h
  obtain ⟨hsome, rfl⟩ := Option.eq_some_iff_get_eq.mp hchars
  have hencode := congrArg (·.data.toList) (ByteArray.utf8Encode_get_utf8Decode? (h := hsome))
  simpa [encodeUtf8, List.utf8Encode] using hencode

end WebUiBoot.Text
