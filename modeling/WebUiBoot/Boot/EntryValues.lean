import WebUiBoot.Boot.EntryLines

/-!
# The values of an entry

What becomes of a kernel path, the paths of initrds and an options string that are written to an
entry file, when `boot_linux_from_entry_file` of `src/boot.rs` parses it.

* `EntryRow` / `writeEntry` — an entry file, line by line;
* `valuesOf_writeEntry` — its values: white space within them comes back as single spaces;
* `entry_values_normalised` — which values survive;
* `inner_spaces_collapse` — a value that does not.
-/

namespace WebUiBoot.Boot

open WebUiBoot.Text

inductive EntryKey
  | linux
  | initrd
  | options
  deriving DecidableEq

def EntryKey.text : EntryKey → Str
  | .linux => "linux".toList
  | .initrd => "initrd".toList
  | .options => "options".toList

/-- A line of an entry file: its indentation, its key, a space and its value. -/
structure EntryRow where
  indent : Str
  key : EntryKey
  value : Str
  indent_whitespace : ∀ c ∈ indent, isWhitespace c = true ∧ c ≠ '\n'
  /-- The value is not empty, is trimmed and has no line end. -/
  value_isLine : IsLine value

def EntryRow.text (row : EntryRow) : Str := row.indent ++ (row.key.text ++ ' ' :: row.value)

def writeEntry (rows : List EntryRow) : Str :=
  writeLines (rows.map fun row => (row.text, false)) []

/-- The values that are written for a key. -/
def writtenValues (key : EntryKey) (rows : List EntryRow) : List Str :=
  (rows.filter fun row => row.key = key).map EntryRow.value

/-- A value when it is read back. -/
def normalize (value : Str) : Str := joinWords (splitWhitespace value)

/-! ### Reading a row -/

theorem EntryKey.isWord (key : EntryKey) : IsWord key.text := by
  cases key with
  | linux | initrd | options => exact isWord_of_all (List.cons_ne_nil _ _) (by decide)

theorem EntryKey.text_injective : Function.Injective EntryKey.text := by
  intro key key' h
  cases key with
  | linux | initrd | options =>
      cases key' with
      | linux | initrd | options => first | rfl | exact absurd h (by decide)

/-- A row is no comment. -/
theorem EntryKey.head?_trim (key : EntryKey) (value : Str) :
    (trim (key.text ++ ' ' :: value)).head? ≠ some '#' := by
  rw [key.isWord.head?_trim]
  cases key with
  | linux | initrd | options => decide

theorem lineValue_row (key : EntryKey) (row : EntryRow) :
    lineValue key.text row.text = if row.key = key then some (normalize row.value) else none := by
  have hindent := lineValue_indent (fun c hc => (row.indent_whitespace c hc).1)
    (fun c hc => absurd hc List.not_mem_nil) key.text (row.key.text ++ ' ' :: row.value)
  rw [List.append_nil] at hindent
  rw [EntryRow.text, hindent]
  have hwords : splitWhitespace (row.key.text ++ ' ' :: row.value)
      = row.key.text :: splitWhitespace row.value := by
    rw [splitWhitespace_append_cons _ _ (by decide), splitWhitespace_of_isWord row.key.isWord]
    rfl
  cases hvalue : splitWhitespace row.value with
  | nil =>
      have hblank := splitWhitespace_eq_nil.mp hvalue
      cases hrow : row.value with
      | nil => exact absurd hrow row.value_isLine.ne_nil
      | cons c value =>
          have hc := (ends_of_trim_eq row.value_isLine.trimmed).1 c (by rw [hrow]; rfl)
          rw [hblank c (by rw [hrow]; exact List.mem_cons_self)] at hc
          cases hc
  | cons v words =>
      rw [hvalue] at hwords
      rw [lineValue_of_words (row.key.head?_trim row.value) hwords, normalize, hvalue]
      by_cases hkey : row.key = key
      · rw [if_pos hkey, if_pos (congrArg EntryKey.text hkey)]
      · rw [if_neg hkey, if_neg fun h => hkey (EntryKey.text_injective h)]

/-- **The values of a written file.** -/
theorem valuesOf_writeEntry (key : EntryKey) (rows : List EntryRow) :
    valuesOf key.text (writeEntry rows) = (writtenValues key rows).map normalize := by
  have hnewline : ∀ l ∈ rows.map fun row => (row.text, false), '\n' ∉ l.1 := by
    intro l hl
    obtain ⟨row, _, rfl⟩ := List.mem_map.mp hl
    have hkey : '\n' ∉ row.key.text := by
      intro hmem
      have hws := row.key.isWord.notWhitespace _ hmem
      exact absurd hws (by decide)
    have hindent : '\n' ∉ row.indent := fun hmem => (row.indent_whitespace _ hmem).2 rfl
    simp [EntryRow.text, hkey, hindent, row.value_isLine.newline]
  have hlast : lineValue key.text [] = none := rfl
  rw [writeEntry, valuesOf_writeLines key.text hnewline List.not_mem_nil, hlast]
  have hrow : lineValue key.text ∘ EntryRow.text
      = fun row => if row.key = key then some (normalize row.value) else none := by
    funext row
    exact lineValue_row key row
  rw [Option.toList_none, List.append_nil, List.map_map]
  show (rows.map EntryRow.text).filterMap (lineValue key.text) = _
  rw [List.filterMap_map, hrow]
  clear hnewline
  unfold writtenValues
  induction rows with
  | nil => rfl
  | cons row rows ih =>
      rw [filterMap_cons_toList, ih]
      by_cases hkey : row.key = key
      · rw [if_pos hkey, List.filter_cons_of_pos (by simp [hkey])]
        rfl
      · rw [if_neg hkey, List.filter_cons_of_neg (by simp [hkey])]
        rfl

theorem isLine_of_mem_writtenValues {key : EntryKey} {rows : List EntryRow} {value : Str}
    (h : value ∈ writtenValues key rows) : IsLine value := by
  obtain ⟨row, _, rfl⟩ := List.mem_map.mp h
  exact row.value_isLine

/-- A value survives exactly when its inner white space is single spaces. -/
theorem normalize_eq_self {value : Str} (h : IsLine value) :
    normalize value = value ↔ SingleSpaced value := joinWords_splitWhitespace_iff h.trimmed

/-! ### The entry -/

/-- **Values are normalised.**  For every kernel path, list of initrd paths and options string,
written line by line in any order and with any indentation: they are read back with single spaces
in the place of inner white space, and so character for character exactly when they have no other.
-/
theorem entry_values_normalised (rows : List EntryRow) (path : Str) (initrds : List Str)
    (options : Str) (hpath : writtenValues .linux rows = [path])
    (hinitrds : writtenValues .initrd rows = initrds)
    (hoptions : writtenValues .options rows = [options]) :
    parseEntry (writeEntry rows)
        = ⟨some (normalize path), initrds.map normalize, some (normalize options)⟩
      ∧ (parseEntry (writeEntry rows) = ⟨some path, initrds, some options⟩
          ↔ SingleSpaced path ∧ (∀ p ∈ initrds, SingleSpaced p) ∧ SingleSpaced options) := by
  have hparse : parseEntry (writeEntry rows)
      = ⟨some (normalize path), initrds.map normalize, some (normalize options)⟩ := by
    rw [parseEntry_eq]
    show (⟨(valuesOf EntryKey.linux.text _).getLast?, valuesOf EntryKey.initrd.text _,
      (valuesOf EntryKey.options.text _).getLast?⟩ : Entry) = _
    rw [valuesOf_writeEntry, valuesOf_writeEntry, valuesOf_writeEntry, hpath, hinitrds, hoptions]
    rfl
  refine ⟨hparse, ?_⟩
  have hpathLine : IsLine path := isLine_of_mem_writtenValues (hpath ▸ List.mem_cons_self)
  have hoptionsLine : IsLine options :=
    isLine_of_mem_writtenValues (hoptions ▸ List.mem_cons_self)
  have hinitrdsLine : ∀ p ∈ initrds, IsLine p := fun p hp =>
    isLine_of_mem_writtenValues (hinitrds.symm ▸ hp)
  have hmap : initrds.map normalize = initrds ↔ ∀ p ∈ initrds, SingleSpaced p := by
    have hid : initrds.map normalize = initrds.map id ↔ ∀ p ∈ initrds, normalize p = p :=
      List.map_inj_left
    rw [List.map_id] at hid
    rw [hid]
    exact forall₂_congr fun p hp => normalize_eq_self (hinitrdsLine p hp)
  rw [hparse, Entry.mk.injEq, Option.some.injEq, Option.some.injEq, hmap,
    normalize_eq_self hpathLine, normalize_eq_self hoptionsLine]

theorem isLine_path : IsLine "/vmlinuz".toList := ⟨by decide, by decide, by decide⟩

theorem isLine_initrd : IsLine "/my initrd".toList := ⟨by decide, by decide, by decide⟩

theorem isLine_options : IsLine "console=\"a  b\"".toList := ⟨by decide, by decide, by decide⟩

/-- An entry with a file name that has a space in it, and an argument that has two. -/
def quotedRows : List EntryRow :=
  [⟨['\t'], .options, "console=\"a  b\"".toList, List.forall_mem_singleton.mpr (by decide),
      isLine_options⟩,
    ⟨[], .linux, "/vmlinuz".toList, List.forall_mem_nil _, isLine_path⟩,
    ⟨[' '], .initrd, "/my initrd".toList, List.forall_mem_singleton.mpr (by decide),
      isLine_initrd⟩]

theorem quotedRows_normalised :
    parseEntry (writeEntry quotedRows)
      = ⟨some "/vmlinuz".toList, ["/my initrd".toList], some "console=\"a b\"".toList⟩ :=
  (entry_values_normalised quotedRows "/vmlinuz".toList ["/my initrd".toList]
    "console=\"a  b\"".toList rfl rfl rfl).1

/-- **Inner spaces collapse.**  The argument comes back with one space. -/
theorem inner_spaces_collapse :
    writtenValues .linux quotedRows = ["/vmlinuz".toList]
      ∧ writtenValues .initrd quotedRows = ["/my initrd".toList]
      ∧ writtenValues .options quotedRows = ["console=\"a  b\"".toList]
      ∧ parseEntry (writeEntry quotedRows)
          ≠ ⟨some "/vmlinuz".toList, ["/my initrd".toList], some "console=\"a  b\"".toList⟩ := by
  refine ⟨rfl, rfl, rfl, fun h => ?_⟩
  have hoptions := congrArg Entry.optionsStr h
  exact absurd hoptions (by decide)

end WebUiBoot.Boot
