import WebUiBoot.Boot.EntryLines

/-!
# Load options

The arguments that the kernel of an entry is given by `boot_linux_from_entry_file` of `src/boot.rs`.

* `optionsArguments`, `initrdArgument` — the arguments that the lines of the entry ask for;
* `splitWhitespace_finalOptions` — those that are passed;
* `every_argument_is_passed_iff` — they are the same exactly when there is at most one `options` line
  and no white space in the path of an initrd;
* `optionsSet_of_attempt` — what is set as the options of an image;
* `first_options_line_is_lost` — two `options` lines.
-/

namespace WebUiBoot.Boot

open WebUiBoot.Text

/-- The arguments of all `options` lines, in the order of the lines. -/
def optionsArguments (content : Str) : List Str :=
  (valuesOf "options".toList content).flatMap splitWhitespace

def initrdArgument (path : Str) : Str := "initrd=".toList ++ replaceSlashes path

/-- The arguments that an entry file asks for. -/
def entryArguments (content : Str) : List Str :=
  optionsArguments content ++ (valuesOf "initrd".toList content).map initrdArgument

/-! ### What is passed -/

theorem splitWhitespace_addInitrd (finalOptions path : Str) :
    splitWhitespace (addInitrd finalOptions path)
      = splitWhitespace finalOptions ++ splitWhitespace (initrdArgument path) := by
  unfold addInitrd
  rw [List.append_assoc]
  show splitWhitespace (_ ++ initrdArgument path) = _
  by_cases hnil : finalOptions = []
  · rw [if_pos hnil, hnil]
    rfl
  · rw [if_neg hnil, List.append_assoc, List.singleton_append]
    exact splitWhitespace_append_cons finalOptions (initrdArgument path) (by decide)

theorem splitWhitespace_foldl_addInitrd (paths : List Str) : ∀ finalOptions : Str,
    splitWhitespace (paths.foldl addInitrd finalOptions)
      = splitWhitespace finalOptions
        ++ paths.flatMap fun path => splitWhitespace (initrdArgument path) := by
  induction paths with
  | nil =>
      intro finalOptions
      rw [List.flatMap_nil, List.append_nil]
      rfl
  | cons path paths ih =>
      intro finalOptions
      rw [List.foldl_cons, ih, splitWhitespace_addInitrd, List.flatMap_cons, List.append_assoc]

/-- **What is passed.**  The arguments of the last `options` line, and the words of `initrd=` and
each path. -/
theorem splitWhitespace_finalOptions (content : Str) :
    splitWhitespace (parseEntry content).finalOptions
      = splitWhitespace ((valuesOf "options".toList content).getLast?.getD [])
        ++ (valuesOf "initrd".toList content).flatMap fun path =>
            splitWhitespace (initrdArgument path) := by
  rw [parseEntry_eq]
  exact splitWhitespace_foldl_addInitrd _ _

theorem isWhitespace_slash (c : Char) :
    isWhitespace (if c = '/' then '\\' else c) = isWhitespace c := by
  by_cases hc : c = '/'
  · rw [if_pos hc, hc]
    decide
  · rw [if_neg hc]

/-- The argument of an initrd is one word when its path is. -/
theorem isWord_initrdArgument {path : Str} :
    IsWord (initrdArgument path) ↔ ∀ c ∈ path, isWhitespace c = false := by
  constructor
  · intro h c hc
    have hmem : (if c = '/' then '\\' else c) ∈ initrdArgument path :=
      List.mem_append_right _ (List.mem_map_of_mem hc)
    rw [← isWhitespace_slash c]
    exact h.notWhitespace _ hmem
  · intro h
    have hprefix : IsWord "initrd=".toList := isWord_of_all (by decide) (by decide)
    refine ⟨List.append_ne_nil_of_left_ne_nil hprefix.ne_nil _, fun c hc => ?_⟩
    rcases List.mem_append.mp hc with hc | hc
    · exact hprefix.notWhitespace c hc
    · obtain ⟨d, hd, rfl⟩ := List.mem_map.mp hc
      rw [isWhitespace_slash]
      exact h d hd

/-- A value has a word. -/
theorem splitWhitespace_ne_nil_of_mem {key content value : Str}
    (h : value ∈ valuesOf key content) : splitWhitespace value ≠ [] := by
  obtain ⟨line, _, hvalue⟩ := List.mem_filterMap.mp h
  obtain ⟨v, words, hwords, rfl⟩ := exists_words_of_lineValue hvalue
  rw [splitWhitespace_joinWords hwords]
  exact List.cons_ne_nil v words

/-! ### When all arguments are passed -/

/-- The last of some values has all of their words exactly when there is no other value. -/
theorem length_words_getLast? (values : List Str) (h : ∀ v ∈ values, splitWhitespace v ≠ []) :
    (splitWhitespace (values.getLast?.getD [])).length
        ≤ (values.flatMap splitWhitespace).length
      ∧ ((splitWhitespace (values.getLast?.getD [])).length
          = (values.flatMap splitWhitespace).length ↔ values.length ≤ 1) := by
  cases values using List.reverseRecOn with
  | nil => simp
  | append_singleton values value =>
      rw [List.getLast?_concat, Option.getD_some, List.flatMap_append, List.flatMap_singleton,
        List.length_append]
      refine ⟨Nat.le_add_left _ _, ?_⟩
      cases values with
      | nil => simp
      | cons v values =>
          have hv := List.length_pos_of_ne_nil (h v (by simp))
          rw [List.flatMap_cons, List.length_append, List.length_append, List.length_cons,
            List.length_singleton]
          omega

theorem flatMap_initrdArgument {paths : List Str}
    (h : ∀ path ∈ paths, ∀ c ∈ path, isWhitespace c = false) :
    (paths.flatMap fun path => splitWhitespace (initrdArgument path))
      = paths.map initrdArgument := by
  induction paths with
  | nil => rfl
  | cons path paths ih =>
      have hword := isWord_initrdArgument.mpr (h path List.mem_cons_self)
      rw [List.flatMap_cons, splitWhitespace_of_isWord hword, List.map_cons,
        ih fun path' hpath' => h path' (List.mem_cons_of_mem _ hpath')]
      rfl

/-- **When every argument is passed.**  For every entry file: the words of the load options are the
arguments of all `options` lines and then one for each initrd, in the order of the lines, exactly
when there is at most one `options` line with a value and no path of an initrd has white space in
it. -/
theorem every_argument_is_passed_iff (content : Str) :
    splitWhitespace (parseEntry content).finalOptions = entryArguments content
      ↔ (valuesOf "options".toList content).length ≤ 1
        ∧ ∀ path ∈ valuesOf "initrd".toList content, ∀ c ∈ path, isWhitespace c = false := by
  have hlength := length_words_getLast? (valuesOf "options".toList content)
    fun v hv => splitWhitespace_ne_nil_of_mem hv
  constructor
  · intro h
    have hpaths : ∀ path ∈ valuesOf "initrd".toList content, ∀ c ∈ path,
        isWhitespace c = false := by
      intro path hpath
      have hmem : initrdArgument path ∈ entryArguments content :=
        List.mem_append_right _ (List.mem_map_of_mem hpath)
      rw [← h] at hmem
      exact isWord_initrdArgument.mp (isWord_of_mem hmem)
    rw [splitWhitespace_finalOptions, flatMap_initrdArgument hpaths, entryArguments] at h
    have hwords := List.append_cancel_right h
    exact ⟨hlength.2.mp (congrArg List.length hwords), hpaths⟩
  · rintro ⟨hone, hpaths⟩
    rw [splitWhitespace_finalOptions, flatMap_initrdArgument hpaths, entryArguments,
      optionsArguments]
    cases hoptions : valuesOf "options".toList content with
    | nil => rfl
    | cons value values =>
        rw [hoptions, List.length_cons] at hone
        have hnil : values = [] := List.length_eq_zero_iff.mp (by omega)
        rw [hnil, List.flatMap_singleton]
        rfl

/-- The options that are set are these, in UTF-16. -/
theorem optionsSet_of_attempt {io : EntryIo} {entryPath : Str} {image : Image}
    {options : List UInt16} {size : UInt32}
    (h : .optionsSet image options size ∈ (bootLinuxFromEntryFile io entryPath).2) :
    ∃ buffer content, io.entryFile.Reads buffer ∧ decodeUtf8 buffer = some content
      ∧ cstring16 (parseEntry content).finalOptions = some options
      ∧ size = UInt32.ofNat (options.length * 2) := by
  have hends := attemptEnds io entryPath
  generalize bootLinuxFromEntryFile io entryPath = result at hends h
  cases hends with
  | unprepared hprepare => exact absurd h List.not_mem_nil
  | notLoaded hprepare hload => exact absurd h List.not_mem_nil
  | notOpened hprepare hload hopen => simp at h
  | notConverted hprepare hload hoptions => simp at h
  | failed hprepare hload hopen hoptions hstart | cameBack hprepare hload hopen hoptions hstart =>
      obtain ⟨_, buffer, content, _, hreads, htext, _, _, _, _, rfl⟩ :=
        prepareKernel_eq_ok.mp hprepare
      simp only [List.mem_cons, reduceCtorEq, ImageEvent.optionsSet.injEq, List.not_mem_nil,
        or_false, false_or] at h
      obtain ⟨_, rfl, rfl⟩ := h
      exact ⟨buffer, content, hreads, htext, hoptions, rfl⟩

/-- An entry whose options stand on two lines. -/
def twoOptionsLines : Str :=
  "linux /vmlinuz\noptions root=/dev/sda2\noptions quiet\ninitrd /initrd.img\n".toList

/-- **The first line is lost.**  The kernel is not told its root file system. -/
theorem first_options_line_is_lost :
    (parseEntry twoOptionsLines).linuxPath = some "/vmlinuz".toList
      ∧ entryArguments twoOptionsLines
          = ["root=/dev/sda2".toList, "quiet".toList, "initrd=\\initrd.img".toList]
      ∧ splitWhitespace (parseEntry twoOptionsLines).finalOptions
          = ["quiet".toList, "initrd=\\initrd.img".toList]
      ∧ splitWhitespace (parseEntry twoOptionsLines).finalOptions
          ≠ entryArguments twoOptionsLines := by
  decide +kernel

end WebUiBoot.Boot
