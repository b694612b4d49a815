import Mathlib.Data.List.Chain
import WebUiBoot.Lib.Text

/-!
# Words

The words of a text, and texts made of words.

* `IsWord`, `isWord_of_mem` — what `split_whitespace` returns;
* `splitWhitespace_append_cons` — the words on both sides of white space;
* `joinWords` / `splitWhitespace_joinWords` — words with single spaces between them are read back;
* `joinWords_splitWhitespace_iff` — the texts that are read back character for character.
-/

namespace WebUiBoot.Text

/-- A word as `splitWhitespace` returns it. -/
structure IsWord (w : Str) : Prop where
  ne_nil : w ≠ []
  notWhitespace : ∀ c ∈ w, isWhitespace c = false

theorem isWord_of_all {w : Str} (hne : w ≠ []) (h : (w.all fun c => !isWhitespace c) = true) :
    IsWord w := by
  refine ⟨hne, fun c hc => ?_⟩
  simpa using List.all_eq_true.mp h c hc

theorem IsWord.head?_trim {w : Str} (h : IsWord w) (t : Str) : (trim (w ++ t)).head? = w.head? := by
  cases w with
  | nil => exact absurd rfl h.ne_nil
  | cons c w =>
      rw [List.cons_append, trim_cons (h.notWhitespace c List.mem_cons_self)]
      rfl

@[simp] theorem splitWhitespace_nil : splitWhitespace [] = [] := rfl

theorem splitWhitespace_append_cons (a b : Str) {c : Char} (hc : isWhitespace c = true) :
    splitWhitespace (a ++ c :: b) = splitWhitespace a ++ splitWhitespace b := by
  unfold splitWhitespace
  rw [List.splitOnP_append_cons a b hc, List.filter_append]

theorem splitWhitespace_of_notMem {a : Str} (h : ∀ c ∈ a, isWhitespace c = false) :
    splitWhitespace a = if a = [] then [] else [a] := by
  unfold splitWhitespace
  rw [List.splitOnP_eq_singleton h]
  by_cases hnil : a = []
  · rw [if_pos hnil, List.filter_cons_of_neg (by simp [hnil]), List.filter_nil]
  · rw [if_neg hnil, List.filter_cons_of_pos (by simp [hnil]), List.filter_nil]

theorem splitWhitespace_of_isWord {w : Str} (h : IsWord w) : splitWhitespace w = [w] := by
  rw [splitWhitespace_of_notMem h.notWhitespace, if_neg h.ne_nil]

/-- **Induction over words.**  A text has no white space, or begins with a part that has none, and
a white space behind it. -/
theorem word_induction {P : Str → Prop} (last : ∀ a, (∀ c ∈ a, isWhitespace c = false) → P a)
    (word : ∀ a c b, (∀ c ∈ a, isWhitespace c = false) → isWhitespace c = true → P b →
      P (a ++ c :: b)) (t : Str) : P t := by
  have hsplit := List.takeWhile_append_dropWhile (p := fun c => !isWhitespace c) (l := t)
  have hword : ∀ c ∈ t.takeWhile fun c => !isWhitespace c, isWhitespace c = false := by
    intro c hc
    simpa using List.mem_takeWhile_imp hc
  cases hrest : t.dropWhile fun c => !isWhitespace c with
  | nil =>
      rw [hrest, List.append_nil] at hsplit
      exact last t (hsplit ▸ hword)
  | cons c b =>
      rw [hrest] at hsplit
      have hc : isWhitespace c = true := by
        have hhead := List.head?_dropWhile_not (fun c => !isWhitespace c) t
        rw [hrest] at hhead
        simpa using hhead
      have hlt : b.length < t.length := by
        rw [← hsplit, List.length_append, List.length_cons]
        omega
      rw [← hsplit]
      exact word _ c b hword hc (word_induction last word b)
termination_by t.length

theorem isWord_of_mem {t w : Str} (h : w ∈ splitWhitespace t) : IsWord w := by
  have hfirst : ∀ {a : Str}, (∀ c ∈ a, isWhitespace c = false) → w ∈ splitWhitespace a →
      IsWord w := by
    intro a ha hmem
    rw [splitWhitespace_of_notMem ha] at hmem
    by_cases hnil : a = []
    · rw [if_pos hnil] at hmem
      exact absurd hmem List.not_mem_nil
    · rw [if_neg hnil, List.mem_singleton] at hmem
      exact hmem ▸ ⟨hnil, ha⟩
  induction t using word_induction with
  | last a ha => exact hfirst ha h
  | word a c b ha hc ih =>
      rw [splitWhitespace_append_cons a b hc, List.mem_append] at h
      exact h.elim (hfirst ha) ih

/-- White space around a text makes no words. -/
theorem splitWhitespace_whitespace_append {s : Str} (h : ∀ c ∈ s, isWhitespace c = true)
    (t : Str) : splitWhitespace (s ++ t) = splitWhitespace t := by
  induction s with
  | nil => rfl
  | cons c s ih =>
      have hcons := splitWhitespace_append_cons [] (s ++ t) (h c List.mem_cons_self)
      rw [List.nil_append, splitWhitespace_nil, List.nil_append] at hcons
      rw [List.cons_append, hcons]
      exact ih fun c' hc' => h c' (List.mem_cons_of_mem _ hc')

theorem splitWhitespace_append_whitespace (t : Str) {s : Str}
    (h : ∀ c ∈ s, isWhitespace c = true) : splitWhitespace (t ++ s) = splitWhitespace t := by
  cases s with
  | nil => rw [List.append_nil]
  | cons c s =>
      have hrest := splitWhitespace_whitespace_append
        (fun c' hc' => h c' (List.mem_cons_of_mem c hc')) []
      rw [List.append_nil, splitWhitespace_nil] at hrest
      rw [splitWhitespace_append_cons t s (h c List.mem_cons_self), hrest, List.append_nil]

theorem splitWhitespace_trim (t : Str) : splitWhitespace (trim t) = splitWhitespace t := by
  have hleft : splitWhitespace (t.dropWhile isWhitespace) = splitWhitespace t := by
    have h := splitWhitespace_whitespace_append (s := t.takeWhile isWhitespace)
      (fun _ => List.mem_takeWhile_imp) (t.dropWhile isWhitespace)
    rw [List.takeWhile_append_dropWhile] at h
    exact h.symm
  have hright := splitWhitespace_append_whitespace
    ((t.dropWhile isWhitespace).rdropWhile isWhitespace)
    (s := (t.dropWhile isWhitespace).rtakeWhile isWhitespace) fun _ => List.mem_rtakeWhile_imp
  rw [List.rdropWhile_append_rtakeWhile] at hright
  rw [trim, ← hright, hleft]

theorem splitWhitespace_eq_nil {t : Str} :
    splitWhitespace t = [] ↔ ∀ c ∈ t, isWhitespace c = true := by
  induction t using word_induction with
  | last a ha =>
      rw [splitWhitespace_of_notMem ha]
      cases a with
      | nil => simp
      | cons c a =>
          rw [if_neg (List.cons_ne_nil c a)]
          have hc := ha c List.mem_cons_self
          constructor
          · intro h
            cases h
          · intro h
            rw [h c List.mem_cons_self] at hc
            cases hc
  | word a c b ha hc ih =>
      rw [splitWhitespace_append_cons a b hc, List.append_eq_nil_iff, ih,
        splitWhitespace_of_notMem ha]
      cases a with
      | nil => simp [hc]
      | cons d a =>
          have hd := ha d List.mem_cons_self
          rw [if_neg (List.cons_ne_nil d a)]
          constructor
          · intro h
            cases h.1
          · intro h
            rw [h d (by simp)] at hd
            cases hd

/-! ### Joining -/

/-- `join(" ")`. -/
def joinWords (words : List Str) : Str := List.intercalate [' '] words

theorem joinWords_singleton (w : Str) : joinWords [w] = w := by
  simp [joinWords, List.intercalate]

theorem joinWords_cons_cons (w v : Str) (words : List Str) :
    joinWords (w :: v :: words) = w ++ ' ' :: joinWords (v :: words) := by
  simp [joinWords, List.intercalate_cons_cons]

/-- **Reading back.**  Words that were joined are read back. -/
theorem splitWhitespace_joinWords {words : List Str} (h : ∀ w ∈ words, IsWord w) :
    splitWhitespace (joinWords words) = words := by
  induction words with
  | nil => rfl
  | cons w words ih =>
      have hw := splitWhitespace_of_isWord (h w List.mem_cons_self)
      have ih := ih fun w' hw' => h w' (List.mem_cons_of_mem _ hw')
      cases words with
      | nil => rw [joinWords_singleton, hw]
      | cons v words =>
          rw [joinWords_cons_cons, splitWhitespace_append_cons w _ (by decide), hw, ih]
          rfl

theorem joinWords_eq_nil {words : List Str} (h : ∀ w ∈ words, IsWord w) :
    joinWords words = [] ↔ words = [] := by
  constructor
  · intro hnil
    rw [← splitWhitespace_joinWords h, hnil]
    rfl
  · intro hnil
    rw [hnil]
    rfl

/-! ### Single spaces -/

/-- All white space is the space, and no two spaces are adjacent. -/
def SingleSpaced (t : Str) : Prop :=
  (∀ c ∈ t, isWhitespace c = true → c = ' ')
    ∧ t.IsChain fun c d => isWhitespace c = true → isWhitespace d = false

theorem head?_joinWords {w : Str} (hw : IsWord w) (words : List Str) :
    (joinWords (w :: words)).head? = w.head? := by
  cases words with
  | nil => rw [joinWords_singleton]
  | cons v words => rw [joinWords_cons_cons, List.head?_append_of_ne_nil w hw.ne_nil]

theorem IsWord.singleSpaced {w : Str} (h : IsWord w) : SingleSpaced w := by
  constructor
  · intro c hc hws
    rw [h.notWhitespace c hc] at hws
    cases hws
  · apply List.Pairwise.isChain
    exact List.pairwise_of_forall_mem_list fun _ _ d hd _ => h.notWhitespace d hd

theorem singleSpaced_joinWords {words : List Str} (h : ∀ w ∈ words, IsWord w) :
    SingleSpaced (joinWords words) := by
  induction words with
  | nil => exact ⟨fun c hc => absurd hc List.not_mem_nil, List.IsChain.nil⟩
  | cons w words ih =>
      have hw := h w List.mem_cons_self
      have ih := ih fun w' hw' => h w' (List.mem_cons_of_mem _ hw')
      cases words with
      | nil =>
          rw [joinWords_singleton]
          exact hw.singleSpaced
      | cons v words =>
          have hv : IsWord v := h v (by simp)
          rw [joinWords_cons_cons]
          constructor
          · intro c hc hws
            rcases List.mem_append.mp hc with hc | hc
            · exact hw.singleSpaced.1 c hc hws
            · cases hc with
              | head => rfl
              | tail _ hc => exact ih.1 c hc hws
          · rw [List.isChain_append, List.isChain_cons, head?_joinWords hv]
            refine ⟨hw.singleSpaced.2, ⟨fun d hd _ => ?_, ih.2⟩, fun c hc _ _ hws => ?_⟩
            · exact hv.notWhitespace d (List.mem_of_mem_head? hd)
            · rw [hw.notWhitespace c (List.mem_of_mem_getLast? hc)] at hws
              cases hws

/-- Induction over the words: every part is a word, and a single space stands behind it. -/
theorem joinWords_splitWhitespace {t : Str} (hhead : ∀ c ∈ t.head?, isWhitespace c = false)
    (hlast : ∀ c ∈ t.getLast?, isWhitespace c = false) (h : SingleSpaced t) :
    joinWords (splitWhitespace t) = t := by
  induction t using word_induction with
  | last a ha =>
      rw [splitWhitespace_of_notMem ha]
      by_cases hnil : a = []
      · rw [if_pos hnil, hnil]
        rfl
      · rw [if_neg hnil, joinWords_singleton]
  | word a c b ha hc ih =>
      have hspace : c = ' ' := h.1 c (by simp) hc
      have hword : IsWord a := by
        refine ⟨fun hnil => ?_, ha⟩
        rw [hnil] at hhead
        rw [hhead c rfl] at hc
        cases hc
      have hchain := (List.isChain_cons.mp (List.isChain_append.mp h.2).2.1)
      cases b with
      | nil =>
          rw [hlast c (by simp)] at hc
          cases hc
      | cons d b =>
          have hb := ih (fun d' hd' => hchain.1 d' hd' hc)
            (fun d' hd' => hlast d' (by
              rw [List.getLast?_append, List.getLast?_cons_cons, Option.mem_def.mp hd']
              rfl))
            ⟨fun d' hd' => h.1 d' (List.mem_append_right _ (List.mem_cons_of_mem _ hd')), hchain.2⟩
          rw [splitWhitespace_append_cons a _ hc, splitWhitespace_of_isWord hword]
          cases hwords : splitWhitespace (d :: b) with
          | nil =>
              rw [hwords] at hb
              cases hb
          | cons v words =>
              rw [hwords] at hb
              rw [List.singleton_append, joinWords_cons_cons, hb, hspace]

theorem length_trim_le (t : Str) : (trim t).length ≤ t.length :=
  (List.rdropWhile_prefix isWhitespace _).length_le.trans
    (List.dropWhile_suffix isWhitespace).length_le

/-- A text that `trim` leaves alone has no white space at its ends. -/
theorem ends_of_trim_eq {t : Str} (h : trim t = t) :
    (∀ c ∈ t.head?, isWhitespace c = false) ∧ ∀ c ∈ t.getLast?, isWhitespace c = false := by
  constructor
  · intro c hc
    by_contra hws
    rw [Bool.not_eq_false] at hws
    cases t with
    | nil => cases hc
    | cons d t =>
        obtain rfl : d = c := Option.some.inj hc
        have hshort := length_trim_le t
        have htrim : trim (d :: t) = trim t := by
          rw [trim, List.dropWhile_cons_of_pos hws]
          rfl
        rw [← htrim, h, List.length_cons] at hshort
        omega
  · intro c hc
    by_contra hws
    rw [Bool.not_eq_false] at hws
    obtain ⟨s, rfl⟩ := List.getLast?_eq_some_iff.mp hc
    have hshort := length_trim_le s
    rw [trim_append_of_whitespace s fun d hd => List.mem_singleton.mp hd ▸ hws] at h
    rw [h, List.length_append, List.length_singleton] at hshort
    omega

/-- **What is read back as it is.**  A text without white space at its ends is the words it is made
of, with single spaces between them, exactly when it has no other white space. -/
theorem joinWords_splitWhitespace_iff {t : Str} (h : trim t = t) :
    joinWords (splitWhitespace t) = t ↔ SingleSpaced t := by
  constructor
  · intro heq
    rw [← heq]
    exact singleSpaced_joinWords fun w hw => isWord_of_mem hw
  · exact joinWords_splitWhitespace (ends_of_trim_eq h).1 (ends_of_trim_eq h).2

end WebUiBoot.Text
