import Mathlib.Data.List.ProdSigma

/-!
# Painting over a buffer

Loops that write into a buffer at the places of some keys, one key after the other, where an index
that is out of bounds is an error.

* `foldlM_product` — two nested loops are one over pairs;
* `paint` / `copy` — writing the values of keys, and values that are read from another buffer;
* `paint_eq_some` — what is in the buffer afterwards, place by place;
* `save_paint_restore` — values that were saved before something was painted over them put the
  buffer back as it was.
-/

namespace WebUiBoot.Overlay

variable {α κ : Type*}

/-! ### Loops -/

theorem foldlM_product {σ β γ : Type*} (f : σ → β × γ → Option σ) (s : σ) (xs : List β)
    (ys : List γ) :
    (xs ×ˢ ys).foldlM f s = xs.foldlM (fun s x => ys.foldlM (fun s y => f s (x, y)) s) s := by
  induction xs generalizing s with
  | nil => rfl
  | cons x xs ih =>
      rw [List.product_cons, List.foldlM_append, List.foldlM_map, List.foldlM_cons]
      congr 1
      funext s
      exact ih s

theorem foldlM_congr {σ : Type*} {f g : σ → κ → Option σ} {ks : List κ}
    (h : ∀ s, ∀ k ∈ ks, f s k = g s k) (s : σ) : ks.foldlM f s = ks.foldlM g s := by
  induction ks generalizing s with
  | nil => rfl
  | cons k ks ih =>
      rw [List.foldlM_cons, List.foldlM_cons, h s k List.mem_cons_self]
      congr 1
      funext s
      exact ih (fun s k hk => h s k (List.mem_cons_of_mem _ hk)) s

/-! ### Painting -/

/-- `buf[i] = a`, when that does not panic. -/
def writeAt (buf : List α) (i : ℕ) (a : α) : Option (List α) :=
  if i < buf.length then some (buf.set i a) else none

/-- Write the value of a key, if it has one, to its place. -/
def paintOne (place : κ → ℕ) (value : κ → Option α) (buf : List α) (k : κ) : Option (List α) :=
  match value k with
  | some a => writeAt buf (place k) a
  | none => some buf

def paint (place : κ → ℕ) (value : κ → Option α) (ks : List κ) (buf : List α) :
    Option (List α) :=
  ks.foldlM (paintOne place value) buf

/-- Write what `source` has at one index of each key to another. -/
def copy (index place : κ → ℕ) (source : List α) (ks : List κ) (buf : List α) :
    Option (List α) :=
  ks.foldlM (fun buf k => source[index k]?.bind (writeAt buf (place k))) buf

/-- What painting does to a buffer. -/
structure Painted (place : κ → ℕ) (value : κ → Option α) (ks : List κ) (buf after : List α) :
    Prop where
  length : after.length = buf.length
  inside : ∀ k ∈ ks, after[place k]? = (value k).or buf[place k]?
  outside : ∀ i, (∀ k ∈ ks, place k ≠ i) → after[i]? = buf[i]?

/-- The places of the keys are different indices of the buffer. -/
structure Places (place : κ → ℕ) (ks : List κ) (length : ℕ) : Prop where
  bound : ∀ k ∈ ks, place k < length
  injective : ∀ k ∈ ks, ∀ k' ∈ ks, place k = place k' → k = k'

theorem Places.tail {place : κ → ℕ} {k : κ} {ks : List κ} {length : ℕ}
    (h : Places place (k :: ks) length) : Places place ks length where
  bound k' hk' := h.bound k' (List.mem_cons_of_mem _ hk')
  injective k' hk' k'' hk'' :=
    h.injective k' (List.mem_cons_of_mem _ hk') k'' (List.mem_cons_of_mem _ hk'')

theorem paintOne_eq_some {place : κ → ℕ} (value : κ → Option α) {k : κ} {buf : List α}
    (h : place k < buf.length) :
    ∃ next, paintOne place value buf k = some next ∧ Painted place value [k] buf next := by
  unfold paintOne
  cases hvalue : value k with
  | none =>
      refine ⟨buf, rfl, rfl, fun k' hk' => ?_, fun _ _ => rfl⟩
      rw [List.mem_singleton.mp hk', hvalue, Option.none_or]
  | some a =>
      refine ⟨buf.set (place k) a, if_pos h, List.length_set, fun k' hk' => ?_, fun i hi => ?_⟩
      · rw [List.mem_singleton.mp hk', hvalue, Option.some_or]
        exact List.getElem?_set_self h
      · exact List.getElem?_set_ne (hi k List.mem_cons_self)

/-- Painting one key and then the others is painting all. -/
theorem Painted.cons {place : κ → ℕ} {value : κ → Option α} {k : κ} {ks : List κ}
    {buf next after : List α} (hplaces : Places place (k :: ks) buf.length)
    (hone : Painted place value [k] buf next) (hrest : Painted place value ks next after) :
    Painted place value (k :: ks) buf after := by
  have hself := hone.inside k List.mem_cons_self
  have hfirst : after[place k]? = (value k).or buf[place k]? := by
    by_cases hk : k ∈ ks
    · rw [hrest.inside k hk, hself]
      cases value k with
      | none => rfl
      | some a => rfl
    · rw [hrest.outside (place k), hself]
      intro k' hk' heq
      exact hk (hplaces.injective k' (List.mem_cons_of_mem _ hk') k List.mem_cons_self heq ▸ hk')
  refine ⟨hrest.length.trans hone.length, fun k' hk' => ?_, fun i hi => ?_⟩
  · rcases List.mem_cons.mp hk' with rfl | hmem
    · exact hfirst
    · by_cases heq : place k' = place k
      · rw [hplaces.injective k' hk' k List.mem_cons_self heq]
        exact hfirst
      · have hkept : next[place k']? = buf[place k']? := hone.outside (place k') fun j hj => by
          rw [List.mem_singleton.mp hj]
          exact Ne.symm heq
        rw [hrest.inside k' hmem, hkept]
  · rw [hrest.outside i fun j hj => hi j (List.mem_cons_of_mem _ hj)]
    exact hone.outside i fun j hj => hi j (List.mem_singleton.mp hj ▸ List.mem_cons_self)

/-- **Painting.**  No index is out of bounds, and each place has the value of its key. -/
theorem paint_eq_some {place : κ → ℕ} (value : κ → Option α) {ks : List κ} {buf : List α}
    (h : Places place ks buf.length) :
    ∃ after, paint place value ks buf = some after ∧ Painted place value ks buf after := by
  induction ks generalizing buf with
  | nil => exact ⟨buf, rfl, rfl, fun k hk => absurd hk List.not_mem_nil, fun _ _ => rfl⟩
  | cons k ks ih =>
      obtain ⟨next, hnext, hone⟩ := paintOne_eq_some value (h.bound k List.mem_cons_self)
      have htail : Places place ks next.length := hone.length ▸ h.tail
      obtain ⟨after, hafter, hrest⟩ := ih htail
      refine ⟨after, ?_, Painted.cons h hone hrest⟩
      rw [paint, List.foldlM_cons, hnext]
      exact hafter

/-- Reading the values from another buffer, within its bounds, is painting with them. -/
theorem copy_eq_paint {index place : κ → ℕ} {source : List α} {ks : List κ}
    (h : ∀ k ∈ ks, index k < source.length) (buf : List α) :
    copy index place source ks buf = paint place (fun k => source[index k]?) ks buf := by
  refine foldlM_congr (fun buf k hk => ?_) buf
  rw [paintOne, List.getElem?_eq_getElem (h k hk)]
  rfl

/-! ### Saving and restoring -/

/-- **Saving and restoring.**  What was saved from the places of the keys, before they were painted,
puts the buffer back. -/
theorem save_paint_restore {place slot : κ → ℕ} (value : κ → Option α) {ks : List κ}
    {buf scratch : List α} (hplace : Places place ks buf.length)
    (hslot : Places slot ks scratch.length) :
    ∃ saved shown, copy place slot buf ks scratch = some saved
      ∧ paint place value ks buf = some shown ∧ Painted place value ks buf shown
      ∧ copy slot place saved ks shown = some buf := by
  obtain ⟨saved, hsaved, hsave⟩ := paint_eq_some (fun k => buf[place k]?) hslot
  obtain ⟨shown, hshown, hpaint⟩ := paint_eq_some value hplace
  have hplace' : Places place ks shown.length := hpaint.length ▸ hplace
  have hslot' : ∀ k ∈ ks, slot k < saved.length := fun k hk => hsave.length ▸ hslot.bound k hk
  obtain ⟨after, hafter, hrestore⟩ := paint_eq_some (fun k => saved[slot k]?) hplace'
  have hsame : after = buf := by
    apply List.ext_getElem?
    intro i
    by_cases hi : ∃ k ∈ ks, place k = i
    · obtain ⟨k, hk, rfl⟩ := hi
      rw [hrestore.inside k hk, hsave.inside k hk, List.getElem?_eq_getElem (hplace.bound k hk)]
      rfl
    · have houtside : ∀ k ∈ ks, place k ≠ i := fun k hk heq => hi ⟨k, hk, heq⟩
      rw [hrestore.outside i houtside, hpaint.outside i houtside]
  refine ⟨saved, shown, ?_, hshown, hpaint, ?_⟩
  · rw [copy_eq_paint hplace.bound, hsaved]
  · rw [copy_eq_paint hslot', hafter, hsame]

end WebUiBoot.Overlay
