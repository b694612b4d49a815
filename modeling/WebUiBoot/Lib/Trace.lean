import Mathlib.Data.List.Basic

/-!
# Machines that emit a trace, and past-time properties of traces

A component that is driven from outside is a machine: a step consumes one input, changes the
state and emits some observations.  What is said about such a component is said about the
trace of a whole run, so this file collects the rules for runs:

* `Machine.run` / `Machine.run_append` — a run over a list of inputs, and its composition;
* `Machine.run_invariant` / `run_preserves` — a relation between trace and state that every step
  preserves holds after every run;
* `Machine.Along` / `Machine.run_invariant_along` — the same for runs each of whose steps
  meets a condition;
* `Machine.run_iff_along` — a property that a step keeps exactly when the step meets a condition
  is kept exactly by the runs that keep to the condition;
* `Machine.safe_iff_along` — a state property holds at every point of a run exactly when the run
  keeps to the condition under which one step preserves it;
* `Machine.run_refines` — a machine that behaves, step by step, like another one seen through an
  abstraction does so over whole runs;
* `Since P Q` — *an observation with `P` has occurred and none with `Q` after it*, and
  `Always R` — *every observation stands in `R` to what came before it*, with the unfolding
  lemmas at the end of the trace;
* `Before P Q` — *an observation with `P` occurs and none with `Q` in front of it*.

Nothing here depends on what the states, inputs and observations are.
-/

namespace WebUiBoot.Trace

variable {σ ι ο : Type*}

/-- A deterministic machine: a step takes an input, moves the state and emits observations. -/
structure Machine (σ ι ο : Type*) where
  step : σ → ι → σ × List ο

namespace Machine

/-- Run a machine over a list of inputs, collecting what it emits. -/
def run (m : Machine σ ι ο) (s : σ) : List ι → σ × List ο
  | [] => (s, [])
  | i :: is =>
      let head := m.step s i
      let rest := run m head.1 is
      (rest.1, head.2 ++ rest.2)

@[simp] theorem run_nil (m : Machine σ ι ο) (s : σ) : m.run s [] = (s, []) := rfl

theorem run_cons (m : Machine σ ι ο) (s : σ) (i : ι) (is : List ι) :
    m.run s (i :: is)
      = ((m.run (m.step s i).1 is).1, (m.step s i).2 ++ (m.run (m.step s i).1 is).2) := rfl

theorem run_append (m : Machine σ ι ο) (s : σ) (is js : List ι) :
    m.run s (is ++ js)
      = ((m.run (m.run s is).1 js).1, (m.run s is).2 ++ (m.run (m.run s is).1 js).2) := by
  induction is generalizing s with
  | nil => rfl
  | cons i is ih => simp only [List.cons_append, run_cons, ih, List.append_assoc]

theorem run_singleton (m : Machine σ ι ο) (s : σ) (i : ι) : m.run s [i] = m.step s i := by
  simp only [run_cons, run_nil, List.append_nil]

/-- Every step of the run from `s` over the inputs meets `P`. -/
def Along (m : Machine σ ι ο) (P : σ → ι → Prop) (s : σ) : List ι → Prop
  | [] => True
  | i :: is => P s i ∧ Along m P (m.step s i).1 is

/-- **The invariant rule, for runs that keep to a condition.**  What holds of trace and state
at the start and is preserved by every step that meets `P` holds after the run. -/
theorem run_invariant_along (m : Machine σ ι ο) {P : σ → ι → Prop} {I : List ο → σ → Prop}
    (hstep : ∀ tr s i, I tr s → P s i → I (tr ++ (m.step s i).2) (m.step s i).1) :
    ∀ {is : List ι} {tr : List ο} {s : σ}, I tr s → m.Along P s is →
      I (tr ++ (m.run s is).2) (m.run s is).1 := by
  intro is
  induction is with
  | nil =>
      intro tr s hI _
      simpa using hI
  | cons i is ih =>
      intro tr s hI hP
      rw [run_cons, ← List.append_assoc]
      exact ih (hstep tr s i hI hP.1) hP.2

theorem along_of_forall (m : Machine σ ι ο) {P : σ → ι → Prop} {is : List ι}
    (h : ∀ i ∈ is, ∀ s, P s i) : ∀ s, m.Along P s is := by
  induction is with
  | nil => exact fun _ => trivial
  | cons i is ih =>
      intro s
      exact ⟨h i List.mem_cons_self s, ih (fun j hj => h j (List.mem_cons_of_mem _ hj)) _⟩

theorem along_congr (m : Machine σ ι ο) {P Q : σ → ι → Prop} (h : ∀ s i, P s i ↔ Q s i)
    (is : List ι) : ∀ s, m.Along P s is ↔ m.Along Q s is := by
  induction is with
  | nil => exact fun _ => Iff.rfl
  | cons i is ih => exact fun s => and_congr (h s i) (ih _)

/-- **The invariant rule.**  A relation between trace and state that every step preserves holds
after every run that starts in it. -/
theorem run_invariant (m : Machine σ ι ο) {I : List ο → σ → Prop}
    (hstep : ∀ tr s i, I tr s → I (tr ++ (m.step s i).2) (m.step s i).1)
    {tr : List ο} {s : σ} (hI : I tr s) (is : List ι) :
    I (tr ++ (m.run s is).2) (m.run s is).1 :=
  m.run_invariant_along (P := fun _ _ => True) (fun tr s i h _ => hstep tr s i h) hI
    (m.along_of_forall (fun _ _ _ => trivial) s)

/-- The invariant rule for what is said of the state alone. -/
theorem run_preserves (m : Machine σ ι ο) {I : σ → Prop} (hstep : ∀ s i, I s → I (m.step s i).1)
    (is : List ι) : ∀ {s : σ}, I s → I (m.run s is).1 := by
  induction is with
  | nil => exact fun hI => hI
  | cons i is ih => exact fun hI => ih (hstep _ i hI)

/-- **The exact rule.**  If a step leads to `Q` exactly when it starts in `Q` and meets `P`, then a
run does so exactly when it starts in `Q` and keeps to `P`. -/
theorem run_iff_along (m : Machine σ ι ο) {I Q : σ → Prop} {P : σ → ι → Prop}
    (hinv : ∀ s i, I s → I (m.step s i).1)
    (hstep : ∀ s i, I s → (Q (m.step s i).1 ↔ Q s ∧ P s i)) (is : List ι) :
    ∀ s, I s → (Q (m.run s is).1 ↔ Q s ∧ m.Along P s is) := by
  induction is with
  | nil => exact fun s _ => (and_iff_left trivial).symm
  | cons i is ih =>
      intro s hI
      show Q (m.run (m.step s i).1 is).1 ↔ Q s ∧ P s i ∧ m.Along P (m.step s i).1 is
      rw [ih _ (hinv s i hI), hstep s i hI, and_assoc]

/-- **The safety rule.**  Where the states that a step with `P` leads to are safe, and those that
a step without `P` leads to are not, a run passes through safe states only exactly when it keeps
to `P`. -/
theorem safe_iff_along (m : Machine σ ι ο) {I Q : σ → Prop} {P : σ → ι → Prop}
    (hsafe : ∀ s, I s → Q s) (hinv : ∀ s i, I s → P s i → I (m.step s i).1)
    (hstep : ∀ s i, I s → Q (m.step s i).1 → P s i) (is : List ι) :
    ∀ s, I s → ((∀ js, js <+: is → Q (m.run s js).1) ↔ m.Along P s is) := by
  induction is with
  | nil =>
      intro s hI
      refine ⟨fun _ => trivial, fun _ js hjs => ?_⟩
      rw [List.prefix_nil.mp hjs]
      exact hsafe s hI
  | cons i is ih =>
      intro s hI
      constructor
      · intro hall
        have hP : P s i := hstep s i hI (hall [i] (List.prefix_iff_eq_take.mpr rfl))
        refine ⟨hP, (ih _ (hinv s i hI hP)).mp fun js hjs => ?_⟩
        exact hall (i :: js) (List.prefix_cons_inj i |>.mpr hjs)
      · rintro ⟨hP, halong⟩ js hjs
        cases js with
        | nil => exact hsafe s hI
        | cons j js =>
            obtain ⟨rfl, hrest⟩ := List.cons_prefix_cons.mp hjs
            exact (ih _ (hinv s j hI hP)).mpr halong js hrest

/-- **The refinement rule.**  If every step from an admissible state is a step of the abstract
machine, with the same observations, and leads to an admissible state, then so is every run. -/
theorem run_refines {τ : Type*} (m : Machine σ ι ο) (m' : Machine τ ι ο) {I : σ → Prop}
    {Q : ι → Prop} {f : σ → τ} (hinv : ∀ s i, I s → Q i → I (m.step s i).1)
    (hstep : ∀ s i, I s → Q i → m'.step (f s) i = (f (m.step s i).1, (m.step s i).2))
    {is : List ι} (hQ : ∀ i ∈ is, Q i) :
    ∀ s, I s → m'.run (f s) is = (f (m.run s is).1, (m.run s is).2) := by
  induction is with
  | nil => exact fun _ _ => rfl
  | cons i is ih =>
      intro s hI
      have hi := hQ i List.mem_cons_self
      have hrest := ih (fun j hj => hQ j (List.mem_cons_of_mem _ hj)) _ (hinv s i hI hi)
      rw [run_cons, run_cons, hstep s i hI hi, hrest]

end Machine

/-! ### Past-time and future-time properties -/

/-- Some observation of the trace has `P`, and no later one has `Q`. -/
def Since (P Q : ο → Prop) (tr : List ο) : Prop :=
  ∃ a o b, tr = a ++ o :: b ∧ P o ∧ ∀ o' ∈ b, ¬ Q o'

variable {P Q : ο → Prop} {tr tr' : List ο} {o : ο}

@[simp] theorem not_since_nil : ¬ Since P Q ([] : List ο) := by
  rintro ⟨a, o, b, h, _⟩
  simp at h

theorem since_append :
    Since P Q (tr ++ tr') ↔ Since P Q tr' ∨ (Since P Q tr ∧ ∀ o ∈ tr', ¬ Q o) := by
  constructor
  · rintro ⟨a, o, b, h, hP, hQ⟩
    rcases List.append_eq_append_iff.mp h with ⟨c, rfl, hc⟩ | ⟨c, rfl, hc⟩
    · exact Or.inl ⟨c, o, b, hc, hP, hQ⟩
    · cases c with
      | nil => exact Or.inl ⟨[], o, b, by simpa using hc.symm, hP, hQ⟩
      | cons o₁ c =>
          obtain ⟨rfl, rfl⟩ : o = o₁ ∧ b = c ++ tr' := by simpa using hc
          exact Or.inr ⟨⟨a, o, c, rfl, hP, fun o' h' => hQ o' (List.mem_append_left _ h')⟩,
            fun o' h' => hQ o' (List.mem_append_right _ h')⟩
  · rintro (⟨a, o, b, rfl, hP, hQ⟩ | ⟨⟨a, o, b, rfl, hP, hQ⟩, hQ'⟩)
    · exact ⟨tr ++ a, o, b, by simp, hP, hQ⟩
    · refine ⟨a, o, b ++ tr', by simp, hP, ?_⟩
      intro o' ho'
      rcases List.mem_append.mp ho' with h | h
      · exact hQ o' h
      · exact hQ' o' h

theorem since_append_singleton :
    Since P Q (tr ++ [o]) ↔ P o ∨ (Since P Q tr ∧ ¬ Q o) := by
  rw [since_append]
  have hone : Since P Q [o] ↔ P o := by
    constructor
    · rintro ⟨a, o', b, h, hP, _⟩
      cases a with
      | nil => simp only [List.nil_append, List.cons.injEq] at h; exact h.1 ▸ hP
      | cons _ a => simp at h
    · intro hP
      exact ⟨[], o, [], rfl, hP, by simp⟩
  simp [hone]

/-- A trace is split in one way at the last occurrence of an observation. -/
theorem append_cons_inj_last {a a' b b' : List ο} {o : ο} (hb : o ∉ b) (hb' : o ∉ b')
    (h : a ++ o :: b = a' ++ o :: b') : a = a' ∧ b = b' := by
  rcases List.append_eq_append_iff.mp h with ⟨c, rfl, hc⟩ | ⟨c, rfl, hc⟩
  · cases c with
    | nil =>
        rw [List.nil_append, List.cons.injEq] at hc
        exact ⟨(List.append_nil a).symm, hc.2⟩
    | cons o' c =>
        rw [List.cons_append, List.cons.injEq] at hc
        rw [hc.2] at hb
        exact absurd (List.mem_append_right c List.mem_cons_self) hb
  · cases c with
    | nil =>
        rw [List.nil_append, List.cons.injEq] at hc
        exact ⟨List.append_nil a', hc.2.symm⟩
    | cons o' c =>
        rw [List.cons_append, List.cons.injEq] at hc
        rw [hc.2] at hb'
        exact absurd (List.mem_append_right c List.mem_cons_self) hb'

/-- Every observation of the trace stands in the relation `R` to its past. -/
def Always (R : List ο → ο → Prop) (tr : List ο) : Prop :=
  ∀ a o b, tr = a ++ o :: b → R a o

variable {R : List ο → ο → Prop}

@[simp] theorem always_nil : Always R ([] : List ο) := by
  intro a o b h
  simp at h

theorem always_append_singleton : Always R (tr ++ [o]) ↔ Always R tr ∧ R tr o := by
  constructor
  · intro h
    exact ⟨fun a o' b heq => h a o' (b ++ [o]) (by simp [heq]), h tr o [] rfl⟩
  · rintro ⟨h, hlast⟩ a o' b heq
    rcases List.eq_nil_or_concat b with rfl | ⟨b, o'', rfl⟩
    · have hprefix := List.append_inj_left' heq rfl
      have hsame := List.append_inj_right' heq rfl
      rw [List.cons.injEq] at hsame
      exact hprefix ▸ hsame.1 ▸ hlast
    · rw [List.concat_eq_append, ← List.cons_append, ← List.append_assoc] at heq
      exact h a o' b (List.append_inj_left' heq rfl)

/-- Some observation of the trace has `P`, and no earlier one has `Q`. -/
def Before (P Q : ο → Prop) (tr : List ο) : Prop :=
  ∃ a o b, tr = a ++ o :: b ∧ P o ∧ ∀ o' ∈ a, ¬ Q o'

theorem before_cons : Before P Q (o :: tr) ↔ P o ∨ (¬ Q o ∧ Before P Q tr) := by
  constructor
  · rintro ⟨a, o', b, heq, hP, hQ⟩
    cases a with
    | nil =>
        rw [List.nil_append, List.cons.injEq] at heq
        exact Or.inl (heq.1 ▸ hP)
    | cons o'' a =>
        rw [List.cons_append, List.cons.injEq] at heq
        right
        refine ⟨heq.1 ▸ hQ o'' List.mem_cons_self, a, o', b, heq.2, hP, ?_⟩
        exact fun o' ho' => hQ o' (List.mem_cons_of_mem _ ho')
  · rintro (hP | ⟨hQ, a, o', b, rfl, hP, hQs⟩)
    · exact ⟨[], o, tr, rfl, hP, fun _ h => absurd h List.not_mem_nil⟩
    · refine ⟨o :: a, o', b, rfl, hP, fun o'' ho'' => ?_⟩
      cases ho'' with
      | head => exact hQ
      | tail _ ho'' => exact hQs o'' ho''

theorem Before.append (h : Before P Q tr) (tr' : List ο) : Before P Q (tr ++ tr') := by
  obtain ⟨a, o, b, rfl, hP, hQ⟩ := h
  exact ⟨a, o, b ++ tr', by rw [List.append_assoc, List.cons_append], hP, hQ⟩

end WebUiBoot.Trace
