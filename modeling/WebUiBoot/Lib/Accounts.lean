import WebUiBoot.Lib.Trace

/-!
# Accounts of what goes in and out

A component keeps lists under keys.  Some of its observations put elements behind a list, others
take elements from its front.

* `Ledger` — what is kept, put and taken, under each key;
* `Balanced` — what was taken, and what is left, is what was there and what was put, in this order;
* `run_balanced` — steps that balance make runs that balance.
-/

namespace WebUiBoot.Accounts

open WebUiBoot.Trace

variable {σ ι ο κ α : Type*}

/-- The lists of a state, and what an observation puts behind them and takes from their fronts. -/
structure Ledger (σ ο κ α : Type*) where
  kept : σ → κ → List α
  put : ο → κ → List α
  taken : ο → κ → List α

/-- What the observations of a trace put under a key. -/
def Ledger.puts (l : Ledger σ ο κ α) (tr : List ο) (k : κ) : List α := tr.flatMap (l.put · k)

def Ledger.takes (l : Ledger σ ο κ α) (tr : List ο) (k : κ) : List α := tr.flatMap (l.taken · k)

/-- A trace accounts for a change of the state. -/
def Balanced (l : Ledger σ ο κ α) (k : κ) (s : σ) (tr : List ο) (s' : σ) : Prop :=
  l.takes tr k ++ l.kept s' k = l.kept s k ++ l.puts tr k

variable {l : Ledger σ ο κ α} {k : κ} {s s' s'' : σ} {tr tr' : List ο}

theorem balanced_nil (h : l.kept s' k = l.kept s k) : Balanced l k s [] s' := by
  show [] ++ l.kept s' k = l.kept s k ++ []
  rw [List.nil_append, List.append_nil, h]

theorem Balanced.append (h : Balanced l k s tr s') (h' : Balanced l k s' tr' s'') :
    Balanced l k s (tr ++ tr') s'' := by
  have hleft : l.takes tr k ++ l.kept s' k = l.kept s k ++ l.puts tr k := h
  have hright : l.takes tr' k ++ l.kept s'' k = l.kept s' k ++ l.puts tr' k := h'
  show (tr ++ tr').flatMap (l.taken · k) ++ _ = _ ++ (tr ++ tr').flatMap (l.put · k)
  rw [List.flatMap_append, List.flatMap_append, List.append_assoc, ← List.append_assoc (l.kept s k)]
  calc l.takes tr k ++ (l.takes tr' k ++ l.kept s'' k)
      = l.takes tr k ++ l.kept s' k ++ l.puts tr' k := by rw [hright, List.append_assoc]
    _ = l.kept s k ++ l.puts tr k ++ l.puts tr' k := by rw [hleft]

/-- **Runs balance.**  A machine each of whose steps balances, from a state in which `I` holds, does
so over whole runs. -/
theorem run_balanced (m : Machine σ ι ο) {I : σ → Prop} (hinv : ∀ s i, I s → I (m.step s i).1)
    (hstep : ∀ s i, I s → Balanced l k s (m.step s i).2 (m.step s i).1) (is : List ι) (h : I s) :
    I (m.run s is).1 ∧ Balanced l k s (m.run s is).2 (m.run s is).1 := by
  have hrun := m.run_invariant (I := fun tr s' => I s' ∧ Balanced l k s tr s')
    (fun tr s' i hI => ⟨hinv s' i hI.1, hI.2.append (hstep s' i hI.1)⟩)
    (show I s ∧ Balanced l k s [] s from ⟨h, balanced_nil rfl⟩) is
  exact hrun

end WebUiBoot.Accounts
