import Mathlib.Algebra.Order.Group.Int
import Mathlib.Data.Int.Lemmas
import Mathlib.Data.Nat.Log
import Mathlib.Tactic.Ring

/-!
# Integers in a floating format

A result that is an integer is rounded to the significand of a format, to the nearest value and in a
tie to the even one.  Integers that are not too large stay what they are, and those that are too
large stay so.

* `roundNat`, `roundInt` — rounding to `p` bits;
* `roundInt_of_abs_le` — an integer of `p` bits is not changed;
* `le_roundInt`, `roundInt_le` — rounding does not pass an integer of `p` bits;
* `clamp` / `clamp_roundInt` — so within bounds of `p` bits rounding is not seen.
-/

namespace WebUiBoot.Significand

/-- `a` rounded to `p` bits; what is cut off are multiples of a power of two. -/
def roundNat (p a : ℕ) : ℕ :=
  if a < 2 ^ p then a
  else
    let unit := 2 ^ (Nat.log2 a + 1 - p)
    let q := a / unit
    let r := a % unit
    (if unit < 2 * r ∨ (2 * r = unit ∧ q % 2 = 1) then q + 1 else q) * unit

def roundInt (p : ℕ) (n : ℤ) : ℤ := n.sign * roundNat p n.natAbs

variable {p : ℕ}

/-- A number of more bits is not rounded to one of fewer. -/
theorem two_pow_le_roundNat (hp : 0 < p) {a : ℕ} (h : 2 ^ p ≤ a) : 2 ^ p ≤ roundNat p a := by
  have ha : a ≠ 0 := by
    have hpos := Nat.two_pow_pos p
    omega
  have hlog : p ≤ Nat.log2 a := (Nat.le_log2 ha).mpr h
  have hquot : 2 ^ (p - 1) ≤ a / 2 ^ (Nat.log2 a + 1 - p) := by
    have hsum : p - 1 + (Nat.log2 a + 1 - p) = Nat.log2 a := by omega
    rw [Nat.le_div_iff_mul_le (Nat.two_pow_pos (Nat.log2 a + 1 - p)), ← pow_add, hsum]
    exact Nat.log2_self_le ha
  have hunit : 2 ^ 1 ≤ 2 ^ (Nat.log2 a + 1 - p) :=
    Nat.pow_le_pow_right (by decide) (by omega)
  rw [roundNat, if_neg (by omega)]
  dsimp only
  calc 2 ^ p = 2 ^ (p - 1) * 2 ^ 1 := by
        rw [← pow_add]
        congr 1
        omega
    _ ≤ a / 2 ^ (Nat.log2 a + 1 - p) * 2 ^ (Nat.log2 a + 1 - p) := Nat.mul_le_mul hquot hunit
    _ ≤ _ := by
        refine Nat.mul_le_mul_right _ ?_
        split
        · exact Nat.le_succ _
        · exact Nat.le_refl _

theorem roundNat_two_pow (hp : 0 < p) : roundNat p (2 ^ p) = 2 ^ p := by
  have hlog : Nat.log2 (2 ^ p) + 1 - p = 1 := by
    rw [Nat.log2_two_pow]
    omega
  have hpow : 2 ^ p = 2 ^ (p - 1) * 2 := by
    rw [← pow_succ]
    congr 1
    omega
  rw [roundNat, if_neg (lt_irrefl _), hlog, pow_one]
  dsimp only
  have hmod : 2 ^ p % 2 = 0 := by omega
  rw [hmod, if_neg (by omega)]
  omega

theorem roundNat_of_le (hp : 0 < p) {a : ℕ} (h : a ≤ 2 ^ p) : roundNat p a = a := by
  by_cases hlt : a < 2 ^ p
  · rw [roundNat, if_pos hlt]
  · obtain rfl : a = 2 ^ p := by omega
    exact roundNat_two_pow hp

/-- Rounding does not pass a number of `p` bits. -/
theorem le_roundNat (hp : 0 < p) {t a : ℕ} (ht : t ≤ 2 ^ p) (h : t ≤ a) : t ≤ roundNat p a := by
  by_cases ha : a ≤ 2 ^ p
  · rw [roundNat_of_le hp ha]
    exact h
  · exact ht.trans (two_pow_le_roundNat hp (by omega))

/-! ### Integers -/

theorem roundInt_neg (n : ℤ) : roundInt p (-n) = -roundInt p n := by
  unfold roundInt
  rw [Int.sign_neg, Int.natAbs_neg, neg_mul]

theorem roundInt_natCast (a : ℕ) (ha : a ≠ 0) : roundInt p a = roundNat p a := by
  unfold roundInt
  rw [Int.sign_natCast_of_ne_zero ha, Int.natAbs_natCast, one_mul]

theorem roundInt_zero : roundInt p 0 = 0 := by
  unfold roundInt
  rw [Int.sign_zero, zero_mul]

/-- **An integer of `p` bits is not changed.** -/
theorem roundInt_of_abs_le (hp : 0 < p) {n : ℤ} (h : n.natAbs ≤ 2 ^ p) : roundInt p n = n := by
  unfold roundInt
  rw [roundNat_of_le hp h]
  exact Int.sign_mul_natAbs n

/-- **Rounding does not pass an integer of `p` bits**, upwards, -/
theorem le_roundInt (hp : 0 < p) {t : ℕ} {n : ℤ} (ht : t ≤ 2 ^ p) (h : (t : ℤ) ≤ n) :
    (t : ℤ) ≤ roundInt p n := by
  obtain ⟨a, rfl⟩ := Int.eq_ofNat_of_zero_le (by omega : 0 ≤ n)
  by_cases ha : a = 0
  · subst ha
    rw [Int.ofNat_zero, roundInt_zero]
    exact h
  · rw [roundInt_natCast a ha]
    exact_mod_cast le_roundNat hp ht (by exact_mod_cast h)

/-- and downwards. -/
theorem roundInt_le (hp : 0 < p) {t : ℕ} {n : ℤ} (ht : t ≤ 2 ^ p) (h : n ≤ -(t : ℤ)) :
    roundInt p n ≤ -(t : ℤ) := by
  have hneg := le_roundInt hp ht (by omega : (t : ℤ) ≤ -n)
  rw [roundInt_neg] at hneg
  omega

/-! ### Within bounds -/

/-- `x` moved into the bounds. -/
def clamp (x low high : ℤ) : ℤ := if x < low then low else if x > high then high else x

theorem clamp_mem {x low high : ℤ} (h : low ≤ high) :
    low ≤ clamp x low high ∧ clamp x low high ≤ high := by
  unfold clamp
  split
  · omega
  · split <;> omega

/-- **Within bounds of `p` bits rounding is not seen.** -/
theorem clamp_roundInt (hp : 0 < p) {n : ℤ} {high : ℕ} (hhigh : high ≤ 2 ^ p) :
    clamp (roundInt p n) 0 high = clamp n 0 high := by
  by_cases hexact : n.natAbs ≤ 2 ^ p
  · rw [roundInt_of_abs_le hp hexact]
  · by_cases hn : 0 ≤ n
    · have hlarge : ((2 ^ p : ℕ) : ℤ) ≤ n := by omega
      have hround := le_roundInt hp (Nat.le_refl (2 ^ p)) hlarge
      unfold clamp
      split <;> split <;> omega
    · have hsmall : n ≤ -((2 ^ p : ℕ) : ℤ) := by omega
      have hround := roundInt_le hp (Nat.le_refl (2 ^ p)) hsmall
      have hpos := Nat.two_pow_pos p
      unfold clamp
      rw [if_pos (by omega), if_pos (by omega)]

end WebUiBoot.Significand
