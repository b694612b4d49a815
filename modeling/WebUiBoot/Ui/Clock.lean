import Mathlib.Data.UInt

/-!
# The millisecond clock

`get_ms_since_start` of `src/slint_plat.rs` in the arithmetic of `u64`, which wraps around, and what
`run_network` of `src/main.rs` derives from it.

* `getMsSinceStart` — the clock at a tick;
* `elapsedSince`, `timestamp` — the time since a boot was requested, and the instant that is given
  to the network interface;
* `toNat_getMsSinceStart`, `toInt_timestamp` — both by exact numbers;
* `clock_exact_iff` — when the clock is exact and neither goes backwards;
* `clock_goes_backwards` — a clock that does, after ten weeks.
-/

namespace WebUiBoot.Ui

/-! ### Model -/

/-- `GLOBAL_TIMER_START` and `GLOBAL_TIMER_FREQ`. -/
structure GlobalTimer where
  start : UInt64
  freq : UInt64

/-- `timer_freq`, by the ticks in front of and behind the stall of a millisecond. -/
def timerFreq (start last : UInt64) : UInt64 := (last - start) * 1000

def getMsSinceStart (timer : GlobalTimer) (tick : UInt64) : UInt64 :=
  if timer.freq = 0 then 0
  else
    let elapsed := tick - timer.start
    elapsed * 1000 / timer.freq

/-- `ms.saturating_sub(start)`. -/
def elapsedSince (start ms : UInt64) : UInt64 := if start ≤ ms then ms - start else 0

/-- `ms_elapsed` of the network state, which is never written. -/
def msElapsed : UInt64 := 0

/-- `Instant::from_millis(net.ms_elapsed as i64 + ms as i64)`.  An instant is its microseconds. -/
def timestamp (fromMillis : Int64 → Int64) (ms : UInt64) : Int64 :=
  fromMillis (msElapsed.toInt64 + ms.toInt64)

/-! ### By natural numbers -/

theorem toNat_getMsSinceStart {timer : GlobalTimer} (hfreq : timer.freq ≠ 0) {tick : UInt64}
    (h : timer.start ≤ tick) :
    (getMsSinceStart timer tick).toNat
      = (tick.toNat - timer.start.toNat) * 1000 % 2 ^ 64 / timer.freq.toNat := by
  rw [getMsSinceStart, if_neg hfreq]
  show ((tick - timer.start) * 1000 / timer.freq).toNat = _
  rw [UInt64.toNat_div, UInt64.toNat_mul, UInt64.toNat_sub_of_le _ _ h]
  rfl

theorem elapsedSince_mono {ms ms' : UInt64} (h : ms ≤ ms') (start : UInt64) :
    elapsedSince start ms ≤ elapsedSince start ms' := by
  unfold elapsedSince
  by_cases hstart : start ≤ ms
  · have hstart' : start ≤ ms' := UInt64.le_trans hstart h
    have hle : ms.toNat ≤ ms'.toNat := h
    rw [if_pos hstart, if_pos hstart', UInt64.le_iff_toNat_le, UInt64.toNat_sub_of_le _ _ hstart,
      UInt64.toNat_sub_of_le _ _ hstart']
    omega
  · rw [if_neg hstart]
    exact UInt64.zero_le

/-! ### Instants -/

/-- The microseconds of the true quotient. -/
def microsSince (timer : GlobalTimer) (tick : UInt64) : ℕ :=
  (tick.toNat - timer.start.toNat) * 1000 / timer.freq.toNat * 1000

/-- How often that many microseconds leave the range of `i64`. -/
def laps (micros : ℕ) : ℕ := (micros + 2 ^ 63) / 2 ^ 64

theorem bmod_eq_sub_laps (micros : ℕ) :
    Int.bmod (micros : ℤ) (2 ^ 64) = micros - 2 ^ 64 * laps micros := by
  have hlaps : (laps micros : ℤ) = (micros + 2 ^ 63) / 2 ^ 64 := by
    rw [laps]
    push_cast
    rfl
  rw [Int.bmod_def, hlaps]
  split <;> omega

section
variable {fromMillis : Int64 → Int64} (hmillis : ∀ millis, fromMillis millis = millis * 1000)
include hmillis

/-- The instant is exact up to whole laps. -/
theorem toInt_timestamp (ms : UInt64) :
    (timestamp fromMillis ms).toInt
      = ((ms.toNat * 1000 : ℕ) : ℤ) - 2 ^ 64 * laps (ms.toNat * 1000) := by
  have hzero : msElapsed.toInt64 + ms.toInt64 = ms.toInt64 := Int64.zero_add _
  have hms : ms.toInt64.toInt = Int.bmod ms.toNat (2 ^ 64) := BitVec.toInt_eq_toNat_bmod _
  have hthousand : (1000 : Int64).toInt = 1000 := rfl
  rw [timestamp, hzero, hmillis, Int64.toInt_mul, hms, hthousand, Int.bmod_mul_bmod,
    ← bmod_eq_sub_laps, Nat.cast_mul, Nat.cast_ofNat]

theorem timestamp_le_iff (ms ms' : UInt64) :
    timestamp fromMillis ms ≤ timestamp fromMillis ms'
      ↔ ms.toNat * 1000 + 2 ^ 64 * laps (ms'.toNat * 1000)
        ≤ ms'.toNat * 1000 + 2 ^ 64 * laps (ms.toNat * 1000) := by
  rw [Int64.le_iff_toInt_le, toInt_timestamp hmillis, toInt_timestamp hmillis]
  omega

end

/-- From 2 kHz on no instant leaves the range, as long as the product does not wrap around. -/
theorem laps_of_fast {timer : GlobalTimer} (hfast : 2000 ≤ timer.freq.toNat) {tick : UInt64}
    (hwrap : (tick.toNat - timer.start.toNat) * 1000 < 2 ^ 64) :
    laps (microsSince timer tick) = 0 := by
  have hdiv : (tick.toNat - timer.start.toNat) * 1000 / timer.freq.toNat
      ≤ (tick.toNat - timer.start.toNat) * 1000 / 2000 := Nat.div_le_div_left hfast (by omega)
  rw [laps, microsSince]
  omega

/-- A counter that ticks twice in the millisecond of the stall has such a frequency. -/
theorem timerFreq_ge {start last : UInt64} (h : start ≤ last)
    (hticks : 2 ≤ last.toNat - start.toNat) (hfits : (last.toNat - start.toNat) * 1000 < 2 ^ 64) :
    2000 ≤ (timerFreq start last).toNat := by
  have hthousand : (1000 : UInt64).toNat = 1000 := rfl
  rw [timerFreq, UInt64.toNat_mul, UInt64.toNat_sub_of_le _ _ h, hthousand,
    Nat.mod_eq_of_lt hfits]
  omega

/-! ### Exactness -/

/-- A number that wraps around has another quotient, for a divisor that does not. -/
theorem lt_of_mod_div_eq {n f : ℕ} (hpos : 0 < f) (hf : f < 2 ^ 64)
    (h : n % 2 ^ 64 / f = n / f) : n < 2 ^ 64 := by
  by_contra hge
  have hwrap : n % 2 ^ 64 + f ≤ n := by
    omega
  have hless : n % 2 ^ 64 / f + 1 ≤ n / f := by
    rw [← Nat.add_div_right _ hpos]
    exact Nat.div_le_div_right hwrap
  omega

/-- **When the clock is exact.**  For every start, every frequency other than 0, and all ticks `s`
and `t` one behind the other: the clock at `t` has the true quotient, it is not behind the one at
`s`, and nothing that is derived from it goes backwards, exactly when the product does not wrap
around, and the instants leave the range of `i64` in between no more often than 2 ^ 64 microseconds
pass.  `fromMillis` is `Instant::from_millis`, which multiplies in `i64`. -/
theorem clock_exact_iff (fromMillis : Int64 → Int64)
    (hmillis : ∀ millis, fromMillis millis = millis * 1000) (timer : GlobalTimer)
    (hfreq : timer.freq ≠ 0) (s t : UInt64) (hs : timer.start ≤ s) (hst : s ≤ t) :
    ((getMsSinceStart timer t).toNat
          = (t.toNat - timer.start.toNat) * 1000 / timer.freq.toNat
        ∧ getMsSinceStart timer s ≤ getMsSinceStart timer t
        ∧ (∀ start, elapsedSince start (getMsSinceStart timer s)
            ≤ elapsedSince start (getMsSinceStart timer t))
        ∧ timestamp fromMillis (getMsSinceStart timer s)
          ≤ timestamp fromMillis (getMsSinceStart timer t))
      ↔ (t.toNat - timer.start.toNat) * 1000 < 2 ^ 64
        ∧ microsSince timer s + 2 ^ 64 * laps (microsSince timer t)
          ≤ microsSince timer t + 2 ^ 64 * laps (microsSince timer s) := by
  have hsNat := toNat_getMsSinceStart hfreq hs
  have htNat := toNat_getMsSinceStart hfreq (UInt64.le_trans hs hst)
  have hpos : 0 < timer.freq.toNat :=
    Nat.pos_of_ne_zero fun hzero => hfreq (UInt64.toNat_inj.mp hzero)
  have hle : (s.toNat - timer.start.toNat) * 1000 ≤ (t.toNat - timer.start.toNat) * 1000 := by
    have hst : s.toNat ≤ t.toNat := hst
    omega
  -- without a wrap the instants are those of the true quotients
  have hinstants (hwrap : (t.toNat - timer.start.toNat) * 1000 < 2 ^ 64) :
      timestamp fromMillis (getMsSinceStart timer s)
          ≤ timestamp fromMillis (getMsSinceStart timer t)
        ↔ microsSince timer s + 2 ^ 64 * laps (microsSince timer t)
          ≤ microsSince timer t + 2 ^ 64 * laps (microsSince timer s) := by
    rw [timestamp_le_iff hmillis, hsNat, htNat, Nat.mod_eq_of_lt hwrap,
      Nat.mod_eq_of_lt (lt_of_le_of_lt hle hwrap)]
    rfl
  constructor
  · intro ⟨hexact, _, _, htime⟩
    have hwrap := lt_of_mod_div_eq hpos timer.freq.toNat_lt (htNat.symm.trans hexact)
    exact ⟨hwrap, (hinstants hwrap).mp htime⟩
  · intro ⟨hwrap, hlaps⟩
    rw [Nat.mod_eq_of_lt hwrap] at htNat
    rw [Nat.mod_eq_of_lt (lt_of_le_of_lt hle hwrap)] at hsNat
    have hmono : getMsSinceStart timer s ≤ getMsSinceStart timer t := by
      rw [UInt64.le_iff_toNat_le, hsNat, htNat]
      exact Nat.div_le_div_right hle
    exact ⟨htNat, hmono, elapsedSince_mono hmono, (hinstants hwrap).mpr hlaps⟩

/-- A clock of 3 GHz, in its first second. -/
theorem first_second_is_exact :
    ((getMsSinceStart ⟨5, 3000000000⟩ 3000000005).toNat
          = ((3000000005 : UInt64).toNat - (5 : UInt64).toNat) * 1000 / (3000000000 : UInt64).toNat
        ∧ getMsSinceStart ⟨5, 3000000000⟩ 5 ≤ getMsSinceStart ⟨5, 3000000000⟩ 3000000005
        ∧ (∀ start, elapsedSince start (getMsSinceStart ⟨5, 3000000000⟩ 5)
            ≤ elapsedSince start (getMsSinceStart ⟨5, 3000000000⟩ 3000000005))
        ∧ timestamp (· * 1000) (getMsSinceStart ⟨5, 3000000000⟩ 5)
          ≤ timestamp (· * 1000) (getMsSinceStart ⟨5, 3000000000⟩ 3000000005)) :=
  (clock_exact_iff (· * 1000) (fun _ => rfl) ⟨5, 3000000000⟩ (by decide) 5 3000000005 (by decide)
    (by decide)).mpr ⟨by decide, by
      rw [laps_of_fast (by decide) (by decide), laps_of_fast (by decide) (by decide)]
      decide⟩

/-- **The product wraps around.**  At 3 GHz that is after 71 days: the clock goes back to 0, and
the instant with it. -/
theorem clock_goes_backwards :
    getMsSinceStart ⟨0, 3000000000⟩ 18446744073709551 = 6148914691
      ∧ getMsSinceStart ⟨0, 3000000000⟩ 18446744073709552 = 0
      ∧ (getMsSinceStart ⟨0, 3000000000⟩ 18446744073709552).toNat
        ≠ (18446744073709552 - 0) * 1000 / 3000000000
      ∧ ¬ getMsSinceStart ⟨0, 3000000000⟩ 18446744073709551
        ≤ getMsSinceStart ⟨0, 3000000000⟩ 18446744073709552
      ∧ ¬ timestamp (· * 1000) (getMsSinceStart ⟨0, 3000000000⟩ 18446744073709551)
        ≤ timestamp (· * 1000) (getMsSinceStart ⟨0, 3000000000⟩ 18446744073709552) := by
  refine ⟨by decide, by decide, by decide, by decide, by decide⟩

-- at 1 kHz the product does not wrap around there, and the instant is negative
example : timestamp (· * 1000) (getMsSinceStart ⟨0, 1000⟩ 9223372036854776) < 0 := by decide

end WebUiBoot.Ui
