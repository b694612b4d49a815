import Mathlib.Algebra.Order.Ring.Rat
import Mathlib.Data.Rat.Cast.Order
import WebUiBoot.Lib.Rounding

/-!
# Blending colours

`SlintBltPixel::blend` of `src/slint_plat.rs`: a colour over a pixel, in the arithmetic of `u8` and
`u16`.

* `PremultipliedRgbaColor` — a colour whose channels are at most its alpha;
* `blend` — the code, in which an overflow is an error;
* `blendChannel_eq_some` — a channel: there is no overflow, and the result is rounded down;
* `blend_all` — colours one after the other, with the error that they add up to.
-/

namespace WebUiBoot.Ui

open WebUiBoot.Rounding

/-! ### Model -/

structure BltPixel where
  red : UInt8
  green : UInt8
  blue : UInt8
  deriving DecidableEq

/-- Slint's colours with the alpha multiplied into the channels. -/
structure PremultipliedRgbaColor where
  red : UInt8
  green : UInt8
  blue : UInt8
  alpha : UInt8
  red_le : red ≤ alpha
  green_le : green ≤ alpha
  blue_le : blue ≤ alpha

/-- `u8::checked_add`. -/
def checkedAdd (x y : UInt8) : Option UInt8 :=
  if x.toNat + y.toNat < 2 ^ 8 then some (x + y) else none

/-- `u16::checked_mul`. -/
def checkedMul (x y : UInt16) : Option UInt16 :=
  if x.toNat * y.toNat < 2 ^ 16 then some (x * y) else none

/-- `(dst as u16 * a / 255) as u8 + src`. -/
def blendChannel (dst : UInt8) (a : UInt16) (src : UInt8) : Option UInt8 :=
  (checkedMul dst.toUInt16 a).bind fun product => checkedAdd (product / 255).toUInt8 src

def blend (pixel : BltPixel) (color : PremultipliedRgbaColor) : Option BltPixel := do
  -- `u8::MAX - alpha` cannot overflow
  let a := (255 - color.alpha).toUInt16
  let red ← blendChannel pixel.red a color.red
  let green ← blendChannel pixel.green a color.green
  let blue ← blendChannel pixel.blue a color.blue
  return ⟨red, green, blue⟩

/-! ### Channels -/

inductive Channel
  | red
  | green
  | blue

def BltPixel.get (pixel : BltPixel) : Channel → UInt8
  | .red => pixel.red
  | .green => pixel.green
  | .blue => pixel.blue

def PremultipliedRgbaColor.get (color : PremultipliedRgbaColor) : Channel → UInt8
  | .red => color.red
  | .green => color.green
  | .blue => color.blue

theorem get_le_alpha (color : PremultipliedRgbaColor) (channel : Channel) :
    (color.get channel).toNat ≤ color.alpha.toNat := by
  cases channel with
  | red => exact color.red_le
  | green => exact color.green_le
  | blue => exact color.blue_le

/-- A channel without overflow. -/
theorem blendChannel_eq_some {alpha src : UInt8} (h : src.toNat ≤ alpha.toNat) (dst : UInt8) :
    ∃ out, blendChannel dst (255 - alpha).toUInt16 src = some out
      ∧ out.toNat = dst.toNat * (255 - alpha.toNat) / 255 + src.toNat := by
  have hdst := dst.toNat_lt
  have halpha := alpha.toNat_lt
  have ha : (255 - alpha).toUInt16.toNat = 255 - alpha.toNat := by
    rw [UInt8.toNat_toUInt16, UInt8.toNat_sub_of_le]
    · rfl
    · show alpha.toNat ≤ 255
      omega
  have hle : dst.toNat * (255 - alpha.toNat) ≤ 255 * (255 - alpha.toNat) :=
    Nat.mul_le_mul_right _ (by omega)
  have hscaled : dst.toNat * (255 - alpha.toNat) / 255 ≤ 255 - alpha.toNat := by
    omega
  have hmul : dst.toUInt16.toNat * (255 - alpha).toUInt16.toNat < 2 ^ 16 := by
    rw [ha, UInt8.toNat_toUInt16]
    omega
  have hproduct : (dst.toUInt16 * (255 - alpha).toUInt16).toNat
      = dst.toNat * (255 - alpha.toNat) := by
    rw [UInt16.toNat_mul, Nat.mod_eq_of_lt hmul, ha, UInt8.toNat_toUInt16]
  have hquotient : (dst.toUInt16 * (255 - alpha).toUInt16 / 255).toUInt8.toNat
      = dst.toNat * (255 - alpha.toNat) / 255 := by
    rw [UInt16.toNat_toUInt8, UInt16.toNat_div, hproduct]
    show dst.toNat * (255 - alpha.toNat) / 255 % 2 ^ 8 = _
    omega
  refine ⟨(dst.toUInt16 * (255 - alpha).toUInt16 / 255).toUInt8 + src, ?_, ?_⟩
  · rw [blendChannel, checkedMul, if_pos hmul, Option.bind_some, checkedAdd, if_pos]
    rw [hquotient]
    omega
  · rw [UInt8.toNat_add, hquotient]
    omega

/-! ### Exact results -/

/-- The exact result of a channel. -/
def exactChannel (channel : Channel) (pixel : BltPixel) (colors : List PremultipliedRgbaColor) :
    ℚ :=
  colors.foldl (fun dst color => dst * (255 - color.alpha.toNat) / 255 + (color.get channel).toNat)
    (pixel.get channel).toNat

/-- `(255 - alpha) / 255`. -/
def factor (color : PremultipliedRgbaColor) : ℚ := (255 - color.alpha.toNat) / 255

theorem alpha_le (color : PremultipliedRgbaColor) : (color.alpha.toNat : ℚ) ≤ 255 := by
  have halpha := color.alpha.toNat_lt
  exact_mod_cast (by omega : color.alpha.toNat ≤ 255)

theorem factor_nonneg (color : PremultipliedRgbaColor) : 0 ≤ factor color :=
  div_nonneg (sub_nonneg.mpr (alpha_le color)) (by norm_num)

theorem factor_le_one (color : PremultipliedRgbaColor) : factor color ≤ 1 := by
  have halpha : (0 : ℚ) ≤ color.alpha.toNat := Nat.cast_nonneg _
  rw [factor, div_le_one (by norm_num)]
  linarith

def exactStep (channel : Channel) (color : PremultipliedRgbaColor) : Affine ℚ :=
  ⟨factor color, (color.get channel).toNat, factor_nonneg color, factor_le_one color⟩

theorem exact_exactStep (channel : Channel) (pixel : BltPixel)
    (colors : List PremultipliedRgbaColor) :
    Affine.exact (colors.map (exactStep channel)) (pixel.get channel).toNat
      = exactChannel channel pixel colors := by
  rw [Affine.exact, List.foldl_map, exactChannel]
  congr 1
  funext dst color
  show factor color * dst + (color.get channel).toNat = _
  rw [factor]
  ring

/-! ### One colour and many -/

theorem roundsTo_of_toNat {channel : Channel} {color : PremultipliedRgbaColor} {dst out : UInt8}
    (h : out.toNat
      = dst.toNat * (255 - color.alpha.toNat) / 255 + (color.get channel).toNat) :
    (exactStep channel color).RoundsTo dst.toNat out.toNat := by
  have halpha : color.alpha.toNat ≤ 255 := by
    have hlt := color.alpha.toNat_lt
    omega
  have hexact : (exactStep channel color).apply dst.toNat
      = ((dst.toNat * (255 - color.alpha.toNat) : ℕ) : ℚ) / 255 + (color.get channel).toNat := by
    rw [Nat.cast_mul, Nat.cast_sub halpha]
    show factor color * dst.toNat + (color.get channel).toNat = _
    rw [factor, Nat.cast_ofNat]
    ring
  generalize dst.toNat * (255 - color.alpha.toNat) = product at hexact h
  have hle : (255 : ℚ) * ((product / 255 : ℕ) : ℚ) ≤ product := by
    exact_mod_cast Nat.mul_div_le product 255
  have hlt : (product : ℚ) < 255 * (((product / 255 : ℕ) : ℚ) + 1) := by
    exact_mod_cast Nat.lt_mul_div_succ product (by decide)
  constructor
  · rw [hexact, h, Nat.cast_add]
    linarith
  · rw [hexact, h, Nat.cast_add]
    linarith

/-- **One colour.**  There is no overflow, and each channel is rounded down. -/
theorem blend_eq_some (pixel : BltPixel) (color : PremultipliedRgbaColor) :
    ∃ next, blend pixel color = some next ∧ ∀ channel,
      (exactStep channel color).RoundsTo (pixel.get channel).toNat (next.get channel).toNat := by
  obtain ⟨red, hred, hredNat⟩ := blendChannel_eq_some (get_le_alpha color .red) pixel.red
  obtain ⟨green, hgreen, hgreenNat⟩ := blendChannel_eq_some (get_le_alpha color .green) pixel.green
  obtain ⟨blue, hblue, hblueNat⟩ := blendChannel_eq_some (get_le_alpha color .blue) pixel.blue
  refine ⟨⟨red, green, blue⟩, ?_, fun channel => ?_⟩
  · show (blendChannel pixel.red (255 - color.alpha).toUInt16 (color.get .red)).bind _ = _
    rw [hred, Option.bind_some]
    show (blendChannel pixel.green (255 - color.alpha).toUInt16 (color.get .green)).bind _ = _
    rw [hgreen, Option.bind_some]
    show (blendChannel pixel.blue (255 - color.alpha).toUInt16 (color.get .blue)).bind _ = _
    rw [hblue]
    rfl
  · cases channel with
    | red => exact roundsTo_of_toNat hredNat
    | green => exact roundsTo_of_toNat hgreenNat
    | blue => exact roundsTo_of_toNat hblueNat

theorem blend_runsTo (pixel : BltPixel) (colors : List PremultipliedRgbaColor) :
    ∃ last, colors.foldlM blend pixel = some last ∧ ∀ channel,
      Affine.RunsTo (colors.map (exactStep channel)) (pixel.get channel).toNat
        (last.get channel).toNat := by
  induction colors generalizing pixel with
  | nil => exact ⟨pixel, rfl, fun channel => .nil _⟩
  | cons color colors ih =>
      obtain ⟨next, hnext, hfirst⟩ := blend_eq_some pixel color
      obtain ⟨last, hlast, hrest⟩ := ih next
      refine ⟨last, ?_, fun channel => .cons (hfirst channel) (hrest channel)⟩
      rw [List.foldlM_cons, hnext]
      exact hlast

/-- **Blending colours.**  For every pixel and all colours, one after the other: nothing overflows,
and each channel is at most its exact result, and less than the number of the colours below it. -/
theorem blend_all (pixel : BltPixel) (colors : List PremultipliedRgbaColor) :
    ∃ last, colors.foldlM blend pixel = some last ∧ ∀ channel,
      ((last.get channel).toNat : ℚ) ≤ exactChannel channel pixel colors
        ∧ (colors ≠ [] →
          exactChannel channel pixel colors - (last.get channel).toNat < colors.length)
        ∧ (colors = [] → exactChannel channel pixel colors = (last.get channel).toNat) := by
  obtain ⟨last, hlast, hruns⟩ := blend_runsTo pixel colors
  refine ⟨last, hlast, fun channel => ⟨?_, ?_, ?_⟩⟩
  · rw [← exact_exactStep]
    exact (hruns channel).le
  · intro hne
    have hlt := (hruns channel).sub_lt fun hmap => hne (List.map_eq_nil_iff.mp hmap)
    rw [exact_exactStep, List.length_map] at hlt
    exact hlt
  · intro hnil
    subst hnil
    cases hlast
    rfl

/-- Half of a violet, and a shadow. -/
def layers : List PremultipliedRgbaColor :=
  [⟨100, 0, 127, 128, by decide, by decide, by decide⟩,
    ⟨0, 0, 0, 77, by decide, by decide, by decide⟩]

/-- Over a white pixel: no channel is exact, and none is two below what it should be. -/
theorem blend_all_layers :
    layers.foldlM blend ⟨255, 255, 255⟩ = some ⟨158, 88, 177⟩
      ∧ ∀ channel, ((BltPixel.get ⟨158, 88, 177⟩ channel).toNat : ℚ)
          ≤ exactChannel channel ⟨255, 255, 255⟩ layers
        ∧ exactChannel channel ⟨255, 255, 255⟩ layers
          - (BltPixel.get ⟨158, 88, 177⟩ channel).toNat < 2 := by
  have hblend : layers.foldlM blend ⟨255, 255, 255⟩ = some ⟨158, 88, 177⟩ := by decide
  obtain ⟨last, hlast, hexact⟩ := blend_all ⟨255, 255, 255⟩ layers
  rw [hblend, Option.some.injEq] at hlast
  subst hlast
  refine ⟨hblend, fun channel => ⟨(hexact channel).1, ?_⟩⟩
  exact_mod_cast (hexact channel).2.1 (List.cons_ne_nil _ _)

end WebUiBoot.Ui
