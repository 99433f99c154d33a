import Mathlib
import RunLog.Proofs.FiveNumberLaws
import RunLog.Proofs.RoundedSums

/-!
# Interpolating between two doubles

A number between two doubles is computed in three steps, each of which is rounded: a difference,
a part of it, and a sum. The difference may be rounded up, but up to three quarters of it lie
below the exact difference all the same (`worth_mul_le`); so the sum stays between the two
doubles, and more quarters give no smaller number.

This needs a finite difference. Where the difference is too large, or the upper end is infinite,
every part of it is infinite; and from an infinite lower end nothing can be interpolated.
-/
namespace RunLog

namespace Decimal

section Orders

variable {a b x y : Float}

theorem worth_add_le (ha : a.isFinite = true) (hx : x.isFinite = true) (hy : y.isFinite = true)
    (le : worth x ≤ worth y) : worth (a + x) ≤ worth (a + y) := by
  have sum := becomes_add ha hx
  have sum' := becomes_add ha hy
  rcases le.lt_or_eq with lt | same
  · exact sum.mono sum' (by linarith)
  · by_cases zero : worth x = 0
    · rw [← same, zero, add_zero] at sum'
      rw [zero, add_zero] at sum
      rw [sum.worth_eq (isNaN_of_isFinite ha), sum'.worth_eq (isNaN_of_isFinite ha)]
    · rw [eq_of_worth_eq (isNaN_of_isFinite hx) (isNaN_of_isFinite hy) same zero]

theorem worth_mul_mono (ha : a.isFinite = true) (hx : x.isFinite = true) (hy : y.isFinite = true)
    (nonneg : 0 ≤ worth a) (lt : worth x < worth y) : worth (a * x) ≤ worth (a * y) := by
  have product := becomes_mul ha hx
  have product' := becomes_mul ha hy
  rcases nonneg.lt_or_eq with pos | zero
  · exact product.mono product' (mul_lt_mul_of_pos_left lt pos)
  · rw [← zero, zero_mul, ← worth_zero] at product product'
    rw [product.worth_eq (by rfl), product'.worth_eq (by rfl)]

/-- A difference that was rounded up was not rounded up far: three quarters of it lie below a
number of the grid that is not above the exact difference. -/
theorem exists_onGrid_le (ha : a.isFinite = true) (hb : b.isFinite = true)
    (le : worth a ≤ worth b) (finite : (b - a).isFinite = true) :
    ∃ u, OnGrid u ∧ -2 ^ (1024 : ℤ) ≤ u ∧ u ≤ worth b - worth a ∧
      worth (b - a) * (3 / 4) ≤ u := by
  have difference := becomes_sub hb ha
  have number := isNaN_of_isFinite finite
  have nonneg := difference.nonneg (sub_nonneg.mpr le)
  have low {u : ℚ} (hu : 0 ≤ u) : -2 ^ (1024 : ℤ) ≤ u :=
    (neg_nonpos.mpr (by positivity)).trans hu
  rcases le_or_gt (worth (b - a)) (worth b - worth a) with down | up
  · exact ⟨_, onGrid_worth number, low nonneg, down, by linarith⟩
  · obtain ⟨s, m, e, parts⟩ := exists_parts number
    have exact : worth (b - a) = m * 2 ^ e := by rw [← parts.abs_worth, abs_of_nonneg nonneg]
    have unit : (0 : ℚ) < 2 ^ e := by positivity
    have notOnGrid : ¬OnGrid (worth b - worth a) := fun grid =>
      absurd (difference.le_of_onGrid grid (low (sub_nonneg.mpr le)) le_rfl) (not_le.mpr up)
    have wide : 2 ^ 52 ≤ m := by
      refine parts.long.resolve_right fun bottom => notOnGrid ?_
      refine (onGrid_worth (isNaN_of_isFinite hb)).sub (onGrid_worth (isNaN_of_isFinite ha)) ?_
      rw [abs_of_nonneg (sub_nonneg.mpr le)]
      rw [exact, bottom] at up
      refine up.trans (mul_lt_mul_of_pos_right ?_ (by positivity))
      exact_mod_cast parts.short
    have wide : (2 : ℚ) ^ 52 ≤ m := by exact_mod_cast wide
    have before : OnGrid (((m : ℤ) - 1 : ℤ) * 2 ^ e) := by
      refine ⟨m - 1, e, ?_, parts.least, rfl⟩
      have short := parts.short
      rw [abs_lt]
      omega
    push_cast at before
    have low := low (mul_nonneg (by linarith : (0 : ℚ) ≤ m - 1) unit.le)
    refine ⟨_, before, low, ?_, ?_⟩
    · by_contra behind
      have atMost := difference.le_of_onGrid before low (not_le.mp behind).le
      rw [exact] at atMost
      linarith
    · rw [exact]
      nlinarith

/-- Up to three quarters of a difference that was rounded lie within the exact one. -/
theorem worth_mul_le (ha : a.isFinite = true) (hb : b.isFinite = true)
    (le : worth a ≤ worth b) (finite : (b - a).isFinite = true) (hx : x.isFinite = true)
    (part : worth x ≤ 3 / 4) : worth ((b - a) * x) ≤ worth b - worth a := by
  obtain ⟨u, grid, low, within, above⟩ := exists_onGrid_le ha hb le finite
  have nonneg := (becomes_sub hb ha).nonneg (sub_nonneg.mpr le)
  have product : worth (b - a) * worth x ≤ u :=
    (mul_le_mul_of_nonneg_left part nonneg).trans above
  exact ((becomes_mul finite hx).le_of_onGrid grid low product).trans within

end Orders

section Infinities

open Float.Model UnpackedFloat

variable {a b x : Float}

theorem unpacked_infinity {v : UnpackedFloat} (finite : v.isFinite = true) :
    UnpackedFloat.add Format.binary64 v (.infinity .positive) = .infinity .positive ∧
      UnpackedFloat.sub Format.binary64 (.infinity .positive) v = .infinity .positive := by
  cases v with
  | notANumber => cases finite
  | infinity s => cases finite
  | _ => exact ⟨rfl, rfl⟩

theorem add_infinity (ha : a.isFinite = true) : a + infinity = infinity := by
  change Float.ofModel (Float.Model.pack
    (UnpackedFloat.add Format.binary64 a.toModel.unpack infinity.toModel.unpack)) = infinity
  rw [unpack_infinity, (unpacked_infinity ha).1]
  rfl

theorem infinity_sub (ha : a.isFinite = true) : infinity - a = infinity := by
  change Float.ofModel (Float.Model.pack
    (UnpackedFloat.sub Format.binary64 infinity.toModel.unpack a.toModel.unpack)) = infinity
  rw [unpack_infinity, (unpacked_infinity ha).2]
  rfl

theorem unpacked_sub_infinity (v : UnpackedFloat) (s : Sign) :
    UnpackedFloat.sub Format.binary64 v (.infinity s) = .notANumber ∨
      UnpackedFloat.sub Format.binary64 v (.infinity s) = .infinity (-s) := by
  cases v with
  | notANumber => exact .inl rfl
  | infinity t => cases s <;> cases t <;> first | exact .inl rfl | exact .inr rfl
  | _ => exact .inr rfl

theorem sub_of_isInf (ha : a.isInf = true) :
    (a = infinity ∨ a = -infinity) ∧ (b - a = 0 / 0 ∨ b - a = -a) := by
  have either : a = infinity ∨ a = -infinity := by
    cases sign : isNegative a
    · exact .inl (eq_of_isInf ha (by rfl) (sign.trans (by decide +kernel)))
    · exact .inr (eq_of_isInf ha (by rfl) (sign.trans (by decide +kernel)))
  refine ⟨either, ?_⟩
  have difference : b - a = Float.ofModel (Float.Model.pack
    (UnpackedFloat.sub Format.binary64 b.toModel.unpack a.toModel.unpack)) := rfl
  rw [difference]
  rcases either with rfl | rfl
  · rw [unpack_infinity]
    rcases unpacked_sub_infinity b.toModel.unpack .positive with none | opposite
    · exact .inl (by rw [none]; rfl)
    · exact .inr (by rw [opposite]; rfl)
  · rw [show (-infinity).toModel.unpack = .infinity .negative by rfl]
    rcases unpacked_sub_infinity b.toModel.unpack .negative with none | opposite
    · exact .inl (by rw [none]; rfl)
    · exact .inr (by rw [opposite]; rfl)

end Infinities

end Decimal

namespace FiveNumbers
open Decimal

def quarter (n : ℕ) : Float :=
  n.toFloat / 4

theorem worth_quarter {n : ℕ} (h : n < 4) :
    (quarter n).isFinite = true ∧ worth (quarter n) = n / 4 := by
  interval_cases n
  · have unpacked : (quarter 0).toModel.unpack = .zero .positive := by rfl
    exact ⟨by rfl, by rw [worth, unpacked, unpackedWorth]; norm_num⟩
  · have unpacked : (quarter 1).toModel.unpack = .finite .positive (2 ^ 52) (-54) (by decide) := by
      rfl
    exact ⟨by rfl, by rw [worth, unpacked, unpackedWorth, withSign]; norm_num⟩
  · have unpacked : (quarter 2).toModel.unpack = .finite .positive (2 ^ 52) (-53) (by decide) := by
      rfl
    exact ⟨by rfl, by rw [worth, unpacked, unpackedWorth, withSign]; norm_num⟩
  · have unpacked : (quarter 3).toModel.unpack =
        .finite .positive (3 * 2 ^ 51) (-53) (by decide) := by rfl
    exact ⟨by rfl, by rw [worth, unpacked, unpackedWorth, withSign]; norm_num⟩

/-- Two sorted numbers and a number of quarters of the way between them. Where there is no way
to go, they are the same. -/
structure Gap (a b : Float) (part : ℕ) : Prop where
  low : a.isNaN = false
  high : b.isNaN = false
  le : worth a ≤ worth b
  quarters : part < 4
  whole : part = 0 → a = b

/-- Two numbers can be interpolated if the first one is finite and, unless the second one is
infinite, their difference is not rounded to infinity. -/
def Spanned (a b : Float) : Prop :=
  a.isFinite = true ∧
    (b.isFinite = true → worth b - worth a < 2 ^ (1024 : ℤ) - 2 ^ (970 : ℤ))

/-- Whether two numbers can be interpolated is seen from the rounded difference. -/
theorem spanned_iff {a b : Float} (le : worth a ≤ worth b) :
    Spanned a b ↔ a.isFinite = true ∧ (b.isFinite = true → (b - a).isFinite = true) := by
  refine and_congr_right fun ha => forall_congr' fun hb => ?_
  rw [(becomes_sub hb ha).isFinite_iff, abs_of_nonneg (sub_nonneg.mpr le)]

namespace Gap

variable {a b : Float} {part part' : ℕ}

theorem isNaN_of_isInf (gap : Gap a b part) (infinite : a.isInf = true) :
    (between quarter a b part).isNaN = true := by
  obtain ⟨either, difference⟩ := sub_of_isInf (b := b) infinite
  have quarters := gap.quarters
  rw [between]
  rcases difference with difference | difference <;> rw [difference] <;>
    rcases either with rfl | rfl <;> interval_cases part <;> rfl

theorem eq_infinity (finite : a.isFinite = true) (difference : b - a = infinity)
    (pos : 0 < part) (quarters : part < 4) : between quarter a b part = infinity := by
  have product : infinity * quarter part = infinity := by
    interval_cases part <;> rfl
  rw [between, difference, product, add_infinity finite]

theorem high_eq_infinity (gap : Gap a b part) (ha : a.isFinite = true)
    (infinite : ¬b.isFinite = true) : b = infinity := by
  refine Decimal.eq_infinity gap.high infinite ?_
  by_contra negative
  rw [isFinite_iff_worth gap.high, abs_of_neg (not_le.mp negative), not_lt] at infinite
  have low := (abs_lt.mp ((isFinite_iff_worth gap.low).mp ha)).1
  have le := gap.le
  linarith

theorem sub_eq_infinity (gap : Gap a b part) (finite : a.isFinite = true)
    (wide : b.isFinite = true → 2 ^ (1024 : ℤ) - 2 ^ (970 : ℤ) ≤ worth b - worth a) :
    b - a = infinity := by
  by_cases hb : b.isFinite = true
  · have difference := becomes_sub hb finite
    have nonneg : 0 ≤ worth b - worth a := sub_nonneg.mpr gap.le
    refine Decimal.eq_infinity difference.isNaN ?_ ?_
    · rw [difference.isFinite_iff, abs_of_nonneg nonneg, not_lt]
      exact wide hb
    · exact difference.nonneg nonneg
  · rw [gap.high_eq_infinity finite hb, infinity_sub finite]

theorem between_eq_infinity (gap : Gap a b part) (ha : a.isFinite = true)
    (infinite : ¬b.isFinite = true) : between quarter a b part = infinity := by
  refine eq_infinity ha (gap.sub_eq_infinity ha fun hb => absurd hb infinite) ?_ gap.quarters
  exact Nat.pos_of_ne_zero fun none => infinite (gap.whole none ▸ ha)

theorem eq_infinity_of_wide (gap : Gap a b part) (ha : a.isFinite = true)
    (wide : 2 ^ (1024 : ℤ) - 2 ^ (970 : ℤ) ≤ worth b - worth a) :
    between quarter a b part = infinity := by
  refine eq_infinity ha (gap.sub_eq_infinity ha fun _ => wide) ?_ gap.quarters
  refine Nat.pos_of_ne_zero fun none => ?_
  rw [gap.whole none, sub_self] at wide
  exact absurd brink_pos (not_lt.mpr wide)

/-- The rounded difference and the part of it are finite, and the part does not exceed the exact
difference. -/
structure Steps (a b : Float) (part : ℕ) : Prop where
  difference : (b - a).isFinite = true
  difference_nonneg : 0 ≤ worth (b - a)
  product : ((b - a) * quarter part).isFinite = true
  product_nonneg : 0 ≤ worth ((b - a) * quarter part)
  product_le : worth ((b - a) * quarter part) ≤ worth b - worth a

theorem steps (gap : Gap a b part) (ha : a.isFinite = true) (hb : b.isFinite = true)
    (bounded : worth b - worth a < 2 ^ (1024 : ℤ) - 2 ^ (970 : ℤ)) : Steps a b part := by
  obtain ⟨hq, exact⟩ := worth_quarter gap.quarters
  have atMost : worth (quarter part) ≤ 3 / 4 := by
    have quarters : (part : ℚ) ≤ 3 := by exact_mod_cast Nat.lt_succ_iff.mp gap.quarters
    rw [exact]
    linarith
  have nonneg : 0 ≤ worth b - worth a := sub_nonneg.mpr gap.le
  have difference := becomes_sub hb ha
  have finite : (b - a).isFinite = true := by
    rwa [difference.isFinite_iff, abs_of_nonneg nonneg]
  have above := difference.nonneg nonneg
  have product := becomes_mul finite hq
  have low := product.nonneg (mul_nonneg above (by rw [exact]; positivity))
  have high := worth_mul_le ha hb gap.le finite hq atMost
  refine ⟨finite, above, ?_, low, high⟩
  rw [isFinite_iff_worth product.isNaN, abs_of_nonneg low]
  exact (high.trans_lt bounded).trans (sub_lt_self _ (by positivity))

/-- A number that can be interpolated lies between the two. -/
theorem bounds (gap : Gap a b part) (spanned : Spanned a b) :
    (between quarter a b part).isNaN = false ∧ worth a ≤ worth (between quarter a b part) ∧
      worth (between quarter a b part) ≤ worth b := by
  obtain ⟨ha, bounded⟩ := spanned
  by_cases hb : b.isFinite = true
  · have steps := gap.steps ha hb (bounded hb)
    have sum := becomes_add ha steps.product
    have low := steps.product_nonneg
    have high := steps.product_le
    exact ⟨sum.isNaN, sum.le_of_ge gap.low (by linarith), sum.le_of_le gap.high (by linarith)⟩
  · rw [gap.between_eq_infinity ha hb, ← gap.high_eq_infinity ha hb]
    exact ⟨gap.high, gap.le, le_rfl⟩

/-- More quarters give no smaller number. -/
theorem mono (gap : Gap a b part) (gap' : Gap a b part') (spanned : Spanned a b)
    (le : part ≤ part') :
    worth (between quarter a b part) ≤ worth (between quarter a b part') := by
  obtain ⟨ha, bounded⟩ := spanned
  by_cases hb : b.isFinite = true
  · have steps := gap.steps ha hb (bounded hb)
    have steps' := gap'.steps ha hb (bounded hb)
    refine worth_add_le ha steps.product steps'.product ?_
    rcases le.lt_or_eq with lt | rfl
    · obtain ⟨hq, exact⟩ := worth_quarter gap.quarters
      obtain ⟨hq', exact'⟩ := worth_quarter gap'.quarters
      refine worth_mul_mono steps.difference hq hq' steps.difference_nonneg ?_
      rw [exact, exact']
      have lt : (part : ℚ) < part' := by exact_mod_cast lt
      linarith
    · exact le_rfl
  · rw [gap.between_eq_infinity ha hb, gap'.between_eq_infinity ha hb]

theorem isNaN_iff (gap : Gap a b part) :
    (between quarter a b part).isNaN = true ↔ a.isInf = true := by
  refine ⟨fun none => ?_, gap.isNaN_of_isInf⟩
  by_contra bounded
  have ha : a.isFinite = true := isFinite_of_not gap.low (by simpa using bounded)
  by_cases wide : b.isFinite = true ∧ ¬worth b - worth a < 2 ^ (1024 : ℤ) - 2 ^ (970 : ℤ)
  · rw [gap.eq_infinity_of_wide ha (not_lt.mp wide.2)] at none
    exact absurd none (by decide +kernel)
  · obtain ⟨number, -⟩ := gap.bounds ⟨ha, fun hb => by_contra fun far => wide ⟨hb, far⟩⟩
    rw [number] at none
    cases none

/-- What is computed lies between the two numbers exactly if they can be interpolated. -/
theorem between_iff (gap : Gap a b part) :
    a ≤ between quarter a b part ∧ between quarter a b part ≤ b ↔ Spanned a b := by
  constructor
  · rintro ⟨low, high⟩
    have ha : a.isFinite = true := by
      by_contra infinite
      have infinite : a.isInf = true := by
        by_contra bounded
        exact infinite (isFinite_of_not gap.low (by simpa using bounded))
      exact not_le_of_isNaN (gap.isNaN_of_isInf infinite) low
    refine ⟨ha, fun hb => ?_⟩
    by_contra wide
    rw [gap.eq_infinity_of_wide ha (not_lt.mp wide), le_iff_worth (by rfl) gap.high,
      worth_infinity] at high
    have below := (isFinite_iff_worth gap.high).mp hb
    exact absurd ((le_abs_self _).trans_lt below) (not_lt.mpr high)
  · intro spanned
    obtain ⟨number, low, high⟩ := gap.bounds spanned
    exact ⟨(le_iff_worth gap.low number).mpr low, (le_iff_worth number gap.high).mpr high⟩

end Gap

end FiveNumbers
end RunLog
