import Mathlib
import RunLog.Proofs.BinaryGrid
import RunLog.Proofs.DoubleBits

/-!
# What doubles are worth

Every double that is a number has a place on the grid of binary numbers, with its sign: both
zeros are worth zero, and the infinite ones stand for the two numbers of the grid that follow
the finite ones on either side. Doubles are ordered as these numbers are (`le_iff_worth`), and
the finite ones are those between the two ends (`isFinite_iff_worth`).

All of it is read off the parts of a double, which zeros and infinities have as well (`Parts`).
-/
namespace RunLog.Decimal
open Float.Model UnpackedFloat

def withSign (s : Sign) (v : ℚ) : ℚ :=
  match s with
  | .negative => -v
  | .positive => v

/-- What a double that is taken apart is worth. -/
def unpackedWorth : UnpackedFloat → ℚ
  | .notANumber => 0
  | .zero _ => 0
  | .infinity s => withSign s (2 ^ (1024 : ℤ))
  | .finite s m e _ => withSign s (m * 2 ^ e)

/-- The exact number that a finite double is. The infinite ones are worth the numbers of the grid
that follow the greatest double and precede the least one. -/
def worth (x : Float) : ℚ :=
  unpackedWorth x.toModel.unpack

/-- A double that is a number in parts, a mantissa and an exponent beside its sign. Zeros have the
mantissa zero, and the infinite doubles have the parts of the power of two that they stand for. -/
structure Parts (x : Float) (s : Sign) (m : ℕ) (e : ℤ) : Prop where
  short : m < 2 ^ 53
  least : -1074 ≤ e
  long : 2 ^ 52 ≤ m ∨ e = -1074
  rank : rank x = s.apply ((e + 1074) * 2 ^ 52 + m)
  worth : worth x = withSign s (m * 2 ^ e)
  finite : x.isFinite = true ↔ e ≤ 971
  top : e ≤ 971 ∨ e = 972 ∧ m = 2 ^ 52

theorem exists_parts {x : Float} (number : x.isNaN = false) : ∃ s m e, Parts x s m e := by
  obtain ⟨canonical, place⟩ := unpackedRank_unpack number
  have finite : x.isFinite = x.toModel.unpack.isFinite := rfl
  obtain ⟨u, hu⟩ : ∃ u, x.toModel.unpack = u := ⟨_, rfl⟩
  have exact : worth x = unpackedWorth u := congrArg unpackedWorth hu
  rw [hu] at canonical place finite
  cases canonical with
  | zero s =>
      exact ⟨s, 0, -1074, by norm_num, le_rfl, .inr rfl, by cases s <;> exact place.symm,
        by cases s <;> simp [exact, unpackedWorth, withSign],
        by simp [finite, UnpackedFloat.isFinite], .inl (by norm_num)⟩
  | infinity s =>
      exact ⟨s, 2 ^ 52, 972, by norm_num, by norm_num, .inl le_rfl,
        by cases s <;> exact place.symm, by rw [exact, unpackedWorth, top_eq_next],
        by simp [finite, UnpackedFloat.isFinite], .inr ⟨rfl, rfl⟩⟩
  | finite s pos short low high long =>
      exact ⟨s, _, _, short, low, long, place.symm, exact,
        by simp [finite, UnpackedFloat.isFinite, high], .inl high⟩

section Places

variable {m n : ℕ} {e f : ℤ}

/-- Numbers of the grid in their longest form are in the order of their places. -/
theorem value_lt_of_place_lt (short : m < 2 ^ 53) (least : -1074 ≤ e)
    (long : 2 ^ 52 ≤ m ∨ e = -1074) (short' : n < 2 ^ 53) (least' : -1074 ≤ f)
    (long' : 2 ^ 52 ≤ n ∨ f = -1074) (lt : (e + 1074) * 2 ^ 52 + m < (f + 1074) * 2 ^ 52 + n) :
    (m : ℚ) * 2 ^ e < n * 2 ^ f := by
  rcases lt_trichotomy e f with below | rfl | above
  · have wide : 2 ^ 52 ≤ n := long'.resolve_right (by omega)
    have wide : (2 : ℚ) ^ 52 ≤ n := by exact_mod_cast wide
    have short : (m : ℚ) < 2 ^ 53 := by exact_mod_cast short
    calc (m : ℚ) * 2 ^ e < 2 ^ 53 * 2 ^ e := by gcongr
      _ = 2 ^ 52 * 2 ^ (e + 1) := by
          rw [zpow_add_one₀ two_ne_zero]
          ring
      _ ≤ n * 2 ^ f := mul_le_mul wide (zpow_le_zpow_right₀ one_le_two (by omega))
          (by positivity) (by positivity)
  · have lt : m < n := by omega
    have lt : (m : ℚ) < n := by exact_mod_cast lt
    gcongr
  · omega

end Places

namespace Parts

variable {x y : Float} {s t : Sign} {m n : ℕ} {e f : ℤ}

theorem value_nonneg (m : ℕ) (e : ℤ) : (0 : ℚ) ≤ m * 2 ^ e := by positivity

theorem place_le_iff (hx : Parts x s m e) (hy : Parts y t n f) :
    (e + 1074) * 2 ^ 52 + m ≤ (f + 1074) * 2 ^ 52 + n ↔ (m : ℚ) * 2 ^ e ≤ n * 2 ^ f := by
  constructor
  · intro le
    rcases le.lt_or_eq with lt | same
    · exact (value_lt_of_place_lt hx.short hx.least hx.long hy.short hy.least hy.long lt).le
    · have parts : e = f ∧ m = n := by
        have := hx.short
        have := hx.long
        have := hx.least
        have := hy.short
        have := hy.long
        have := hy.least
        omega
      rw [parts.1, parts.2]
  · intro le
    by_contra lt
    exact absurd le
      (value_lt_of_place_lt hy.short hy.least hy.long hx.short hx.least hx.long
        (not_le.mp lt)).not_ge

theorem place_eq_zero_iff (hx : Parts x s m e) :
    (e + 1074) * 2 ^ 52 + m = 0 ↔ (m : ℚ) * 2 ^ e = 0 := by
  have least := hx.least
  have long := hx.long
  have unit : (2 : ℚ) ^ e ≠ 0 := by positivity
  rw [mul_eq_zero, or_iff_left unit, Nat.cast_eq_zero]
  omega

theorem rank_le_iff (hx : Parts x s m e) (hy : Parts y t n f) :
    Decimal.rank x ≤ Decimal.rank y ↔ Decimal.worth x ≤ Decimal.worth y := by
  have order := hx.place_le_iff hy
  have order' := hy.place_le_iff hx
  have zero := hx.place_eq_zero_iff
  have zero' := hy.place_eq_zero_iff
  have nonneg := value_nonneg m e
  have nonneg' := value_nonneg n f
  have place : 0 ≤ (e + 1074) * 2 ^ 52 + m := by have := hx.least; omega
  have place' : 0 ≤ (f + 1074) * 2 ^ 52 + n := by have := hy.least; omega
  rw [hx.rank, hy.rank, hx.worth, hy.worth]
  generalize (e + 1074) * 2 ^ 52 + m = p at *
  generalize (f + 1074) * 2 ^ 52 + n = q at *
  generalize (m : ℚ) * 2 ^ e = v at *
  generalize (n : ℚ) * 2 ^ f = w at *
  cases s <;> cases t <;> simp only [Sign.apply, withSign]
  · rw [neg_le_neg_iff, neg_le_neg_iff]
    exact order'
  · exact iff_of_true (by omega) (by linarith)
  · -- A positive double is not below a negative one unless both are zeros.
    constructor
    · intro le
      rw [zero.mp (by omega), zero'.mp (by omega), neg_zero]
    · intro le
      have none := zero.mpr (by linarith)
      have none' := zero'.mpr (by linarith)
      omega
  · exact order

theorem abs_worth (hx : Parts x s m e) : |Decimal.worth x| = m * 2 ^ e := by
  rw [hx.worth]
  cases s <;> simp only [withSign, abs_neg, abs_of_nonneg (value_nonneg m e)]

end Parts

theorem worth_zero : worth 0 = 0 := by
  have unpacked : (0 : Float).toModel.unpack = .zero .positive := by rfl
  rw [worth, unpacked]
  rfl

def infinity : Float :=
  1 / 0

theorem unpack_infinity : infinity.toModel.unpack = .infinity .positive := by rfl

theorem worth_infinity : worth infinity = 2 ^ (1024 : ℤ) := by
  rw [worth, unpack_infinity]
  rfl

section Numbers

variable {x y : Float}

/-- Doubles that are numbers are ordered like what they are worth. -/
theorem le_iff_worth (hx : x.isNaN = false) (hy : y.isNaN = false) : x ≤ y ↔ worth x ≤ worth y := by
  obtain ⟨_, _, _, parts⟩ := exists_parts hx
  obtain ⟨_, _, _, parts'⟩ := exists_parts hy
  rw [le_iff_rank hx hy, parts.rank_le_iff parts']

theorem eq_of_worth_eq (hx : x.isNaN = false) (hy : y.isNaN = false) (same : worth x = worth y)
    (nonzero : worth x ≠ 0) : x = y := by
  obtain ⟨s, m, e, parts⟩ := exists_parts hx
  obtain ⟨_, _, _, parts'⟩ := exists_parts hy
  refine eq_of_rank_eq (fun zero => nonzero ?_)
    (le_antisymm ((parts.rank_le_iff parts').mpr same.le) ((parts'.rank_le_iff parts).mpr same.ge))
  have place : (e + 1074) * 2 ^ 52 + m = 0 := by
    have rank := parts.rank
    rw [zero] at rank
    cases s <;> simp only [Sign.apply] at rank <;> omega
  rw [parts.worth, parts.place_eq_zero_iff.mp place]
  cases s <;> simp [withSign]

theorem onGrid_worth (hx : x.isNaN = false) : OnGrid (worth x) := by
  obtain ⟨s, m, e, parts⟩ := exists_parts hx
  refine ⟨s.apply m, e, ?_, parts.least, ?_⟩
  · have short : (m : ℤ) < 2 ^ 53 := by exact_mod_cast parts.short
    cases s <;> simpa [Sign.apply] using short
  · rw [parts.worth]
    cases s <;> simp [withSign, Sign.apply]

theorem abs_worth_le (hx : x.isNaN = false) : |worth x| ≤ 2 ^ (1024 : ℤ) := by
  obtain ⟨s, m, e, parts⟩ := exists_parts hx
  rw [parts.abs_worth]
  rcases parts.top with finite | ⟨rfl, rfl⟩
  · exact le_top parts.short.le finite
  · exact top_eq_next.ge

theorem isFinite_iff_worth (hx : x.isNaN = false) :
    x.isFinite = true ↔ |worth x| < 2 ^ (1024 : ℤ) := by
  obtain ⟨s, m, e, parts⟩ := exists_parts hx
  rw [parts.finite, parts.abs_worth]
  constructor
  · intro finite
    have short : (m : ℚ) < 2 ^ 53 := by exact_mod_cast parts.short
    rw [top_eq]
    exact mul_lt_mul short (zpow_le_zpow_right₀ one_le_two finite) (by positivity) (by positivity)
  · intro below
    refine parts.top.resolve_right fun ⟨top, whole⟩ => absurd below (not_lt.mpr ?_)
    rw [top, whole]
    exact top_eq_next.le

theorem eq_infinity (hx : x.isNaN = false) (infinite : ¬x.isFinite = true) (nonneg : 0 ≤ worth x) :
    x = infinity := by
  have top : worth x = 2 ^ (1024 : ℤ) := by
    rw [isFinite_iff_worth hx, abs_of_nonneg nonneg] at infinite
    exact le_antisymm ((le_abs_self _).trans (abs_worth_le hx)) (not_lt.mp infinite)
  refine eq_of_worth_eq hx (by rfl) (top.trans worth_infinity.symm) ?_
  rw [top]
  positivity

theorem not_le_of_isNaN (h : y.isNaN = true) : ¬x ≤ y := by
  have unpacked : y.toModel.unpack = .notANumber := by
    change y.toModel.unpack.isNaN = true at h
    cases hu : y.toModel.unpack with
    | notANumber => rfl
    | _ => rw [hu] at h; cases h
  change ¬decide (UnpackedFloat.le _ _ = true) = true
  rw [unpacked]
  cases x.toModel.unpack <;> simp [UnpackedFloat.le, UnpackedFloat.compare]

end Numbers

end RunLog.Decimal
