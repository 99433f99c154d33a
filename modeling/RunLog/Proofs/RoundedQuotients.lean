import Mathlib
import RunLog.Proofs.NearestDoubles

/-!
# Rounded quotients

The value of a finite double above zero is an exact number, and doubles are ordered
like their values. A quotient is the double nearest to the quotient of the values,
and so is a product with a hundred: `Nearest` says which double that is, and that a
number of at most half of the least double becomes zero. Larger numbers have larger
nearest doubles (`Nearest.le`), so what is shown of exact numbers carries over to
doubles, up to rounding.
-/
namespace RunLog.Decimal
open Float.Model UnpackedFloat

def value (x : Float) : ℚ :=
  (magnitude x).value

structure Spells (x : Float) (m : Magnitude) : Prop where
  wf : m.WellFormed
  unpack : x.toModel.unpack = .finite .positive m.mantissa m.exponent wf.pos

/-- The double that a number above zero is rounded to, unless the number is too large. -/
inductive Nearest (v : ℚ) (x : Float) : Prop
  /-- Half of the least double and all below it. -/
  | zero : v ≤ 2 ^ (-1075 : ℤ) → x = 0 → Nearest v x
  | around {m : Magnitude} : Spells x m → m.Surrounds v → Nearest v x

theorem rank_eq_zero_of_mantissa {x : Float} (zero : (magnitude x).mantissa = 0) :
    rank x = 0 := by
  rw [eq_zero zero]
  split_ifs <;> decide +kernel

theorem spells_of_pos {x : Float} (finite : x.isFinite = true) (pos : 0 < x) :
    Spells x (magnitude x) := by
  have above := rank_pos finite pos
  have mantissa : 0 < (magnitude x).mantissa := by
    refine Nat.pos_of_ne_zero fun zero => ?_
    rw [rank_eq_zero_of_mantissa zero] at above
    exact absurd above (lt_irrefl 0)
  have unsigned : isNegative x = false := by
    by_contra negative
    rw [rank, if_pos (by simpa using negative)] at above
    omega
  refine ⟨magnitude_wellFormed finite mantissa, ?_⟩
  rw [unpack_magnitude finite mantissa, sign, if_neg (by simp [unsigned])]

namespace Spells

variable {x y : Float} {m n : Magnitude}

theorem isNaN (h : Spells x m) : x.isNaN = false :=
  isNaN_of_unpack h.unpack

theorem isFinite (h : Spells x m) : x.isFinite = true := by
  change x.toModel.unpack.isFinite = true
  rw [h.unpack]
  rfl

theorem rank (h : Spells x m) : rank x = m.rank := by
  obtain ⟨-, place⟩ := unpackedRank_unpack h.isNaN
  rw [← place, h.unpack]
  rfl

theorem rank_pos (h : Spells x m) : 0 < m.rank := by
  have least := h.wf.least
  have positive := h.wf.pos
  rw [Magnitude.rank]
  omega

theorem pos (h : Spells x m) : 0 < x := by
  refine (lt_iff_rank (by rfl) h.isNaN).mpr ?_
  rw [rank_zero, h.rank]
  exact h.rank_pos

theorem value (h : Spells x m) : value x = m.value := by
  have own := (spells_of_pos h.isFinite h.pos).unpack
  rw [h.unpack] at own
  injection own with _ mantissa exponent
  rw [Decimal.value, Magnitude.value, Magnitude.value, mantissa, exponent]

theorem le_iff (hx : Spells x m) (hy : Spells y n) : x ≤ y ↔ Decimal.value x ≤ Decimal.value y := by
  rw [le_iff_rank hx.isNaN hy.isNaN, hx.rank, hy.rank, hx.value, hy.value]
  exact ⟨hx.wf.value_le_of_rank_le hy.wf, hx.wf.rank_le_of_value_le hy.wf⟩

end Spells

theorem value_zero : value 0 = 0 := by
  have mantissa : (magnitude 0).mantissa = 0 := by decide +kernel
  rw [value, Magnitude.value, mantissa]
  simp

theorem value_pos {x : Float} (finite : x.isFinite = true) (pos : 0 < x) : 0 < value x :=
  (spells_of_pos finite pos).wf.value_pos

theorem value_le_iff {a b : Float} (ha : a.isFinite = true) (hb : b.isFinite = true)
    (pa : 0 < a) (pb : 0 < b) : a ≤ b ↔ value a ≤ value b :=
  (spells_of_pos ha pa).le_iff (spells_of_pos hb pb)

theorem value_inj {a b : Float} (ha : a.isFinite = true) (hb : b.isFinite = true)
    (pa : 0 < a) (pb : 0 < b) : value a = value b ↔ a = b := by
  refine ⟨fun same => ?_, congrArg value⟩
  have le := (value_le_iff ha hb pa pb).mpr same.le
  have ge := (value_le_iff hb ha pb pa).mpr same.ge
  rw [le_iff_rank (isNaN_of_isFinite ha) (isNaN_of_isFinite hb)] at le
  rw [le_iff_rank (isNaN_of_isFinite hb) (isNaN_of_isFinite ha)] at ge
  exact eq_of_rank_eq (rank_pos ha pa).ne' (le_antisymm le ge)

namespace Nearest

variable {v w : ℚ} {x y : Float}

theorem isNaN (h : Nearest v x) : x.isNaN = false := by
  cases h with
  | zero _ hx =>
      rw [hx]
      rfl
  | around hx _ => exact hx.isNaN

theorem rank_le (hx : Nearest v x) (hy : Nearest w y) (h : v ≤ w) : rank x ≤ rank y := by
  cases hx with
  | zero _ hx =>
      rw [hx, rank_zero]
      cases hy with
      | zero _ hy => rw [hy, rank_zero]
      | around hy _ => exact hy.rank ▸ hy.rank_pos.le
  | around hx around =>
      cases hy with
      | zero small _ => exact absurd (h.trans small) (not_le.mpr (hx.wf.half_lt around))
      | around hy around' =>
          rw [hx.rank, hy.rank]
          exact around.rank_le around' hx.wf hy.wf h

theorem le (hx : Nearest v x) (hy : Nearest w y) (h : v ≤ w) : x ≤ y :=
  (le_iff_rank hx.isNaN hy.isNaN).mpr (hx.rank_le hy h)

theorem value_le (hx : Nearest v x) (hy : Nearest w y) (h : v ≤ w) : value x ≤ value y := by
  cases hx with
  | zero _ hx =>
      rw [hx, value_zero]
      exact mul_nonneg (Nat.cast_nonneg _) (by positivity)
  | around hx around =>
      cases hy with
      | zero small _ => exact absurd (h.trans small) (not_le.mpr (hx.wf.half_lt around))
      | around hy around' =>
          rw [hx.value, hy.value]
          exact around.value_le around' hx.wf hy.wf h

theorem self (finite : x.isFinite = true) (pos : 0 < x) : Nearest (Decimal.value x) x :=
  .around (spells_of_pos finite pos) (magnitude x).surrounds_value

theorem eq_zero (h : Nearest v x) (small : v ≤ 2 ^ (-1075 : ℤ)) : x = 0 := by
  cases h with
  | zero _ hx => exact hx
  | around hx around => exact absurd small (not_le.mpr (hx.wf.half_lt around))

theorem finite_pos (h : Nearest v x) (large : 2 ^ (-1075 : ℤ) < v) :
    x.isFinite = true ∧ 0 < x := by
  cases h with
  | zero small _ => exact absurd small (not_le.mpr large)
  | around hx _ => exact ⟨hx.isFinite, hx.pos⟩

theorem pos_iff (h : Nearest v x) : 0 < x ↔ 2 ^ (-1075 : ℤ) < v := by
  refine ⟨fun pos => ?_, fun large => (h.finite_pos large).2⟩
  by_contra small
  rw [h.eq_zero (not_lt.mp small)] at pos
  exact absurd pos (by decide +kernel)

end Nearest

section Quotient

variable {m₁ m₂ : ℕ} {e₁ e₂ : ℤ}

/-- A quotient of at most half of the least double is rounded to zero. -/
theorem div_zero (h₁ : 0 < m₁) (h₂ : 0 < m₂)
    (small : (m₁ * 2 ^ e₁ / (m₂ * 2 ^ e₂) : ℚ) ≤ 2 ^ (-1075 : ℤ)) :
    UnpackedFloat.div Format.binary64 (.finite .positive m₁ e₁ h₁)
      (.finite .positive m₂ e₂ h₂) = .zero .positive := by
  obtain ⟨k, e, accuracy, q, rounded, marks, fits, exact⟩ :=
    div_marks e₁ e₂ h₁ h₂
  have first : (0 : ℚ) < m₁ := by exact_mod_cast h₁
  have second : (0 : ℚ) < m₂ := by exact_mod_cast h₂
  have nonneg : 0 ≤ q * 2 ^ e := by
    rw [exact]
    positivity
  rw [← exact] at small
  have bits : q * 2 ^ e < 2 ^ (-1074 + 53 : ℤ) :=
    small.trans_lt (zpow_lt_zpow_right₀ one_lt_two (by norm_num))
  have target := targetExponent_of_bounds marks fits le_rfl bits (.inr rfl)
  have rounds : Rounds (q * 2 ^ e / 2 ^ (-1074 : ℤ)) 0 := by
    refine ⟨?_, ?_, fun _ => rfl⟩
    · have : 0 ≤ q * 2 ^ e / 2 ^ (-1074 : ℤ) := div_nonneg nonneg (by positivity)
      simp only [Nat.cast_zero]
      linarith
    · rw [div_le_iff₀ (by positivity), Nat.cast_zero, zero_add, ← half_least]
      exact small
  rw [rounded, roundWithAccuracy_eq .positive marks fits target rounds]
  rfl

end Quotient

variable {a b x : Float}

/-- A quotient is the double nearest to the quotient of the exact values. -/
theorem nearest_div (ha : a.isFinite = true) (hb : b.isFinite = true) (pa : 0 < a) (pb : 0 < b)
    (bounded : value a / value b < 2 ^ (1023 : ℤ)) : Nearest (value a / value b) (a / b) := by
  have ea := spells_of_pos ha pa
  have eb := spells_of_pos hb pb
  rcases le_or_gt (value a / value b) (2 ^ (-1075 : ℤ)) with small | large
  · refine .zero small ?_
    change Float.ofModel (Float.Model.pack
      (UnpackedFloat.div Format.binary64 a.toModel.unpack b.toModel.unpack)) = 0
    rw [ea.unpack, eb.unpack, div_zero ea.wf.pos eb.wf.pos small]
    rfl
  · obtain ⟨m, wf, around⟩ := exists_surrounds large bounded
    exact .around ⟨wf, unpack_div wf ea.unpack eb.unpack around⟩ around

theorem unpack_hundred : ∃ M E pos, (100 : Float).toModel.unpack = .finite .positive M E pos ∧
    2 ^ 52 ≤ M ∧ (M : ℚ) * 2 ^ E = 100 :=
  isExactly_iff (n := 100) (by decide +kernel)

/-- A hundred times a double is nearest to a hundred times its exact value. -/
theorem nearest_mul_hundred (hx : x.isFinite = true) (px : 0 < x)
    (large : 2 ^ (-1075 : ℤ) < value x * 100) (bounded : value x * 100 < 2 ^ (1023 : ℤ)) :
    Nearest (value x * 100) (x * 100) := by
  have ex := spells_of_pos hx px
  obtain ⟨M, E, pos, unpacked, long, exact⟩ := unpack_hundred
  obtain ⟨m, wf, around⟩ := exists_surrounds large bounded
  refine .around ⟨wf, unpack_mul wf ex.unpack unpacked ?_ ?_⟩ around
  · exact long.trans (Nat.le_mul_of_pos_left M ex.wf.pos)
  · rw [exact]
    exact around

end RunLog.Decimal
