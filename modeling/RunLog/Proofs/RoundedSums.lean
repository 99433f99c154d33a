import Mathlib
import RunLog.Proofs.DoubleWorth

/-!
# Rounded sums, differences and products

A sum of two finite doubles is the exact sum, rounded on the grid of binary numbers and, beyond
the greatest double, to infinity; so are differences and products (`becomes_add`, `becomes_sub`,
`becomes_mul`). The operations work on numbers that are taken apart and round once, whatever
the signs and however large the result (`RoundsTo`); what is too large is found when the result
is put together (`RoundsTo.becomes`).

What is shown of rounding to the grid carries over. The sum is on the same side of a double as
the exact sum is (`Becomes.le_of_le`, `Becomes.le_of_ge`), and it is finite unless the exact sum
is at least halfway behind the greatest double (`Becomes.isFinite_iff`).
-/
namespace RunLog.Decimal
open Float.Model UnpackedFloat

section Signs

variable {s t : Sign} {v w : ℚ}

theorem withSign_zero (s : Sign) : withSign s 0 = 0 := by
  cases s <;> simp [withSign]

theorem withSign_neg (s : Sign) (v : ℚ) : withSign (-s) v = -withSign s v := by
  cases s
  · exact (neg_neg v).symm
  · rfl

theorem withSign_mul (s t : Sign) (v w : ℚ) :
    withSign (s * t) (v * w) = withSign s v * withSign t w := by
  cases s <;> cases t
  · exact (neg_mul_neg v w).symm
  · exact (neg_mul v w).symm
  · exact (mul_neg v w).symm
  · rfl

theorem GridNearest.withSign (h : GridNearest v w) (s : Sign) :
    GridNearest (withSign s v) (withSign s w) := by
  cases s
  · exact h.neg
  · exact h

theorem GridNearest.zero : GridNearest 0 0 := by
  refine ⟨.zero, fun u _ => by simp, fun large => ?_⟩
  rw [abs_zero] at large
  exact absurd brink_pos (not_lt.mpr large)

end Signs

/-- A number, or the end of the doubles behind which it lies. -/
def clamp (w : ℚ) : ℚ :=
  max (-2 ^ (1024 : ℤ)) (min w (2 ^ (1024 : ℤ)))

theorem clamp_withSign (s : Sign) {w : ℚ} (nonneg : 0 ≤ w) :
    clamp (withSign s w) = withSign s (min w (2 ^ (1024 : ℤ))) := by
  have top : (0 : ℚ) < 2 ^ (1024 : ℤ) := by positivity
  rw [clamp]
  generalize (2 : ℚ) ^ (1024 : ℤ) = t at *
  cases s <;> simp only [withSign]
  · rw [min_eq_left (by linarith), max_comm, max_neg_neg]
  · exact max_eq_right (by linarith [le_min nonneg top.le])

theorem abs_clamp (w : ℚ) : |clamp w| = min |w| (2 ^ (1024 : ℤ)) := by
  have nonneg : 0 ≤ min |w| (2 ^ (1024 : ℤ)) := le_min (abs_nonneg w) (by positivity)
  rcases le_total 0 w with above | below
  · have positive := clamp_withSign .positive (abs_nonneg w)
    rw [withSign, withSign] at positive
    rw [← abs_of_nonneg nonneg, ← positive, abs_of_nonneg above]
  · have negative := clamp_withSign .negative (abs_nonneg w)
    rw [withSign, withSign, abs_of_nonpos below, neg_neg, ← abs_of_nonpos below] at negative
    rw [negative, abs_neg, abs_of_nonneg nonneg]

/-- The number that a number is rounded to, taken apart in its longest form. It is not bounded
above. -/
inductive RoundsTo (v : ℚ) : UnpackedFloat → Prop
  | zero (s : Sign) : GridNearest v 0 → RoundsTo v (.zero s)
  | finite (s : Sign) {m : ℕ} {e : ℤ} (pos : 0 < m) (short : m < 2 ^ 53) (least : -1074 ≤ e)
      (long : 2 ^ 52 ≤ m ∨ e = -1074) : GridNearest v (withSign s (m * 2 ^ e)) →
      RoundsTo v (.finite s m e pos)

/-- The double that a number is rounded to: the nearest number of the grid, or infinity where
that is beyond the greatest double. -/
def Becomes (v : ℚ) (x : Float) : Prop :=
  x.isNaN = false ∧ ∃ w, GridNearest v w ∧ worth x = clamp w

section Packing

variable {v : ℚ} {u : UnpackedFloat}

theorem unpack_pack_zero (s : Sign) : (Float.Model.pack (.zero s)).unpack = .zero s :=
  UnpackedFloat.unpack_packedZero

theorem unpack_pack_infinite {m : ℕ} {e : ℤ} (pos : 0 < m) (large : 972 ≤ e) (s : Sign) :
    (Float.Model.pack (.finite s m e pos)).unpack = .infinity s := by
  have biased : 2 ^ Format.binary64.exponentBits ≤ (e + Format.binary64.exponentBias +
      Format.binary64.mantissaBitsWithoutImplicit).toNat + 1 := by
    change 2 ^ 11 ≤ (e + 1023 + 52).toNat + 1
    omega
  change unpack Format.binary64 (UnpackedFloat.pack Format.binary64 _) = _
  rw [UnpackedFloat.pack, if_pos biased, packedInfinity, UnpackedFloat.unpack]
  simp

/-- Putting a number together finds out whether it is too large. -/
theorem worth_pack (s : Sign) {m : ℕ} {e : ℤ} (pos : 0 < m) (short : m < 2 ^ 53)
    (least : -1074 ≤ e) (long : 2 ^ 52 ≤ m ∨ e = -1074) :
    (Float.ofModel (.pack (.finite s m e pos))).isNaN = false ∧
      worth (.ofModel (.pack (.finite s m e pos))) =
        withSign s (min (m * 2 ^ e) (2 ^ (1024 : ℤ))) := by
  rcases le_or_gt e 971 with low | high
  · have unpacked : (Float.ofModel (.pack (.finite s m e pos))).toModel.unpack =
        .finite s m e pos := unpack_pack pos short least low long s
    have below := le_top short.le low
    exact ⟨congrArg UnpackedFloat.isNaN unpacked, by rw [worth, unpacked, min_eq_left below]; rfl⟩
  · have unpacked : (Float.ofModel (.pack (.finite s m e pos))).toModel.unpack = .infinity s :=
      unpack_pack_infinite pos high s
    have above := top_le (long.resolve_right (by omega)) high
    exact ⟨congrArg UnpackedFloat.isNaN unpacked, by rw [worth, unpacked, min_eq_right above]; rfl⟩

theorem RoundsTo.becomes (h : RoundsTo v u) : Becomes v (.ofModel (.pack u)) := by
  cases h with
  | zero s nearest =>
      have unpacked : (Float.ofModel (.pack (.zero s))).toModel.unpack = .zero s :=
        unpack_pack_zero s
      refine ⟨congrArg UnpackedFloat.isNaN unpacked, 0, nearest, ?_⟩
      have clamped := clamp_withSign .positive (le_refl 0)
      rw [withSign, withSign, min_eq_left (by positivity)] at clamped
      rw [clamped, worth, unpacked]
      rfl
  | finite s pos short least long nearest =>
      obtain ⟨number, exact⟩ := worth_pack s pos short least long
      exact ⟨number, _, nearest, by rw [exact, clamp_withSign s (by positivity)]⟩

end Packing

section Rounding

variable {m : ℕ} {e : ℤ}

theorem Rounds.natCast (m : ℕ) : Rounds m m :=
  ⟨by linarith, by linarith, fun ends => by rcases ends with ends | ends <;> linarith⟩

theorem RoundsTo.self (s : Sign) (pos : 0 < m) (short : m < 2 ^ 53) (least : -1074 ≤ e)
    (long : 2 ^ 52 ≤ m ∨ e = -1074) : RoundsTo (withSign s (m * 2 ^ e)) (.finite s m e pos) := by
  have unit : (0 : ℚ) < 2 ^ e := by positivity
  have exact : (m : ℚ) * 2 ^ e / 2 ^ e = m := mul_div_cancel_right₀ _ unit.ne'
  have rounds : Rounds (m * 2 ^ e / 2 ^ e) m := by
    rw [exact]
    exact .natCast m
  have nearest : GridNearest (m * 2 ^ e : ℚ) (m * 2 ^ e) := by
    refine rounds.gridNearest (by positivity) least ?_ (long.imp_left fun long => ?_)
    · rw [add_comm, zpow_add₀ two_ne_zero]
      exact mul_lt_mul_of_pos_right (by exact_mod_cast short) unit
    · rw [add_comm, zpow_add₀ two_ne_zero]
      exact mul_le_mul_of_nonneg_right (by exact_mod_cast long) unit.le
  exact .finite s pos short least long (nearest.withSign s)

/-- The exponent that is aimed at leaves 53 bits to the number, or is the least one. -/
theorem targetExponent_bounds {T : ℤ} (pos : 0 < m)
    (target : Format.binary64.targetExponent (totalExponent m e) = T) :
    -1074 ≤ T ∧ (m : ℚ) * 2 ^ e < 2 ^ (T + 53) ∧
      ((2 : ℚ) ^ (T + 52) ≤ m * 2 ^ e ∨ T = -1074) := by
  have bits : (2 : ℚ) ^ (m.log2 : ℤ) ≤ m := by exact_mod_cast Nat.log2_self_le pos.ne'
  have bits' : (m : ℚ) < 2 ^ ((m.log2 : ℤ) + 1) := by exact_mod_cast Nat.lt_log2_self
  have unit : (0 : ℚ) < 2 ^ e := by positivity
  rw [targetExponent_eq, totalExponent] at target
  refine ⟨by omega, ?_, ?_⟩
  · calc (m : ℚ) * 2 ^ e < 2 ^ ((m.log2 : ℤ) + 1) * 2 ^ e := by gcongr
      _ = 2 ^ ((m.log2 : ℤ) + 1 + e) := (zpow_add₀ two_ne_zero _ _).symm
      _ ≤ 2 ^ (T + 53) := zpow_le_zpow_right₀ one_le_two (by omega)
  · rcases le_or_gt T (-1074) with bottom | above
    · exact .inr (by omega)
    · refine .inl ?_
      calc (2 : ℚ) ^ (T + 52) = 2 ^ (m.log2 + e : ℤ) := by
            congr 1
            omega
        _ = 2 ^ (m.log2 : ℤ) * 2 ^ e := zpow_add₀ two_ne_zero _ _
        _ ≤ m * 2 ^ e := by gcongr

theorem roundWithAccuracy_zero {accuracy : Accuracy} {q : ℚ} {T : ℤ} (s : Sign)
    (marks : Marks (.ofMantissaAndAccuracy m accuracy) q)
    (fits : e ≤ Format.binary64.targetExponent (totalExponent m e))
    (target : Format.binary64.targetExponent (totalExponent m e) = T) (least : -1074 ≤ T)
    (rounds : Rounds (q * 2 ^ e / 2 ^ T) 0) :
    roundWithAccuracy Format.binary64 s m e accuracy = .zero s := by
  have stays : shiftToTargetExponent Format.binary64 0 T .exact = (⟨0, false, false⟩, T) := by
    have amount : (Format.binary64.targetExponent (totalExponent 0 T) - T).toNat = 0 := by
      rw [targetExponent_eq, totalExponent, Nat.log2_zero]
      omega
    rw [shiftToTargetExponent, shiftToExponent, amount]
    simp [ExtendedMantissa.ofMantissaAndAccuracy]
    rfl
  rw [roundWithAccuracy_eq s marks fits target rounds, stays]
  rfl

theorem roundsTo_roundWithAccuracy (s : Sign) (pos : 0 < m)
    (fits : e ≤ Format.binary64.targetExponent (totalExponent m e)) :
    RoundsTo (withSign s (m * 2 ^ e)) (roundWithAccuracy Format.binary64 s m e .exact) := by
  obtain ⟨T, target⟩ : ∃ T, Format.binary64.targetExponent (totalExponent m e) = T := ⟨_, rfl⟩
  obtain ⟨least, high, long⟩ := targetExponent_bounds pos target
  obtain ⟨N, rounds⟩ := exists_rounds (by positivity : (0 : ℚ) ≤ m * 2 ^ e / 2 ^ T)
  have nearest := (rounds.gridNearest (by positivity) least high long).withSign s
  have marks := Marks.exact m
  rcases Nat.eq_zero_or_pos N with rfl | some
  · rw [roundWithAccuracy_zero s marks fits target least rounds]
    rw [Nat.cast_zero, zero_mul, withSign_zero] at nearest
    exact .zero s nearest
  rcases (rounds.le_carry high).lt_or_eq with short | rfl
  · rw [roundWithAccuracy_finite s marks fits target least rounds some short]
    exact .finite s some short least (long.imp_left rounds.normal) nearest
  · rw [roundWithAccuracy_carry s marks fits target least rounds]
    refine .finite s _ (by norm_num) (by omega) (.inl le_rfl) ?_
    have same : ((2 ^ 52 : ℕ) : ℚ) * 2 ^ (T + 1) = (2 ^ 53 : ℕ) * 2 ^ T := by
      rw [zpow_add_one₀ two_ne_zero]
      push_cast
      ring
    rwa [same]

theorem decreaseExponent_value (m : ℕ) (e t : ℤ) :
    ((decreaseExponent m e t).1 : ℚ) * 2 ^ (decreaseExponent m e t).2 = m * 2 ^ e := by
  rw [decreaseExponent, Nat.shiftLeft_eq]
  push_cast
  rw [← zpow_natCast, mul_assoc, ← zpow_add₀ two_ne_zero]
  congr 2
  omega

theorem log2_shiftLeft (pos : 0 < m) (k : ℕ) : (m <<< k).log2 = m.log2 + k := by
  rw [Nat.shiftLeft_eq]
  refine (Nat.log2_eq_iff (by positivity)).mpr ⟨?_, ?_⟩
  · rw [pow_add]
    exact Nat.mul_le_mul_right _ (Nat.log2_self_le pos.ne')
  · rw [Nat.add_right_comm, pow_add]
    exact Nat.mul_lt_mul_of_pos_right Nat.lt_log2_self (by positivity)

theorem roundsTo_round (s : Sign) (pos : 0 < m) :
    RoundsTo (withSign s (m * 2 ^ e)) (round Format.binary64 s m e) := by
  have exact := decreaseExponent_value m e (Format.binary64.targetExponent (totalExponent m e))
  rw [UnpackedFloat.round, ← exact]
  obtain ⟨k, hk⟩ : ∃ k, (e - Format.binary64.targetExponent (totalExponent m e)).toNat = k :=
    ⟨_, rfl⟩
  simp only [decreaseExponent, hk]
  have same : totalExponent (m <<< k) (e - k) = totalExponent m e := by
    rw [totalExponent, totalExponent, log2_shiftLeft pos]
    push_cast
    ring
  refine roundsTo_roundWithAccuracy s ?_ ?_
  · rw [Nat.shiftLeft_eq]
    positivity
  · rw [same]
    omega

theorem roundsTo_normalize (z : ℤ) (e : ℤ) :
    RoundsTo (z * 2 ^ e) (UnpackedFloat.normalize Format.binary64 z e .positive) := by
  rw [UnpackedFloat.normalize]
  rcases lt_trichotomy z 0 with neg | rfl | pos
  · rw [compare_lt_iff_lt.mpr neg]
    have whole : ((-z).toNat : ℚ) = -z := by exact_mod_cast Int.toNat_of_nonneg (by omega)
    have rounded := roundsTo_round (e := e) .negative (by omega : 0 < (-z).toNat)
    rwa [withSign, whole, neg_mul, neg_neg] at rounded
  · rw [compare_eq_iff_eq.mpr rfl, Int.cast_zero, zero_mul]
    exact .zero _ .zero
  · rw [compare_gt_iff_gt.mpr pos]
    have whole : (z.toNat : ℚ) = z := by exact_mod_cast Int.toNat_of_nonneg pos.le
    have rounded := roundsTo_round (e := e) .positive (by omega : 0 < z.toNat)
    rwa [withSign, whole] at rounded

end Rounding

section Operations

variable {u v : UnpackedFloat}

theorem withSign_decreaseExponent (s : Sign) (m : ℕ) {e t : ℤ} (le : t ≤ e) :
    (s.apply (decreaseExponent m e t).1 : ℚ) * 2 ^ t = withSign s (m * 2 ^ e) := by
  have exponent : (decreaseExponent m e t).2 = t := by
    rw [decreaseExponent]
    omega
  have exact := decreaseExponent_value m e t
  rw [exponent] at exact
  rw [← exact]
  cases s <;> simp [Sign.apply, withSign]

theorem roundsTo_add (hu : Canonical u) (hv : Canonical v) (fu : u.isFinite = true)
    (fv : v.isFinite = true) :
    RoundsTo (unpackedWorth u + unpackedWorth v) (UnpackedFloat.add Format.binary64 u v) := by
  cases hu with
  | infinity => cases fu
  | zero s =>
      cases hv with
      | infinity => cases fv
      | zero t =>
          rw [unpackedWorth, unpackedWorth, add_zero]
          cases s <;> cases t <;> exact .zero _ .zero
      | finite t pos short least high long =>
          rw [unpackedWorth, zero_add]
          exact .self t pos short least long
  | finite s pos short least high long =>
      cases hv with
      | infinity => cases fv
      | zero t =>
          rw [unpackedWorth, unpackedWorth, add_zero]
          exact .self s pos short least long
      | finite t pos' short' least' high' long' =>
          rename_i m e n f
          have rounded := roundsTo_normalize
            (s.apply (decreaseExponent m e (min e f)).1 +
              t.apply (decreaseExponent n f (min e f)).1) (min e f)
          rw [Int.cast_add, add_mul, withSign_decreaseExponent s m (min_le_left e f),
            withSign_decreaseExponent t n (min_le_right e f)] at rounded
          exact rounded

theorem unpacked_sub_eq (u v : UnpackedFloat) :
    UnpackedFloat.sub Format.binary64 u v = UnpackedFloat.add Format.binary64 u v.neg := by
  cases u <;> cases v <;> try rfl
  rename_i s m e pos t n f pos'
  simp only [UnpackedFloat.sub, UnpackedFloat.neg, UnpackedFloat.add]
  cases t
  · simp only [Sign.apply, sub_neg_eq_add]
  · simp only [Sign.apply, Int.sub_eq_add_neg]

theorem Canonical.neg (hv : Canonical v) : Canonical v.neg := by
  cases hv with
  | zero s => exact .zero _
  | infinity s => exact .infinity _
  | finite s pos short least high long => exact .finite _ pos short least high long

theorem unpackedWorth_neg (v : UnpackedFloat) : unpackedWorth v.neg = -unpackedWorth v := by
  cases v with
  | notANumber => exact neg_zero.symm
  | zero s => exact neg_zero.symm
  | infinity s => exact withSign_neg s _
  | finite s m e pos => exact withSign_neg s _

theorem isFinite_neg (v : UnpackedFloat) : v.neg.isFinite = v.isFinite := by
  cases v <;> rfl

theorem roundsTo_sub (hu : Canonical u) (hv : Canonical v) (fu : u.isFinite = true)
    (fv : v.isFinite = true) :
    RoundsTo (unpackedWorth u - unpackedWorth v) (UnpackedFloat.sub Format.binary64 u v) := by
  rw [unpacked_sub_eq, sub_eq_add_neg, ← unpackedWorth_neg]
  exact roundsTo_add hu hv.neg fu ((isFinite_neg v).trans fv)

theorem roundsTo_mul (hu : Canonical u) (hv : Canonical v) (fu : u.isFinite = true)
    (fv : v.isFinite = true) :
    RoundsTo (unpackedWorth u * unpackedWorth v) (UnpackedFloat.mul Format.binary64 u v) := by
  cases hu with
  | infinity => cases fu
  | zero s =>
      rw [unpackedWorth, zero_mul]
      cases hv with
      | infinity => cases fv
      | zero t => exact .zero _ .zero
      | finite t pos short least high long => exact .zero _ .zero
  | finite s pos short least high long =>
      cases hv with
      | infinity => cases fv
      | zero t =>
          rw [unpackedWorth, unpackedWorth, mul_zero]
          exact .zero _ .zero
      | finite t pos' short' least' high' long' =>
          rename_i m e n f
          have fits : e + f ≤ -1074 ∨ 2 ^ 52 ≤ m * n := by
            rcases long with long | bottom
            · exact .inr (long.trans (Nat.le_mul_of_pos_right m pos'))
            · rcases long' with long' | bottom'
              · exact .inr (long'.trans (Nat.le_mul_of_pos_left n pos))
              · exact .inl (by omega)
          have rounded := roundsTo_roundWithAccuracy (s * t) (Nat.mul_pos pos pos')
            (fits_of_bits fits)
          have product : ((m * n : ℕ) : ℚ) * 2 ^ (e + f) = m * 2 ^ e * (n * 2 ^ f) := by
            rw [zpow_add₀ two_ne_zero]
            push_cast
            ring
          rw [product, withSign_mul] at rounded
          exact rounded

end Operations

section Doubles

variable {a b : Float}

theorem canonical_of_isFinite (ha : a.isFinite = true) : Canonical a.toModel.unpack :=
  (unpackedRank_unpack (isNaN_of_isFinite ha)).1

theorem becomes_add (ha : a.isFinite = true) (hb : b.isFinite = true) :
    Becomes (worth a + worth b) (a + b) :=
  (roundsTo_add (canonical_of_isFinite ha) (canonical_of_isFinite hb) ha hb).becomes

theorem becomes_sub (ha : a.isFinite = true) (hb : b.isFinite = true) :
    Becomes (worth a - worth b) (a - b) :=
  (roundsTo_sub (canonical_of_isFinite ha) (canonical_of_isFinite hb) ha hb).becomes

theorem becomes_mul (ha : a.isFinite = true) (hb : b.isFinite = true) :
    Becomes (worth a * worth b) (a * b) :=
  (roundsTo_mul (canonical_of_isFinite ha) (canonical_of_isFinite hb) ha hb).becomes

end Doubles

namespace Becomes

variable {v v' : ℚ} {x x' y : Float}

theorem isNaN (h : Becomes v x) : x.isNaN = false := h.1

/-- What lies below a number of the grid does so after rounding, unless this number lies below
all doubles. -/
theorem le_of_onGrid {u : ℚ} (h : Becomes v x) (hu : OnGrid u) (low : -2 ^ (1024 : ℤ) ≤ u)
    (le : v ≤ u) : worth x ≤ u := by
  obtain ⟨-, w, nearest, exact⟩ := h
  rw [exact, clamp]
  exact max_le low ((min_le_left _ _).trans (nearest.le_of_le hu le))

theorem le_of_le (h : Becomes v x) (hy : y.isNaN = false) (le : v ≤ worth y) :
    worth x ≤ worth y :=
  h.le_of_onGrid (onGrid_worth hy) (abs_le.mp (abs_worth_le hy)).1 le

theorem le_of_ge (h : Becomes v x) (hy : y.isNaN = false) (ge : worth y ≤ v) :
    worth y ≤ worth x := by
  obtain ⟨-, w, nearest, exact⟩ := h
  have bound := abs_le.mp (abs_worth_le hy)
  rw [exact, clamp]
  exact le_max_of_le_right (le_min (nearest.le_of_ge (onGrid_worth hy) ge) bound.2)

theorem nonneg (h : Becomes v x) (hv : 0 ≤ v) : 0 ≤ worth x := by
  rw [← worth_zero] at hv ⊢
  exact h.le_of_ge (by rfl) hv

/-- A larger number does not become a smaller double. -/
theorem mono (h : Becomes v x) (h' : Becomes v' x') (lt : v < v') : worth x ≤ worth x' := by
  obtain ⟨-, w, nearest, exact⟩ := h
  obtain ⟨-, w', nearest', exact'⟩ := h'
  rw [exact, exact', clamp, clamp]
  exact max_le_max_left _ (min_le_min_right _ (nearest.mono nearest' lt))

theorem worth_eq (h : Becomes (worth y) x) (hy : y.isNaN = false) : worth x = worth y :=
  le_antisymm (h.le_of_le hy le_rfl) (h.le_of_ge hy le_rfl)

theorem isFinite_iff (h : Becomes v x) :
    x.isFinite = true ↔ |v| < 2 ^ (1024 : ℤ) - 2 ^ (970 : ℤ) := by
  rw [isFinite_iff_worth h.isNaN]
  obtain ⟨-, w, nearest, exact⟩ := h
  rw [exact, abs_clamp, min_lt_iff, or_iff_left (lt_irrefl _), ← not_le, nearest.beyond_iff, not_le]

end Becomes

end RunLog.Decimal
