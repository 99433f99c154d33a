import Mathlib
import RunLog.Decimal.Reading
import RunLog.Proofs.DoubleBits

/-!
# The double that a decimal stands for

An exact decimal becomes a double in one of two ways. A short one with a small
power of ten is a product or a quotient of two doubles that are exact; any other
one is worked out in whole numbers. Either way it becomes the double whose
interval it lies in. Decimals that become zero or infinity are not treated.
-/
namespace RunLog.Decimal
open Float.Model UnpackedFloat

def Scientific.value (s : Scientific) : ℚ :=
  s.mantissa * 10 ^ s.exponent

/-- Whether a number that is taken apart is the given whole number, with all 53 bits in use. -/
def isExactly (n : ℕ) : UnpackedFloat → Bool
  | .finite .positive M E _ =>
      decide (2 ^ 52 ≤ M) && M * 2 ^ E.toNat == n * 2 ^ (-E).toNat
  | _ => false

theorem isExactly_iff {n : ℕ} {u : UnpackedFloat} (h : isExactly n u = true) :
    ∃ M E pos, u = .finite .positive M E pos ∧ 2 ^ 52 ≤ M ∧ (M : ℚ) * 2 ^ E = n := by
  cases u with
  | finite s M E pos =>
      cases s with
      | negative => cases h
      | positive =>
          simp only [isExactly, Bool.and_eq_true, decide_eq_true_eq, beq_iff_eq] at h
          refine ⟨M, E, pos, rfl, h.1, ?_⟩
          have scaled : (M : ℚ) * 2 ^ E.toNat = n * 2 ^ (-E).toNat := by exact_mod_cast h.2
          rw [zpow_toNat two_ne_zero, ← mul_div_assoc, scaled]
          field_simp
  | _ => cases h

theorem powersOfTen_exact : ∀ (e : ℕ) (_ : e < Float.exactlyRepresentablePowersOfTen.size),
    isExactly (10 ^ e) Float.exactlyRepresentablePowersOfTen[e].toModel.unpack = true := by
  decide +kernel

/-- A whole number of up to 53 bits, moved to the left until it has all of them. -/
theorem round_exact {n : ℕ} (pos : 0 < n) (short : n < 2 ^ 53) (s : Sign) :
    ∃ M E pos, UnpackedFloat.round Format.binary64 s n 0 = .finite s M E pos ∧
      2 ^ 52 ≤ M ∧ M < 2 ^ 53 ∧ -1074 ≤ E ∧ E ≤ 971 ∧ (M : ℚ) * 2 ^ E = n := by
  obtain ⟨k, hk⟩ : ∃ k, k + n.log2 = 52 :=
    ⟨52 - n.log2, by have := (Nat.log2_lt pos.ne').mpr short; omega⟩
  have aim : (-Format.binary64.targetExponent (totalExponent n 0)).toNat = k := by
    rw [targetExponent_eq, totalExponent]
    omega
  have bits : 2 ^ n.log2 ≤ n := Nat.log2_self_le pos.ne'
  have bits' : n < 2 ^ (n.log2 + 1) := Nat.lt_log2_self
  have shifted : n <<< k = n * 2 ^ k := Nat.shiftLeft_eq n k
  have long : 2 ^ 52 ≤ n <<< k := by
    calc 2 ^ 52 = 2 ^ n.log2 * 2 ^ k := by rw [← pow_add, Nat.add_comm, hk]
      _ ≤ n * 2 ^ k := Nat.mul_le_mul_right _ bits
      _ = n <<< k := shifted.symm
  have below : n <<< k < 2 ^ 53 := by
    calc n <<< k = n * 2 ^ k := shifted
      _ < 2 ^ (n.log2 + 1) * 2 ^ k := Nat.mul_lt_mul_of_pos_right bits' (by positivity)
      _ = 2 ^ 53 := by rw [← pow_add]; congr 1; omega
  let m : Magnitude := ⟨n <<< k, -k, decide (n <<< k = 2 ^ 52)⟩
  have wf : m.WellFormed :=
    { pos := by change 0 < n <<< k; omega
      short := below
      least := by change -1074 ≤ -(k : ℤ); omega
      greatest := by change -(k : ℤ) ≤ 971; omega
      long := .inl long
      narrow := by
        change decide (n <<< k = 2 ^ 52) = true ↔ n <<< k = 2 ^ 52 ∧ -1074 < -(k : ℤ)
        rw [decide_eq_true_eq]
        omega }
  refine ⟨n <<< k, -k, wf.pos, ?_, long, below, wf.least, wf.greatest, ?_⟩
  · rw [UnpackedFloat.round, decreaseExponent]
    simp only [zero_sub, aim]
    exact wf.roundWithAccuracy m.surrounds_value (Marks.exact _) (fits_of_bits (.inr long)) s
  · rw [shifted, zpow_neg, zpow_natCast]
    push_cast
    field_simp

theorem toFloat_exact {n : ℕ} (pos : 0 < n) (short : n < 2 ^ 53) :
    ∃ M E pos, n.toUInt64.toFloat.toModel.unpack = .finite .positive M E pos ∧ 2 ^ 52 ≤ M ∧
      (M : ℚ) * 2 ^ E = n := by
  obtain ⟨M, E, hM, rounded, long, below, least, greatest, value⟩ :=
    round_exact pos short .positive
  refine ⟨M, E, hM, ?_, long, value⟩
  have word : n.toUInt64.toNat = n := UInt64.toNat_ofNat_of_lt' (by change n < 2 ^ 64; omega)
  have sign : compare (n : ℤ) 0 = .gt := compare_gt_iff_gt.mpr (by exact_mod_cast pos)
  change (Float.Model.pack (UnpackedFloat.ofNat Format.binary64 n.toUInt64.toNat)).unpack = _
  rw [word, UnpackedFloat.ofNat, UnpackedFloat.ofInt, UnpackedFloat.normalize, sign]
  simp only [Int.toNat_natCast, rounded]
  exact unpack_pack hM below least greatest (.inl long) _

section Around

variable {m : Magnitude} {n : ℕ} {v : ℚ}

theorem Magnitude.WellFormed.lower_pos (wf : m.WellFormed) : 0 < m.lower := by
  have one : (1 : ℚ) ≤ m.mantissa := by exact_mod_cast wf.pos
  rw [Magnitude.lower]
  refine mul_pos ?_ (by positivity)
  split_ifs <;> linarith

theorem Magnitude.WellFormed.least_lt (wf : m.WellFormed) (h : m.Surrounds v) :
    2 ^ (-1076 : ℤ) < v := by
  have one : (1 : ℚ) ≤ m.mantissa := by exact_mod_cast wf.pos
  have steps : (2 : ℚ) ^ (-1076 : ℤ) ≤ 2 ^ (m.exponent - 2) :=
    zpow_le_zpow_right₀ one_le_two (by have := wf.least; omega)
  have pos : (0 : ℚ) < 2 ^ (-1076 : ℤ) := by positivity
  refine lt_of_lt_of_le ?_ h.low
  calc (2 : ℚ) ^ (-1076 : ℤ) < 2 * 2 ^ (-1076 : ℤ) := by linarith
    _ ≤ m.lower := by
        rw [Magnitude.lower]
        refine mul_le_mul ?_ steps pos.le ?_ <;> split_ifs <;> linarith

theorem Magnitude.WellFormed.lt_greatest (wf : m.WellFormed) (h : m.Surrounds v) :
    v < 2 ^ (1025 : ℤ) := by
  have short : (m.mantissa : ℚ) + 1 ≤ 2 ^ 53 := by exact_mod_cast wf.short
  have steps : (2 : ℚ) ^ (m.exponent - 2) ≤ 2 ^ (969 : ℤ) :=
    zpow_le_zpow_right₀ one_le_two (by have := wf.greatest; omega)
  have pos : (0 : ℚ) < 2 ^ (969 : ℤ) := zpow_pos two_pos _
  have below := h.high
  rw [Magnitude.upper] at below
  rw [show (1025 : ℤ) = 56 + 969 from rfl, zpow_add₀ two_ne_zero]
  generalize (2 : ℚ) ^ (969 : ℤ) = u at *
  calc v ≤ (4 * m.mantissa + 2) * 2 ^ (m.exponent - 2) := below
    _ ≤ (4 * m.mantissa + 2) * u := by gcongr
    _ < 2 ^ (56 : ℤ) * u := by
        refine mul_lt_mul_of_pos_right ?_ pos
        norm_num at short ⊢
        linarith

theorem Magnitude.WellFormed.power_bounds (wf : m.WellFormed) {e : ℤ} (pos : 0 < n)
    (around : m.Surrounds (n * 10 ^ e)) :
    ¬e > 2 ^ Format.binary64.exponentBits ∧
      ¬e < -((2 ^ Format.binary64.exponentBits : ℤ) + n.log2) := by
  have one : (1 : ℚ) ≤ n := by exact_mod_cast pos
  have fives : (10 : ℚ) ^ e = 5 ^ e * 2 ^ e := by
    rw [← mul_zpow]
    norm_num
  have two : (0 : ℚ) < 2 ^ e := by positivity
  constructor
  · change ¬e > 2 ^ 11
    intro huge
    have five : (1 : ℚ) ≤ 5 ^ e := one_le_zpow₀ (by norm_num) (by omega)
    have power : (2 : ℚ) ^ (1025 : ℤ) ≤ 2 ^ e := zpow_le_zpow_right₀ one_le_two (by omega)
    have ten : (2 : ℚ) ^ e ≤ 10 ^ e := fives ▸ le_mul_of_one_le_left two.le five
    have value : (10 : ℚ) ^ e ≤ n * 10 ^ e := le_mul_of_one_le_left (by positivity) one
    exact absurd (wf.lt_greatest around) (not_lt.mpr (power.trans (ten.trans value)))
  · change ¬e < -(2 ^ 11 + (n.log2 : ℤ))
    intro tiny
    have five : (5 : ℚ) ^ e ≤ 1 := zpow_le_one_of_nonpos₀ (by norm_num) (by omega)
    have ten : (10 : ℚ) ^ e ≤ 2 ^ e := fives ▸ mul_le_of_le_one_left two.le five
    have bits : (n : ℚ) ≤ 2 ^ ((n.log2 : ℤ) + 1) := by exact_mod_cast Nat.lt_log2_self.le
    have value : (n : ℚ) * 10 ^ e ≤ 2 ^ ((n.log2 : ℤ) + 1 + e) := by
      rw [zpow_add₀ two_ne_zero]
      gcongr
    have power : (2 : ℚ) ^ ((n.log2 : ℤ) + 1 + e) ≤ 2 ^ (-1076 : ℤ) :=
      zpow_le_zpow_right₀ one_le_two (by omega)
    exact absurd (wf.least_lt around) (not_lt.mpr (value.trans power))

theorem Magnitude.WellFormed.mantissa_pos (wf : m.WellFormed) {e : ℤ}
    (around : m.Surrounds (n * 10 ^ e)) : 0 < n := by
  have positive : (0 : ℚ) < n * 10 ^ e := wf.lower_pos.trans_le around.low
  exact_mod_cast pos_of_mul_pos_left positive (by positivity)

/-- Working a decimal out in whole numbers finds the double it lies around. -/
theorem ofScientific_around (wf : m.WellFormed) {e : ℤ} (around : m.Surrounds (n * 10 ^ e)) :
    UnpackedFloat.ofScientific Format.binary64 n e =
      .finite .positive m.mantissa m.exponent wf.pos := by
  have pos := wf.mantissa_pos around
  have nonzero : n ≠ 0 := pos.ne'
  obtain ⟨notHuge, notTiny⟩ := wf.power_bounds pos around
  rw [UnpackedFloat.ofScientific, dif_neg nonzero, if_neg notHuge, if_neg notTiny]
  split_ifs with whole
  · refine mul_finite wf _ _ ?_ ?_
    · change 2 ^ 52 ≤ n <<< 53 * 10 ^ e.toNat
      have more : 1 * 1 ≤ n * 10 ^ e.toNat :=
        Nat.mul_le_mul pos (Nat.pow_pos (by decide))
      rw [Nat.shiftLeft_eq, Nat.mul_right_comm]
      omega
    · change m.Surrounds ((n <<< 53 : ℕ) * 2 ^ (-53 : ℤ) * ((10 ^ e.toNat : ℕ) * 2 ^ (0 : ℤ)))
      convert around using 1
      obtain ⟨k, rfl⟩ := Int.eq_ofNat_of_zero_le whole
      rw [Nat.shiftLeft_eq, Int.toNat_natCast, zpow_natCast]
      push_cast
      norm_num
      ring
  · refine div_finite wf _ _ ?_
    convert around using 1
    obtain ⟨k, rfl⟩ : ∃ k : ℕ, e = -k := ⟨(-e).toNat, by omega⟩
    rw [neg_neg, Int.toNat_natCast, zpow_neg, zpow_natCast]
    push_cast
    norm_num
    rfl

theorem pack_magnitude (wf : m.WellFormed) (s : Sign) :
    (Float.Model.pack (.finite s m.mantissa m.exponent wf.pos)).unpack =
      .finite s m.mantissa m.exponent wf.pos :=
  unpack_pack wf.pos wf.short wf.least wf.greatest wf.long s

section Exact

variable {a b : Float} {M₁ M₂ : ℕ} {E₁ E₂ : ℤ} {pos₁ : 0 < M₁} {pos₂ : 0 < M₂}

theorem unpack_div (wf : m.WellFormed) (ha : a.toModel.unpack = .finite .positive M₁ E₁ pos₁)
    (hb : b.toModel.unpack = .finite .positive M₂ E₂ pos₂)
    (around : m.Surrounds (M₁ * 2 ^ E₁ / (M₂ * 2 ^ E₂))) :
    (a / b).toModel.unpack = .finite .positive m.mantissa m.exponent wf.pos := by
  change (Float.Model.pack
    (UnpackedFloat.div Format.binary64 a.toModel.unpack b.toModel.unpack)).unpack = _
  rw [ha, hb, div_finite wf pos₁ pos₂ around]
  exact pack_magnitude wf _

theorem unpack_mul (wf : m.WellFormed) (ha : a.toModel.unpack = .finite .positive M₁ E₁ pos₁)
    (hb : b.toModel.unpack = .finite .positive M₂ E₂ pos₂) (long : 2 ^ 52 ≤ M₁ * M₂)
    (around : m.Surrounds (M₁ * 2 ^ E₁ * (M₂ * 2 ^ E₂))) :
    (a * b).toModel.unpack = .finite .positive m.mantissa m.exponent wf.pos := by
  change (Float.Model.pack
    (UnpackedFloat.mul Format.binary64 a.toModel.unpack b.toModel.unpack)).unpack = _
  rw [ha, hb, mul_finite wf pos₁ pos₂ long around]
  exact pack_magnitude wf _

end Exact

/-- The short way: both factors are exact, so there is one rounding only. -/
theorem unpack_ofScientific_small (wf : m.WellFormed) {e : ℤ} (pos : 0 < n)
    (small : n < 2 ^ 53 ∧ e.natAbs ≤ 22) (around : m.Surrounds (n * 10 ^ e)) :
    (Float.ofScientific n (e < 0) e.natAbs).toModel.unpack =
      .finite .positive m.mantissa m.exponent wf.pos := by
  obtain ⟨M₁, E₁, pos₁, eq₁, long₁, value₁⟩ := toFloat_exact pos small.1
  obtain ⟨M₂, E₂, pos₂, eq₂, long₂, value₂⟩ :=
    isExactly_iff (powersOfTen_exact e.natAbs (by change e.natAbs < 23; omega))
  simp only [Float.ofScientific, dif_pos small]
  by_cases negative : e < 0
  · rw [if_pos (decide_eq_true negative)]
    refine unpack_div wf eq₁ eq₂ ?_
    have power : (10 : ℚ) ^ e = ((10 ^ e.natAbs : ℕ) : ℚ)⁻¹ := by
      rw [Nat.cast_pow, ← zpow_natCast, ← zpow_neg, Int.ofNat_natAbs_of_nonpos negative.le,
        neg_neg]
      rfl
    rwa [value₁, value₂, div_eq_mul_inv, ← power]
  · rw [if_neg (by simpa using negative)]
    refine unpack_mul wf eq₁ eq₂ (long₁.trans (Nat.le_mul_of_pos_right _ pos₂)) ?_
    have power : (10 : ℚ) ^ e = (10 ^ e.natAbs : ℕ) := by
      rw [Nat.cast_pow, ← zpow_natCast, Int.natAbs_of_nonneg (not_lt.mp negative)]
      rfl
    rwa [value₁, value₂, ← power]

/-- A decimal becomes the double that it lies around. -/
theorem Scientific.unpack_toFloat (wf : m.WellFormed) {s : Scientific}
    (around : m.Surrounds s.value) :
    s.toFloat.toModel.unpack = .finite .positive m.mantissa m.exponent wf.pos := by
  obtain ⟨n, e⟩ := s
  change m.Surrounds (n * 10 ^ e) at around
  change (Float.ofScientific n (e < 0) e.natAbs).toModel.unpack = _
  by_cases small : n < 2 ^ 53 ∧ e.natAbs ≤ 22
  · exact unpack_ofScientific_small wf (wf.mantissa_pos around) small around
  · have signed : (if decide (e < 0) = true then Int.negOfNat e.natAbs else Int.ofNat e.natAbs) =
        e := by
      simp only [decide_eq_true_eq, Int.negOfNat_eq, Int.ofNat_eq_natCast]
      split_ifs <;> omega
    rw [Float.ofScientific, dif_neg small]
    simp only [signed]
    change (Float.Model.pack (UnpackedFloat.ofScientific Format.binary64 n e)).unpack = _
    rw [ofScientific_around wf around]
    exact pack_magnitude wf _

end Around

end RunLog.Decimal
