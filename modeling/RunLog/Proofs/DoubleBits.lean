import Mathlib
import RunLog.Decimal.Rounding
import RunLog.Proofs.FloatOrder
import RunLog.Proofs.Roundings

/-!
# Doubles and their magnitudes

The magnitude of a double is read off its bits, and arithmetic takes a double
apart into a sign, a mantissa and an exponent. Both see the same numbers, and a
double is put together from them again without loss. The two zeros have no
magnitude of their own and are told apart by their sign only.
-/
namespace RunLog.Decimal
open Float.Model UnpackedFloat

theorem unpackSign_packComponents {spec : Format} {s : Sign}
    {e : BitVec spec.exponentBits} {f : BitVec spec.mantissaBitsWithoutImplicit} :
    unpackSign (packComponents spec s e f) = s.toBitVec := by
  ext i hi
  obtain rfl : i = 0 := by omega
  simp [unpackSign, packComponents, BitVec.getLsbD_append, BitVec.getElem_append]

theorem ofBitVec_toBitVec (s : Sign) : Sign.ofBitVec s.toBitVec = s := by
  cases s <;> rfl

theorem finite_congr {s t : Sign} {m n : ℕ} {e f : ℤ} {hm : 0 < m} {hn : 0 < n} (hs : s = t)
    (hmn : m = n) (hef : e = f) : UnpackedFloat.finite s m e hm = .finite t n f hn := by
  subst hs hmn hef
  rfl

section Bits

variable {b : BitVec Format.binary64.numBits}

theorem unpack_normal (low : (unpackExponent b).toNat ≠ 0)
    (high : (unpackExponent b).toNat ≠ 2047) :
    unpack Format.binary64 b =
      .finite (Sign.ofBitVec (unpackSign b)) (2 ^ 52 + (unpackMantissa b).toNat)
        ((unpackExponent b).toNat - 1075) (by positivity) := by
  have infinite : unpackExponent b ≠ -1#_ := fun h => high (congrArg BitVec.toNat h)
  have subnormal : unpackExponent b ≠ 0#_ := fun h => low (congrArg BitVec.toNat h)
  have short : (unpackMantissa b).toNat < 2 ^ 52 := (unpackMantissa b).isLt
  rw [UnpackedFloat.unpack]
  simp only [if_neg infinite, if_neg subnormal]
  refine finite_congr rfl ?_ rfl
  rw [BitVec.toNat_append]
  exact (Nat.two_pow_add_eq_or_of_lt short 1).symm

theorem unpack_subnormal (low : (unpackExponent b).toNat = 0)
    (pos : 0 < (unpackMantissa b).toNat) :
    unpack Format.binary64 b =
      .finite (Sign.ofBitVec (unpackSign b)) (unpackMantissa b).toNat (-1074) pos := by
  have subnormal : unpackExponent b = 0#_ := BitVec.eq_of_toNat_eq low
  have infinite : unpackExponent b ≠ -1#_ := by
    rw [subnormal]
    decide
  have positive : unpackMantissa b ≠ 0#_ := fun h => pos.ne' (congrArg BitVec.toNat h)
  rw [UnpackedFloat.unpack]
  simp only [if_neg infinite, if_pos subnormal, dif_neg positive]
  refine finite_congr rfl rfl ?_
  rw [low]
  rfl

end Bits

theorem unpack_pack {M : ℕ} {E : ℤ} (pos : 0 < M) (short : M < 2 ^ 53) (least : -1074 ≤ E)
    (greatest : E ≤ 971) (long : 2 ^ 52 ≤ M ∨ E = -1074) (s : Sign) :
    (Float.Model.pack (.finite s M E pos)).unpack = .finite s M E pos := by
  change unpack Format.binary64 (UnpackedFloat.pack Format.binary64 _) = _
  have biased : E + Format.binary64.exponentBias +
      Format.binary64.mantissaBitsWithoutImplicit = E + 1075 := by
    change E + 1023 + 52 = _
    omega
  have inRange : ¬2 ^ Format.binary64.exponentBits ≤ (E + 1075).toNat + 1 := by
    change ¬2 ^ 11 ≤ _
    omega
  rw [UnpackedFloat.pack]
  simp only [biased]
  rw [if_neg inRange]
  by_cases normal : 2 ^ 52 ≤ M
  · have bits : M.log2 + 1 = Format.binary64.mantissaBits := by
      have above := (Nat.le_log2 pos.ne').mpr normal
      have below := (Nat.log2_lt pos.ne').mpr short
      change M.log2 + 1 = 53
      omega
    rw [if_pos bits]
    have exponent : (BitVec.ofNat 11 (E + 1075).toNat).toNat = (E + 1075).toNat := by
      rw [BitVec.toNat_ofNat]
      omega
    have mantissa : (BitVec.ofNat 52 M).toNat = M - 2 ^ 52 := by
      rw [BitVec.toNat_ofNat]
      omega
    rw [unpack_normal]
    · refine finite_congr ?_ ?_ ?_
      · rw [unpackSign_packComponents, ofBitVec_toBitVec]
      · rw [unpackMantissa_packComponents, mantissa]
        omega
      · rw [unpackExponent_packComponents, exponent]
        omega
    · rw [unpackExponent_packComponents, exponent]
      omega
    · rw [unpackExponent_packComponents, exponent]
      omega
  · have bits : ¬M.log2 + 1 = Format.binary64.mantissaBits := by
      have below := (Nat.log2_lt pos.ne').mpr (not_le.mp normal)
      change ¬M.log2 + 1 = 53
      omega
    rw [if_neg bits]
    have mantissa : (BitVec.ofNat 52 M).toNat = M := by
      rw [BitVec.toNat_ofNat]
      omega
    rw [unpack_subnormal]
    · refine finite_congr ?_ ?_ ?_
      · rw [unpackSign_packComponents, ofBitVec_toBitVec]
      · rw [unpackMantissa_packComponents, mantissa]
      · omega
    · rw [unpackExponent_packComponents]
      rfl
    · rw [unpackMantissa_packComponents, mantissa]
      exact pos

/-- The sign of a double, which the zeros have as well. -/
def sign (x : Float) : Sign :=
  if isNegative x then .negative else .positive

section Magnitude

variable {x : Float}

theorem exponentBits_ne (h : x.isFinite = true) : exponentBits x ≠ 2047 := by
  rw [← toNat_unpackExponent]
  intro special
  have infinite : @unpackExponent Format.binary64 x.toBits.toBitVec = -1#_ :=
    BitVec.eq_of_toNat_eq special
  have finite : (UnpackedFloat.unpack Format.binary64 x.toBits.toBitVec).isFinite = true := h
  rw [UnpackedFloat.unpack] at finite
  simp only [if_pos infinite] at finite
  split_ifs at finite <;> cases finite

theorem magnitude_wellFormed (h : x.isFinite = true) (pos : 0 < (magnitude x).mantissa) :
    (magnitude x).WellFormed := by
  have special := exponentBits_ne h
  have below : exponentBits x < 2048 := Nat.mod_lt _ (by decide)
  have short : fractionBits x < 2 ^ 52 := Nat.mod_lt _ (by decide)
  rw [magnitude] at pos ⊢
  split_ifs at pos ⊢ with subnormal
  · exact ⟨pos, short.trans (by decide), le_rfl, by simp, .inr rfl, by simp⟩
  · refine ⟨pos, ?_, ?_, ?_, .inl ?_, ?_⟩ <;> simp only [Nat.pow_eq, decide_eq_true_eq] <;> omega

/-- Taking a double apart finds its sign and its magnitude. -/
theorem unpack_magnitude (h : x.isFinite = true) (pos : 0 < (magnitude x).mantissa) :
    x.toModel.unpack = .finite (sign x) (magnitude x).mantissa (magnitude x).exponent pos := by
  have special := exponentBits_ne h
  have exponent := toNat_unpackExponent x
  have mantissa := toNat_unpackMantissa x
  change UnpackedFloat.unpack Format.binary64 x.toBits.toBitVec = _
  by_cases subnormal : exponentBits x = 0
  · have eq : magnitude x = ⟨fractionBits x, -1074, false⟩ := by rw [magnitude, if_pos subnormal]
    have positive : 0 < fractionBits x := by simpa [eq] using pos
    rw [unpack_subnormal (by omega) (by omega)]
    refine finite_congr (sign_eq x) ?_ ?_ <;> rw [eq]
    exact mantissa
  · rw [unpack_normal (by omega) (by omega)]
    refine finite_congr (sign_eq x) ?_ ?_ <;> rw [magnitude, if_neg subnormal]
    · rw [mantissa]
      exact Nat.add_comm _ _
    · rw [exponent]

end Magnitude

theorem isNaN_of_unpack {x : Float} {s : Sign} {M : ℕ} {E : ℤ} {pos : 0 < M}
    (h : x.toModel.unpack = .finite s M E pos) : x.isNaN = false := by
  change x.toModel.unpack.isNaN = false
  rw [h]
  rfl

theorem eq_of_unpack {a b : Float} {s : Sign} {M : ℕ} {E : ℤ} {pos : 0 < M}
    (ha : a.toModel.unpack = .finite s M E pos) (hb : b.toModel.unpack = .finite s M E pos) :
    a = b := by
  obtain ⟨canonical, place⟩ := unpackedRank_unpack (isNaN_of_unpack ha)
  obtain ⟨-, place'⟩ := unpackedRank_unpack (isNaN_of_unpack hb)
  have nonzero : unpackedRank (.finite s M E pos) ≠ 0 := by
    rw [ha] at canonical
    cases canonical with
    | finite _ _ _ least =>
        cases s <;> simp only [unpackedRank, Sign.apply] <;> omega
  rw [ha] at place
  rw [hb] at place'
  exact eq_of_rank_eq (place ▸ nonzero) (place.symm.trans place')

theorem unpack_neg {x : Float} {s : Sign} {M : ℕ} {E : ℤ} {pos : 0 < M}
    (h : x.toModel.unpack = .finite s M E pos) :
    (-x).toModel.unpack = .finite (-s) M E pos := by
  have canonical := (unpackedRank_unpack (isNaN_of_unpack h)).1
  rw [h] at canonical
  change (Float.Model.pack x.toModel.unpack.neg).unpack = _
  rw [h, UnpackedFloat.neg]
  cases canonical with
  | finite _ _ short least greatest long => exact unpack_pack pos short least greatest long _

theorem toBits_zero : (0 : Float).toBits.toNat = 0 := by rfl

theorem toBits_neg_zero : (-0 : Float).toBits.toNat = 9223372036854775808 := by decide +kernel

theorem eq_zero {x : Float} (zero : (magnitude x).mantissa = 0) :
    x = if isNegative x then -0 else 0 := by
  have bits := toNat_mod x
  have subnormal : exponentBits x = 0 := by
    by_contra normal
    rw [magnitude, if_neg normal] at zero
    have positive : 0 < fractionBits x + 2 ^ 52 := by positivity
    exact positive.ne' zero
  have fraction : fractionBits x = 0 := by rwa [magnitude, if_pos subnormal] at zero
  rw [subnormal, fraction, Nat.pow_eq] at bits
  have below : x.toBits.toNat < 2 ^ 64 := x.toBits.toNat_lt
  rw [← Float.toBits_inj, ← UInt64.toNat_inj, isNegative, Nat.pow_eq]
  split_ifs with negative <;> rw [decide_eq_true_eq] at negative
  · rw [toBits_neg_zero]
    omega
  · rw [toBits_zero]
    omega

end RunLog.Decimal
