import Mathlib
import RunLog.Decimal.Binary

/-!
# The numeric order of doubles

A double that is a number has a rank, which is its exponent bits and fraction
bits read as one whole number, with its sign. Comparing two doubles is comparing
their ranks: among numbers of one sign a larger exponent decides before a larger
mantissa, as every mantissa is written as long as it can be. Both zeros have rank
zero, every other rank belongs to one double only.

Nothing here is assumed of doubles; the comparison is taken apart down to the
bits. What arithmetic on doubles does to ranks is not treated.
-/
namespace RunLog.Decimal
open Float.Model UnpackedFloat

/-- The signed number that the bits below the sign spell. -/
def rank (x : Float) : Int :=
  let size := x.toBits.toNat % Nat.pow 2 63
  if isNegative x then -(size : Int) else size

/-- The rank of a double that is taken apart. -/
def unpackedRank : UnpackedFloat → Int
  | .notANumber => 0
  | .zero _ => 0
  | .infinity s => s.apply (2047 * 2 ^ 52)
  | .finite s m e _ => s.apply ((e + 1074) * 2 ^ 52 + m)

inductive Canonical : UnpackedFloat → Prop
  | zero (s : Sign) : Canonical (.zero s)
  | infinity (s : Sign) : Canonical (.infinity s)
  | finite (s : Sign) {m : Nat} {e : Int} (pos : 0 < m) (short : m < 2 ^ 53)
      (low : -1074 ≤ e) (high : e ≤ 971) (long : 2 ^ 52 ≤ m ∨ e = -1074) :
      Canonical (.finite s m e pos)

theorem compare_mantissas {m n : Nat} {e f : Int} (hm : m < 2 ^ 53) (hn : n < 2 ^ 53)
    (he : -1074 ≤ e) (hf : -1074 ≤ f) (hm' : 2 ^ 52 ≤ m ∨ e = -1074)
    (hn' : 2 ^ 52 ≤ n ∨ f = -1074) :
    (compare e f).then (compare m n) =
      compare ((e + 1074) * 2 ^ 52 + m) ((f + 1074) * 2 ^ 52 + n) := by
  rcases lt_trichotomy e f with h | rfl | h
  · have hlt : (e + 1074) * 2 ^ 52 + m < (f + 1074) * 2 ^ 52 + n := by omega
    rw [compare_lt_iff_lt.mpr h, compare_lt_iff_lt.mpr hlt]
    rfl
  · rw [compare_eq_iff_eq.mpr rfl]
    rcases lt_trichotomy m n with h | rfl | h
    · have hlt : (e + 1074) * 2 ^ 52 + m < (e + 1074) * 2 ^ 52 + n := by omega
      rw [compare_lt_iff_lt.mpr h, compare_lt_iff_lt.mpr hlt]
      rfl
    · rw [compare_eq_iff_eq.mpr rfl, compare_eq_iff_eq.mpr rfl]
      rfl
    · have hgt : (e + 1074) * 2 ^ 52 + m > (e + 1074) * 2 ^ 52 + n := by omega
      rw [compare_gt_iff_gt.mpr h, compare_gt_iff_gt.mpr hgt]
      rfl
  · have hgt : (e + 1074) * 2 ^ 52 + m > (f + 1074) * 2 ^ 52 + n := by omega
    rw [compare_gt_iff_gt.mpr h, compare_gt_iff_gt.mpr hgt]
    rfl

theorem some_lt {a b : Int} (h : a < b) : some Ordering.lt = some (compare a b) := by
  rw [compare_lt_iff_lt.mpr h]

theorem some_gt {a b : Int} (h : b < a) : some Ordering.gt = some (compare a b) := by
  rw [compare_gt_iff_gt.mpr h]

theorem swap_compare (a b : Int) : (compare a b).swap = compare (-a) (-b) := by
  rcases lt_trichotomy a b with h | rfl | h
  · have hgt : -a > -b := by omega
    rw [compare_lt_iff_lt.mpr h, compare_gt_iff_gt.mpr hgt]
    rfl
  · rw [compare_eq_iff_eq.mpr rfl, compare_eq_iff_eq.mpr rfl]
    rfl
  · have hlt : -a < -b := by omega
    rw [compare_gt_iff_gt.mpr h, compare_lt_iff_lt.mpr hlt]
    rfl

theorem compare_canonical {u v : UnpackedFloat} (hu : Canonical u) (hv : Canonical v) :
    u.compare v = some (compare (unpackedRank u) (unpackedRank v)) := by
  -- Mantissas matter only between two finite numbers of one sign. Everywhere else the signs and
  -- the kinds of number decide, and the bounds on mantissas and exponents keep the ranks apart.
  cases hu with
  | zero s =>
      cases hv with
      | zero t => rfl
      | infinity t => cases t <;> rfl
      | finite t pos short low high long =>
          cases t with
          | negative => exact some_gt (by simp only [unpackedRank, Sign.apply]; omega)
          | positive => exact some_lt (by simp only [unpackedRank, Sign.apply]; omega)
  | infinity s =>
      cases hv with
      | zero t => cases s <;> rfl
      | infinity t => cases s <;> cases t <;> rfl
      | finite t pos short low high long =>
          cases s with
          | negative =>
              cases t <;> exact some_lt (by simp only [unpackedRank, Sign.apply]; omega)
          | positive =>
              cases t <;> exact some_gt (by simp only [unpackedRank, Sign.apply]; omega)
  | finite s pos short low high long =>
      cases hv with
      | zero t =>
          cases s with
          | negative => exact some_lt (by simp only [unpackedRank, Sign.apply]; omega)
          | positive => exact some_gt (by simp only [unpackedRank, Sign.apply]; omega)
      | infinity t =>
          cases t with
          | negative =>
              cases s <;> exact some_gt (by simp only [unpackedRank, Sign.apply]; omega)
          | positive =>
              cases s <;> exact some_lt (by simp only [unpackedRank, Sign.apply]; omega)
      | finite t pos' short' low' high' long' =>
          have order := compare_mantissas short short' low low' long long'
          cases s <;> cases t
          · simp only [UnpackedFloat.compare, order, unpackedRank, Sign.apply]
            rw [swap_compare]
          · exact some_lt (by simp only [unpackedRank, Sign.apply]; omega)
          · exact some_gt (by simp only [unpackedRank, Sign.apply]; omega)
          · simp only [UnpackedFloat.compare, order, unpackedRank, Sign.apply]

/-- Bits spell a number, whose rank is read off its fields, or none. -/
theorem unpack_bits (b : BitVec 64) :
    unpack Format.binary64 b = .notANumber ∨
      Canonical (unpack Format.binary64 b) ∧
        unpackedRank (unpack Format.binary64 b) =
          (Sign.ofBitVec (@unpackSign Format.binary64 b)).apply
            ((@unpackExponent Format.binary64 b).toNat * 2 ^ 52 +
              (@unpackMantissa Format.binary64 b).toNat) := by
  fun_cases UnpackedFloat.unpack with
  | case1 mantissa exponent bits sign hexponent hmantissa =>
      refine .inr ⟨.infinity sign, ?_⟩
      have he : exponent.toNat = 2047 := congrArg BitVec.toNat hexponent
      have hf : mantissa.toNat = 0 := congrArg BitVec.toNat hmantissa
      change sign.apply _ = sign.apply (exponent.toNat * 2 ^ 52 + mantissa.toNat)
      rw [he, hf]
      rfl
  | case2 mantissa exponent hexponent hmantissa => exact .inl rfl
  | case3 mantissa exponent bits sign _ hexponent hmantissa =>
      refine .inr ⟨.zero sign, ?_⟩
      have he : exponent.toNat = 0 := congrArg BitVec.toNat hexponent
      have hf : mantissa.toNat = 0 := congrArg BitVec.toNat hmantissa
      change 0 = sign.apply (exponent.toNat * 2 ^ 52 + mantissa.toNat)
      rw [he, hf]
      cases sign <;> rfl
  | case4 mantissa exponent power bits sign _ hexponent hmantissa =>
      have he : exponent.toNat = 0 := congrArg BitVec.toNat hexponent
      have hpower : power + 1 = -1074 := by
        change (exponent.toNat : Int) - (1023 + 52) + 1 = -1074
        rw [he]
        rfl
      have short : mantissa.toNat < 2 ^ 52 := mantissa.isLt
      refine .inr ⟨.finite sign _ (by omega) (by omega) (by omega) (.inr hpower), ?_⟩
      change sign.apply ((power + 1 + 1074) * 2 ^ 52 + mantissa.toNat) =
        sign.apply (exponent.toNat * 2 ^ 52 + mantissa.toNat)
      rw [he, hpower]
      rfl
  | case5 mantissa exponent power bits sign hexponent hexponent' =>
      have short : mantissa.toNat < 2 ^ 52 := mantissa.isLt
      have he : exponent.toNat ≠ 2047 := fun h => hexponent (BitVec.eq_of_toNat_eq h)
      have he' : exponent.toNat ≠ 0 := fun h => hexponent' (BitVec.eq_of_toNat_eq h)
      have hlt : exponent.toNat < 2048 := exponent.isLt
      have hpower : power = exponent.toNat - 1075 := rfl
      have long : (1#1 ++ mantissa).toNat = 2 ^ 52 + mantissa.toNat := by
        rw [BitVec.toNat_append]
        exact (Nat.two_pow_add_eq_or_of_lt short 1).symm
      refine .inr ⟨.finite sign _ (by omega) (by omega) (by omega) (.inl (by omega)), ?_⟩
      change sign.apply ((power + 1074) * 2 ^ 52 + (1#1 ++ mantissa).toNat) =
        sign.apply (exponent.toNat * 2 ^ 52 + mantissa.toNat)
      congr 1
      omega

theorem toNat_unpackMantissa (x : Float) :
    (@unpackMantissa Format.binary64 x.toBits.toBitVec).toNat = fractionBits x := by
  rw [unpackMantissa_def, BitVec.extractLsb'_toNat]
  rfl

theorem toNat_unpackExponent (x : Float) :
    (@unpackExponent Format.binary64 x.toBits.toBitVec).toNat = exponentBits x := by
  rw [unpackExponent_def, BitVec.extractLsb'_toNat, Nat.shiftRight_eq_div_pow]
  rfl

theorem sign_eq (x : Float) :
    Sign.ofBitVec (@unpackSign Format.binary64 x.toBits.toBitVec) =
      if isNegative x then .negative else .positive := by
  have bits : (@unpackSign Format.binary64 x.toBits.toBitVec).toNat =
      x.toBits.toNat / 2 ^ 63 % 2 := by
    rw [unpackSign_def, BitVec.extractLsb'_toNat, Nat.shiftRight_eq_div_pow]
    rfl
  have below : x.toBits.toNat < 2 ^ 64 := x.toBits.toNat_lt
  rw [Sign.ofBitVec]
  simp only [← BitVec.toNat_inj, bits, isNegative, decide_eq_true_eq, BitVec.toNat_ofNat]
  simp only [Nat.pow_eq]
  split_ifs <;> first | rfl | omega

theorem toNat_mod (x : Float) :
    x.toBits.toNat % Nat.pow 2 63 = exponentBits x * 2 ^ 52 + fractionBits x := by
  simp only [exponentBits, fractionBits, Nat.pow_eq]
  omega

theorem unpackedRank_unpack {x : Float} (h : x.isNaN = false) :
    Canonical x.toModel.unpack ∧ unpackedRank x.toModel.unpack = rank x := by
  rcases unpack_bits x.toBits.toBitVec with hn | ⟨canonical, place⟩
  · have number : x.toModel.unpack.isNaN = false := h
    rw [show x.toModel.unpack = .notANumber from hn] at number
    cases number
  · refine ⟨canonical, place.trans ?_⟩
    rw [sign_eq, toNat_unpackExponent, toNat_unpackMantissa]
    rw [rank, toNat_mod]
    cases isNegative x <;> simp [Sign.apply]

theorem compare_rank {a b : Float} (ha : a.isNaN = false) (hb : b.isNaN = false) :
    a.toModel.unpack.compare b.toModel.unpack = some (compare (rank a) (rank b)) := by
  obtain ⟨canonical, place⟩ := unpackedRank_unpack ha
  obtain ⟨canonical', place'⟩ := unpackedRank_unpack hb
  rw [compare_canonical canonical canonical', place, place']

theorem lt_iff_rank {a b : Float} (ha : a.isNaN = false) (hb : b.isNaN = false) :
    a < b ↔ rank a < rank b := by
  change decide (UnpackedFloat.lt _ _ = true) = true ↔ _
  rw [decide_eq_true_eq, UnpackedFloat.lt, compare_rank ha hb, beq_iff_eq,
    Option.some.injEq, compare_lt_iff_lt]

theorem le_iff_rank {a b : Float} (ha : a.isNaN = false) (hb : b.isNaN = false) :
    a ≤ b ↔ rank a ≤ rank b := by
  change decide (UnpackedFloat.le _ _ = true) = true ↔ _
  rw [decide_eq_true_eq, UnpackedFloat.le, compare_rank ha hb, Option.any_some]
  exact Std.isLE_compare

theorem isNaN_of_isFinite {x : Float} (h : x.isFinite = true) : x.isNaN = false := by
  have finite : x.toModel.unpack.isFinite = true := h
  change x.toModel.unpack.isNaN = false
  cases hu : x.toModel.unpack with
  | notANumber => rw [hu] at finite; cases finite
  | _ => rfl

theorem rank_zero : rank 0 = 0 := by rfl

theorem rank_pos {x : Float} (hx : x.isFinite = true) (h : 0 < x) : 0 < rank x := by
  have zero : (0 : Float).isNaN = false := by rfl
  have below := (lt_iff_rank zero (isNaN_of_isFinite hx)).mp h
  rwa [rank_zero] at below

theorem eq_of_rank_eq {a b : Float} (ha : rank a ≠ 0) (h : rank a = rank b) : a = b := by
  have below : a.toBits.toNat < 2 ^ 64 := a.toBits.toNat_lt
  have below' : b.toBits.toNat < 2 ^ 64 := b.toBits.toNat_lt
  rw [← Float.toBits_inj, ← UInt64.toNat_inj]
  simp only [rank, isNegative, Nat.pow_eq, decide_eq_true_eq] at ha h
  split_ifs at ha h <;> omega

/-- Bits that spell no number are a double only in one pattern. -/
theorem toBits_of_isNaN {x : Float} (h : x.isNaN = true) :
    x.toModel.toBits.toBitVec = packedNaN Format.binary64 := by
  have unpacked : (unpack Format.binary64 x.toModel.toBits.toBitVec).isNaN = true := h
  rw [UnpackedFloat.unpack] at unpacked
  simp only at unpacked
  split_ifs at unpacked with hexponent hmantissa
  · cases unpacked
  · exact x.toModel.valid.eq_packedNaN hexponent hmantissa
  all_goals cases unpacked

theorem eq_of_isNaN {a b : Float} (ha : a.isNaN = true) (hb : b.isNaN = true) : a = b := by
  have bits : a.toModel.toBits.toBitVec = b.toModel.toBits.toBitVec :=
    (toBits_of_isNaN ha).trans (toBits_of_isNaN hb).symm
  exact Float.toBits_inj.mp (UInt64.toBitVec_inj.mp bits)

theorem rank_of_isInf {x : Float} (h : x.isInf = true) :
    rank x = if isNegative x then -(2047 * 2 ^ 52) else 2047 * 2 ^ 52 := by
  have unpacked : x.toModel.unpack.isInf = true := h
  cases hu : x.toModel.unpack with
  | infinity s =>
      have number : x.isNaN = false := by
        change x.toModel.unpack.isNaN = false
        rw [hu]
        rfl
      have place := (unpackedRank_unpack number).2
      rw [hu, rank] at place
      rw [rank]
      cases s <;> simp only [unpackedRank, Sign.apply] at place <;> split_ifs at place ⊢ <;> omega
  | _ => rw [hu] at unpacked; cases unpacked

theorem eq_of_isInf {a b : Float} (ha : a.isInf = true) (hb : b.isInf = true)
    (sign : isNegative a = isNegative b) : a = b := by
  have place := rank_of_isInf ha
  have nonzero : rank a ≠ 0 := by
    rw [place]
    split_ifs <;> decide
  exact eq_of_rank_eq nonzero (by rw [place, rank_of_isInf hb, sign])

theorem isFinite_of_not {x : Float} (number : x.isNaN = false) (bounded : x.isInf = false) :
    x.isFinite = true := by
  change x.toModel.unpack.isNaN = false at number
  change x.toModel.unpack.isInf = false at bounded
  change x.toModel.unpack.isFinite = true
  cases hu : x.toModel.unpack with
  | notANumber => rw [hu] at number; cases number
  | infinity s => rw [hu] at bounded; cases bounded
  | _ => rfl

end RunLog.Decimal
