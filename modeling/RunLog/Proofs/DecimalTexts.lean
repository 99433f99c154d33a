import Mathlib
import RunLog.Decimal.Layout
import RunLog.Decimal.Reading
import RunLog.Proofs.DecimalValues
import RunLog.Proofs.ShortestDecimals

/-!
# A written double reads back

A layout shows a double by its shortest digits, with zeros and a point where they
are needed, or with one digit before the point and a power of ten. Reading such a
text gives the digits and the place of the point back, so it gives a decimal in the
interval of the double, and with its sign the double itself. This holds of every
layout whose marks can be read (`Layout.Legible`). It also holds of whole numbers
below a limit.
-/
namespace RunLog.Decimal

variable {digits whole fraction behind : Text} {l : Layout}

section Digits

theorem ofDigits_eq (digits : Text) : ofDigits digits = Nat.ofDigitChars 10 digits 0 := by
  rw [ofDigits, Nat.ofDigitChars_eq_foldl]
  congr 1
  funext n c
  rw [Nat.mul_comm]

theorem ofDigits_natural (n : ℕ) : ofDigits (natural n) = n := by
  rw [ofDigits_eq, natural, Nat.ofDigitChars_ten_toDigits]

theorem natural_ne_nil (n : ℕ) : natural n ≠ [] :=
  Nat.toDigits_ne_nil

theorem natural_digits (n : ℕ) : ∀ c ∈ natural n, c.isDigit = true :=
  fun _ hc => Nat.isDigit_of_mem_toDigits (by decide) (by decide) hc

theorem ofDigits_zeros_append (n : ℕ) (digits : Text) :
    ofDigits (List.replicate n '0' ++ digits) = ofDigits digits := by
  rw [ofDigits_eq, ofDigits_eq, Nat.ofDigitChars_append, Nat.ofDigitChars_replicate_zero,
    Nat.mul_zero]

theorem ofDigits_append_zeros (digits : Text) (n : ℕ) :
    ofDigits (digits ++ List.replicate n '0') = ofDigits digits * 10 ^ n := by
  rw [ofDigits_eq, ofDigits_eq, Nat.ofDigitChars_append, Nat.ofDigitChars_replicate_zero,
    Nat.mul_comm]

theorem digits_replicate (n : ℕ) : ∀ c ∈ List.replicate n '0', c.isDigit = true := by
  intro c hc
  rw [List.eq_of_mem_replicate hc]
  rfl

theorem isDigits_natural (n : ℕ) : isDigits (natural n) = true := by
  rw [isDigits, Bool.and_eq_true, List.all_eq_true]
  exact ⟨by simp [natural_ne_nil], natural_digits n⟩

theorem readNatural?_natural {limit n : ℕ} (h : n < limit) :
    readNatural? limit (natural n) = some n := by
  have nosign : (Text.after? ['+'] (natural n)).getD (natural n) = natural n := by
    cases hn : natural n with
    | nil => exact absurd hn (natural_ne_nil n)
    | cons c t =>
        have digit : c.isDigit = true := natural_digits n c (hn ▸ List.mem_cons_self)
        have plus : '+' ≠ c := by
          rintro rfl
          cases digit
        simp [Text.after?, plus]
  simp only [readNatural?, nosign, isDigits_natural, ofDigits_natural, h, and_self, if_true]

theorem splitSign_of_digit {c : Char} {t : Text} (h : c.isDigit = true) :
    splitSign (c :: t) = (false, c :: t) := by
  rw [splitSign]
  · intro t' heq
    cases heq
    cases h
  · intro t' heq
    cases heq
    cases h

end Digits

section Point

/-- What may stand behind the digits: nothing, or the mark of a power of ten. -/
def EndsDigits (behind : Text) : Prop :=
  behind = [] ∨ ∃ power, behind = 'e' :: power

theorem readScientific?_whole (hwhole : ∀ c ∈ whole, c.isDigit = true) (hne : whole ≠ [])
    (hbehind : EndsDigits behind) {power : ℤ} (hpower : readPower? behind = some power) :
    readScientific? (whole ++ behind) = some ⟨ofDigits whole, power⟩ := by
  have taken : (whole ++ behind).takeWhile Char.isDigit = whole := by
    rw [List.takeWhile_append_of_pos hwhole]
    rcases hbehind with rfl | ⟨power, rfl⟩ <;> simp
  have dropped : (whole ++ behind).dropWhile Char.isDigit = behind := by
    rw [List.dropWhile_append_of_pos hwhole]
    rcases hbehind with rfl | ⟨power, rfl⟩ <;> simp
  have point : Text.startsWith ['.'] behind = false ∧ Text.after? ['.'] behind = none := by
    rcases hbehind with rfl | ⟨power, rfl⟩ <;> exact ⟨rfl, rfl⟩
  simp [readScientific?, taken, dropped, hne, point, hpower]

theorem readScientific?_point (hwhole : ∀ c ∈ whole, c.isDigit = true) (hne : whole ≠ [])
    (hfraction : ∀ c ∈ fraction, c.isDigit = true) (hbehind : EndsDigits behind) {power : ℤ}
    (hpower : readPower? behind = some power) :
    readScientific? (whole ++ '.' :: (fraction ++ behind)) =
      some ⟨ofDigits (whole ++ fraction), power - fraction.length⟩ := by
  have taken : (whole ++ '.' :: (fraction ++ behind)).takeWhile Char.isDigit = whole := by
    rw [List.takeWhile_append_of_pos hwhole]
    simp
  have dropped : (whole ++ '.' :: (fraction ++ behind)).dropWhile Char.isDigit =
      '.' :: (fraction ++ behind) := by
    rw [List.dropWhile_append_of_pos hwhole]
    simp
  have taken' : (fraction ++ behind).takeWhile Char.isDigit = fraction := by
    rw [List.takeWhile_append_of_pos hfraction]
    rcases hbehind with rfl | ⟨power, rfl⟩ <;> simp
  have dropped' : (fraction ++ behind).dropWhile Char.isDigit = behind := by
    rw [List.dropWhile_append_of_pos hfraction]
    rcases hbehind with rfl | ⟨power, rfl⟩ <;> simp
  simp [readScientific?, taken, dropped, taken', dropped', hne, Text.startsWith, Text.after?,
    hpower]

end Point

section Layouts

structure Layout.Legible (l : Layout) : Prop where
  whole : l.wholeMark = [] ∨ l.wholeMark = ".0".toList
  plus : l.powerPlus = [] ∨ l.powerPlus = ['+']

theorem legible_plainLayout : plainLayout.Legible :=
  ⟨.inl rfl, .inl rfl⟩

theorem readScientific?_wholeMark (legible : l.Legible) (hdigits : ∀ c ∈ digits, c.isDigit = true)
    (hne : digits ≠ []) :
    ∃ s, readScientific? (digits ++ l.wholeMark) = some s ∧ s.value = ofDigits digits := by
  rcases legible.whole with mark | mark
  · rw [mark]
    exact ⟨_, readScientific?_whole hdigits hne (.inl rfl) rfl, by simp [Scientific.value]⟩
  · have zero : ∀ c ∈ ['0'], c.isDigit = true := by simp
    have text : digits ++ l.wholeMark = digits ++ '.' :: (['0'] ++ []) := by rw [mark]; rfl
    rw [text]
    refine ⟨_, readScientific?_point hdigits hne zero (.inl rfl) rfl, ?_⟩
    have shifted : ofDigits (digits ++ ['0']) = ofDigits digits * 10 ^ 1 :=
      ofDigits_append_zeros digits 1
    rw [Scientific.value, shifted]
    simp

/-- Wherever the point is put, the text reads as the digits with the point there. -/
theorem readScientific?_plainText (legible : l.Legible) (hdigits : ∀ c ∈ digits, c.isDigit = true)
    (hne : digits ≠ []) (e : ℤ) :
    ∃ s, readScientific? (l.plainText digits (digits.length + e)) = some s ∧
      s.value = ofDigits digits * 10 ^ e := by
  rw [Layout.plainText]
  split_ifs with small whole
  · -- All digits stand behind the point, and zeros between.
    generalize hn : (-(digits.length + e)).toNat = n
    have zero : ∀ c ∈ ['0'], c.isDigit = true := by simp
    have behind : ∀ c ∈ List.replicate n '0' ++ digits, c.isDigit = true := by
      intro c hc
      rcases List.mem_append.mp hc with h | h
      · exact digits_replicate n c h
      · exact hdigits c h
    have text : "0.".toList ++ List.replicate n '0' ++ digits =
        ['0'] ++ '.' :: ((List.replicate n '0' ++ digits) ++ []) := by simp
    rw [text]
    refine ⟨_, readScientific?_point zero (by simp) behind (.inl rfl) rfl, ?_⟩
    have same : ofDigits (['0'] ++ (List.replicate n '0' ++ digits)) = ofDigits digits := by
      rw [← List.append_assoc]
      exact ofDigits_zeros_append (n + 1) digits
    have place : 0 - ((List.replicate n '0' ++ digits).length : ℤ) = e := by
      rw [List.length_append, List.length_replicate]
      omega
    rw [Scientific.value, same, place]
  · -- The point stands behind the digits, and zeros between.
    generalize hn : (digits.length + e).toNat - digits.length = n
    have all : ∀ c ∈ digits ++ List.replicate n '0', c.isDigit = true := by
      intro c hc
      rcases List.mem_append.mp hc with h | h
      · exact hdigits c h
      · exact digits_replicate n c h
    obtain ⟨s, read, value⟩ := readScientific?_wholeMark legible all (by simp [hne])
    refine ⟨s, read, ?_⟩
    have place : e = n := by omega
    rw [value, ofDigits_append_zeros, place, zpow_natCast]
    push_cast
    rfl
  · -- The point stands among the digits.
    have before : ∀ c ∈ digits.take (digits.length + e).toNat, c.isDigit = true :=
      fun c hc => hdigits c (List.mem_of_mem_take hc)
    have behind : ∀ c ∈ digits.drop (digits.length + e).toNat, c.isDigit = true :=
      fun c hc => hdigits c (List.mem_of_mem_drop hc)
    have some : digits.take (digits.length + e).toNat ≠ [] := by
      rw [Ne, List.take_eq_nil_iff]
      rintro (h | h)
      · omega
      · exact hne h
    refine ⟨_, List.append_nil (digits.drop _) ▸
      readScientific?_point before some behind (.inl rfl) rfl, ?_⟩
    have place : 0 - ((digits.drop (digits.length + e).toNat).length : ℤ) = e := by
      rw [List.length_drop]
      omega
    rw [Scientific.value, List.take_append_drop, place]

theorem readExponent?_power (legible : l.Legible) (power : ℤ) :
    readExponent? ((if power < 0 then ['-'] else l.powerPlus) ++ natural power.natAbs) =
      some power := by
  have unsigned : splitSign (natural power.natAbs) = (false, natural power.natAbs) := by
    cases hn : natural power.natAbs with
    | nil => exact absurd hn (natural_ne_nil _)
    | cons c t => exact splitSign_of_digit (natural_digits _ c (hn ▸ List.mem_cons_self))
  by_cases negative : power < 0
  · have split : splitSign ('-' :: natural power.natAbs) = (true, natural power.natAbs) := rfl
    simp only [readExponent?, negative, if_true, List.singleton_append, split, isDigits_natural,
      ofDigits_natural, Option.some_inj]
    omega
  · have split : splitSign (l.powerPlus ++ natural power.natAbs) =
        (false, natural power.natAbs) := by
      rcases legible.plus with plus | plus
      · rw [plus, List.nil_append, unsigned]
      · rw [plus]
        rfl
    simp only [readExponent?, negative, if_false, split, isDigits_natural, if_true,
      ofDigits_natural, Bool.false_eq_true, Option.some_inj]
    omega

theorem readScientific?_powerText (legible : l.Legible) (hdigits : ∀ c ∈ digits, c.isDigit = true)
    (hne : digits ≠ []) (e : ℤ) :
    ∃ s, readScientific? (l.powerText digits (digits.length + e)) = some s ∧
      s.value = ofDigits digits * 10 ^ e := by
  obtain ⟨d, fraction, rfl⟩ := List.exists_cons_of_ne_nil hne
  rw [List.forall_mem_cons] at hdigits
  obtain ⟨first, rest⟩ := hdigits
  have lead : ∀ c ∈ [d], c.isDigit = true := by simpa using first
  generalize hp : ((d :: fraction).length : ℤ) + e - 1 = power
  have read : readPower?
      ('e' :: ((if power < 0 then ['-'] else l.powerPlus) ++ natural power.natAbs)) =
        some power := readExponent?_power legible power
  have text : l.powerText (d :: fraction) ((d :: fraction).length + e) =
      [d] ++ ((if fraction.isEmpty then [] else '.' :: fraction) ++
        'e' :: ((if power < 0 then ['-'] else l.powerPlus) ++ natural power.natAbs)) := by
    simp [Layout.powerText, ← hp]
  rw [text]
  cases fraction with
  | nil =>
      refine ⟨_, readScientific?_whole lead (by simp) (.inr ⟨_, rfl⟩) read, ?_⟩
      have place : power = e := by simpa using hp.symm
      rw [Scientific.value, place]
  | cons c t =>
      refine ⟨_, readScientific?_point lead (by simp) rest (.inr ⟨_, rfl⟩) read, ?_⟩
      have place : power - (c :: t).length = e := by
        rw [← hp, List.length_cons]
        push_cast
        ring
      rw [Scientific.value, place]
      rfl

theorem plainText_head (hdigits : ∀ c ∈ digits, c.isDigit = true) (hne : digits ≠ []) (p : ℤ) :
    ∃ c t, l.plainText digits p = c :: t ∧ c.isDigit = true := by
  obtain ⟨d, rest, rfl⟩ := List.exists_cons_of_ne_nil hne
  have first : d.isDigit = true := hdigits d List.mem_cons_self
  rw [Layout.plainText]
  split_ifs with small whole
  · exact ⟨'0', _, rfl, rfl⟩
  · exact ⟨d, _, rfl, first⟩
  · obtain ⟨n, hn⟩ : ∃ n, p.toNat = n + 1 := ⟨p.toNat - 1, by omega⟩
    rw [hn]
    exact ⟨d, _, rfl, first⟩

theorem powerText_head (hdigits : ∀ c ∈ digits, c.isDigit = true) (hne : digits ≠ []) (p : ℤ) :
    ∃ c t, l.powerText digits p = c :: t ∧ c.isDigit = true := by
  obtain ⟨d, rest, rfl⟩ := List.exists_cons_of_ne_nil hne
  exact ⟨d, _, rfl, hdigits d List.mem_cons_self⟩

end Layouts

theorem toLower_of_digit {c : Char} (h : c.isDigit = true) : c.toLower = c := by
  rw [Char.isDigit, Bool.and_eq_true, decide_eq_true_eq, decide_eq_true_eq] at h
  have upper : ¬(c.val ≥ 'A'.val ∧ c.val ≤ 'Z'.val) := fun capital =>
    absurd (UInt32.le_trans capital.1 h.2) (by decide)
  rw [Char.toLower, dif_neg upper]

theorem read?_of_digit {c : Char} {t : Text} (h : c.isDigit = true) :
    read? (c :: t) = (readScientific? (c :: t)).map Scientific.toFloat ∧
      read? ('-' :: c :: t) = (readScientific? (c :: t)).map (fun s => -s.toFloat) := by
  have number : readSpecial? (c :: t) = none := by
    have word (d : Char) (rest : Text) (hd : d.isDigit = false) :
        (c :: t).map Char.toLower ≠ d :: rest := by
      rw [List.map_cons, toLower_of_digit h]
      rintro heq
      cases heq
      rw [h] at hd
      cases hd
    have inf : (c :: t).map Char.toLower ≠ "inf".toList := word 'i' _ rfl
    have infinity : (c :: t).map Char.toLower ≠ "infinity".toList := word 'i' _ rfl
    have nan : (c :: t).map Char.toLower ≠ "nan".toList := word 'n' _ rfl
    rw [readSpecial?]
    simp only [inf, infinity, nan, or_self, if_false]
  constructor
  · simp only [read?, splitSign_of_digit h, number, Option.none_or, Option.map_map]
    rfl
  · simp only [read?, splitSign, number, Option.none_or, Option.map_map]
    rfl

/-- The text of a magnitude begins with a digit and reads as a decimal in its interval. -/
theorem readScientific?_magnitudeText (legible : l.Legible) {m : Magnitude}
    (pos : 0 < m.mantissa) :
    ∃ c t s, l.magnitudeText m = c :: t ∧ c.isDigit = true ∧
      readScientific? (c :: t) = some s ∧ m.Surrounds s.value := by
  generalize hn : natural (shortest l.tie m).digits = digits
  have isDigit : ∀ c ∈ digits, c.isDigit = true := hn ▸ natural_digits _
  have nonempty : digits ≠ [] := hn ▸ natural_ne_nil _
  have around : m.Surrounds (ofDigits digits * 10 ^ (shortest l.tie m).exponent) := by
    rw [← hn, ofDigits_natural]
    exact shortest_surrounds pos l.tie
  rw [Layout.magnitudeText]
  simp only [hn]
  split_ifs
  · obtain ⟨s, read, value⟩ :=
      readScientific?_plainText legible isDigit nonempty (shortest l.tie m).exponent
    obtain ⟨c, t, text, digit⟩ :=
      plainText_head (l := l) isDigit nonempty (digits.length + (shortest l.tie m).exponent)
    exact ⟨c, t, s, text, digit, text ▸ read, value ▸ around⟩
  · obtain ⟨s, read, value⟩ :=
      readScientific?_powerText legible isDigit nonempty (shortest l.tie m).exponent
    obtain ⟨c, t, text, digit⟩ :=
      powerText_head (l := l) isDigit nonempty (digits.length + (shortest l.tie m).exponent)
    exact ⟨c, t, s, text, digit, text ▸ read, value ▸ around⟩

theorem write_of_isFinite {x : Float} (h : x.isFinite = true) :
    l.write x = signed x (if (magnitude x).mantissa = 0 then '0' :: l.wholeMark
      else l.magnitudeText (magnitude x)) := by
  have number : x.isNaN = false := isNaN_of_isFinite h
  have bounded : x.isInf = false := by
    change x.toModel.unpack.isFinite = true at h
    change x.toModel.unpack.isInf = false
    cases hu : x.toModel.unpack with
    | infinity s => rw [hu] at h; cases h
    | _ => rfl
  rw [Layout.write]
  simp only [number, bounded, Bool.false_eq_true, if_false]

section Characters

variable {p : Char → Prop} {x : Float}

theorem forall_mem_signed (minus : p '-') {unsigned : Text} (h : ∀ c ∈ unsigned, p c) :
    ∀ c ∈ signed x unsigned, p c := by
  rw [signed]
  split_ifs
  · exact List.forall_mem_cons.mpr ⟨minus, h⟩
  · exact h

variable (digit : ∀ c, c.isDigit = true → p c) (point : p '.')

include digit point

theorem Layout.forall_mem_plainText (whole : ∀ c ∈ l.wholeMark, p c)
    (hdigits : ∀ c ∈ digits, c.isDigit = true) (n : ℤ) : ∀ c ∈ l.plainText digits n, p c := by
  have all : ∀ c ∈ digits, p c := fun c hc => digit c (hdigits c hc)
  have zeros (n : ℕ) : ∀ c ∈ List.replicate n '0', p c :=
    fun c hc => digit c (digits_replicate n c hc)
  have front : ∀ c ∈ "0.".toList, p c := by simp [digit '0' rfl, point]
  rw [plainText]
  split_ifs
  · exact List.forall_mem_append.mpr ⟨List.forall_mem_append.mpr ⟨front, zeros _⟩, all⟩
  · exact List.forall_mem_append.mpr ⟨List.forall_mem_append.mpr ⟨all, zeros _⟩, whole⟩
  · exact List.forall_mem_append.mpr ⟨fun c hc => all c (List.mem_of_mem_take hc),
      List.forall_mem_cons.mpr ⟨point, fun c hc => all c (List.mem_of_mem_drop hc)⟩⟩

variable (power : p 'e') (minus : p '-')

include power minus

theorem Layout.forall_mem_powerText (plus : ∀ c ∈ l.powerPlus, p c)
    (hdigits : ∀ c ∈ digits, c.isDigit = true) (n : ℤ) : ∀ c ∈ l.powerText digits n, p c := by
  have first : ∀ c ∈ digits.take 1, p c :=
    fun c hc => digit c (hdigits c (List.mem_of_mem_take hc))
  have later : ∀ c ∈ digits.drop 1, p c :=
    fun c hc => digit c (hdigits c (List.mem_of_mem_drop hc))
  have fraction :
      ∀ c ∈ if (digits.drop 1).isEmpty then [] else '.' :: digits.drop 1, p c := by
    split_ifs
    · simp
    · exact List.forall_mem_cons.mpr ⟨point, later⟩
  have sign : ∀ c ∈ if n - 1 < 0 then ['-'] else l.powerPlus, p c := by
    split_ifs
    · exact List.forall_mem_singleton.mpr minus
    · exact plus
  have exponent : ∀ c ∈ natural (n - 1).natAbs, p c :=
    fun c hc => digit c (natural_digits _ c hc)
  simp only [powerText, List.forall_mem_append, List.forall_mem_cons]
  exact ⟨⟨⟨first, fraction⟩, power, sign⟩, exponent⟩

/-- A property of digits, points, signs and the marks of a layout holds of all that the layout
writes. The words for what is no finite number matter only there. -/
theorem Layout.forall_mem_write (whole : ∀ c ∈ l.wholeMark, p c) (plus : ∀ c ∈ l.powerPlus, p c)
    (words : x.isFinite = true ∨
      ∀ word ∈ [l.notANumber, l.infinity, l.minusInfinity], ∀ c ∈ word, p c) :
    ∀ c ∈ l.write x, p c := by
  have unsigned : ∀ c ∈ if (magnitude x).mantissa = 0 then '0' :: l.wholeMark
      else l.magnitudeText (magnitude x), p c := by
    split_ifs
    · exact List.forall_mem_cons.mpr ⟨digit '0' rfl, whole⟩
    · rw [magnitudeText]
      split_ifs
      · exact forall_mem_plainText digit point whole (natural_digits _) _
      · exact forall_mem_powerText digit point power minus plus (natural_digits _) _
  rcases words with finite | words
  · rw [write_of_isFinite finite]
    exact forall_mem_signed minus unsigned
  · simp only [List.forall_mem_cons] at words
    obtain ⟨number, infinity, negative, -⟩ := words
    rw [write]
    split_ifs
    · exact number
    · exact negative
    · exact infinity
    · exact forall_mem_signed minus unsigned

end Characters

theorem plain_chars {x : Float} (h : x.isFinite = true) :
    ∀ c ∈ plain x, c.isDigit = true ∨ c = '.' ∨ c = '-' := by
  rw [plain, write_of_isFinite h]
  refine forall_mem_signed (.inr (.inr rfl)) ?_
  split_ifs
  · simp [plainLayout]
  · exact Layout.forall_mem_plainText (fun _ => .inl) (.inr (.inl rfl)) (by simp [plainLayout])
      (natural_digits _) _

/-- A finite double reads back from its text. -/
theorem read?_write (legible : l.Legible) {x : Float} (h : x.isFinite = true) :
    read? (l.write x) = some x := by
  rw [write_of_isFinite h]
  by_cases zero : (magnitude x).mantissa = 0
  · obtain ⟨unsigned, negative⟩ :=
      read?_of_digit (t := l.wholeMark) (by decide : '0'.isDigit = true)
    have nothing : ∃ s, readScientific? ('0' :: l.wholeMark) = some s ∧ s.toFloat = 0 := by
      rcases legible.whole with mark | mark <;> rw [mark]
      · exact ⟨⟨0, 0⟩, by rfl, by rfl⟩
      · exact ⟨⟨0, -1⟩, by rfl, by rfl⟩
    obtain ⟨s, read, value⟩ := nothing
    rw [read] at unsigned negative
    rw [if_pos zero, signed]
    conv_rhs => rw [eq_zero zero]
    split_ifs
    · rw [negative, Option.map_some, value]
    · rw [unsigned, Option.map_some, value]
  · have pos : 0 < (magnitude x).mantissa := Nat.pos_of_ne_zero zero
    have wf := magnitude_wellFormed h pos
    obtain ⟨c, t, s, text, digit, read, around⟩ := readScientific?_magnitudeText legible pos
    have value := s.unpack_toFloat wf around
    have same := unpack_magnitude h pos
    obtain ⟨unsigned, negative⟩ := read?_of_digit (t := t) digit
    rw [if_neg zero, signed]
    rw [text]
    rw [read] at unsigned negative
    rw [sign] at same
    split_ifs at same ⊢
    · rw [negative, Option.map_some, Option.some_inj]
      exact eq_of_unpack (unpack_neg value) same
    · rw [unsigned, Option.map_some, Option.some_inj]
      exact eq_of_unpack value same

/-- In plain notation every double reads back, also one that is not finite. -/
theorem read?_plain (x : Float) : read? (plain x) = some x := by
  cases number : x.isNaN with
  | true =>
      have word : plain x = "NaN".toList := by
        rw [plain, Layout.write, number]
        rfl
      rw [word]
      exact congrArg some (eq_of_isNaN (by rfl : (0.0 / 0.0 : Float).isNaN = true) number)
  | false =>
      cases infinite : x.isInf with
      | false => exact read?_write legible_plainLayout (isFinite_of_not number infinite)
      | true =>
          cases negative : isNegative x with
          | true =>
              have word : plain x = "-inf".toList := by
                rw [plain, Layout.write, number, infinite, negative]
                rfl
              have below : (-(1.0 / 0.0) : Float).isInf = true ∧
                  isNegative (-(1.0 / 0.0)) = true := by decide +kernel
              rw [word]
              exact congrArg some (eq_of_isInf below.1 infinite (below.2.trans negative.symm))
          | false =>
              have word : plain x = "inf".toList := by
                rw [plain, Layout.write, number, infinite, negative]
                rfl
              have above : (1.0 / 0.0 : Float).isInf = true ∧
                  isNegative (1.0 / 0.0) = false := by decide +kernel
              rw [word]
              exact congrArg some (eq_of_isInf above.1 infinite (above.2.trans negative.symm))

end RunLog.Decimal
