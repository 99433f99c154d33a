import Mathlib
import RunLog.Text.Utf8

/-!
# Octets that stand for themselves

An octet below 0x80 is a character of ASCII, whatever stands around it: no
character takes it in as an octet that follows, and no other octets are read
as such a character. So a decoded text may be cut at any of these characters
(`decode_eq_append_iff`), and the parts are the decoded parts of the octets.
Characters that are spelled out read back unchanged (`decode_encode`).
-/
namespace RunLog.Utf8

theorem decodeOnto_append (done before : Text) (octets : Octets) :
    decodeOnto (done ++ before) octets = before.reverse ++ decodeOnto done octets := by
  fun_induction decodeOnto done octets with
  | case1 done => simp [decodeOnto]
  | case2 done b rest c used hfirst ih =>
      rw [decodeOnto, hfirst]
      exact ih

@[simp] theorem decode_nil : decode [] = [] := by
  simp [decode, decodeOnto]

theorem decode_cons (b : UInt8) (rest : Octets) :
    decode (b :: rest) = (first b rest).1 :: decode (rest.drop (first b rest).2) := by
  rw [decode, decodeOnto]
  exact decodeOnto_append [] [(first b rest).1] (rest.drop (first b rest).2)

theorem decode_eq_nil_iff {octets : Octets} : decode octets = [] ↔ octets = [] := by
  cases octets with
  | nil => simp
  | cons b rest => simp [decode_cons]

@[elab_as_elim]
theorem charwise {motive : Octets → Prop} (nil : motive [])
    (cons : ∀ b rest, motive (rest.drop (first b rest).2) → motive (b :: rest))
    (octets : Octets) : motive octets := by
  induction h : octets.length using Nat.strongRecOn generalizing octets with
  | ind n ih =>
      cases octets with
      | nil => exact nil
      | cons b rest =>
          refine cons b rest (ih _ ?_ _ rfl)
          rw [← h, List.length_drop, List.length_cons]
          omega

/-! ### Characters that are spelled out -/

theorem first_ascii {b : UInt8} (h : b < 0x80) (rest : Octets) :
    first b rest = (Char.ofNat b.toNat, 0) := by
  rw [first, if_pos h]

theorem first_lead {k : Nat} {lead : Lead} (hk : 128 ≤ k) (hk' : k < 256)
    (h : Lead.of? (UInt8.ofNat k) = some lead) (rest : Octets) :
    first (UInt8.ofNat k) rest =
      follow lead.following lead.low lead.high lead.bits 0 rest := by
  have high : ¬UInt8.ofNat k < 0x80 := by
    rw [UInt8.lt_iff_toNat_lt, UInt8.toNat_ofNat']
    change ¬k % 256 < 128
    omega
  simp only [first, if_neg high, h]

theorem follow_digit {n : Nat} {low high : UInt8} {bits used d : Nat} {rest : Octets}
    (hd : d < 64) (hlow : low.toNat ≤ d + 128) (hhigh : d + 128 ≤ high.toNat) :
    follow (n + 1) low high bits used (UInt8.ofNat (d + 128) :: rest) =
      follow n 0x80 0xBF (bits * 64 + d) (used + 1) rest := by
  have value : (UInt8.ofNat (d + 128)).toNat = d + 128 := by
    rw [UInt8.toNat_ofNat']
    omega
  have inside : low ≤ UInt8.ofNat (d + 128) ∧ UInt8.ofNat (d + 128) ≤ high := by
    simp only [UInt8.le_iff_toNat_le, value]
    exact ⟨hlow, hhigh⟩
  rw [follow, if_pos inside, value, Nat.add_sub_cancel]

theorem Lead.of?_two {k : Nat} (h : 2 ≤ k) (hk : k < 32) :
    Lead.of? (UInt8.ofNat (k + 192)) = some ⟨1, 0x80, 0xBF, k⟩ := by
  interval_cases k <;> rfl

theorem Lead.of?_three {k : Nat} (hk : k < 16) :
    Lead.of? (UInt8.ofNat (k + 224)) =
      some ⟨2, if k = 0 then 0xA0 else 0x80, if k = 13 then 0x9F else 0xBF, k⟩ := by
  interval_cases k <;> rfl

theorem Lead.of?_four {k : Nat} (hk : k < 5) :
    Lead.of? (UInt8.ofNat (k + 240)) =
      some ⟨3, if k = 0 then 0x90 else 0x80, if k = 4 then 0x8F else 0xBF, k⟩ := by
  interval_cases k <;> rfl

theorem first_two {k d : Nat} (hk : 2 ≤ k) (hk' : k < 32) (hd : d < 64) (rest : Octets) :
    first (UInt8.ofNat (k + 192)) (UInt8.ofNat (d + 128) :: rest) =
      (Char.ofNat (k * 64 + d), 1) := by
  rw [first_lead (by omega) (by omega) (Lead.of?_two hk hk'),
    follow_digit hd (by simp) (by simp; omega), follow]

/-- Spellings that are too long, and the surrogates, are left out. -/
theorem first_three {k d e : Nat} (hk : k < 16) (hd : d < 64) (he : e < 64)
    (overlong : k = 0 → 32 ≤ d) (surrogate : k = 13 → d < 32) (rest : Octets) :
    first (UInt8.ofNat (k + 224))
        (UInt8.ofNat (d + 128) :: UInt8.ofNat (e + 128) :: rest) =
      (Char.ofNat ((k * 64 + d) * 64 + e), 2) := by
  have low : (if k = 0 then 0xA0 else 0x80 : UInt8).toNat ≤ d + 128 := by
    split_ifs with h
    · have := overlong h
      change 160 ≤ d + 128
      omega
    · change 128 ≤ d + 128
      omega
  have high : d + 128 ≤ (if k = 13 then 0x9F else 0xBF : UInt8).toNat := by
    split_ifs with h
    · have := surrogate h
      change d + 128 ≤ 159
      omega
    · change d + 128 ≤ 191
      omega
  rw [first_lead (by omega) (by omega) (Lead.of?_three hk), follow_digit hd low high,
    follow_digit he (by simp) (by simp; omega), follow]

/-- Spellings that are too long, and numbers above the last character, are left out. -/
theorem first_four {k d e f : Nat} (hk : k < 5) (hd : d < 64) (he : e < 64) (hf : f < 64)
    (overlong : k = 0 → 16 ≤ d) (beyond : k = 4 → d < 16) (rest : Octets) :
    first (UInt8.ofNat (k + 240))
        (UInt8.ofNat (d + 128) :: UInt8.ofNat (e + 128) :: UInt8.ofNat (f + 128) :: rest) =
      (Char.ofNat (((k * 64 + d) * 64 + e) * 64 + f), 3) := by
  have low : (if k = 0 then 0x90 else 0x80 : UInt8).toNat ≤ d + 128 := by
    split_ifs with h
    · have := overlong h
      change 144 ≤ d + 128
      omega
    · change 128 ≤ d + 128
      omega
  have high : d + 128 ≤ (if k = 4 then 0x8F else 0xBF : UInt8).toNat := by
    split_ifs with h
    · have := beyond h
      change d + 128 ≤ 143
      omega
    · change d + 128 ≤ 191
      omega
  rw [first_lead (by omega) (by omega) (Lead.of?_four hk), follow_digit hd low high,
    follow_digit he (by simp) (by simp; omega), follow_digit hf (by simp) (by simp; omega), follow]

theorem decode_char (c : Char) (rest : Octets) :
    decode (String.utf8EncodeChar c ++ rest) = c :: decode rest := by
  have valid : c.val.toNat < 0xD800 ∨ 0xDFFF < c.val.toNat ∧ c.val.toNat < 0x110000 := c.valid
  have spelled : ∀ {v : Nat}, v = c.val.toNat → Char.ofNat v = c := by
    rintro v rfl
    exact Char.ofNat_toNat c
  simp only [String.utf8EncodeChar]
  generalize c.val.toNat = v at *
  split_ifs with one two three
  · have value : (UInt8.ofNat v).toNat = v := by
      rw [UInt8.toNat_ofNat']
      omega
    have ascii : UInt8.ofNat v < 0x80 := by
      rw [UInt8.lt_iff_toNat_lt, value]
      change v < 128
      omega
    simp only [List.cons_append, List.nil_append, decode_cons, first_ascii ascii, value]
    rw [spelled rfl, List.drop_zero]
  · simp only [List.cons_append, List.nil_append]
    rw [decode_cons, first_two (by omega) (by omega) (by omega), spelled (by omega)]
    rfl
  · simp only [List.cons_append, List.nil_append]
    rw [decode_cons, first_three (by omega) (by omega) (by omega) (by omega) (by omega),
      spelled (by omega)]
    rfl
  · simp only [List.cons_append, List.nil_append]
    rw [decode_cons, first_four (by omega) (by omega) (by omega) (by omega) (by omega) (by omega),
      spelled (by omega)]
    rfl

theorem encode_append (t u : Text) : encode (t ++ u) = encode t ++ encode u :=
  List.flatMap_append

/-- A text that is encoded reads back unchanged. -/
theorem decode_encode (t : Text) : decode (encode t) = t := by
  induction t with
  | nil => exact decode_nil
  | cons c t ih => rw [encode, List.flatMap_cons, decode_char, ← encode, ih]

/-! ### Where octets can be cut -/

theorem follow_append {n : Nat} {low high : UInt8} {bits used : Nat} {rest : Octets} {b : UInt8}
    (hlow : 0x80 ≤ low) (hb : b < 0x80) (more : Octets) :
    follow n low high bits used (rest ++ b :: more) = follow n low high bits used rest := by
  induction n generalizing low high bits used rest with
  | zero => rfl
  | succ n ih =>
      cases rest with
      | nil =>
          have outside : ¬(low ≤ b ∧ b ≤ high) := by
            rintro ⟨hle, -⟩
            exact absurd (UInt8.le_trans hlow hle) (UInt8.not_le.mpr hb)
          simp only [List.nil_append, follow, outside, if_false]
      | cons x rest =>
          simp only [List.cons_append, follow, ih (by decide : (0x80 : UInt8) ≤ 0x80)]

theorem follow_used (n : Nat) (low high : UInt8) (bits used : Nat) (rest : Octets) :
    (follow n low high bits used rest).2 ≤ used + rest.length := by
  induction n generalizing low high bits used rest with
  | zero => simp [follow]
  | succ n ih =>
      cases rest with
      | nil => simp [follow]
      | cons b rest =>
          rw [follow, List.length_cons]
          split_ifs
          · have := ih 0x80 0xBF (bits * 64 + (b.toNat - 0x80)) (used + 1) rest
            omega
          · simp

theorem follow_value (n : Nat) (low high : UInt8) (hhigh : high ≤ 0xBF)
    (bits used : Nat) (rest : Octets) :
    (follow n low high bits used rest).1 = replacement ∨
      ∃ v, (follow n low high bits used rest).1 = Char.ofNat v ∧
        bits * 64 ^ n ≤ v ∧ v < (bits + 1) * 64 ^ n := by
  induction n generalizing low high bits used rest with
  | zero => exact .inr ⟨bits, rfl, by omega, by omega⟩
  | succ n ih =>
      cases rest with
      | nil => exact .inl rfl
      | cons b rest =>
          rw [follow]
          split_ifs with inside
          · have digit : b.toNat ≤ 191 :=
              UInt8.le_iff_toNat_le.mp (UInt8.le_trans inside.2 hhigh : b ≤ (0xBF : UInt8))
            rcases ih 0x80 0xBF (by decide) (bits * 64 + (b.toNat - 0x80)) (used + 1) rest with
              h | ⟨v, hv, hle, hlt⟩
            · exact .inl h
            · rw [Nat.pow_succ', ← Nat.mul_assoc, ← Nat.mul_assoc]
              exact .inr ⟨v, hv, Nat.le_trans (Nat.mul_le_mul_right _ (by omega)) hle,
                Nat.lt_of_lt_of_le hlt (Nat.mul_le_mul_right _ (by omega))⟩
          · exact .inl rfl

def IsWide (v : Nat) : Prop :=
  0x80 ≤ v ∧ v < 0xD800 ∨ 0xDFFF < v ∧ v < 0x110000

theorem IsWide.not_ascii {v : Nat} (h : IsWide v) : ¬(Char.ofNat v).toNat < 0x80 := by
  have valid : v.isValidChar := h.imp And.right id
  rw [Char.toNat_ofNat, if_pos valid]
  unfold IsWide at h
  omega

/-- A lead octet with `n` more octets behind the next one. The bounds of the next one leave
only characters outside ASCII. -/
structure Lead.Wide (lead : Lead) (n : Nat) : Prop where
  following : lead.following = n + 1
  low : 0x80 ≤ lead.low
  high : lead.high ≤ 0xBF
  value : ∀ d v, lead.low.toNat ≤ d + 0x80 → d + 0x80 ≤ lead.high.toNat →
    (lead.bits * 64 + d) * 64 ^ n ≤ v → v < (lead.bits * 64 + d + 1) * 64 ^ n → IsWide v

theorem Lead.of?_wide {b : UInt8} {lead : Lead} (h : Lead.of? b = some lead) :
    ∃ n, lead.Wide n := by
  unfold Lead.of? at h
  simp only [UInt8.le_iff_toNat_le, ← UInt8.toNat_inj] at h
  split_ifs at h
  all_goals
    cases h
    refine ⟨_, rfl, by dsimp only; decide, by dsimp only; decide, fun d v hlow hhigh hle hlt => ?_⟩
    simp only [UInt8.reduceToNat, Nat.reducePow] at *
    unfold IsWide
    omega

theorem first_wide {b : UInt8} (h : ¬b < 0x80) (rest : Octets) :
    ¬(first b rest).1.toNat < 0x80 := by
  have replaced : ¬replacement.toNat < 0x80 := by decide
  rw [first, if_neg h]
  cases hlead : Lead.of? b with
  | none => exact replaced
  | some lead =>
      obtain ⟨n, wide⟩ := Lead.of?_wide hlead
      simp only [wide.following]
      cases rest with
      | nil => exact replaced
      | cons x rest =>
          rw [follow]
          split_ifs with inside
          · have hx : 128 ≤ x.toNat := UInt8.le_iff_toNat_le.mp (UInt8.le_trans wide.low inside.1)
            have hlow := UInt8.le_iff_toNat_le.mp inside.1
            have hhigh := UInt8.le_iff_toNat_le.mp inside.2
            rcases follow_value n 0x80 0xBF (by decide)
                (lead.bits * 64 + (x.toNat - 0x80)) (0 + 1) rest with hr | ⟨v, hv, hle, hlt⟩
            · rw [hr]
              exact replaced
            · rw [hv]
              exact (wide.value _ v (by omega) (by omega) hle hlt).not_ascii
          · exact replaced

theorem first_append {b : UInt8} (hb : b < 0x80) (x : UInt8) (rest more : Octets) :
    first x (rest ++ b :: more) = first x rest := by
  unfold first
  split_ifs
  · rfl
  · cases hlead : Lead.of? x with
    | none => rfl
    | some lead =>
        obtain ⟨n, wide⟩ := Lead.of?_wide hlead
        exact follow_append wide.low hb more

theorem first_used (b : UInt8) (rest : Octets) : (first b rest).2 ≤ rest.length := by
  unfold first
  split_ifs
  · simp
  · cases Lead.of? b with
    | none => simp
    | some lead => simpa using follow_used lead.following lead.low lead.high lead.bits 0 rest

/-- An octet below 0x80 stands for itself, whatever stands before it. -/
theorem decode_append_ascii {b : UInt8} (hb : b < 0x80) (octets more : Octets) :
    decode (octets ++ b :: more) = decode octets ++ Char.ofNat b.toNat :: decode more := by
  induction octets using charwise with
  | nil =>
      rw [List.nil_append, decode_cons, first_ascii hb, decode_nil, List.nil_append,
        List.drop_zero]
  | cons x rest ih =>
      rw [List.cons_append, decode_cons, first_append hb, decode_cons,
        List.drop_append_of_le_length (first_used x rest), ih, List.cons_append]

theorem toNat_ascii {c : Char} (hc : c.toNat < 0x80) :
    (UInt8.ofNat c.toNat).toNat = c.toNat := by
  rw [UInt8.toNat_ofNat']
  omega

theorem ascii_lt {c : Char} (hc : c.toNat < 0x80) : UInt8.ofNat c.toNat < 0x80 := by
  rw [UInt8.lt_iff_toNat_lt, toNat_ascii hc]
  exact hc

theorem first_eq_ascii {c : Char} (hc : c.toNat < 0x80) {b : UInt8} {rest : Octets}
    (h : (first b rest).1 = c) : b = UInt8.ofNat c.toNat ∧ (first b rest).2 = 0 := by
  by_cases hb : b < 0x80
  · rw [first_ascii hb] at h ⊢
    have valid : b.toNat.isValidChar :=
      .inl (Nat.lt_trans (UInt8.lt_iff_toNat_lt.mp hb) (by decide))
    refine ⟨?_, rfl⟩
    rw [← UInt8.toNat_inj, toNat_ascii hc, ← h, Char.toNat_ofNat, if_pos valid]
  · exact absurd (h ▸ hc) (first_wide hb rest)

theorem exists_of_decode_eq {c : Char} (hc : c.toNat < 0x80) {octets : Octets} {t u : Text}
    (h : decode octets = t ++ c :: u) :
    ∃ before after, octets = before ++ UInt8.ofNat c.toNat :: after ∧ decode after = u := by
  induction octets using charwise generalizing t with
  | nil => simp at h
  | cons b rest ih =>
      rw [decode_cons] at h
      cases t with
      | nil =>
          obtain ⟨hfirst, hrest⟩ := List.cons.inj h
          obtain ⟨rfl, hused⟩ := first_eq_ascii hc hfirst
          rw [hused] at hrest
          exact ⟨[], rest, rfl, hrest⟩
      | cons d t =>
          obtain ⟨before, after, hrest, hafter⟩ := ih (List.cons.inj h).2
          refine ⟨b :: (rest.take (first b rest).2 ++ before), after, ?_, hafter⟩
          rw [List.cons_append, List.append_assoc, ← hrest, List.take_append_drop]

/-- A decoded text can be cut at a character of ASCII: the character stands for its octet,
and the texts around it for the octets around that. -/
theorem decode_eq_append_iff {c : Char} (hc : c.toNat < 0x80) {octets : Octets} {t u : Text} :
    decode octets = t ++ c :: u ↔
      ∃ before after, octets = before ++ UInt8.ofNat c.toNat :: after ∧
        decode before = t ∧ decode after = u := by
  have cut : ∀ before after, decode (before ++ UInt8.ofNat c.toNat :: after) =
      decode before ++ c :: decode after := by
    intro before after
    rw [decode_append_ascii (ascii_lt hc), toNat_ascii hc, Char.ofNat_toNat]
  constructor
  · intro h
    obtain ⟨before, after, rfl, hafter⟩ := exists_of_decode_eq hc h
    rw [cut, hafter] at h
    exact ⟨before, after, rfl, List.append_cancel_right h, hafter⟩
  · rintro ⟨before, after, rfl, rfl, rfl⟩
    exact cut before after

end RunLog.Utf8
