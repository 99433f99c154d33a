import Mathlib
import RunLog.Proofs.DecimalTexts
import RunLog.Report.Json

/-!
# No two nodes with one text in JSON

Two texts that begin with a written node, behind which a comma, a line feed or nothing
stands, agree only if the nodes are equal and what stands behind them is (`Json.write_cancel`).
The first character tells the sort of a node. A number goes on up to the comma or the line
feed; a whole number is told from a double by having digits only. A string ends at the first
quote that is not escaped, as no escape is the beginning of another. The parts of a sequence
or a mapping are told apart one by one, which makes an induction over the nodes.

Doubles that are no finite numbers are left out: they have one text with the empty node.
-/
namespace RunLog

inductive Node.Finite : Node → Prop
  | null : Finite .null
  | natural (n : ℕ) : Finite (.natural n)
  | real {x : Float} : x.isFinite = true → Finite (.real x)
  | text (t : Text) : Finite (.text t)
  | sequence {items : List Node} : (∀ item ∈ items, Finite item) → Finite (.sequence items)
  | mapping {fields : List (Text × Node)} :
      (∀ field ∈ fields, Finite field.2) → Finite (.mapping fields)

namespace Json

variable {level : ℕ} {t u r s : Text}

theorem legible_layout : layout.Legible :=
  ⟨.inr rfl, .inr rfl⟩

section Strings

def special : List Char :=
  '"' :: '\\' :: (List.range 32).map Char.ofNat

theorem escaped_special : ∀ c ∈ special, ∃ t, escaped c = '\\' :: t := by
  have first : special.all (fun c => (escaped c).head? = some '\\') = true := by decide
  intro c hc
  exact List.head?_eq_some_iff.mp (of_decide_eq_true (List.all_eq_true.mp first c hc))

theorem eq_of_escaped_start :
    ∀ c ∈ special, ∀ d ∈ special, escaped c <+: escaped d → c = d := by
  have checked : special.all (fun c => special.all fun d =>
      decide (escaped c <+: escaped d → c = d)) = true := by decide +kernel
  intro c hc d hd
  exact of_decide_eq_true (List.all_eq_true.mp (List.all_eq_true.mp checked c hc) d hd)

theorem escaped_of_not_special {c : Char} (h : c ∉ special) : escaped c = [c] := by
  have quote : c ≠ '"' := fun hc => h (hc ▸ by decide)
  have slash : c ≠ '\\' := fun hc => h (hc ▸ by decide)
  have large : 32 ≤ c.toNat := by
    by_contra small
    refine h (List.mem_cons_of_mem _ (List.mem_cons_of_mem _ (List.mem_map.mpr ?_)))
    exact ⟨c.toNat, List.mem_range.mpr (by omega), Char.ofNat_toNat c⟩
  have control (d : Char) (hd : d.toNat < 32) : c ≠ d := by
    rintro rfl
    omega
  rw [escaped, if_neg quote, if_neg slash, if_neg (control '\n' (by decide)),
    if_neg (control '\r' (by decide)), if_neg (control '\t' (by decide)), if_neg (by omega),
    if_neg (by omega), if_neg (by omega)]

theorem escaped_cancel {c d : Char} (h : escaped c ++ r = escaped d ++ s) : c = d ∧ r = s := by
  have same : c = d := by
    by_cases hc : c ∈ special <;> by_cases hd : d ∈ special
    · rcases List.prefix_or_prefix_of_prefix (List.prefix_append (escaped c) r)
        (h ▸ List.prefix_append (escaped d) s) with before | before
      · exact eq_of_escaped_start c hc d hd before
      · exact (eq_of_escaped_start d hd c hc before).symm
    · obtain ⟨t, escape⟩ := escaped_special c hc
      rw [escape, escaped_of_not_special hd] at h
      exact absurd ((List.cons.inj h).1 ▸ by decide) hd
    · obtain ⟨t, escape⟩ := escaped_special d hd
      rw [escape, escaped_of_not_special hc] at h
      exact absurd ((List.cons.inj h).1 ▸ by decide) hc
    · rw [escaped_of_not_special hc, escaped_of_not_special hd] at h
      exact (List.cons.inj h).1
  exact ⟨same, List.append_cancel_left (same ▸ h)⟩

theorem escaped_ne_quote {c : Char} : escaped c ++ r ≠ '"' :: s := by
  by_cases hc : c ∈ special
  · obtain ⟨t, escape⟩ := escaped_special c hc
    rw [escape]
    simp
  · rw [escaped_of_not_special hc]
    rintro h
    exact hc ((List.cons.inj h).1 ▸ by decide)

theorem characters_cancel (h : t.flatMap escaped ++ '"' :: r = u.flatMap escaped ++ '"' :: s) :
    t = u ∧ r = s := by
  induction t generalizing u with
  | nil =>
      cases u with
      | nil => exact ⟨rfl, (List.cons.inj h).2⟩
      | cons d u =>
          rw [List.flatMap_cons, List.append_assoc] at h
          exact absurd h.symm escaped_ne_quote
  | cons c t ih =>
      cases u with
      | nil =>
          rw [List.flatMap_cons, List.append_assoc] at h
          exact absurd h escaped_ne_quote
      | cons d u =>
          rw [List.flatMap_cons, List.flatMap_cons, List.append_assoc, List.append_assoc] at h
          obtain ⟨rfl, rest⟩ := escaped_cancel h
          obtain ⟨rfl, behind⟩ := ih rest
          exact ⟨rfl, behind⟩

theorem string_cancel (h : string t ++ r = string u ++ s) : t = u ∧ r = s := by
  refine characters_cancel ?_
  simpa [string] using h

end Strings

section Numbers

/-- What may stand behind a node: nothing, or what parts it from the next line. -/
def Ends (behind : Text) : Prop :=
  ∀ c ∈ behind.head?, c = ',' ∨ c = '\n'

/-- The text consists of what numbers are written with. -/
def IsNumber (t : Text) : Prop :=
  ∀ c ∈ t, c.isDigit = true ∨ c ∈ ['.', 'e', '-', '+']

theorem isNumber_natural (n : ℕ) : IsNumber (Decimal.natural n) :=
  fun c hc => .inl (Decimal.natural_digits n c hc)

theorem isNumber_write {x : Float} (h : x.isFinite = true) : IsNumber (layout.write x) := by
  have whole : IsNumber layout.wholeMark := by simp [IsNumber, layout]
  have plus : IsNumber layout.powerPlus := by simp [IsNumber, layout]
  exact Decimal.Layout.forall_mem_write (fun _ => .inl) (.inr (by simp)) (.inr (by simp))
    (.inr (by simp)) whole plus (.inl h)

theorem IsNumber.cancel (ht : IsNumber t) (hu : IsNumber u) (hr : Ends r) (hs : Ends s)
    (h : t ++ r = u ++ s) : t = u ∧ r = s := by
  let inside (c : Char) : Bool := c ≠ ',' && c ≠ '\n'
  have front {t r : Text} (ht : IsNumber t) (hr : Ends r) : (t ++ r).takeWhile inside = t := by
    have within : ∀ c ∈ t, inside c = true := by
      intro c hc
      have apart : c ≠ ',' ∧ c ≠ '\n' := by
        constructor <;> rintro rfl <;> exact absurd (ht _ hc) (by decide)
      simpa [inside] using apart
    rw [List.takeWhile_append_of_pos within]
    cases r with
    | nil => simp
    | cons c r =>
        have outside : inside c = false := by
          rcases hr c rfl with rfl | rfl <;> rfl
        simp [outside]
  have same : t = u := by rw [← front ht hr, h, front hu hs]
  exact ⟨same, List.append_cancel_left (same ▸ h)⟩

/-- A finite double does not look like a whole number. -/
theorem exists_mark {x : Float} (h : x.isFinite = true) :
    ∃ c ∈ layout.write x, c.isDigit = false := by
  have point : '.' ∈ layout.wholeMark := by decide
  have unsigned : ∃ c ∈ (if (Decimal.magnitude x).mantissa = 0 then '0' :: layout.wholeMark
      else layout.magnitudeText (Decimal.magnitude x)), c.isDigit = false := by
    split_ifs
    · exact ⟨'.', List.mem_cons_of_mem _ point, rfl⟩
    · rw [Decimal.Layout.magnitudeText]
      split_ifs
      · refine ⟨'.', ?_, rfl⟩
        rw [Decimal.Layout.plainText]
        split_ifs <;> simp [point]
      · exact ⟨'e', by simp [Decimal.Layout.powerText], rfl⟩
  obtain ⟨c, hc, mark⟩ := unsigned
  refine ⟨c, ?_, mark⟩
  rw [Decimal.write_of_isFinite h, Decimal.signed]
  by_cases negative : Decimal.isNegative x = true
  · rw [if_pos negative]
    exact List.mem_cons_of_mem _ hc
  · rw [if_neg negative]
    exact hc

theorem natural_ne_write (n : ℕ) {x : Float} (h : x.isFinite = true) :
    Decimal.natural n ≠ layout.write x := by
  intro same
  obtain ⟨c, hc, mark⟩ := exists_mark h
  rw [Decimal.natural_digits n c (same ▸ hc)] at mark
  cases mark

theorem natural_injective : Function.Injective Decimal.natural := by
  intro n m h
  rw [← Decimal.ofDigits_natural n, h, Decimal.ofDigits_natural]

theorem write_injective {x y : Float} (hx : x.isFinite = true) (hy : y.isFinite = true)
    (h : layout.write x = layout.write y) : x = y := by
  have read := Decimal.read?_write legible_layout hx
  rw [h, Decimal.read?_write legible_layout hy] at read
  exact (Option.some.inj read).symm

end Numbers

/-- What the texts of two values begin with tells the values and what stands behind them. -/
def Cancels {α : Type} (text : α → Text) (x y : α) : Prop :=
  ∀ {r s : Text}, Ends r → Ends s → text x ++ r = text y ++ s → x = y ∧ r = s

section Blocks

variable {α : Type} {part : α → Text} {opening closing : Char} {xs ys : List α}

/-- What stands between two brackets, with a comma behind each part but the last. -/
def block (level : ℕ) (opening closing : Char) : List Text → Text
  | [] => [opening, closing]
  | first :: parts =>
      opening :: (first ++ parts.flatMap (',' :: ·) ++ newLine level ++ [closing])

def itemLine (level : ℕ) (item : Node) : Text :=
  newLine (level + 1) ++ write (level + 1) item

def fieldLine (level : ℕ) (field : Text × Node) : Text :=
  newLine (level + 1) ++ string field.1 ++ ": ".toList ++ write (level + 1) field.2

theorem itemLine_cancel {a b : Node} (h : Cancels (write (level + 1)) a b) :
    Cancels (itemLine level) a b := by
  intro r s hr hs same
  simp only [itemLine, List.append_assoc] at same
  exact h hr hs (List.append_cancel_left same)

theorem fieldLine_cancel {f g : Text × Node} (h : Cancels (write (level + 1)) f.2 g.2) :
    Cancels (fieldLine level) f g := by
  intro r s hr hs same
  simp only [fieldLine, List.append_assoc] at same
  obtain ⟨key, value⟩ := string_cancel (List.append_cancel_left same)
  obtain ⟨node, behind⟩ := h hr hs (List.append_cancel_left value)
  exact ⟨Prod.ext key node, behind⟩

theorem writeItems_eq (items : List Node) :
    writeItems level items = (items.map (itemLine level)).flatMap (',' :: ·) := by
  induction items with
  | nil => rfl
  | cons item items ih =>
      rw [writeItems, ih]
      simp [itemLine]

theorem writeFields_eq (fields : List (Text × Node)) :
    writeFields level fields = (fields.map (fieldLine level)).flatMap (',' :: ·) := by
  induction fields with
  | nil => rfl
  | cons field fields ih =>
      rw [writeFields, ih]
      simp [fieldLine]

theorem write_sequence (items : List Node) :
    write level (.sequence items) = block level '[' ']' (items.map (itemLine level)) := by
  cases items with
  | nil => rfl
  | cons item items =>
      rw [write, writeItems_eq]
      simp [block, itemLine]

theorem write_mapping (fields : List (Text × Node)) :
    write level (.mapping fields) = block level '\x7b' '\x7d' (fields.map (fieldLine level)) := by
  cases fields with
  | nil => rfl
  | cons field fields =>
      rw [write, writeFields_eq]
      simp [block, fieldLine]

theorem ends_parts (parts : List Text) :
    Ends (parts.flatMap (',' :: ·) ++ (newLine level ++ t)) := by
  cases parts <;> simp [Ends, newLine]

theorem parts_cancel (hpart : ∀ x ∈ xs, ∀ y ∈ ys, Cancels part x y)
    (h : (xs.map part).flatMap (',' :: ·) ++ (newLine level ++ closing :: r) =
      (ys.map part).flatMap (',' :: ·) ++ (newLine level ++ closing :: s)) :
    xs = ys ∧ r = s := by
  induction xs generalizing ys with
  | nil =>
      cases ys with
      | nil =>
          have ended : newLine level ++ closing :: r = newLine level ++ closing :: s := h
          exact ⟨rfl, (List.cons.inj (List.append_cancel_left ended)).2⟩
      | cons y ys => simp [newLine] at h
  | cons x xs ih =>
      cases ys with
      | nil => simp [newLine] at h
      | cons y ys =>
          simp only [List.map_cons, List.flatMap_cons, List.append_assoc, List.cons_append,
            List.cons.injEq, true_and] at h
          obtain ⟨rfl, rest⟩ := hpart x List.mem_cons_self y List.mem_cons_self
            (ends_parts _) (ends_parts _) h
          have later : ∀ x ∈ xs, ∀ y ∈ ys, Cancels part x y := fun x hx y hy =>
            hpart x (List.mem_cons_of_mem _ hx) y (List.mem_cons_of_mem _ hy)
          obtain ⟨rfl, behind⟩ := ih later rest
          exact ⟨rfl, behind⟩

theorem block_cancel (hclosing : closing ≠ '\n') (starts : ∀ x, ∃ t, part x = '\n' :: t)
    (hpart : ∀ x ∈ xs, ∀ y ∈ ys, Cancels part x y)
    (h : block level opening closing (xs.map part) ++ r =
      block level opening closing (ys.map part) ++ s) : xs = ys ∧ r = s := by
  cases xs with
  | nil =>
      cases ys with
      | nil => exact ⟨rfl, List.append_cancel_left h⟩
      | cons y ys =>
          obtain ⟨t, first⟩ := starts y
          simp [block, first, hclosing] at h
  | cons x xs =>
      cases ys with
      | nil =>
          obtain ⟨t, first⟩ := starts x
          simp [block, first, hclosing.symm] at h
      | cons y ys =>
          have parts : ((x :: xs).map part).flatMap (',' :: ·) ++ (newLine level ++ closing :: r) =
              ((y :: ys).map part).flatMap (',' :: ·) ++ (newLine level ++ closing :: s) := by
            simpa [block] using h
          exact parts_cancel hpart parts

end Blocks

section Forms

inductive Form where
  | null
  | number
  | text
  | sequence
  | mapping

/-- The sort of the nodes that begin with a character. -/
def Form.ofHead (c : Char) : Form :=
  if c = 'n' then .null
  else if c = '"' then .text
  else if c = '[' then .sequence
  else if c = '\x7b' then .mapping
  else .number

def Form.ofNode : Node → Form
  | .null => .null
  | .natural _ => .number
  | .real _ => .number
  | .text _ => .text
  | .sequence _ => .sequence
  | .mapping _ => .mapping

theorem IsNumber.head (ht : IsNumber t) (hne : t ≠ []) :
    ∃ c rest, t = c :: rest ∧ Form.ofHead c = .number := by
  obtain ⟨c, rest, rfl⟩ := List.exists_cons_of_ne_nil hne
  refine ⟨c, rest, rfl, ?_⟩
  have first := ht c List.mem_cons_self
  have other : c ≠ 'n' ∧ c ≠ '"' ∧ c ≠ '[' ∧ c ≠ '\x7b' := by
    refine ⟨?_, ?_, ?_, ?_⟩ <;> rintro rfl <;> exact absurd first (by decide)
  simp [Form.ofHead, other]

theorem write_head {a : Node} (h : a.Finite) (level : ℕ) :
    ∃ c t, write level a = c :: t ∧ Form.ofHead c = Form.ofNode a := by
  cases h with
  | null => exact ⟨'n', _, rfl, rfl⟩
  | natural n => exact (isNumber_natural n).head (Decimal.natural_ne_nil n)
  | real finite =>
      obtain ⟨c, hc, -⟩ := exists_mark finite
      exact (isNumber_write finite).head (List.ne_nil_of_mem hc)
  | text t => exact ⟨'"', _, rfl, rfl⟩
  | @sequence items _ => cases items <;> exact ⟨'[', _, rfl, rfl⟩
  | @mapping fields _ => cases fields <;> exact ⟨'\x7b', _, rfl, rfl⟩

theorem form_eq {a b : Node} (ha : a.Finite) (hb : b.Finite)
    (h : write level a ++ r = write level b ++ s) : Form.ofNode a = Form.ofNode b := by
  obtain ⟨c, t, first, formA⟩ := write_head ha level
  obtain ⟨d, u, first', formB⟩ := write_head hb level
  rw [first, first'] at h
  rw [← formA, ← formB, (List.cons.inj h).1]

end Forms

/-- A text tells the node it begins with, and what stands behind the node. -/
theorem write_cancel {a b : Node} (ha : a.Finite) (hb : b.Finite) (level : ℕ) :
    Cancels (write level) a b := by
  -- By induction on the one node; the first character forces the other to be of its sort.
  induction ha generalizing b level with
  | null =>
      intro r s _ _ h
      have form := form_eq .null hb h
      cases hb with
      | null => exact ⟨rfl, List.append_cancel_left h⟩
      | _ => cases form
  | natural n =>
      intro r s hr hs h
      have form := form_eq (.natural n) hb h
      cases hb with
      | natural m =>
          obtain ⟨same, behind⟩ := (isNumber_natural n).cancel (isNumber_natural m) hr hs h
          exact ⟨congrArg _ (natural_injective same), behind⟩
      | real finite =>
          obtain ⟨same, -⟩ := (isNumber_natural n).cancel (isNumber_write finite) hr hs h
          exact absurd same (natural_ne_write n finite)
      | _ => cases form
  | real finite =>
      intro r s hr hs h
      have form := form_eq (.real finite) hb h
      cases hb with
      | natural m =>
          obtain ⟨same, -⟩ := (isNumber_write finite).cancel (isNumber_natural m) hr hs h
          exact absurd same.symm (natural_ne_write m finite)
      | real finite' =>
          obtain ⟨same, behind⟩ :=
            (isNumber_write finite).cancel (isNumber_write finite') hr hs h
          exact ⟨congrArg _ (write_injective finite finite' same), behind⟩
      | _ => cases form
  | text t =>
      intro r s _ _ h
      have form := form_eq (.text t) hb h
      cases hb with
      | text u =>
          obtain ⟨same, behind⟩ := string_cancel h
          exact ⟨congrArg _ same, behind⟩
      | _ => cases form
  | @sequence items finite ih =>
      intro r s _ _ h
      have form := form_eq (.sequence finite) hb h
      cases hb with
      | @sequence others finite' =>
          have each : ∀ a ∈ items, ∀ b ∈ others, Cancels (itemLine level) a b :=
            fun a ha b hb => itemLine_cancel (ih a ha (finite' b hb) (level + 1))
          rw [write_sequence, write_sequence] at h
          obtain ⟨same, behind⟩ := block_cancel (by decide) (fun _ => ⟨_, rfl⟩) each h
          exact ⟨congrArg _ same, behind⟩
      | _ => cases form
  | @mapping fields finite ih =>
      intro r s _ _ h
      have form := form_eq (.mapping finite) hb h
      cases hb with
      | @mapping others finite' =>
          have each : ∀ f ∈ fields, ∀ g ∈ others, Cancels (fieldLine level) f g :=
            fun f hf g hg => fieldLine_cancel (ih f hf (finite' g hg) (level + 1))
          rw [write_mapping, write_mapping] at h
          obtain ⟨same, behind⟩ := block_cancel (by decide) (fun _ => ⟨_, rfl⟩) each h
          exact ⟨congrArg _ same, behind⟩
      | _ => cases form

/-- Nodes of finite doubles with one text are equal. -/
theorem document_injective {a b : Node} (ha : a.Finite) (hb : b.Finite)
    (h : document a = document b) : a = b := by
  have nothing : Ends [] := by simp [Ends]
  refine (write_cancel ha hb 0 nothing nothing ?_).1
  rw [List.append_nil, List.append_nil]
  exact h

end Json
end RunLog
