import Mathlib
import RunLog.Proofs.MarkerLines
import RunLog.Variant

/-!
# The two spellings of the combinator

An occurrence of one text in another that is put together lies in one of the parts,
or it begins in one and ends in another. Neither spelling of the combinator can do
that at the ends of the other spelling, of itself or of what is written for it
(`Clear`), whatever stands around. So each spelling is replaced where it stands, and
the texts before and behind it are normalized by themselves; nothing that is written
makes a new spelling together with what it is written into.
-/
namespace RunLog

namespace Text

variable {part old new a b m t : Text}

/-- An occurrence of `part` in `a ++ b` that begins in `a` and ends in `b`. -/
def Straddles (part a b : Text) : Prop :=
  ∃ front back, part = front ++ back ∧ front ≠ [] ∧ back ≠ [] ∧ front <:+ a ∧ back <+: b

theorem Straddles.mono {whole : Text} (h : Straddles part a b) (hsuffix : a <:+ whole) :
    Straddles part whole b := by
  obtain ⟨front, back, split, hfront, hback, ends, begins⟩ := h
  exact ⟨front, back, split, hfront, hback, ends.trans hsuffix, begins⟩

theorem prefix_append_cases (h : part <+: a ++ b) :
    part <+: a ∨ ∃ back, part = a ++ back ∧ back ≠ [] ∧ back <+: b := by
  rcases List.prefix_or_prefix_of_prefix h (List.prefix_append a b) with inside | ⟨back, rfl⟩
  · exact .inl inside
  · by_cases hback : back = []
    · rw [hback, List.append_nil]
      exact .inl List.prefix_rfl
    · exact .inr ⟨back, rfl, hback, (List.prefix_append_right_inj a).mp h⟩

theorem infix_append_cases (h : part <:+: a ++ b) :
    part <:+: a ∨ part <:+: b ∨ Straddles part a b := by
  rcases List.infix_append_iff.mp h with inside | inside | ⟨front, back, rfl, ends, begins⟩
  · exact .inl inside
  · exact .inr (.inl inside)
  · by_cases hfront : front = []
    · rw [hfront]
      exact .inr (.inl begins.isInfix)
    · by_cases hback : back = []
      · rw [hback, List.append_nil]
        exact .inl ends.isInfix
      · exact .inr (.inr ⟨front, back, rfl, hfront, hback, ends, begins⟩)

theorem replace_of_absent (new : Text) (h : ¬ old <:+: t) : replace old new t = t := by
  fun_induction replace old new t with
  | case1 => rfl
  | case2 => rfl
  | case3 o old c rest found ih => exact absurd (startsWith_iff.mp found).isInfix h
  | case4 o old c rest found ih =>
      rw [ih fun inside => h (inside.trans (List.suffix_cons c rest).isInfix)]

theorem replace_self_append (new t : Text) (hne : old ≠ []) :
    replace old new (old ++ t) = new ++ replace old new t := by
  obtain ⟨o, rest, rfl⟩ := List.exists_cons_of_ne_nil hne
  have found : startsWith (o :: rest) (o :: (rest ++ t)) = true :=
    startsWith_iff.mpr (List.prefix_append (o :: rest) t)
  rw [List.cons_append, replace, if_pos found, List.drop_left]

theorem replace_self (new : Text) (hne : old ≠ []) : replace old new old = new := by
  have alone := replace_self_append new [] hne
  rwa [List.append_nil, replace, List.append_nil] at alone

/-- Two texts are replaced in apart when no occurrence begins in one and ends in the other. -/
theorem replace_append (new : Text) (hne : old ≠ []) (apart : ¬ Straddles old a b) :
    replace old new (a ++ b) = replace old new a ++ replace old new b := by
  fun_induction replace old new a with
  | case1 => rfl
  | case2 => exact absurd rfl hne
  | case3 o old c rest found ih =>
      have inside : (o :: old) <+: c :: rest := startsWith_iff.mp found
      have longer : startsWith (o :: old) (c :: (rest ++ b)) = true :=
        startsWith_iff.mpr (inside.trans (List.prefix_append (c :: rest) b))
      have fits : old.length ≤ rest.length := Nat.le_of_succ_le_succ inside.length_le
      have behind : rest.drop old.length <:+ c :: rest :=
        (List.drop_suffix old.length rest).trans (List.suffix_cons c rest)
      rw [List.cons_append, replace, if_pos longer, List.drop_append_of_le_length fits,
        ih hne fun straddles => apart (straddles.mono behind), List.append_assoc]
  | case4 o old c rest found ih =>
      have missing : ¬ startsWith (o :: old) (c :: (rest ++ b)) = true := by
        intro longer
        rcases prefix_append_cases (startsWith_iff.mp longer : (o :: old) <+: (c :: rest) ++ b) with
          inside | ⟨back, split, hback, begins⟩
        · exact found (startsWith_iff.mpr inside)
        · exact apart ⟨c :: rest, back, split, List.cons_ne_nil c rest, hback, List.suffix_rfl,
            begins⟩
      have shorter : ¬ Straddles (o :: old) rest b := fun straddles =>
        apart (straddles.mono (List.suffix_cons c rest))
      rw [List.cons_append, replace, if_neg missing, ih hne shorter, List.cons_append]

/-- No occurrence of `part` begins before `m` and ends in it or behind, or begins in `m` and
ends behind it. -/
def Clear (part m : Text) : Prop :=
  (∀ back ∈ part.tails, back ≠ [] → back ≠ part → ¬ back <+: m ∧ ¬ m <+: back) ∧
    ∀ front ∈ part.inits, front ≠ [] → front ≠ part → ¬ front <:+ m ∧ ¬ m <:+ front

instance (part m : Text) : Decidable (Clear part m) :=
  inferInstanceAs (Decidable (
    (∀ back ∈ part.tails, back ≠ [] → back ≠ part → ¬ back <+: m ∧ ¬ m <+: back) ∧
      ∀ front ∈ part.inits, front ≠ [] → front ≠ part → ¬ front <:+ m ∧ ¬ m <:+ front))

theorem Clear.before (h : Clear part m) (a b : Text) : ¬ Straddles part a (m ++ b) := by
  rintro ⟨front, back, rfl, hfront, hback, -, begins⟩
  have tail : back ∈ (front ++ back).tails :=
    (List.mem_tails _ _).mpr (List.suffix_append front back)
  have proper : back ≠ front ++ back := fun same => hfront (List.self_eq_append_left.mp same)
  obtain ⟨short, long⟩ := h.1 back tail hback proper
  exact (List.prefix_or_prefix_of_prefix begins (List.prefix_append m b)).elim short long

theorem Clear.behind (h : Clear part m) (a b : Text) : ¬ Straddles part (a ++ m) b := by
  rintro ⟨front, back, rfl, hfront, hback, ends, -⟩
  have init : front ∈ (front ++ back).inits :=
    (List.mem_inits _ _).mpr (List.prefix_append front back)
  have proper : front ≠ front ++ back := fun same => hback (List.self_eq_append_right.mp same)
  obtain ⟨short, long⟩ := h.2 front init hfront proper
  exact (List.suffix_or_suffix_of_suffix ends (List.suffix_append a m)).elim short long

theorem Clear.replace (h : Clear old m) (new : Text) (hne : old ≠ []) (a b : Text) :
    replace old new (a ++ m ++ b) =
      replace old new a ++ replace old new m ++ replace old new b := by
  have front : ¬ Straddles old a m := by
    have alone := h.before a []
    rwa [List.append_nil] at alone
  rw [replace_append new hne (h.behind a b), replace_append new hne front]

theorem Clear.absent (h : Clear part m) (ha : ¬ part <:+: a) (hm : ¬ part <:+: m)
    (hb : ¬ part <:+: b) : ¬ part <:+: a ++ m ++ b := by
  intro inside
  rw [List.append_assoc] at inside
  rcases infix_append_cases inside with left | right | straddles
  · exact ha left
  · rcases infix_append_cases right with middle | last | straddles
    · exact hm middle
    · exact hb last
    · exact h.behind [] b straddles
  · exact h.before a b straddles

end Text

namespace Variant

variable {m p t x : Text}

/-- One of the two ways to write the combinator. -/
def IsSpelling (m : Text) : Prop :=
  m = commaSpelling ∨ m = dashSpelling

/-- No spelling of the combinator occurs. -/
def Plain (t : Text) : Prop :=
  ∀ m, IsSpelling m → ¬ m <:+: t

theorem normalize_around (first : Text.Clear commaSpelling m)
    (second : Text.Clear dashSpelling (Text.replace commaSpelling combinator m)) (p x : Text) :
    normalize (p ++ m ++ x) = normalize p ++ normalize m ++ normalize x := by
  rw [normalize, first.replace combinator (by decide), second.replace combinator (by decide)]
  rfl

theorem replace_comma_dash : Text.replace commaSpelling combinator dashSpelling = dashSpelling :=
  Text.replace_of_absent combinator (by decide)

theorem replace_comma_comma : Text.replace commaSpelling combinator commaSpelling = combinator :=
  Text.replace_self combinator (by decide)

theorem IsSpelling.normalized (h : IsSpelling m) : normalize m = combinator := by
  rcases h with rfl | rfl
  · rw [normalize, replace_comma_comma]
    exact Text.replace_of_absent combinator (by decide)
  · rw [normalize, replace_comma_dash]
    exact Text.replace_self combinator (by decide)

/-- Each spelling is replaced where it stands, whatever there is before and behind it. -/
theorem IsSpelling.replaced (h : IsSpelling m) (p x : Text) :
    normalize (p ++ m ++ x) = normalize p ++ combinator ++ normalize x := by
  have clear : Text.Clear commaSpelling m ∧
      Text.Clear dashSpelling (Text.replace commaSpelling combinator m) := by
    rcases h with rfl | rfl
    · rw [replace_comma_comma]
      decide
    · rw [replace_comma_dash]
      decide
  rw [normalize_around clear.1 clear.2, h.normalized]

theorem Plain.normalized (h : Plain t) : normalize t = t := by
  rw [normalize, Text.replace_of_absent combinator (h _ (.inl rfl)),
    Text.replace_of_absent combinator (h _ (.inr rfl))]

/-- What is written for the combinator makes no spelling with the texts around it. -/
theorem Plain.append_combinator (hp : Plain p) (hx : Plain x) :
    Plain (p ++ combinator ++ x) := by
  intro m hm
  have clear : Text.Clear m combinator ∧ ¬ m <:+: combinator := by
    rcases hm with rfl | rfl <;> decide
  exact clear.1.absent (hp m hm) clear.2 (hx m hm)

/-- No spelling is left in a text that is normalized. -/
theorem plain_normalize (t : Text) : Plain (normalize t) := by
  induction hn : t.length using Nat.strong_induction_on generalizing t with
  | h n ih =>
      by_cases plain : Plain t
      · rwa [plain.normalized]
      · obtain ⟨m, hm, p, x, rfl⟩ : ∃ m, IsSpelling m ∧ m <:+: t := by
          simpa [Plain] using plain
        have nonempty : 0 < m.length := by
          rcases hm with rfl | rfl <;> decide
        rw [List.length_append, List.length_append] at hn
        rw [hm.replaced]
        exact (ih p.length (by omega) p rfl).append_combinator (ih x.length (by omega) x rfl)

theorem normalize_eq_self_iff : normalize t = t ↔ Plain t :=
  ⟨fun same => same ▸ plain_normalize t, Plain.normalized⟩

theorem IsSpelling.trim_around (h : IsSpelling m) (p x : Text) :
    Text.trim (p ++ m ++ x) = Text.trimStart p ++ m ++ Text.trimEnd x := by
  have ends : m.head? = some '(' ∧ m.getLast? = some '-' := by
    rcases h with rfl | rfl
    · exact ⟨rfl, rfl⟩
    · exact ⟨rfl, rfl⟩
  exact Text.trim_around ends.1 ends.2 rfl rfl p x

theorem IsSpelling.read_eq {n : Text} (hm : IsSpelling m) (hn : IsSpelling n) (p x : Text) :
    read (p ++ m ++ x) = read (p ++ n ++ x) := by
  have same : normalize (Text.trim (p ++ m ++ x)) = normalize (Text.trim (p ++ n ++ x)) := by
    rw [hm.trim_around, hn.trim_around, hm.replaced, hn.replaced]
  rw [read, same, read]

/-- Both spellings of the combinator are written in the one way wherever they stand, and what
is before and behind is normalized by itself; so a signature names the same variant in either.
Afterwards neither spelling occurs, and only texts in which neither occurs stay as they are. -/
theorem spellings_agree :
    (∀ p x, normalize (p ++ "(a,b)-".toList ++ x) = normalize p ++ "ab".toList ++ normalize x ∧
      normalize (p ++ "(a-b)-".toList ++ x) = normalize p ++ "ab".toList ++ normalize x ∧
      read (p ++ "(a,b)-".toList ++ x) = read (p ++ "(a-b)-".toList ++ x)) ∧
    ∀ t, ¬ "(a,b)-".toList <:+: normalize t ∧ ¬ "(a-b)-".toList <:+: normalize t ∧
      normalize (normalize t) = normalize t ∧
      (normalize t = t ↔ ¬ "(a,b)-".toList <:+: t ∧ ¬ "(a-b)-".toList <:+: t) := by
  have comma : IsSpelling commaSpelling := .inl rfl
  have dash : IsSpelling dashSpelling := .inr rfl
  refine ⟨fun p x => ⟨comma.replaced p x, dash.replaced p x, comma.read_eq dash p x⟩, fun t =>
    ⟨plain_normalize t _ comma, plain_normalize t _ dash, (plain_normalize t).normalized, ?_⟩⟩
  rw [normalize_eq_self_iff]
  simp only [Plain, IsSpelling, forall_eq_or_imp, forall_eq]
  rfl

end Variant
end RunLog
