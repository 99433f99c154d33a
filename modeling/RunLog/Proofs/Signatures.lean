import Mathlib
import RunLog.Proofs.Spellings
import RunLog.Proofs.VariantLabels

/-!
# Signatures and the variants they name

What is read from a signature has no blanks around its parts, no opening parenthesis
in the base and no closing one in the subtype (`Canonical`). A base and a subtype of
this kind are found again in any signature that is put together from them: a spelling
of the combinator opens a parenthesis and closes it before its end, so it fits neither
into the base nor between the parentheses (`plain_opened`), and normalizing leaves the
signature alone. A label is put together that way, so it reads back to its variant, if
the variant has a subtype.
-/
namespace RunLog.Variant

variable {base gap t front back : Text}

structure Canonical (v : Variant) : Prop where
  trimmed : Text.trim v.base = v.base
  unopened : '(' ∉ v.base
  subtype : ∀ t ∈ v.subtype, t ≠ [] ∧ Text.trim t = t ∧ ')' ∉ t

theorem subtype_make {subtype : Option Text} :
    (make base subtype).subtype = some t ↔ subtype = some t ∧ t ≠ [] := by
  rw [make, Option.filter_eq_some_iff]
  simp

theorem canonical_read (signature : Text) : (read signature).Canonical := by
  refine ⟨?_, base_read signature, fun t ht => ?_⟩
  · unfold read
    simp only
    split <;> exact Text.trim_trim _
  · unfold read at ht
    simp only at ht
    split at ht
    · obtain ⟨same, some⟩ := subtype_make.mp ht
      cases same
      refine ⟨some, Text.trim_trim _, fun hmem => ?_⟩
      simpa using (List.mem_filter.mp (Text.trim_subset _ hmem)).2
    · cases ht

/-! ### Signatures without a spelling of the combinator -/

theorem IsSpelling.opens {m : Text} (h : IsSpelling m) : ∃ rest, m = '(' :: rest := by
  rcases h with rfl | rfl <;> exact ⟨_, rfl⟩

theorem IsSpelling.closes {m : Text} (h : IsSpelling m) : ∃ inner, m = inner ++ [')', '-'] := by
  rcases h with rfl | rfl
  · exact ⟨"(a,b".toList, rfl⟩
  · exact ⟨"(a-b".toList, rfl⟩

theorem plain_of_unopened (h : '(' ∉ t) : Plain t := by
  intro m hm inside
  obtain ⟨rest, rfl⟩ := hm.opens
  exact h (inside.subset List.mem_cons_self)

theorem plain_opened (unopened : '(' ∉ front) (unclosed : ')' ∉ t) :
    Plain (front ++ '(' :: (t ++ [')'])) := by
  intro m hm inside
  obtain ⟨rest, hrest⟩ := hm.opens
  rcases Text.infix_append_cases inside with left | ⟨before, after, right⟩ | straddles
  · exact plain_of_unopened unopened m hm left
  · obtain ⟨inner, rfl⟩ := hm.closes
    have whole : ('(' :: t) ++ ')' :: [] = (before ++ inner) ++ ')' :: ('-' :: after) := by
      simpa using right.symm
    have behind := (List.append_cons_inj_of_notMem (by simpa using unclosed)
      List.not_mem_nil).mp whole
    cases behind.2.2
  · obtain ⟨first, second, split, hfirst, -, ends, -⟩ := straddles
    obtain ⟨c, first, rfl⟩ := List.exists_cons_of_ne_nil hfirst
    have same : c = '(' := List.head_eq_of_cons_eq (split.symm.trans hrest)
    exact unopened (ends.subset (same ▸ List.mem_cons_self))

/-! ### Signatures that are put together -/

theorem read_unopened (trimmed : Text.trim t = t) (unopened : '(' ∉ t) : read t = ⟨t, none⟩ := by
  have uncut : Text.cut? '(' t = none := Text.cut?_eq_none_iff.mpr unopened
  rw [read, trimmed, (plain_of_unopened unopened).normalized]
  simp only [uncut, trimmed, make, Option.filter_none]

/-- A base and a subtype in parentheses are read back, with blanks between them or around. -/
theorem read_opened (trimmed : Text.trim base = base) (unopened : '(' ∉ base)
    (hgap : ∀ c ∈ gap, Text.isBlank c = true) (hne : t ≠ []) (ht : Text.trim t = t)
    (unclosed : ')' ∉ t) (hfront : ∀ c ∈ front, Text.isBlank c = true)
    (hback : ∀ c ∈ back, Text.isBlank c = true) :
    read (front ++ base ++ gap ++ '(' :: (t ++ [')']) ++ back) = ⟨base, some t⟩ := by
  have nothing : Text.trimEnd back = [] := by
    have blank := List.dropWhile_eq_nil_iff.mpr fun c hc => hback c (List.mem_reverse.mp hc)
    rw [Text.trimEnd, blank, List.reverse_nil]
  have last : ('(' :: (t ++ [')'])).getLast? = some ')' := by
    rw [← List.cons_append, List.getLast?_concat]
  have ends := Text.trim_around rfl last rfl rfl (front ++ base ++ gap) back
  rw [nothing, List.append_nil] at ends
  have absent : '(' ∉ front ++ base ++ gap := by
    rw [List.mem_append, List.mem_append]
    rintro ((hmem | hmem) | hmem)
    · cases hfront _ hmem
    · exact unopened hmem
    · cases hgap _ hmem
  have inner : '(' ∉ Text.trimStart (front ++ base ++ gap) := fun hmem =>
    absent ((List.dropWhile_sublist _).subset hmem)
  have outer : Text.trim (Text.trimStart (front ++ base ++ gap)) = base := by
    rw [Text.trim, Text.trimStart, Text.trimStart, List.dropWhile_idempotent]
    change Text.trim (front ++ base ++ gap) = base
    rw [Text.trim_append_blanks hgap, Text.trim_blanks_append hfront, trimmed]
  have content : (t ++ [')']).filter (· != ')') = t := by
    rw [List.filter_append, List.filter_eq_self.mpr (Text.before_mark unclosed)]
    exact List.append_nil t
  rw [read, ends, (plain_opened inner unclosed).normalized]
  simp only [Text.cut?_append inner, outer, content, ht, make]
  simp [hne]

theorem blank_space : ∀ c ∈ [' '], Text.isBlank c = true :=
  List.forall_mem_singleton.mpr rfl

/-- A label reads back to its variant, if it does not show an absent subtype. -/
theorem Canonical.read_label {v : Variant} (h : v.Canonical) (named : v.subtype ≠ none) :
    read v.label = v := by
  obtain ⟨base, subtype⟩ := v
  obtain ⟨t, rfl⟩ := Option.ne_none_iff_exists'.mp named
  obtain ⟨hne, ht, unclosed⟩ := h.subtype t rfl
  have read := read_opened h.trimmed h.unopened blank_space hne ht unclosed (List.forall_mem_nil _)
    (List.forall_mem_nil _)
  simpa [label] using read

/-- What is read from a signature is canonical, and its label reads back to it unless that
shows an absent subtype. Conversely, a trimmed base without an opening parenthesis and a trimmed
subtype without a closing one are read from the signature that has the subtype in parentheses
behind the base, with a space between them or not and with blanks around; and such a base alone
is read without a subtype. -/
theorem readings_canonical :
    (∀ signature, (read signature).Canonical ∧
      ((read signature).subtype ≠ none → read (read signature).label = read signature)) ∧
    (∀ base t front back, Text.trim base = base → '(' ∉ base →
      Text.trim t = t → t ≠ [] → ')' ∉ t →
      (∀ c ∈ front, Text.isBlank c = true) → (∀ c ∈ back, Text.isBlank c = true) →
      read (front ++ (base ++ "(".toList ++ t ++ ")".toList) ++ back) = ⟨base, some t⟩ ∧
        read (front ++ (base ++ " (".toList ++ t ++ ")".toList) ++ back) = ⟨base, some t⟩) ∧
    ∀ t, Text.trim t = t → '(' ∉ t → read t = ⟨t, none⟩ := by
  refine ⟨fun signature => ⟨canonical_read signature, (canonical_read signature).read_label⟩,
    ?_, fun t => read_unopened⟩
  intro base t front back trimmed unopened ht hne unclosed hfront hback
  have joined := read_opened trimmed unopened (List.forall_mem_nil _) hne ht unclosed hfront hback
  have spaced := read_opened trimmed unopened blank_space hne ht unclosed hfront hback
  exact ⟨by simpa using joined, by simpa using spaced⟩

/-- The base closes a parenthesis that it does not open, and the subtype looks like the inside of
a spelling of the combinator. -/
theorem readings_canonical_nearSpelling :
    let base := "x)-".toList
    let t := "a,b".toList
    Text.trim base = base ∧ '(' ∉ base ∧ Text.trim t = t ∧ t ≠ [] ∧ ')' ∉ t ∧
      read " x)-(a,b) ".toList = ⟨base, some t⟩ ∧ read " x)- (a,b) ".toList = ⟨base, some t⟩ ∧
      read (label ⟨base, some t⟩) = ⟨base, some t⟩ ∧ read base = ⟨base, none⟩ := by
  intro base t
  have trimmed : Text.trim base = base := by decide
  have unopened : '(' ∉ base := by decide
  have ht : Text.trim t = t := by decide
  have hne : t ≠ [] := by decide
  have unclosed : ')' ∉ t := by decide
  obtain ⟨canonical, forms, alone⟩ := readings_canonical
  obtain ⟨joined, spaced⟩ := forms base t " ".toList " ".toList trimmed unopened ht hne unclosed
    blank_space blank_space
  have read_joined : read " x)-(a,b) ".toList = ⟨base, some t⟩ := joined
  have again := (canonical " x)-(a,b) ".toList).2
  rw [read_joined] at again
  exact ⟨trimmed, unopened, ht, hne, unclosed, joined, spaced, again nofun,
    alone base trimmed unopened⟩

end RunLog.Variant
