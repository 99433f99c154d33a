import Mathlib.Data.List.Perm.Basic
import Mathlib.Tactic.SplitIfs
import RunLog.Dictionary

/-!
# What a dictionary answers

A dictionary is known by its answers: the last value set for a key is its
answer, and dictionaries with the same answers are equal, as their entries
stand in the one order that the type admits.
-/
namespace RunLog.Dictionary
variable {α : Type}

theorem lookup_cons {κ : Type} [BEq κ] [LawfulBEq κ] [DecidableEq κ] (key : κ) (entry : κ × α)
    (rest : List (κ × α)) :
    (entry :: rest).lookup key = if key = entry.1 then some entry.2 else rest.lookup key := by
  obtain ⟨other, value⟩ := entry
  rw [List.lookup_cons]
  by_cases h : key = other
  · simp [h]
  · have hb : (key == other) = false := by simpa using h
    simp [h, hb]

theorem lookup_put (key other : Text) (value : α) (entries : List (Text × α)) :
    (put key value entries).lookup other =
      if other = key then some value else entries.lookup other := by
  induction entries with
  | nil => rw [put, lookup_cons]
  | cons entry rest ih =>
      rw [put]
      by_cases hlt : key < entry.1
      · rw [if_pos hlt, lookup_cons]
      · rw [if_neg hlt]
        by_cases heq : key = entry.1
        · simp only [heq, if_true, lookup_cons]
          split_ifs <;> rfl
        · simp only [heq, if_false, lookup_cons, ih]
          split_ifs with he hk
          · exact absurd (hk.symm.trans he) heq
          · rfl
          · rfl
          · rfl

@[simp] theorem get?_insert (d : Dictionary α) (key other : Text) (value : α) :
    (d.insert key value).get? other = if other = key then some value else d.get? other :=
  lookup_put key other value d.entries

theorem lookup_eq_some_iff {entries : List (Text × α)}
    (h : entries.Pairwise fun a b => a.1 < b.1) {key : Text} {value : α} :
    entries.lookup key = some value ↔ (key, value) ∈ entries := by
  induction entries with
  | nil => simp
  | cons entry rest ih =>
      obtain ⟨first, later⟩ := List.pairwise_cons.mp h
      rw [lookup_cons]
      split_ifs with hk
      · have fresh : (key, value) ∉ rest := fun hm => List.lt_irrefl _ (hk ▸ first _ hm)
        rw [List.mem_cons, or_iff_left fresh, Prod.ext_iff, Option.some.injEq]
        exact ⟨fun hv => ⟨hk, hv.symm⟩, fun hv => hv.2.symm⟩
      · have hne : (key, value) ≠ entry := fun he => hk (congrArg Prod.fst he)
        simp [ih later, hne]

theorem get?_eq_some_iff {d : Dictionary α} {key : Text} {value : α} :
    d.get? key = some value ↔ (key, value) ∈ d.entries :=
  lookup_eq_some_iff d.sorted

theorem nodup_entries (d : Dictionary α) : d.entries.Nodup := by
  refine d.sorted.imp ?_
  rintro a b h rfl
  exact List.lt_irrefl _ h

theorem ext_get? {d e : Dictionary α} (h : ∀ key, d.get? key = e.get? key) : d = e := by
  have same : ∀ entry, entry ∈ d.entries ↔ entry ∈ e.entries := by
    rintro ⟨key, value⟩
    rw [← get?_eq_some_iff, ← get?_eq_some_iff, h]
  have perm : d.entries.Perm e.entries :=
    (List.perm_ext_iff_of_nodup d.nodup_entries e.nodup_entries).mpr same
  have entries : d.entries = e.entries :=
    perm.eq_of_pairwise
      (fun a b _ _ hab hba => absurd (List.lt_trans hab hba) (List.lt_irrefl _))
      d.sorted e.sorted
  cases d
  cases e
  simp_all

theorem insert_insert (d : Dictionary α) (key : Text) (value other : α) :
    (d.insert key value).insert key other = d.insert key other := by
  refine ext_get? fun k => ?_
  rw [get?_insert, get?_insert, get?_insert]
  split_ifs <;> rfl

end RunLog.Dictionary
