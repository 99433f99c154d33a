import RunLog.Text.Blank

/-!
# Dictionaries

Finite maps from texts, kept in ascending order of their keys by code point.
The order is part of the type, so two dictionaries with the same answers are
equal and every listing of one comes out in key order.
-/
namespace RunLog

structure Dictionary (α : Type) where
  entries : List (Text × α)
  sorted : entries.Pairwise fun a b => a.1 < b.1

namespace Dictionary

variable {α : Type}

def empty : Dictionary α :=
  ⟨[], .nil⟩

instance : EmptyCollection (Dictionary α) :=
  ⟨empty⟩

instance : Inhabited (Dictionary α) :=
  ⟨empty⟩

/-- Puts an entry into a sorted list; an entry with the same key gives way. -/
def put (key : Text) (value : α) : List (Text × α) → List (Text × α)
  | [] => [(key, value)]
  | entry :: rest =>
      if key < entry.1 then (key, value) :: entry :: rest
      else if key = entry.1 then (key, value) :: rest
      else entry :: put key value rest

theorem mem_put {key : Text} {value : α} {x : Text × α} {entries : List (Text × α)}
    (h : x ∈ put key value entries) : x = (key, value) ∨ x ∈ entries := by
  induction entries with
  | nil => simpa [put] using h
  | cons entry rest ih =>
    rw [put] at h
    split at h
    · simpa using h
    · split at h
      · grind
      · grind

theorem lt_of_not_lt_of_ne {a b : Text} (h : ¬a < b) (hne : a ≠ b) : b < a := by
  rcases List.le_iff_lt_or_eq.mp (List.not_lt.mp h) with hlt | heq
  · exact hlt
  · exact absurd heq.symm hne

/-- Putting an entry keeps the list sorted. -/
theorem sorted_put (key : Text) (value : α) {entries : List (Text × α)}
    (h : entries.Pairwise fun a b => a.1 < b.1) :
    (put key value entries).Pairwise fun a b => a.1 < b.1 := by
  induction entries with
  | nil => simp [put]
  | cons entry rest ih =>
    obtain ⟨first, later⟩ := List.pairwise_cons.mp h
    rw [put]
    split
    · rename_i hlt
      refine List.pairwise_cons.mpr ⟨fun x hx => ?_, h⟩
      rcases List.mem_cons.mp hx with rfl | hx
      · exact hlt
      · exact List.lt_trans hlt (first x hx)
    · rename_i hlt
      split
      · rename_i heq
        exact List.pairwise_cons.mpr ⟨fun x hx => heq ▸ first x hx, later⟩
      · rename_i hne
        refine List.pairwise_cons.mpr ⟨fun x hx => ?_, ih later⟩
        rcases mem_put hx with rfl | hx
        · exact lt_of_not_lt_of_ne hlt hne
        · exact first x hx

def insert (d : Dictionary α) (key : Text) (value : α) : Dictionary α :=
  ⟨put key value d.entries, sorted_put key value d.sorted⟩

def get? (d : Dictionary α) (key : Text) : Option α :=
  d.entries.lookup key

/-- The keys in ascending order. -/
def keys (d : Dictionary α) : List Text :=
  d.entries.map Prod.fst

def size (d : Dictionary α) : Nat :=
  d.entries.length

def isEmpty (d : Dictionary α) : Bool :=
  d.entries.isEmpty

end Dictionary

end RunLog
