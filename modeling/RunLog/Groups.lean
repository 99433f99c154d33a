/-!
# Groups

Items that share a key, in the order in which the keys are first seen. Within a
group the items keep their order. Keys and groups are two lists side by side, and
an index finds the place of a key in both; that the three agree is part of the type.
-/
namespace RunLog

structure Groups (κ α : Type) [DecidableEq κ] where
  /-- The keys in the order in which they are first seen. -/
  keys : List κ
  members : List (List α)
  index : List (κ × Nat)
  paired : members.length = keys.length
  indexed : ∀ key place, index.lookup key = some place ↔ keys[place]? = some key

namespace Groups

variable {κ α : Type} [DecidableEq κ]

def empty : Groups κ α :=
  ⟨[], [], [], rfl, by simp⟩

/-- An index stays right when a key that it does not know is put behind all others. -/
theorem indexed_concat {keys : List κ} {index : List (κ × Nat)} {key : κ}
    (h : ∀ key place, index.lookup key = some place ↔ keys[place]? = some key)
    (new : index.lookup key = none) (k : κ) (place : Nat) :
    ((key, keys.length) :: index).lookup k = some place ↔
      (keys ++ [key])[place]? = some k := by
  rw [List.getElem?_append, List.lookup_cons]
  by_cases hk : k = key
  · subst hk
    have absent : keys[place]? ≠ some k := by
      rw [Ne, ← h, new]
      simp
    simp only [BEq.rfl, Option.some.injEq]
    split
    · rename_i inside
      exact ⟨fun here => absurd here (Nat.ne_of_gt inside), fun found => absurd found absent⟩
    · rw [List.getElem?_singleton]
      split <;> simp <;> omega
  · have other : (k == key) = false := by simpa using hk
    simp only [other, h]
    split
    · rfl
    · rename_i outside
      have none : keys[place]? = none := List.getElem?_eq_none (Nat.le_of_not_lt outside)
      rw [List.getElem?_singleton]
      split <;> simp [none, Ne.symm hk]

/-- Puts an item behind the others of its key; the group of a new key comes last. -/
def add (g : Groups κ α) (key : κ) (item : α) : Groups κ α :=
  match h : g.index.lookup key with
  | some place =>
      { g with
        members := g.members.modify place (· ++ [item])
        paired := by rw [List.length_modify, g.paired] }
  | none =>
      { keys := g.keys ++ [key]
        members := g.members ++ [[item]]
        index := (key, g.keys.length) :: g.index
        paired := by rw [List.length_append, List.length_append, g.paired]; rfl
        indexed := indexed_concat g.indexed h }

/-- Groups the items by a key. -/
def ofList (key : α → κ) (items : List α) : Groups κ α :=
  items.foldl (fun g item => g.add (key item) item) empty

def get? (g : Groups κ α) (key : κ) : Option (List α) :=
  (g.index.lookup key).bind (g.members[·]?)

/-- Each key with its members. -/
def entries (g : Groups κ α) : List (κ × List α) :=
  g.keys.zip g.members

def size (g : Groups κ α) : Nat :=
  g.keys.length

def isEmpty (g : Groups κ α) : Bool :=
  g.keys.isEmpty

/-- The groups in ascending order of their keys. -/
def sorted [Ord κ] (g : Groups κ α) : List (κ × List α) :=
  g.entries.mergeSort fun a b => (compare a.1 b.1).isLE

end Groups

end RunLog
