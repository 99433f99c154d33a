import Mathlib
import RunLog.Command.Plan
import RunLog.Proofs.Lookups
import RunLog.Proofs.WrittenTexts

/-!
# Writing files into a folder

A file that was written reads back. It stands where no folder was, and paths only
pass through folders, so every other path leads where it led before, and a file
of another name keeps its octets. Whether a path can be written at all is not
treated: names may be too long, and a folder or a file may be in the way.
-/
namespace RunLog

theorem Text.pieces_join (mark : Char) (a b : Text) :
    Text.pieces mark (a ++ mark :: b) = Text.pieces mark a ++ Text.pieces mark b := by
  by_cases h : mark ∈ a
  · obtain ⟨front, rest, rfl, before⟩ := List.eq_append_cons_of_mem h
    have shorter : rest.length < (front ++ mark :: rest).length := by
      simp only [List.length_append, List.length_cons]
      omega
    rw [List.append_assoc, List.cons_append, Text.pieces_append before, Text.pieces_append before,
      Text.pieces_join mark rest b, List.cons_append]
  · rw [Text.pieces_append h, Text.pieces_single h, List.singleton_append]
termination_by a.length

namespace Folder

variable {f after : Folder} {path folder name : Text} {octets : Octets}

theorem lookup_put (entries : List (Place × Entry)) (p q : Place) (e : Entry) :
    (entries.filter (·.1 ≠ p) ++ [(p, e)]).lookup q =
      if q = p then some e else entries.lookup q := by
  induction entries with
  | nil => exact Dictionary.lookup_cons q (p, e) []
  | cons entry rest ih =>
      rw [Dictionary.lookup_cons]
      by_cases gone : entry.1 = p
      · rw [List.filter_cons_of_neg (by simp [gone]), ih, gone]
        split_ifs <;> rfl
      · rw [List.filter_cons_of_pos (by simp [gone]), List.cons_append, Dictionary.lookup_cons, ih]
        split_ifs with own new
        · exact absurd (own.symm.trans new) gone
        · rfl
        · rfl
        · rfl

theorem get?_put {p : Place} (inside : p.isAbove = false) (e : Entry) (q : Place) :
    (f.put p e).get? q = if q = p then some e else f.get? q := by
  rw [get?, get?, put, lookup_put]
  split_ifs with above same
  · rw [same, inside] at above
    cases above
  · rfl
  · rw [Option.some_or]
  · rfl

theorem isAbove_of_get? {p : Place} (h : f.get? p ≠ some .folder) : p.isAbove = false := by
  by_contra above
  rw [get?, if_pos (by simpa using above)] at h
  exact h rfl

theorem look_eq_folder {place : Place} (h : f.look (.name place name) = .ok (some .folder)) :
    ¬ 255 < Utf8.size name ∧ f.get? (place ++ [name]) = some .folder := by
  rw [look] at h
  split_ifs at h with long
  exact ⟨long, Except.ok.inj h⟩

/-- Paths pass through folders only, so a file put where no folder is turns none of them. -/
theorem walk_put {p : Place} (free : f.get? p ≠ some .folder) {pieces : List Text} {here : Place}
    {aim : Aim} (h : f.walk here pieces = .ok aim) :
    (f.put p (.file octets)).walk here pieces = .ok aim := by
  induction pieces generalizing here with
  | nil => exact h
  | cons piece rest ih =>
      rw [walk] at h ⊢
      split_ifs at h ⊢ with idle up last
      · exact ih h
      · exact ih h
      · exact h
      · split at h
        · cases h
        · cases h
        · cases h
        · rename_i found
          obtain ⟨short, there⟩ := look_eq_folder found
          have other : here ++ [piece] ≠ p := fun same => free (same ▸ there)
          have found' : (f.put p (.file octets)).look (.name here piece) = .ok (some .folder) := by
            rw [look, if_neg short, get?_put (isAbove_of_get? free), if_neg other, there]
          rw [found']
          exact ih h

theorem locate_put {p : Place} (free : f.get? p ≠ some .folder) {aim : Aim}
    (h : f.locate path = .ok aim) : (f.put p (.file octets)).locate path = .ok aim := by
  rw [locate] at h ⊢
  split_ifs at h ⊢ <;> exact walk_put free h

structure LeadsTo (f : Folder) (path : Text) (place : Place) (name : Text) : Prop where
  located : f.locate path = .ok (.name place name)
  short : ¬ 255 < Utf8.size name
  slashless : endsInSlash path = false

theorem write_ok (h : f.write path octets = .ok after) :
    ∃ place name, f.LeadsTo path place name ∧ f.get? (place ++ [name]) ≠ some .folder ∧
      after = f.put (place ++ [name]) (.file octets) := by
  rw [write] at h
  split at h
  · cases h
  · cases h
  · rename_i place name located
    split_ifs at h with slash
    split at h
    · cases h
    · cases h
    · rename_i entry free found
      cases h
      rw [look] at found
      split_ifs at found with long
      refine ⟨place, name, ⟨located, long, by simpa using slash⟩, fun folder => ?_, rfl⟩
      cases found
      exact free folder

theorem read_eq_ok_iff : f.read path = .ok octets ↔
    ∃ place name, f.LeadsTo path place name ∧
      f.get? (place ++ [name]) = some (.file octets) := by
  constructor
  · intro h
    rw [read] at h
    split at h
    · cases h
    · cases h
    · cases h
    · rename_i kept found
      split_ifs at h with slash
      cases h
      rw [find] at found
      cases located : f.locate path with
      | error e => simp [located, Except.bind] at found
      | ok aim =>
          cases aim with
          | folder place => simp [located, Except.bind, look] at found
          | name place name =>
              simp only [located, Except.bind, look] at found
              split_ifs at found with long
              exact ⟨place, name, ⟨located, long, by simpa using slash⟩, Except.ok.inj found⟩
  · rintro ⟨place, name, ⟨located, short, slashless⟩, found⟩
    simp only [read, find, located, Except.bind, look, if_neg short, found, slashless]
    rfl

theorem LeadsTo.put {p place : Place} (h : f.LeadsTo path place name)
    (free : f.get? p ≠ some .folder) : (f.put p (.file octets)).LeadsTo path place name :=
  ⟨locate_put free h.located, h.short, h.slashless⟩

theorem read_write_self (h : f.write path octets = .ok after) : after.read path = .ok octets := by
  obtain ⟨place, name, leads, free, rfl⟩ := write_ok h
  refine read_eq_ok_iff.mpr ⟨place, name, leads.put free, ?_⟩
  rw [get?_put (isAbove_of_get? free), if_pos rfl]

theorem read_write_of_ne {other : Text} {kept : Octets} (h : f.write path octets = .ok after)
    (apart : ∀ place name place' name', f.LeadsTo path place name →
      f.LeadsTo other place' name' → name ≠ name')
    (before : f.read other = .ok kept) : after.read other = .ok kept := by
  obtain ⟨place, name, leads, free, rfl⟩ := write_ok h
  obtain ⟨place', name', leads', found⟩ := read_eq_ok_iff.mp before
  refine read_eq_ok_iff.mpr ⟨place', name', leads'.put free, ?_⟩
  have different : place' ++ [name'] ≠ place ++ [name] := fun same =>
    apart _ _ _ _ leads leads' (List.singleton_inj.mp (List.append_inj' same rfl).2).symm
  rw [get?_put (isAbove_of_get? free), if_neg different, found]

/-- A name that a file can have: one piece of a path, and not a step to a folder. -/
structure IsFileName (name : Text) : Prop where
  slashless : '/' ∉ name
  busy : isIdle name = false
  forward : name ≠ Place.dots

theorem walk_concat (hname : IsFileName name) {front : List Text} {here : Place} {aim : Aim}
    (h : f.walk here (front ++ [name]) = .ok aim) : ∃ place, aim = .name place name := by
  induction front generalizing here with
  | nil =>
      rw [List.nil_append, walk, if_neg (by simp [hname.busy]), if_neg hname.forward] at h
      exact ⟨here, (Except.ok.inj h).symm⟩
  | cons piece rest ih =>
      have more : (rest ++ [name]).all List.isEmpty = false := by
        have nonempty := hname.busy
        rw [isIdle, Bool.or_eq_false_iff] at nonempty
        simp [nonempty.1]
      rw [List.cons_append, walk] at h
      simp only [more, Bool.false_eq_true, if_false] at h
      split_ifs at h
      · exact ih h
      · exact ih h
      · split at h
        · cases h
        · cases h
        · cases h
        · exact ih h

theorem pieces_joined (folder : Text) (hname : IsFileName name) :
    ∃ front, Text.pieces '/' (join folder name) = front ++ [name] := by
  rw [join]
  split_ifs with direct
  · rw [Bool.or_eq_true, List.isEmpty_iff, endsInSlash, decide_eq_true_eq,
      List.getLast?_eq_some_iff] at direct
    rcases direct with rfl | ⟨before, rfl⟩
    · exact ⟨[], Text.pieces_single hname.slashless⟩
    · rw [List.append_assoc, List.singleton_append, Text.pieces_join,
        Text.pieces_single hname.slashless]
      exact ⟨_, rfl⟩
  · rw [Text.pieces_join, Text.pieces_single hname.slashless]
    exact ⟨_, rfl⟩

/-- A path that a name is joined to leads to that name, if it leads to a file. -/
theorem LeadsTo.joined (hname : IsFileName name) {place : Place} {last : Text}
    (h : f.LeadsTo (join folder name) place last) : last = name := by
  obtain ⟨front, pieces⟩ := pieces_joined folder hname
  have located := h.located
  rw [locate, pieces] at located
  split_ifs at located <;>
  · obtain ⟨place', same⟩ := walk_concat hname located
    cases same
    rfl

theorem read_write_join_of_ne {other : Text} {kept : Octets} (hname : IsFileName name)
    (hother : IsFileName other) (different : name ≠ other)
    (h : f.write (join folder name) octets = .ok after)
    (before : f.read (join folder other) = .ok kept) :
    after.read (join folder other) = .ok kept := by
  refine read_write_of_ne h (fun _ _ _ _ leads leads' => ?_) before
  rw [leads.joined hname, leads'.joined hother]
  exact different

theorem changeAll_cons_ok {c : Change} {rest : List Change}
    (h : f.changeAll (c :: rest) = (after, none)) :
    ∃ next, f.change c = (next, none) ∧ next.changeAll rest = (after, none) := by
  rw [changeAll] at h
  split at h
  · rename_i next changed
    exact ⟨next, changed, h⟩
  · cases h

theorem change_writeFile_ok {content : Text}
    (h : f.change (.writeFile path content) = (after, none)) :
    f.write path (Utf8.encode content) = .ok after := by
  rw [change] at h
  split at h
  · rename_i written
    cases h
    exact written
  · cases h

section Files

variable {α : Type} {nameOf content : α → Text}

/-- The change that keeps an item in a file of its own name. -/
def keep (folder : Text) (nameOf content : α → Text) (a : α) : Change :=
  .writeFile (join folder (nameOf a)) (content a)

theorem read_changeAll_of_ne {items : List α} (names : ∀ a ∈ items, IsFileName (nameOf a))
    (hname : IsFileName name) (absent : ∀ a ∈ items, nameOf a ≠ name)
    (h : f.changeAll (items.map (keep folder nameOf content)) = (after, none))
    (before : f.read (join folder name) = .ok octets) :
    after.read (join folder name) = .ok octets := by
  induction items generalizing f with
  | nil =>
      cases h
      exact before
  | cons first rest ih =>
      rw [List.forall_mem_cons] at names absent
      obtain ⟨next, changed, later⟩ := changeAll_cons_ok h
      exact ih names.2 absent.2 later
        (read_write_join_of_ne names.1 hname absent.1 (change_writeFile_ok changed) before)

/-- When items are kept one after another, a file holds the last item of its name. -/
theorem read_changeAll {items : List α} (names : ∀ a ∈ items, IsFileName (nameOf a))
    (h : f.changeAll (items.map (keep folder nameOf content)) = (after, none)) {a : α}
    (ha : a ∈ items) :
    ∃ last, (items.filter (nameOf · = nameOf a)).getLast? = some last ∧
      after.read (join folder (nameOf a)) = .ok (Utf8.encode (content last)) := by
  induction items generalizing f a with
  | nil => cases ha
  | cons first rest ih =>
      rw [List.forall_mem_cons] at names
      obtain ⟨next, changed, later⟩ := changeAll_cons_ok h
      by_cases again : ∃ b ∈ rest, nameOf b = nameOf a
      · obtain ⟨b, hb, same⟩ := again
        obtain ⟨last, found, read⟩ := ih names.2 later hb
        rw [same] at found read
        refine ⟨last, ?_, read⟩
        rw [List.filter_cons]
        split_ifs
        · rw [List.getLast?_cons, found]
          rfl
        · exact found
      · simp only [not_exists, not_and] at again
        obtain rfl : a = first :=
          (List.mem_cons.mp ha).resolve_right fun hrest => again a hrest rfl
        have alone : rest.filter (nameOf · = nameOf a) = [] :=
          List.filter_eq_nil_iff.mpr fun b hb => by simpa using again b hb
        refine ⟨a, ?_, ?_⟩
        · rw [List.filter_cons_of_pos (by simp), alone]
          rfl
        · exact read_changeAll_of_ne names.2 names.1 again later
            (read_write_self (change_writeFile_ok changed))

end Files

end Folder

end RunLog
