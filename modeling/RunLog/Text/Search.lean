import RunLog.Text.Blank

/-!
# Finding one text in another

Openings, first occurrences and replacement. Occurrences are looked for from
the left and never overlap.
-/
namespace RunLog.Text

/-- What follows `opening`, when the text begins with it. -/
def after? : (opening t : Text) → Option Text
  | [], t => some t
  | _ :: _, [] => none
  | o :: opening, c :: t => if o = c then after? opening t else none

def startsWith (opening t : Text) : Bool :=
  opening.isPrefixOf t

/-- What follows the first occurrence of `part`. -/
def afterFirst? (part : Text) : Text → Option Text
  | [] => after? part []
  | c :: t =>
      match after? part (c :: t) with
      | some rest => some rest
      | none => afterFirst? part t

/-- Whether `part` occurs in the text; the empty text occurs everywhere. -/
def contains (part : Text) : Text → Bool
  | [] => part.isEmpty
  | c :: t => startsWith part (c :: t) || contains part t

/-- The text before the first `mark` and the text behind it. -/
def cut? (mark : Char) (t : Text) : Option (Text × Text) :=
  match t.dropWhile (· != mark) with
  | [] => none
  | _ :: rest => some (t.takeWhile (· != mark), rest)

/-- The pieces between the occurrences of `mark`: one more than there are marks. -/
def pieces (mark : Char) (t : Text) : List Text :=
  match h : t.dropWhile (· != mark) with
  | [] => [t]
  | c :: rest =>
      have : rest.length < t.length := by
        have := (List.dropWhile_sublist (· != mark) (l := t)).length_le
        rw [h] at this
        exact this
      t.takeWhile (· != mark) :: pieces mark rest
termination_by t.length

/-- The pieces with `mark` between them. -/
def join (mark : Char) : List Text → Text
  | [] => []
  | [piece] => piece
  | piece :: rest => piece ++ mark :: join mark rest

/-- Writes `new` for every occurrence of `old`; an empty `old` occurs nowhere. -/
def replace (old new : Text) (t : Text) : Text :=
  match old, t with
  | _, [] => []
  | [], t => t
  | o :: old, c :: rest =>
      if startsWith (o :: old) (c :: rest) then
        new ++ replace (o :: old) new (rest.drop old.length)
      else c :: replace (o :: old) new rest
termination_by t.length
decreasing_by all_goals simp only [List.length_drop, List.length_cons]; omega

end RunLog.Text
