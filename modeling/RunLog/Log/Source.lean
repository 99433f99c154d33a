import RunLog.Text.Utf8

/-!
# Sources and their lines

A source delivers octets and then ends or fails. Its lines end with a line
feed, which one carriage return may precede; the last line may lack its ending
if it is not empty, and keeps a carriage return then. Lines are decoded one by
one and numbered from one. Of a source that fails, only the lines that were
delivered with their ending are read. Behind a buffer without room, every source
looks as if it had come to its end.
-/
namespace RunLog

structure Line where
  number : Nat
  text : Text
  deriving DecidableEq, Repr

/-- What a source delivers before it ends or fails. -/
structure Source where
  octets : Octets
  /-- Why the source failed after its last octet, if it did. -/
  failure : Option Text

namespace Source

/-- A source that ends after its octets. -/
def ofOctets (octets : Octets) : Source :=
  ⟨octets, none⟩

def ofText (t : Text) : Source :=
  ofOctets (Utf8.encode t)

/-- What of a source passes a buffer of so many octets. One that has no room asks for none, and
takes having got none for the end. -/
def buffered (s : Source) : Nat → Source
  | 0 => ⟨[], none⟩
  | _ + 1 => s

theorem buffered_of_pos {size : Nat} (h : 0 < size) (s : Source) : s.buffered size = s := by
  cases size with
  | zero => cases h
  | succ _ => rfl

theorem failure_buffered (octets : Octets) (size : Nat) :
    ((ofOctets octets).buffered size).failure = none := by
  cases size <;> rfl

def lineFeed : UInt8 := 10

def carriageReturn : UInt8 := 13

/-- Cuts behind each line feed, and drops it; the lines of `done`, kept in reverse, come
first. The second part is what follows the last line feed. -/
def cutOnto (done : List Octets) (octets : Octets) : List Octets × Octets :=
  match h : octets.dropWhile (· != lineFeed) with
  | [] => (done.reverse, octets)
  | b :: rest =>
      have : rest.length < octets.length := by
        have := (List.dropWhile_sublist (· != lineFeed) (l := octets)).length_le
        rw [h] at this
        exact this
      cutOnto (octets.takeWhile (· != lineFeed) :: done) rest
termination_by octets.length

/-- The lines that end with a line feed, and what follows the last one. -/
def cut (octets : Octets) : List Octets × Octets :=
  cutOnto [] octets

/-- Drops one carriage return at the end. -/
def dropReturn (line : Octets) : Octets :=
  if line.getLast? = some carriageReturn then line.dropLast else line

def texts (s : Source) : List Text :=
  let (ended, rest) := cut s.octets
  ended.map (fun line => Utf8.decode (dropReturn line)) ++
    if rest.isEmpty || s.failure.isSome then [] else [Utf8.decode rest]

def lines (s : Source) : List Line :=
  (s.texts.zipIdx 1).map fun (t, n) => ⟨n, t⟩

end Source

end RunLog
