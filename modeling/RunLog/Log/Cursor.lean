import RunLog.Log.Source
import RunLog.Run.Fault

/-!
# Reading lines one by one

A cursor stands between two lines of a source and knows how many it has passed. At
the end of the source it stays where it is, however often it is asked for a line. A
source that fails answers with its failure instead; what it delivered of an
unfinished line is gone then.
-/
namespace RunLog

structure Cursor where
  /-- What the source still delivers, and whether it ends or fails then. -/
  ahead : Source
  number : Nat

namespace Cursor

/-- Before the first line. -/
def ofSource (source : Source) : Cursor :=
  ⟨source, 0⟩

/-- The next line, if the source has one, and the place behind it. -/
def next (c : Cursor) : Except Fault (Option Line) × Cursor :=
  let octets := c.ahead.octets
  match octets.dropWhile (· != Source.lineFeed) with
  | _ :: rest =>
      let line := octets.takeWhile (· != Source.lineFeed)
      (.ok (some ⟨c.number + 1, Utf8.decode (Source.dropReturn line)⟩),
        ⟨⟨rest, c.ahead.failure⟩, c.number + 1⟩)
  | [] =>
      match c.ahead.failure with
      | some reason => (.error (.unreadable reason), ⟨⟨[], some reason⟩, c.number⟩)
      | none =>
          if octets.isEmpty then (.ok none, c)
          else (.ok (some ⟨c.number + 1, Utf8.decode octets⟩), ⟨⟨[], none⟩, c.number + 1⟩)

end Cursor

end RunLog
