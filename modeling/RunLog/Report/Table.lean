import RunLog.Counts
import RunLog.Ranking
import RunLog.Spread

/-!
# Reports for people

Leaderboards, charts, spreads and counts as lines of text. Every line ends with
a line feed, also the last one.
-/
namespace RunLog

namespace Table

/-- Fills up with spaces on the left; a longer text stays as it is. -/
def padLeft (width : Nat) (t : Text) : Text :=
  List.replicate (width - t.length) ' ' ++ t

/-- Fills up with spaces on the right; a longer text stays as it is. -/
def padRight (width : Nat) (t : Text) : Text :=
  t ++ List.replicate (width - t.length) ' '

/-- The lines, each with its line feed. -/
def lines (ls : List Text) : Text :=
  ls.flatMap fun l => l ++ ['\n']

end Table

namespace Leaderboard

def entryLine (e : BoardEntry) : Text :=
  "    ".toList ++ Decimal.natural e.rank ++ ": ".toList ++ e.variant.label ++ ' ' ::
    match e.value with
    | some x => Decimal.fixed 3 x
    | none => ['-']

def boardLines (b : Leaderboard) : List Text :=
  ("Bench ".toList ++ b.kind.name ++ " threads ".toList ++ Decimal.natural b.threads) ::
    b.entries.map entryLine

def render (boards : List Leaderboard) : Text :=
  Table.lines (boards.flatMap boardLines)

end Leaderboard

namespace Chart

def pointLine (point : Nat × Float) : Text :=
  "    ".toList ++ Table.padLeft 4 (Decimal.natural point.1) ++ " threads: ".toList ++
    Decimal.fixed 3 point.2

def seriesLines (s : Series) : List Text :=
  (' ' :: ' ' :: s.label) :: s.points.map pointLine

def render (c : Chart) : Text :=
  Table.lines (c.title :: c.series.flatMap seriesLines)

end Chart

namespace Spread

/-- One of the five numbers with its name. -/
def numberText (name : String) (x : Float) : Text :=
  name.toList ++ '=' :: Decimal.fixed 2 x

/-- The line of a spread; without a number there is none. -/
def line? (s : Spread) : Option Text :=
  s.fiveNumbers?.map fun f =>
    s.label ++ ": ".toList ++ numberText "min" f.min ++ ' ' :: numberText "q1" f.q1 ++
      ' ' :: numberText "median" f.median ++ ' ' :: numberText "q3" f.q3 ++
      ' ' :: numberText "max" f.max ++ " (n=".toList ++ Decimal.natural f.count ++ [')']

def render (spreads : List Spread) : Text :=
  Table.lines (spreads.filterMap line?)

end Spread

namespace Counts

def rule : Text :=
  List.replicate 80 '═'

/-- A name, filled up to a column, and its count. -/
def countLine (name : Text) (n : Nat) : Text :=
  "  ".toList ++ Table.padRight 40 name ++ ' ' :: Decimal.natural n

/-- A titled section of counts, after an empty line. -/
def sectionLines (title : String) (counts : List (Text × Nat)) : List Text :=
  [] :: title.toList :: counts.map fun (name, n) => countLine name n

/-- The dropped runs, if there are any. -/
def droppedLines (diagnostics : List Diagnostic) : List Text :=
  if diagnostics.isEmpty then []
  else
    [] :: "Dropped runs:".toList ::
      diagnostics.map fun d => "  ! ".toList ++ d.message

def render (s : Store) : Text :=
  let c := ofStore s
  Table.lines
    ([rule, "Benchmark Log Summary".toList, rule,
        "  Sources: ".toList ++ Decimal.natural c.sources,
        "  Runs: ".toList ++ Decimal.natural c.runs,
        "  Dropped: ".toList ++ Decimal.natural c.dropped] ++
      sectionLines "Runs per benchmark:" c.perKind ++
      sectionLines "Runs per variant:" c.perVariant ++
      sectionLines "Runs per thread count:"
        (c.perThreads.map fun (threads, n) => (Decimal.natural threads, n)) ++
      droppedLines s.diagnostics ++ [rule])

end Counts

end RunLog
