import RunLog.Text.Search

/-!
# Series and charts

A series gives a throughput for some thread counts; a chart is a titled list of
series.
-/
namespace RunLog

structure Series where
  label : Text
  points : List (Nat × Float)

namespace Series

def threads (s : Series) : List Nat :=
  s.points.map Prod.fst

def throughputs (s : Series) : List Float :=
  s.points.map Prod.snd

def size (s : Series) : Nat :=
  s.points.length

def isEmpty (s : Series) : Bool :=
  s.points.isEmpty

end Series

structure Chart where
  title : Text
  series : List Series

/-- The title as a file name without its ending: a slash becomes a dash. -/
def Chart.fileStem (c : Chart) : Text :=
  c.title.map fun x => if x = '/' then '-' else x

end RunLog
