import RunLog.Command.Arguments
import RunLog.Command.Failure
import RunLog.Command.Folder
import RunLog.Report.Table

/-!
# Carrying out a command

A command first reads all its files, and then says what is to be done: folders
to make, files to write, and what to print when all of that has worked. The
plan is a value, so the same plan can be carried out on a folder of this
library or on the disk.
-/
namespace RunLog

/-- The largest file that is read unless another limit is set. -/
def defaultSizeLimit : Nat := Nat.pow 2 30

/-- The limit that a setting asks for; what is no number leaves the default. -/
def sizeLimitOf (setting : Option Text) : Nat :=
  (setting.bind (Decimal.readNatural? Decimal.sizeLimit)).getD defaultSizeLimit

namespace Store

/-- Reads a file into a store, decoding it as a whole first. -/
def loadFile (limit : Nat) (fetch : Text → Except Text Octets) (s : Store) (path : Text) :
    Except Failure Store :=
  match fetch path with
  | .error reason => .error (.file path reason)
  | .ok octets =>
      if limit < octets.length then .error (.tooLarge path octets.length limit)
      else
        match s.ingest path (Source.ofText (Utf8.decode octets)) with
        | .error fault => .error (.log path fault)
        | .ok (s, _) => .ok s

/-- Reads files into an empty store, in order; the first that fails ends it. -/
def load (options : Options) (limit : Nat) (fetch : Text → Except Text Octets)
    (paths : List Text) : Except Failure Store :=
  if paths.isEmpty then .error (.badInput "no input files".toList)
  else paths.foldlM (loadFile limit fetch) (empty options)

end Store

inductive Change where
  | makeFolder (path : Text)
  | writeFile (path content : Text)
  deriving DecidableEq, Repr

structure Plan where
  changes : List Change
  output : Text
  deriving DecidableEq, Repr

def Chart.path (folder : Text) (c : Chart) : Text :=
  Folder.join folder (c.fileStem ++ ".json".toList)

def Chart.change (folder : Text) (c : Chart) : Change :=
  .writeFile (c.path folder) c.json

namespace Plan

def print (output : Text) : Plan :=
  ⟨[], output⟩

/-- Keeps charts in a folder, one file each, if there is to be one. -/
def keepCharts (folder : Option Text) (charts : List Chart) : List Change :=
  match folder with
  | none => []
  | some folder => .makeFolder folder :: charts.map (Chart.change folder)

/-- What a command does with the runs it has read. -/
def ofStore (s : Store) : Command → Plan
  | .leaderboard component =>
      let criterion := (component.map Criterion.component).getD .throughput
      print (Leaderboard.render (Leaderboard.ofRecords criterion s.records))
  | .best highlight folder =>
      let charts := Chart.all highlight s.records
      ⟨keepCharts folder charts, charts.flatMap Chart.render⟩
  | .closeness grouping filter =>
      print (Spread.render (grouping.spreads filter s.annotate.records))
  | .records format output =>
      let content := Export.render format s.annotate.records
      match output with
      | none => print content
      | some path => ⟨[.writeFile path content], []⟩
  | .summary => print (Counts.render s)

/-- The plan of a command line. -/
def ofInvocation (limit : Nat) (fetch : Text → Except Text Octets) (i : Invocation) :
    Except Failure Plan :=
  (Store.load { Options.standard with strict := i.strict } limit fetch i.files).map
    (ofStore · i.command)

end Plan

namespace Folder

def change (f : Folder) : Change → Folder × Option Failure
  | .makeFolder path =>
      match f.makeAll path with
      | (f, none) => (f, none)
      | (f, some e) => (f, some (.file path e.message))
  | .writeFile path content =>
      match f.write path (Utf8.encode content) with
      | .ok f => (f, none)
      | .error e => (f, some (.file path e.message))

def changeAll (f : Folder) : List Change → Folder × Option Failure
  | [] => (f, none)
  | c :: rest =>
      match f.change c with
      | (f, none) => changeAll f rest
      | (f, some failure) => (f, some failure)

/-- Carries out a command line in a folder: what is in it afterwards, and what is printed. -/
def run (f : Folder) (limit : Nat) (i : Invocation) : Folder × Except Failure Text :=
  match Plan.ofInvocation limit (fun path => (f.read path).mapError Trouble.message) i with
  | .error failure => (f, .error failure)
  | .ok plan =>
      match f.changeAll plan.changes with
      | (f, none) => (f, .ok plan.output)
      | (f, some failure) => (f, .error failure)

end Folder

end RunLog
