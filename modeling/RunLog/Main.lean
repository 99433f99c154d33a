import RunLog.Command.Plan

/-!
# The command line program

Reads the arguments and the files they name, carries out the plan on the disk,
and prints what the plan says or why it failed. Everything that decides
anything is in the plan.
-/
namespace RunLog.Main

/-- The setting in the environment that limits the size of files. -/
def sizeSetting : String := "BENCHLOG_MAX_FILE_SIZE"

/-- The words of the operating system, with its number where there is one. -/
def reason (e : IO.Error) : String :=
  let numbered (code : UInt32) (details : String) : String :=
    details ++ " (os error " ++ toString code.toNat ++ ")"
  match e with
  | .noFileOrDirectory _ code details => numbered code details
  | .alreadyExists _ code details => numbered code details
  | .inappropriateType _ code details => numbered code details
  | .permissionDenied _ code details => numbered code details
  | .invalidArgument _ code details => numbered code details
  | .resourceExhausted _ code details => numbered code details
  | .otherError code details => numbered code details
  | e => toString e

/-- Runs an action on the disk. -/
def attempt {α : Type} (action : IO α) : IO (Except Text α) := do
  try
    return .ok (← action)
  catch e =>
    return .error (reason e).toList

def fetch (path : Text) : IO (Text × Except Text Octets) := do
  let answer ← attempt do
    let handle ← IO.FS.Handle.mk (String.ofList path) .read
    handle.readBinToEnd
  return (path, answer.map (·.toList))

def isFolder (path : Text) : IO Bool := do
  let answer ← attempt (IO.FS.Handle.mk (String.ofList (path ++ ['/', '.'])) .read)
  return answer.toBool

/-- Makes one folder; one that is there already will do. -/
def makeOne (path : Text) : IO (Except Text Unit) := do
  match ← attempt (IO.FS.createDir (String.ofList path)) with
  | .ok _ => return .ok ()
  | .error e => if ← isFolder path then return .ok () else return .error e

/-- Makes the first of some paths a folder, each of which lies in the next; the others are
made only as far as they are missing. -/
def makeEach : List Text → IO (Except Text Unit)
  | [] => return .ok ()
  | path :: above => do
      match ← makeOne path with
      | .ok _ => return .ok ()
      | .error e =>
          if e = Trouble.missing.message then
            match ← makeEach above with
            | .ok _ => makeOne path
            | .error e => return .error e
          else return .error e

/-- Makes a change; the failure tells what went wrong. -/
def change : Change → IO (Option Failure)
  | .makeFolder path => do
      if path.isEmpty then return none
      match ← makeEach (Folder.lineage path) with
      | .ok _ => return none
      | .error e => return some (.file path e)
  | .writeFile path content => do
      match ← attempt (IO.FS.writeFile (String.ofList path) (String.ofList content)) with
      | .ok _ => return none
      | .error e => return some (.file path e)

def changeAll : List Change → IO (Option Failure)
  | [] => return none
  | c :: rest => do
      match ← change c with
      | none => changeAll rest
      | some failure => return some failure

/-- Tells why the command failed, and gives its exit code. -/
def fail (failure : Failure) : IO UInt32 := do
  IO.eprintln ("Error: " ++ String.ofList failure.message)
  return 1

def perform (i : Invocation) : IO UInt32 := do
  let setting ← IO.getEnv sizeSetting
  let answers ← i.files.mapM fetch
  let answer (path : Text) : Except Text Octets :=
    (answers.lookup path).getD (.error Trouble.missing.message)
  match Plan.ofInvocation (sizeLimitOf (setting.map String.toList)) answer i with
  | .error failure => fail failure
  | .ok plan =>
      match ← changeAll plan.changes with
      | some failure => fail failure
      | none => do
          IO.print (String.ofList plan.output)
          return 0

/-- What is printed when a command line is not carried out. -/
def usage : String :=
  "Usage: [--verbose] [--strict] <command> [options] <files>\n" ++
    "Commands: leaderboard, best, closeness, summary, records, help"

end RunLog.Main

def main (arguments : List String) : IO UInt32 := do
  match RunLog.Invocation.read (arguments.map String.toList) with
  | .ok i => RunLog.Main.perform i
  | .error stop => do
      if stop.exitCode = 0 then IO.println RunLog.Main.usage
      else IO.eprintln RunLog.Main.usage
      return UInt32.ofNat stop.exitCode
