import RunLog.Report.Export
import RunLog.Spread

/-!
# Command lines

A command line names a command, the files it reads and its options. Options may
stand before or after the files, and short flags may be joined; a value stands
behind its option, or is attached to it. Everything behind `--` is a file. A
reading stops at the first thing that is wrong; whether the value of an option
is any good is looked at when the next option or file is taken.
-/
namespace RunLog

inductive Command where
  | leaderboard (component : Option Text)
  | best (highlight outFolder : Option Text)
  | closeness (grouping : Grouping) (filter : Option Text)
  | records (format : Format) (output : Option Text)
  | summary
  deriving DecidableEq, Repr

structure Invocation where
  strict : Bool
  files : List Text
  command : Command
  deriving DecidableEq, Repr

/-- Why a command line is not carried out. -/
inductive Stop where
  | help
  | version
  | nothingGiven
  | noCommand
  | unknownCommand
  | noFiles
  | unknownArgument
  | badValue
  | valueForFlag
  | repeated
  deriving DecidableEq, Repr

/-- Help and version are what was asked for; all else is a mistake. -/
def Stop.exitCode : Stop → Nat
  | .help => 0
  | .version => 0
  | _ => 2

inductive Verb where
  | leaderboard
  | best
  | closeness
  | records
  | summary
  deriving DecidableEq, Repr

inductive Slot where
  | component
  | highlight
  | outFolder
  | grouping
  | filter
  | format
  | output
  deriving DecidableEq, Repr

namespace Slot

/-- The name behind two dashes. -/
def long : Slot → Text
  | .component => "component".toList
  | .highlight => "highlight".toList
  | .outFolder => "out-dir".toList
  | .grouping => "by".toList
  | .filter => "filter".toList
  | .format => "format".toList
  | .output => "output".toList

/-- The letter behind one dash. -/
def short? : Slot → Option Char
  | .component => some 'c'
  | .highlight => none
  | .outFolder => some 'o'
  | .grouping => some 'b'
  | .filter => some 'f'
  | .format => some 'f'
  | .output => some 'o'

end Slot

def Grouping.ofName? (name : Text) : Option Grouping :=
  if name = "variant".toList then some .variant
  else if name = "threads".toList then some .threads
  else if name = "workload".toList then some .workload
  else none

def Format.ofName? (name : Text) : Option Format :=
  if name = "json".toList then some .json
  else if name = "yaml".toList then some .yaml
  else if name = "csv".toList then some .csv
  else none

/-- Whether an option takes a value. -/
def Slot.accepts (slot : Slot) (value : Text) : Bool :=
  match slot with
  | .grouping => (Grouping.ofName? value).isSome
  | .format => (Format.ofName? value).isSome
  | _ => true

namespace Verb

def ofName? (name : Text) : Option Verb :=
  if name = "leaderboard".toList then some .leaderboard
  else if name = "best".toList then some .best
  else if name = "closeness".toList then some .closeness
  else if name = "records".toList then some .records
  else if name = "summary".toList then some .summary
  else none

def slots : Verb → List Slot
  | .leaderboard => [.component]
  | .best => [.highlight, .outFolder]
  | .closeness => [.grouping, .filter]
  | .records => [.format, .output]
  | .summary => []

def command (verb : Verb) (value? : Slot → Option Text) : Command :=
  match verb with
  | .leaderboard => .leaderboard (value? .component)
  | .best => .best (value? .highlight) (value? .outFolder)
  | .closeness =>
      .closeness (((value? .grouping).bind Grouping.ofName?).getD .variant) (value? .filter)
  | .records => .records (((value? .format).bind Format.ofName?).getD .json) (value? .output)
  | .summary => .summary

end Verb

inductive Flag where
  | verbose
  | strict
  | help
  | version
  deriving DecidableEq, Repr

namespace Flag

/-- The flags by the name behind two dashes; only the program as a whole has a version. -/
def ofLong? (inCommand : Bool) (name : Text) : Option Flag :=
  if name = "verbose".toList then some .verbose
  else if name = "strict".toList then some .strict
  else if name = "help".toList then some .help
  else if name = "version".toList && !inCommand then some .version
  else none

/-- The flags by the letter behind one dash. -/
def ofShort? (inCommand : Bool) (letter : Char) : Option Flag :=
  if letter = 'v' then some .verbose
  else if letter = 'h' then some .help
  else if letter = 'V' && !inCommand then some .version
  else none

end Flag

/-- A long option apart from the value attached to it. -/
def splitAttached (body : Text) : Text × Option Text :=
  match Text.cut? '=' body with
  | some (name, value) => (name, some value)
  | none => (body, none)

structure Taken where
  strict : Bool
  files : List Text
  values : List (Slot × Text)
  /-- The last option, with its value once that is known, as long as it has not been looked
  at. -/
  pending : Option (Slot × Option Text)

namespace Taken

/-- Sets the value of an option, which must be new and good. -/
def set (t : Taken) (slot : Slot) (value : Text) : Except Stop Taken :=
  if (t.values.lookup slot).isSome then .error .repeated
  else if slot.accepts value then .ok { t with values := t.values ++ [(slot, value)] }
  else .error .badValue

/-- Looks at the last option. -/
def settle (t : Taken) : Except Stop Taken :=
  match t.pending with
  | none => .ok t
  | some (_, none) => .error .badValue
  | some (slot, some value) => { t with pending := none }.set slot value

def takeFile (t : Taken) (file : Text) : Except Stop Taken :=
  t.settle.map fun t => { t with files := t.files ++ [file] }

/-- Takes an option, with the value attached to it if there is one. -/
def takeSlot (t : Taken) (slot : Slot) (attached : Option Text) : Except Stop Taken := do
  let t ← t.settle
  match attached with
  | some value => t.set slot value
  | none => .ok { t with pending := some (slot, none) }

def takeFlag (t : Taken) (flag : Flag) : Except Stop Taken := do
  let t ← t.settle
  match flag with
  | .verbose => .ok t
  | .strict => if t.strict then .error .repeated else .ok { t with strict := true }
  | .help => .error .help
  | .version => .error .version

/-- Takes what follows two dashes. -/
def takeLong (verb : Verb) (t : Taken) (body : Text) : Except Stop Taken :=
  let (name, attached) := splitAttached body
  match verb.slots.find? (·.long = name) with
  | some slot => t.takeSlot slot attached
  | none =>
      match Flag.ofLong? true name with
      | some flag => if attached.isSome then .error .valueForFlag else t.takeFlag flag
      | none => .error .unknownArgument

/-- Takes the letters that follow one dash; the value of an option may be attached to its
letter, also with an equals sign between. -/
def takeShort (verb : Verb) (t : Taken) : Text → Except Stop Taken
  | [] => .ok t
  | letter :: rest =>
      match verb.slots.find? (·.short? = some letter) with
      | some slot =>
          match rest with
          | [] => t.takeSlot slot none
          | '=' :: value => t.takeSlot slot (some value)
          | value => t.takeSlot slot (some value)
      | none =>
          match Flag.ofShort? true letter with
          | some flag =>
              match t.takeFlag flag with
              | .error e => .error e
              | .ok t => takeShort verb t rest
          | none => .error .unknownArgument

/-- Takes an argument without dashes: the value that the last option waits for, or a file. -/
def takePlain (t : Taken) (argument : Text) : Except Stop Taken :=
  match t.pending with
  | some (slot, none) => .ok { t with pending := some (slot, some argument) }
  | _ => t.takeFile argument

def take (verb : Verb) (t : Taken) : Text → Except Stop Taken
  | '-' :: '-' :: body => takeLong verb t body
  | ['-'] => t.takePlain ['-']
  | '-' :: letters => takeShort verb t letters
  | argument => t.takePlain argument

/-- Takes all arguments; those behind `--` are files. -/
def takeAll (verb : Verb) (t : Taken) : List Text → Except Stop Taken
  | [] => t.settle
  | argument :: rest => do
      if argument = "--".toList then
        let t ← rest.foldlM takeFile t
        t.settle
      else
        takeAll verb (← t.take verb argument) rest

/-- The command line that was taken, which must name a file. -/
def invocation (verb : Verb) (t : Taken) : Except Stop Invocation :=
  if t.files.isEmpty then .error .noFiles
  else .ok ⟨t.strict, t.files, verb.command (t.values.lookup ·)⟩

end Taken

/-- Reads the arguments behind the name of a command. -/
def Verb.read (verb : Verb) (arguments : List Text) : Except Stop Invocation := do
  let t ← Taken.takeAll verb ⟨false, [], [], none⟩ arguments
  t.invocation verb

structure Given where
  strict : Bool
  any : Bool

namespace Given

def takeFlag (g : Given) (flag : Flag) : Except Stop Given :=
  match flag with
  | .verbose => .ok { g with any := true }
  | .strict => if g.strict then .error .repeated else .ok ⟨true, true⟩
  | .help => .error .help
  | .version => .error .version

/-- Takes what follows two dashes. -/
def takeLong (g : Given) (body : Text) : Except Stop Given :=
  let (name, attached) := splitAttached body
  match Flag.ofLong? false name with
  | some flag => if attached.isSome then .error .valueForFlag else g.takeFlag flag
  | none => .error .unknownArgument

/-- Takes the letters that follow one dash. -/
def takeShort (g : Given) : Text → Except Stop Given
  | [] => .ok g
  | letter :: rest =>
      match Flag.ofShort? false letter with
      | some flag =>
          match g.takeFlag flag with
          | .error e => .error e
          | .ok g => takeShort g rest
      | none => .error .unknownArgument

/-- Takes an argument that is no command. -/
def take (g : Given) : Text → Except Stop Given
  | '-' :: '-' :: body => g.takeLong body
  | '-' :: letter :: letters => g.takeShort (letter :: letters)
  | _ => .error .unknownCommand

/-- Why a command line without a command is not carried out. -/
def nothing (g : Given) : Stop :=
  if g.any then .noCommand else .nothingGiven

end Given

/-- Whether help can be asked for by this name. -/
def isTopic (name : Text) : Bool :=
  (Verb.ofName? name).isSome || name = "help".toList

/-- What the words behind `help` lead to. -/
def helpStop : List Text → Stop
  | [] => .help
  | [name] => if isTopic name then .help else .unknownCommand
  | _ => .unknownCommand

/-- Reads a command line after what has been given so far; a command behind `--` is no
command. -/
def Invocation.readOn (g : Given) : List Text → Except Stop Invocation
  | [] => .error g.nothing
  | argument :: rest =>
      match Verb.ofName? argument with
      | some verb =>
          (verb.read rest).map fun i => { i with strict := i.strict || g.strict }
      | none =>
          if argument = "help".toList then .error (helpStop rest)
          else if argument = "--".toList then
            match rest with
            | [] => .error g.nothing
            | name :: _ => .error (if isTopic name then .unknownArgument else .unknownCommand)
          else
            match g.take argument with
            | .error e => .error e
            | .ok g => readOn g rest

def Invocation.read (arguments : List Text) : Except Stop Invocation :=
  readOn ⟨false, false⟩ arguments

end RunLog
