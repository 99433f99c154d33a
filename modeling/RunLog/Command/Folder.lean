import RunLog.Text.Search
import RunLog.Text.Utf8

/-!
# Folders of files

A folder as a finite tree, with the answers that a file system gives when a
path is read, written or made a folder. A path is walked name by name, and the
first name that cannot be passed decides what goes wrong. What lies outside is
not known, apart from the folders above and those at the top: a place is named
from the folder on, with two dots in front for each step up, or from the top of
the file system, with an empty name in front.
-/
namespace RunLog

/-- What goes wrong with a path. -/
inductive Trouble where
  | missing
  | present
  | noFolder
  | isFolder
  | nameTooLong
  | nulInName
  deriving DecidableEq, Repr

/-- The trouble in the words of the operating system. -/
def Trouble.message : Trouble → Text
  | .missing => "No such file or directory (os error 2)".toList
  | .present => "File exists (os error 17)".toList
  | .noFolder => "Not a directory (os error 20)".toList
  | .isFolder => "Is a directory (os error 21)".toList
  | .nameTooLong => "File name too long (os error 36)".toList
  | .nulInName => "file name contained an unexpected NUL byte".toList

inductive Entry where
  | folder
  | file (octets : Octets)
  deriving DecidableEq, Repr

/-- The names on the way to a place. -/
abbrev Place := List Text

namespace Place

def dots : Text :=
  ['.', '.']

def top : Place :=
  [[]]

/-- Whether a place is the folder itself or one above it. -/
def isAbove (p : Place) : Bool :=
  p = top || p.all (· == dots)

/-- Whether a place lies below the folder. -/
def isBelow (p : Place) : Bool :=
  p.head?.any fun name => !name.isEmpty && name != dots

/-- One step up; above the top there is nothing else. -/
def up (p : Place) : Place :=
  if p = top then top else if p.all (· == dots) then p ++ [dots] else p.dropLast

end Place

/-- The folders that stand at the top of the file system. -/
def topFolders : List Text :=
  ["bin", "boot", "dev", "etc", "home", "lib", "media", "mnt", "opt", "proc", "root", "run",
    "sbin", "srv", "sys", "tmp", "usr", "var"].map String.toList

/-- What is known of what lies outside: the folders at the top, and the file that is always
empty. -/
def outside? : Place → Option Entry
  | [[], name] => if topFolders.contains name then some .folder else none
  | [[], folder, name] =>
      if folder = "dev".toList && name = "null".toList then some (.file []) else none
  | _ => none

structure Folder where
  entries : List (Place × Entry)

/-- Where a path ends: in a step to a folder that is there, or at a name in one. -/
inductive Aim where
  | folder (place : Place)
  | name (place : Place) (name : Text)
  deriving DecidableEq, Repr

namespace Folder

def empty : Folder :=
  ⟨[]⟩

def get? (f : Folder) (p : Place) : Option Entry :=
  if p.isAbove then some .folder else (f.entries.lookup p).or (outside? p)

/-- Puts an entry into the folder. -/
def put (f : Folder) (p : Place) (e : Entry) : Folder :=
  ⟨f.entries.filter (·.1 ≠ p) ++ [(p, e)]⟩

/-- What a path ends at, if there is anything. -/
def look (f : Folder) : Aim → Except Trouble (Option Entry)
  | .folder _ => .ok (some .folder)
  | .name place name =>
      if 255 < Utf8.size name then .error .nameTooLong else .ok (f.get? (place ++ [name]))

/-- Whether a piece of a path stays where it is. -/
def isIdle (piece : Text) : Bool :=
  piece.isEmpty || piece == ['.']

/-- Walks on from a folder, up to the last name. -/
def walk (f : Folder) (here : Place) : List Text → Except Trouble Aim
  | [] => .ok (.folder here)
  | piece :: rest =>
      if isIdle piece then walk f here rest
      else if piece = Place.dots then walk f here.up rest
      else if rest.all List.isEmpty then .ok (.name here piece)
      else
        match f.look (.name here piece) with
        | .error e => .error e
        | .ok none => .error .missing
        | .ok (some (.file _)) => .error .noFolder
        | .ok (some .folder) => walk f (here ++ [piece]) rest

/-- Where a path ends. -/
def locate (f : Folder) (path : Text) : Except Trouble Aim :=
  if path.any (·.toNat == 0) then .error .nulInName
  else if path.isEmpty then .error .missing
  else if 4096 ≤ Utf8.size path then .error .nameTooLong
  else walk f (if path.head? = some '/' then Place.top else []) (Text.pieces '/' path)

def find (f : Folder) (path : Text) : Except Trouble (Option Entry) :=
  (f.locate path).bind f.look

/-- Whether a path asks for a folder. -/
def endsInSlash (path : Text) : Bool :=
  path.getLast? = some '/'

def read (f : Folder) (path : Text) : Except Trouble Octets :=
  match f.find path with
  | .error e => .error e
  | .ok none => .error .missing
  | .ok (some .folder) => .error .isFolder
  | .ok (some (.file octets)) => if endsInSlash path then .error .noFolder else .ok octets

/-- Writes a file, in place of one that is there; a path that asks for a folder is refused
before its last name is looked at. -/
def write (f : Folder) (path : Text) (octets : Octets) : Except Trouble Folder :=
  match f.locate path with
  | .error e => .error e
  | .ok (.folder _) => .error .isFolder
  | .ok (.name place name) =>
      if endsInSlash path then .error .isFolder
      else
        match f.look (.name place name) with
        | .error e => .error e
        | .ok (some .folder) => .error .isFolder
        | .ok _ => .ok (f.put (place ++ [name]) (.file octets))

/-- Makes a folder in a folder that is there. -/
def makeOne (f : Folder) (path : Text) : Except Trouble Folder :=
  match f.locate path with
  | .error e => .error e
  | .ok (.folder _) => .error .present
  | .ok (.name place name) =>
      match f.look (.name place name) with
      | .error e => .error e
      | .ok (some _) => .error .present
      | .ok none => .ok (f.put (place ++ [name]) .folder)

def isFolder (f : Folder) (path : Text) : Bool :=
  match f.find path with
  | .ok (some .folder) => true
  | _ => false

/-- Makes a folder, unless there is one. -/
def settle (f : Folder) (path : Text) : Folder × Option Trouble :=
  match f.makeOne path with
  | .ok made => (made, none)
  | .error e => (f, if f.isFolder path then none else some e)

/-- Makes the first of some paths a folder, each of which lies in the next; the others are
made only as far as they are missing. A folder that could be made stays, also if one in it
cannot be. -/
def makeEach (f : Folder) : List Text → Folder × Option Trouble
  | [] => (f, none)
  | path :: above =>
      match f.makeOne path with
      | .error .missing =>
          match makeEach f above with
          | (f, some e) => (f, some e)
          | (f, none) => settle f path
      | _ => settle f path

/-- Takes the idle pieces off the end of a path, given in reverse; the first piece stays. -/
def trimIdle : List Text → List Text
  | piece :: next :: above =>
      if isIdle piece then trimIdle (next :: above) else piece :: next :: above
  | pieces => pieces

/-- The path with the given pieces. -/
def spell (pieces : List Text) : Text :=
  if pieces = Place.top then ['/'] else Text.join '/' pieces

/-- The paths above one that is given by its pieces in reverse, nearest first. An idle end of
a path is not a step, so the path above leaves out the name before it. -/
def pathsAbove : List Text → List Text
  | [] => []
  | piece :: rest =>
      if rest.isEmpty then []
      else if isIdle piece then pathsAbove rest
      else spell (trimIdle rest).reverse :: pathsAbove rest

/-- A path and those above it, nearest first. -/
def lineage (path : Text) : List Text :=
  path :: pathsAbove (Text.pieces '/' path).reverse

/-- Makes a folder and what is missing above it; the empty path is there already. -/
def makeAll (f : Folder) (path : Text) : Folder × Option Trouble :=
  if path.isEmpty then (f, none) else f.makeEach (lineage path)

/-- A name below a path. -/
def join (path name : Text) : Text :=
  if path.isEmpty || endsInSlash path then path ++ name else path ++ '/' :: name

end Folder

end RunLog
