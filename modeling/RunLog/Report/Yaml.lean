import RunLog.Report.Node
import RunLog.Report.Scalar

/-!
# YAML

Nodes in block style. The fields of a mapping stand below each other, two
spaces further in for each level; the items of a sequence follow a dash. A key
that is no simple key is marked with a question mark, and its value with a
colon on the next line.
-/
namespace RunLog.Yaml

/-- Spaces at the start of a line. -/
def margin (indent : Nat) : Text :=
  List.replicate indent ' '

/-- Ends the line, unless a literal block has ended it. -/
def endLine (t : Text) : Text :=
  if t.getLast?.any isBreak then t else t ++ ['\n']

/-- What stands on one line as a node without parts. -/
def leaf? (indent : Nat) : Node → Option Text
  | .null => some "null".toList
  | .natural n => some (Decimal.natural n)
  | .real x => some (layout.write x)
  | .text t => some (scalar (indent + 2) t)
  | .sequence [] => some "[]".toList
  | .mapping [] => some "\x7b\x7d".toList
  | .sequence (_ :: _) => none
  | .mapping (_ :: _) => none

/-- Puts a mark in place of the first two spaces behind the margin of a block. -/
def marked (indent : Nat) (mark : Char) (block : Text) : Text :=
  margin indent ++ mark :: ' ' :: block.drop (indent + 2)

mutual

/-- The lines of a node with parts, each with its margin. -/
def block (indent : Nat) : Node → Text
  | .sequence items => blockItems indent items
  | .mapping fields => blockFields indent fields
  | _ => []

def blockItems (indent : Nat) : List Node → Text
  | [] => []
  | node :: rest =>
      (match leaf? indent node with
        | some t => endLine (margin indent ++ '-' :: ' ' :: t)
        | none => marked indent '-' (block (indent + 2) node)) ++
        blockItems indent rest

def blockFields (indent : Nat) : List (Text × Node) → Text
  | [] => []
  | (key, node) :: rest =>
      let name := scalar (indent + 2) key
      (if isSimpleKey key then
        match leaf? indent node with
        | some t => endLine (margin indent ++ name ++ ':' :: ' ' :: t)
        | none =>
            margin indent ++ name ++ ':' :: '\n' ::
              block (match node with | .sequence _ => indent | _ => indent + 2) node
      else
        endLine (margin indent ++ '?' :: ' ' :: name) ++
          match leaf? indent node with
          | some t => endLine (margin indent ++ ':' :: ' ' :: t)
          | none => marked indent ':' (block (indent + 2) node)) ++
        blockFields indent rest

end

def document (node : Node) : Text :=
  match leaf? 0 node with
  | some t => endLine t
  | none => block 0 node

end RunLog.Yaml
