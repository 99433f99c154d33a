import RunLog.Text.Search

/-!
# Variants of a data structure

A signature names a data structure and, in parentheses, how it is kept
consistent: `treap (rcu-htm)`. The same combined tree is written `(a,b)-tree`
by some programs and `(a-b)-tree` by others; both name the base `abtree`.
-/
namespace RunLog

structure Variant where
  base : Text
  subtype : Option Text
  deriving DecidableEq, Repr

namespace Variant

def commaSpelling : Text := "(a,b)-".toList

def dashSpelling : Text := "(a-b)-".toList

/-- How the combinator is written in a base. -/
def combinator : Text := "ab".toList

/-- Writes both spellings of the combinator in the one way. -/
def normalize (signature : Text) : Text :=
  Text.replace dashSpelling combinator (Text.replace commaSpelling combinator signature)

/-- A variant; an empty subtype is none. -/
def make (base : Text) (subtype : Option Text) : Variant :=
  ⟨base, subtype.filter fun t => !t.isEmpty⟩

/-- Reads a signature: the subtype is what follows the first opening parenthesis, without
closing ones. -/
def read (signature : Text) : Variant :=
  let t := normalize (Text.trim signature)
  match Text.cut? '(' t with
  | some (base, rest) => make (Text.trim base) (some (Text.trim (rest.filter (· != ')'))))
  | none => make (Text.trim t) none

/-- Stands for an absent subtype in labels. -/
def noSubtype : Text := "None".toList

/-- The variant as reports show it. -/
def label (v : Variant) : Text :=
  v.base ++ " (".toList ++ v.subtype.getD noSubtype ++ [')']

def labelContains (v : Variant) (part : Text) : Bool :=
  Text.contains part v.label

/-- By base, then by subtype; no subtype comes before any. -/
instance : Ord Variant :=
  ⟨compareLex (compareOn base) (compareOn subtype)⟩

end Variant

end RunLog
