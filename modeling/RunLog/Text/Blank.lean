/-!
# Texts, blank characters and words

A text is the list of its characters: every statement about a log is then a
statement about lists. This module holds the blank characters, trimming, and
the words between blanks. A blank is a character with the property White_Space
of the Unicode standard, so the separators U+001C to U+001F, the zero width
space and the byte order mark are not blank.
-/
namespace RunLog

/-- A text is the list of its characters. -/
abbrev Text := List Char

namespace Text

/-- The characters with the property White_Space. -/
def isBlank (c : Char) : Bool :=
  let n := c.toNat
  (9 ≤ n && n ≤ 13) || n == 0x20 || n == 0x85 || n == 0xA0 || n == 0x1680 ||
    (0x2000 ≤ n && n ≤ 0x200A) || n == 0x2028 || n == 0x2029 || n == 0x202F ||
    n == 0x205F || n == 0x3000

def trimStart (t : Text) : Text :=
  t.dropWhile isBlank

def trimEnd (t : Text) : Text :=
  (t.reverse.dropWhile isBlank).reverse

def trim (t : Text) : Text :=
  trimEnd (trimStart t)

/-- The word at an index: words are the longest runs without a blank. -/
def word? : Nat → Text → Option Text
  | 0, t =>
      match trimStart t with
      | [] => none
      | rest => some (rest.takeWhile fun c => !isBlank c)
  | n + 1, t => word? n ((trimStart t).dropWhile fun c => !isBlank c)

end Text

end RunLog
