import RunLog.Text.Blank

/-!
# UTF-8

Characters as octets and back. Reading never fails: the longest part that could
still have begun a character, or a single stray octet, is read as U+FFFD, the
replacement character. The table of lead octets is that of the Unicode
standard, which rules out surrogates, overlong forms and numbers above
U+10FFFF by narrowing the second octet.
-/
namespace RunLog

/-- A row of octets. -/
abbrev Octets := List UInt8

namespace Utf8
open RunLog.Text

/-- Stands for octets that are no character. -/
def replacement : Char := '\uFFFD'

/-- What a lead octet announces: how many octets follow, the bounds of the first of these,
and the bits that the lead octet carries. -/
structure Lead where
  following : Nat
  low : UInt8
  high : UInt8
  bits : Nat

/-- The lead octets of the characters from U+0080 on. -/
def Lead.of? (b : UInt8) : Option Lead :=
  if 0xC2 ≤ b ∧ b ≤ 0xDF then some ⟨1, 0x80, 0xBF, b.toNat - 0xC0⟩
  else if b = 0xE0 then some ⟨2, 0xA0, 0xBF, 0⟩
  else if b = 0xED then some ⟨2, 0x80, 0x9F, 0xD⟩
  else if 0xE1 ≤ b ∧ b ≤ 0xEF then some ⟨2, 0x80, 0xBF, b.toNat - 0xE0⟩
  else if b = 0xF0 then some ⟨3, 0x90, 0xBF, 0⟩
  else if 0xF1 ≤ b ∧ b ≤ 0xF3 then some ⟨3, 0x80, 0xBF, b.toNat - 0xF0⟩
  else if b = 0xF4 then some ⟨3, 0x80, 0x8F, 4⟩
  else none

/-- Reads the octets that follow a lead octet; `used` counts those accepted so far. -/
def follow :
    (following : Nat) → (low high : UInt8) → (bits used : Nat) → Octets → Char × Nat
  | 0, _, _, bits, used, _ => (Char.ofNat bits, used)
  | _ + 1, _, _, _, used, [] => (replacement, used)
  | n + 1, low, high, bits, used, b :: rest =>
      if low ≤ b ∧ b ≤ high then
        follow n 0x80 0xBF (bits * 64 + (b.toNat - 0x80)) (used + 1) rest
      else (replacement, used)

/-- The character that begins with octet `b`, and how many of the octets behind `b` it takes. -/
def first (b : UInt8) (rest : Octets) : Char × Nat :=
  if b < 0x80 then (Char.ofNat b.toNat, 0)
  else
    match Lead.of? b with
    | none => (replacement, 0)
    | some lead => follow lead.following lead.low lead.high lead.bits 0 rest

/-- Reads on after the characters of `done`, which are kept in reverse. -/
def decodeOnto (done : Text) : Octets → Text
  | [] => done.reverse
  | b :: rest =>
      let (c, used) := first b rest
      decodeOnto (c :: done) (rest.drop used)
termination_by octets => octets.length
decreasing_by
  simp only [List.length_drop, List.length_cons]
  omega

/-- The text that the octets spell. -/
def decode (octets : Octets) : Text :=
  decodeOnto [] octets

def encode (t : Text) : Octets :=
  t.flatMap String.utf8EncodeChar

/-- How many octets a text takes. -/
def size (t : Text) : Nat :=
  (encode t).length

end Utf8

end RunLog
