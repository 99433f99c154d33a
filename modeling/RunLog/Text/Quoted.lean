import RunLog.Text.Hidden

/-!
# Quoted text

The form in which messages show a value: between double quotes, on one line,
with every character readable. The quote, the backslash and the common controls
have short escapes, other characters without a shape are written by their
number in hexadecimal.
-/
namespace RunLog.Text

/-- A number in hexadecimal, without leading zeros. -/
def hexadecimal (n : Nat) : Text :=
  Nat.toDigits 16 n

/-- How one character is written between the quotes. -/
def quotedChar (c : Char) : Text :=
  if c = '"' then ['\\', '"']
  else if c = '\\' then ['\\', '\\']
  else if c = '\n' then ['\\', 'n']
  else if c = '\r' then ['\\', 'r']
  else if c = '\t' then ['\\', 't']
  else if c.toNat = 0 then ['\\', '0']
  else if isHidden c then "\\u\x7b".toList ++ hexadecimal c.toNat ++ ['\x7d']
  else [c]

def quoted (t : Text) : Text :=
  '"' :: (t.flatMap quotedChar ++ ['"'])

end RunLog.Text
