import LineGrammar.Text.Hidden

/-! Texts between double quotes, for the log. -/

namespace LineGrammar.Text

def decimal (n : Nat) : Text :=
  Nat.toDigits 10 n

/-- Quotes and backslashes get a backslash, tabs, line endings and the null character are named
after one, and other hidden characters are written as their hexadecimal code points. All else stands
as it is. -/
def escape (c : Char) : Text :=
  if c = '"' ∨ c = '\\' then ['\\', c]
  else if c = '\t' then ['\\', 't']
  else if c = '\n' then ['\\', 'n']
  else if c = '\r' then ['\\', 'r']
  else if c.toNat = 0 then ['\\', '0']
  else if isHidden c then ['\\', 'u', '\x7b'] ++ Nat.toDigits 16 c.toNat ++ ['\x7d']
  else [c]

def quoted (t : Text) : Text :=
  '"' :: t.flatMap escape ++ ['"']

end LineGrammar.Text
