import OperatorModes.Text.Visible

/-!
# Quoted strings in messages

A string quoted for a reader: between double quotes, with a backslash in front of a quote or a
backslash, the usual letters for tab, line feed, carriage return and NUL, and every other character
that is not visible by its number.
-/

namespace OperatorModes.Text

/-- How one character is written between the quotes. -/
def quoteChar (c : Char) : List Char :=
  if c = '"' then ['\\', '"']
  else if c = '\\' then ['\\', '\\']
  else if c = '\t' then ['\\', 't']
  else if c = '\n' then ['\\', 'n']
  else if c = '\r' then ['\\', 'r']
  else if c.toNat = 0 then ['\\', '0']
  else if isVisible c then [c]
  else ['\\', 'u', '\x7b'] ++ Nat.toDigits 16 c.toNat ++ ['\x7d']

/-- The string between double quotes. -/
def quoted (s : String) : String :=
  String.ofList ('"' :: s.toList.flatMap quoteChar ++ ['"'])

end OperatorModes.Text
