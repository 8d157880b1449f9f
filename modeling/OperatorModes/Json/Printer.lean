import OperatorModes.Decimal.Layout
import OperatorModes.Json.Basic

/-!
# Writing JSON

Two spellings of a document. The compact one has no space at all and keeps members as they are. The
indented one gives every item and member a line of its own, two spaces deeper than the bracket
around it. In both a string escapes the quote, the backslash and the control characters below
U+0020, and nothing else.
-/

namespace OperatorModes.Json

/-- Digits stand in place for powers of ten from -5 to 15. -/
def numberLayout : Decimal.Layout := ⟨-5, 15⟩

/-- The text of a number; that of a floating-point number has a point or an exponent. -/
def Number.chars : Number → List Char
  | .int i => (toString i).toList
  | .float x => numberLayout.text x

/-- How one character is written inside a string. -/
def escapeChar (c : Char) : List Char :=
  if c = '"' then ['\\', '"']
  else if c = '\\' then ['\\', '\\']
  else if 0x20 ≤ c.toNat then [c]
  else if c.toNat = 0x08 then ['\\', 'b']
  else if c.toNat = 0x09 then ['\\', 't']
  else if c.toNat = 0x0A then ['\\', 'n']
  else if c.toNat = 0x0C then ['\\', 'f']
  else if c.toNat = 0x0D then ['\\', 'r']
  else ['\\', 'u', '0', '0', Nat.digitChar (c.toNat / 16), Nat.digitChar (c.toNat % 16)]

/-- A string between quotes, in front of a text. -/
def stringBefore (s : String) (text : List Char) : List Char :=
  '"' :: s.toList.flatMap escapeChar ++ '"' :: text

/-! ## The compact spelling -/

mutual

/-- The compact spelling in front of a text. -/
def before : Json → List Char → List Char
  | null, text => 'n' :: 'u' :: 'l' :: 'l' :: text
  | bool true, text => 't' :: 'r' :: 'u' :: 'e' :: text
  | bool false, text => 'f' :: 'a' :: 'l' :: 's' :: 'e' :: text
  | num n, text => n.chars ++ text
  | str s, text => stringBefore s text
  | arr items, text => '[' :: itemsBefore items (']' :: text)
  | obj members, text => '\x7b' :: membersBefore members ('\x7d' :: text)

/-- Items with a comma between each two, in front of a text. -/
def itemsBefore : List Json → List Char → List Char
  | [], text => text
  | v :: rest, text => v.before (moreItemsBefore rest text)

/-- A comma in front of each of the remaining items. -/
def moreItemsBefore : List Json → List Char → List Char
  | [], text => text
  | v :: rest, text => ',' :: v.before (moreItemsBefore rest text)

/-- Members with a comma between each two, in front of a text. -/
def membersBefore : List (String × Json) → List Char → List Char
  | [], text => text
  | (k, v) :: rest, text => stringBefore k (':' :: v.before (moreMembersBefore rest text))

/-- A comma in front of each of the remaining members. -/
def moreMembersBefore : List (String × Json) → List Char → List Char
  | [], text => text
  | (k, v) :: rest, text => ',' :: stringBefore k (':' :: v.before (moreMembersBefore rest text))

end

/-- The compact spelling. -/
def chars (v : Json) : List Char :=
  v.before []

/-- The compact spelling as a string. -/
def compact (v : Json) : String :=
  String.ofList v.chars

/-! ## The indented spelling -/

/-- A new line, indented, in front of a text. -/
def lineBefore (indent : Nat) (text : List Char) : List Char :=
  '\n' :: List.replicate (2 * indent) ' ' ++ text

mutual

/-- The indented spelling inside so many brackets, in front of a text. -/
def prettyBefore (indent : Nat) : Json → List Char → List Char
  | arr [], text => '[' :: ']' :: text
  | arr (v :: rest), text =>
    '[' :: lineBefore (indent + 1) (prettyBefore (indent + 1) v
      (prettyItems indent rest (lineBefore indent (']' :: text))))
  | obj [], text => '\x7b' :: '\x7d' :: text
  | obj ((k, v) :: rest), text =>
    '\x7b' :: lineBefore (indent + 1) (stringBefore k (':' :: ' ' :: prettyBefore (indent + 1) v
      (prettyMembers indent rest (lineBefore indent ('\x7d' :: text)))))
  | v, text => v.before text

/-- A comma and a line for each of the remaining items. -/
def prettyItems (indent : Nat) : List Json → List Char → List Char
  | [], text => text
  | v :: rest, text =>
    ',' :: lineBefore (indent + 1) (prettyBefore (indent + 1) v (prettyItems indent rest text))

/-- A comma and a line for each of the remaining members. -/
def prettyMembers (indent : Nat) : List (String × Json) → List Char → List Char
  | [], text => text
  | (k, v) :: rest, text =>
    ',' :: lineBefore (indent + 1) (stringBefore k (':' :: ' ' :: prettyBefore (indent + 1) v
      (prettyMembers indent rest text)))

end

/-- The indented spelling of the canonical document. -/
def pretty (v : Json) : String :=
  String.ofList (prettyBefore 0 v.canonical [])

end OperatorModes.Json
