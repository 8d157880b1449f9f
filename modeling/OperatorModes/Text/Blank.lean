/-!
# White space

The characters with the Unicode property `White_Space`, and the words of a text: the maximal runs
of other characters. A text and its words joined by single spaces have the same words.
-/

namespace OperatorModes.Text

/-- The property `White_Space` of Unicode: 25 characters, among them the line and paragraph
separators and the no-break spaces, but not the zero-width space. -/
def isBlank (c : Char) : Bool :=
  let n := c.toNat
  (0x09 ≤ n && n ≤ 0x0D) || n == 0x20 || n == 0x85 || n == 0xA0 || n == 0x1680
    || (0x2000 ≤ n && n ≤ 0x200A) || n == 0x2028 || n == 0x2029 || n == 0x202F || n == 0x205F
    || n == 0x3000

/-- Puts a character in front of the first word. -/
def extendWord (c : Char) : List (List Char) → List (List Char)
  | [] => [[c]]
  | w :: ws => (c :: w) :: ws

/-- The words of a text, in order. -/
def words : List Char → List (List Char)
  | [] => []
  | c :: rest =>
    if isBlank c then words rest
    else
      match rest with
      | [] => [[c]]
      | d :: _ => if isBlank d then [c] :: words rest else extendWord c (words rest)

/-- The words of a text, one space between each two. -/
def collapse (s : String) : String :=
  String.intercalate " " ((words s.toList).map String.ofList)

end OperatorModes.Text
