import OperatorModes.Json.Printer
import OperatorModes.Text.Quoted

/-!
# What can be wrong with a document

The causes for which reading a document fails, of its text and of its content, and the message for
each. Reading stops at the first cause in text order. After most messages the program also gives the
place in the text, as ` at line L column C`; the place is left out here.
-/

namespace OperatorModes.Json

/-- What stands in a document in place of what was expected there. -/
inductive Found where
  | null
  | bool (value : Bool)
  | int (value : Int)
  | float (value : Decimal.Binary64)
  | str (value : String)
  | seq
  | map
  deriving DecidableEq, Repr

/-- How a message names what was found. -/
def Found.describe : Found → String
  | null => "null"
  | bool b => "boolean `" ++ toString b ++ "`"
  | int i => "integer `" ++ toString i ++ "`"
  | float x => "floating point `" ++ String.ofList (Number.float x).chars ++ "`"
  | str s => "string " ++ Text.quoted s
  | seq => "sequence"
  | map => "map"

/-- A number that stands in place of something else. -/
def Number.found : Number → Found
  | .int i => .int i
  | .float x => .float x

/-- A document that stands in place of something else. -/
def found : Json → Found
  | null => .null
  | bool b => .bool b
  | num n => n.found
  | str s => .str s
  | arr _ => .seq
  | obj _ => .map

/-- Why a document cannot be read. -/
inductive ReadError where
  /-- The text ends where a value is due, or inside one of the words and numbers. -/
  | endInValue
  | endInList
  | endInObject
  | endInString
  | expectedValue
  /-- A word other than `null`, `true` and `false`. -/
  | misspelledWord
  | expectedColon
  | expectedListEnd
  | expectedObjectEnd
  | expectedQuote
  | keyNotString
  /-- A key that stands for an identifier starts with neither a digit nor a minus sign. -/
  | keyNotNumber
  | trailingComma
  | trailingCharacters
  | invalidNumber
  | numberOutOfRange
  | invalidEscape
  | controlCharacter
  /-- A low surrogate without a high one before it, or a high one before another escape. -/
  | loneSurrogate
  /-- A high surrogate with no escape after it. -/
  | unpairedSurrogate
  /-- An array or object inside 127 others. -/
  | tooDeep
  | wrongType (found : Found) (expected : String)
  | wrongValue (found : Found) (expected : String)
  | wrongLength (length : Nat) (expected : String)
  | missingField (key : String)
  | duplicateField (key : String)
  | unknownVariant (name : String) (known : List String)
  deriving DecidableEq, Repr

/-- The known names of a variant, as a message lists them. -/
def oneOf (known : List String) : String :=
  let quote (s : String) := "`" ++ s ++ "`"
  match known with
  | [] => "there are no variants"
  | [a] => "expected " ++ quote a
  | [a, b] => "expected " ++ quote a ++ " or " ++ quote b
  | names => "expected one of " ++ String.intercalate ", " (names.map quote)

/-- The message for a cause. -/
def ReadError.message : ReadError → String
  | endInValue => "EOF while parsing a value"
  | endInList => "EOF while parsing a list"
  | endInObject => "EOF while parsing an object"
  | endInString => "EOF while parsing a string"
  | expectedValue => "expected value"
  | misspelledWord => "expected ident"
  | expectedColon => "expected `:`"
  | expectedListEnd => "expected `,` or `]`"
  | expectedObjectEnd => "expected `,` or `\x7d`"
  | expectedQuote => "expected `\"`"
  | keyNotString => "key must be a string"
  | keyNotNumber => "invalid value: expected key to be a number in quotes"
  | trailingComma => "trailing comma"
  | trailingCharacters => "trailing characters"
  | invalidNumber => "invalid number"
  | numberOutOfRange => "number out of range"
  | invalidEscape => "invalid escape"
  | controlCharacter =>
    "control character (\\u0000-\\u001F) found while parsing a string"
  | loneSurrogate => "lone leading surrogate in hex escape"
  | unpairedSurrogate => "unexpected end of hex escape"
  | tooDeep => "recursion limit exceeded"
  | wrongType found expected => "invalid type: " ++ found.describe ++ ", expected " ++ expected
  | wrongValue found expected => "invalid value: " ++ found.describe ++ ", expected " ++ expected
  | wrongLength n expected => "invalid length " ++ toString n ++ ", expected " ++ expected
  | missingField key => "missing field `" ++ key ++ "`"
  | duplicateField key => "duplicate field `" ++ key ++ "`"
  | unknownVariant name known => "unknown variant `" ++ name ++ "`, " ++ oneOf known

end OperatorModes.Json
