import OperatorModes.Json.Printer
import OperatorModes.Text.Quoted

/-!
# Documents in words

The spelling of a document in the log: every value with the name of its kind, lists and objects on
one line.
-/

namespace OperatorModes.Json

mutual

/-- The document in words. -/
def outline : Json → String
  | null => "Null"
  | bool b => "Bool(" ++ toString b ++ ")"
  | num n => "Number(" ++ String.ofList n.chars ++ ")"
  | str s => "String(" ++ Text.quoted s ++ ")"
  | arr vs => "Array [" ++ String.intercalate ", " (outlineItems vs) ++ "]"
  | obj ms => "Object \x7b" ++ String.intercalate ", " (outlineMembers ms) ++ "\x7d"

/-- Each document of a list in words. -/
def outlineItems : List Json → List String
  | [] => []
  | v :: rest => v.outline :: outlineItems rest

/-- Each member with its key between quotes. -/
def outlineMembers : List (String × Json) → List String
  | [] => []
  | (k, v) :: rest => (Text.quoted k ++ ": " ++ v.outline) :: outlineMembers rest

end

end OperatorModes.Json
