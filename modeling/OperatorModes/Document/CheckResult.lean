import OperatorModes.Check
import OperatorModes.Document.Module

/-!
# Results as documents

A diagnostic is a record that holds a list of records of its own kind. A result is an object with
its status and, according to the status, errors or suggestions by identifier as its details, or an
array of the two. Details that come before the status are read as a plain document first, in which
a key is a string and does not count as an identifier: only empty details can come first
(`decodeDetails`). That is the doing of a third party, the decoder of tagged records that the program
is built on, and no rule of the format.
-/

namespace OperatorModes

/-! ## Diagnostics -/

namespace Diagnostic

/-- A diagnostic of which some fields have been read. -/
structure Draft where
  location : Option String := none
  message : Option String := none
  children : Option (List Diagnostic) := none

/-- The fields of a diagnostic, given a reader of the diagnostics under it. -/
def shape (child : Json.Reader Diagnostic) : Json.Shape Json.Reader Draft Diagnostic where
  name := "struct ModeError"
  slots :=
    [Json.field "location" false Draft.location (fun d s => { d with location := some s })
        Json.text,
      Json.field "message" false Draft.message (fun d s => { d with message := some s }) Json.text,
      Json.field "children" true Draft.children (fun d cs => { d with children := some cs })
        (Json.list child)]
  blank := {}
  close := fun d => do
    let location ← Json.need "location" d.location
    let message ← Json.need "message" d.message
    .ok (mk location message (d.children.getD []))

/-- Reads a diagnostic that nests less deep than the fuel. -/
def readWithin : Nat → Json.Reader Diagnostic
  | 0 => fun _ _ => .error .tooDeep
  | fuel + 1 => Json.record (shape (readWithin fuel))

/-- Reads a diagnostic. Each level of nesting takes from the budget, so the budget is enough fuel. -/
def read : Json.Reader Diagnostic := fun budget =>
  readWithin (budget + 1) budget

mutual

/-- The diagnostic as a document. -/
def toJson : Diagnostic → Json
  | mk location message children =>
    .obj [("location", .str location), ("message", .str message),
      ("children", .arr (toJsonAll children))]

/-- Each diagnostic of a list. -/
def toJsonAll : List Diagnostic → List Json
  | [] => []
  | d :: rest => d.toJson :: toJsonAll rest

end

end Diagnostic

/-! ## Results -/

namespace CheckResult

/-- What the status of a result says. -/
inductive Status where
  | failure
  | success
  deriving DecidableEq, Repr

/-- The names of the statuses. -/
def Status.known : List (String × Status) := [("failure", failure), ("success", success)]

/-- What messages call a result. -/
def documentName : String := "adjacently tagged enum ModeCheckResult"

/-- Reads the details that go with a status. -/
def readDetails : Status → Json.Reader CheckResult
  | .failure => (Json.wordMap Diagnostic.read).map failure
  | .success => (Json.wordMap Qualifier.read).map success

/-- Decodes details that were read before the status was known. -/
def decodeDetails (status : Status) : Json.Decoder CheckResult
  | .obj [] =>
    match status with
    | .failure => .ok (failure .empty)
    | .success => .ok (success .empty)
  | .obj ((key, _) :: _) => .error (.wrongType (.str key) "u64")
  | v => .error (.wrongType v.found "a map")

/-- What is known of a result after some of its members. -/
inductive Draft where
  | blank
  | hasStatus (status : Status)
  | hasDetails (details : Json)
  | complete (result : CheckResult)

/-- Reads a member of a result, or passes over it. -/
def member (budget : Nat) (draft : Draft) : Json.Scan Draft := fun text => do
  let (key, text) ← Json.string text
  if key = "status" then
    match draft with
    | .blank => do
      let text ← Json.colon text
      let (status, rest) ← Json.variant Status.known budget text
      .ok (.hasStatus status, rest)
    | .hasDetails details => do
      let text ← Json.colon text
      let (status, rest) ← Json.variant Status.known budget text
      let result ← decodeDetails status details
      .ok (.complete result, rest)
    | _ => .error (.duplicateField "status")
  else if key = "details" then
    match draft with
    | .blank => do
      let text ← Json.colon text
      let (details, rest) ← Json.tree budget text
      .ok (.hasDetails details, rest)
    | .hasStatus status => do
      let text ← Json.colon text
      let (result, rest) ← readDetails status budget text
      .ok (.complete result, rest)
    | _ => .error (.duplicateField "details")
  else do
    let text ← Json.colon text
    let rest ← Json.skim text
    .ok (draft, rest)

/-- The result of an object that has ended. -/
def Draft.close : Draft → Except Json.ReadError CheckResult
  | blank => .error (.missingField "status")
  | hasDetails _ => .error (.missingField "status")
  | hasStatus _ => .error (.missingField "details")
  | complete result => .ok result

/-- Reads the items of a result that is written as an array, where the status is its bare name. -/
def readItems (budget : Nat) : Json.Scan CheckResult := fun text => do
  match ← Json.nextItem true text with
  | none => .error (.wrongLength 0 documentName)
  | some text => do
    let (status, text) ← Json.tag Status.known text
    match ← Json.nextItem false text with
    | none => .error (.wrongLength 1 documentName)
    | some text => do
      let (result, text) ← readDetails status budget text
      let rest ← Json.closeList text
      .ok (result, rest)

/-- Reads a result. -/
def read : Json.Reader CheckResult := fun budget text =>
  match Json.skipSpace text with
  | '\x7b' :: rest => Json.enclosed budget fun b => do
    let (draft, rest) ← Json.members (member b) .blank rest
    let result ← draft.close
    .ok (result, rest)
  | '[' :: rest => Json.enclosed budget fun b => readItems b rest
  | text => .error (Json.mismatch documentName text)

/-- The result as a document, its status first. -/
def toJson : CheckResult → Json
  | failure errors =>
    .obj [("status", .str "failure"), ("details", errors.toJson Diagnostic.toJson)]
  | success suggestions =>
    .obj [("status", .str "success"), ("details", suggestions.toJson Qualifier.toJson)]

end CheckResult

end OperatorModes
