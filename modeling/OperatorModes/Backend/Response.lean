import OperatorModes.Backend.Fault
import OperatorModes.Json.Outline
import OperatorModes.Json.Variant

/-!
# Responses

What the backend answers: success with any document, or a failure. A failure says that a pass found
a counterexample or a deadlock, or it is something the backend did not expect. The document of a
failure is read as a whole first; the account of a failed pass is then decoded from it in key order.
-/

namespace OperatorModes.Backend

/-- Why a pass did not succeed. -/
inductive Verdict where
  /-- Some run violates a property. -/
  | counterexample
  | deadlock
  deriving DecidableEq, Repr

namespace Verdict

/-- The name of a verdict in a response. -/
def name : Verdict → String
  | counterexample => "Error"
  | deadlock => "Deadlock"

/-- The names of the verdicts. -/
def known : List (String × Verdict) := [("Error", counterexample), ("Deadlock", deadlock)]

/-- The verdict as a document. -/
def toJson (v : Verdict) : Json := .str v.name

end Verdict

/-- A failure that the backend reports. -/
inductive Failure where
  /-- Nothing the backend has a name for; its data as they are. -/
  | unexpected (data : Json)
  | pass (name : String) (verdict : Verdict) (counterexamples : List Json)
  deriving Repr

/-- What the backend answers. -/
inductive Response where
  | success (value : Json)
  | failure (failure : Failure)
  deriving Repr

/-- Whether the backend confirms what it was asked. -/
def Response.isSuccess : Response → Bool
  | success _ => true
  | failure _ => false

/-- Why a text is no response. -/
inductive ResponseFault where
  | unreadable (cause : Json.ReadError)
  | failureWithoutDetails
  | unknownResult (kind : String)
  | unknownError (kind : String)
  | unreadablePass (cause : Json.ReadError)
  deriving DecidableEq, Repr

/-- The message for a text that is no response. -/
def ResponseFault.message : ResponseFault → String
  | unreadable cause => cause.message
  | failureWithoutDetails => "failure without details"
  | unknownResult kind => "unknown result kind '" ++ kind ++ "'"
  | unknownError kind => "unknown error type '" ++ kind ++ "'"
  | unreadablePass cause => "pass failure: " ++ cause.message

/-! ## The text of a response -/

/-- The part of a response that tells of a failure. -/
structure FailureNote where
  errorType : String
  data : Json

/-- The parts of a response. -/
structure ResponseNote where
  result : String
  success : Option Json
  failure : Option FailureNote

namespace FailureNote

/-- A failure of which some fields have been read. -/
structure Draft where
  errorType : Option String := none
  data : Option Json := none

/-- The fields of a failure. -/
def shape : Json.Shape Json.Reader Draft FailureNote where
  name := "struct RawFailure"
  slots :=
    [Json.field "errorType" false Draft.errorType (fun d s => { d with errorType := some s })
        Json.text,
      Json.field "data" true Draft.data (fun d v => { d with data := some v }) Json.value]
  blank := {}
  close := fun d => do
    let errorType ← Json.need "errorType" d.errorType
    .ok { errorType, data := d.data.getD .null }

/-- Reads a failure. -/
def read : Json.Reader FailureNote := Json.record shape

end FailureNote

namespace ResponseNote

/-- A response of which some fields have been read. -/
structure Draft where
  result : Option String := none
  success : Option (Option Json) := none
  failure : Option (Option FailureNote) := none

/-- The fields of a response. -/
def shape : Json.Shape Json.Reader Draft ResponseNote where
  name := "struct RawResponse"
  slots :=
    [Json.field "result" false Draft.result (fun d s => { d with result := some s }) Json.text,
      Json.field "success" true Draft.success (fun d v => { d with success := some v })
        (Json.nullable Json.value),
      Json.field "failure" true Draft.failure (fun d f => { d with failure := some f })
        (Json.nullable FailureNote.read)]
  blank := {}
  close := fun d => do
    let result ← Json.need "result" d.result
    .ok { result, success := d.success.getD none, failure := d.failure.getD none }

/-- Reads a response. -/
def read : Json.Reader ResponseNote := Json.record shape

end ResponseNote

/-! ## The account of a failed pass -/

/-- What a failed pass found. -/
structure Findings where
  verdict : Verdict
  counterexamples : List Json

namespace Findings

/-- Findings of which some fields have been decoded. -/
structure Draft where
  verdict : Option Verdict := none
  counterexamples : Option (List Json) := none

/-- The fields of the findings. -/
def shape : Json.Shape Json.Decoder Draft Findings where
  name := "struct RawCheckingError"
  slots :=
    [Json.part "checking_result" false Draft.verdict (fun d v => { d with verdict := some v })
        (Json.decodeVariant Verdict.known),
      Json.part "counterexamples" true Draft.counterexamples
        (fun d vs => { d with counterexamples := some vs }) (Json.decodeList .ok)]
  blank := {}
  close := fun d => do
    let verdict ← Json.need "checking_result" d.verdict
    .ok { verdict, counterexamples := d.counterexamples.getD [] }

end Findings

/-- The fault of items left over after the fields of a record in a response. -/
def leftOver (length _fields : Nat) : Json.ReadError :=
  .wrongLength length "fewer elements in array"

/-- A failed pass of which some fields have been decoded. -/
structure PassDraft where
  name : Option String := none
  findings : Option Findings := none

/-- The fields of a failed pass. -/
def passShape : Json.Shape Json.Decoder PassDraft Failure where
  name := "struct RawPassFailure"
  slots :=
    [Json.part "pass_name" false PassDraft.name (fun d s => { d with name := some s })
        Json.decodeText,
      Json.part "error_data" false PassDraft.findings (fun d f => { d with findings := some f })
        (Json.decodeRecord Findings.shape leftOver)]
  blank := {}
  close := fun d => do
    let name ← Json.need "pass_name" d.name
    let findings ← Json.need "error_data" d.findings
    .ok (.pass name findings.verdict findings.counterexamples)

/-- Decodes the account of a failed pass. -/
def decodePass : Json.Decoder Failure :=
  Json.decodeRecord passShape leftOver

/-! ## Responses -/

/-- The failure that a note tells of. -/
def Failure.ofNote (note : FailureNote) : Except ResponseFault Failure :=
  if note.errorType = "UNEXPECTED" then .ok (.unexpected note.data)
  else if note.errorType = "PASS_FAILURE" then
    match decodePass note.data with
    | .ok found => .ok found
    | .error cause => .error (.unreadablePass cause)
  else .error (.unknownError note.errorType)

namespace Response

/-- The response that a note tells of. -/
def ofNote (note : ResponseNote) : Except ResponseFault Response :=
  if note.result = "success" then .ok (.success (note.success.getD .null))
  else if note.result = "failure" then
    match note.failure with
    | none => .error .failureWithoutDetails
    | some details =>
      match Failure.ofNote details with
      | .ok found => .ok (.failure found)
      | .error fault => .error fault
  else .error (.unknownResult note.result)

/-- The response that a text is, or why it is none. -/
def interpret (document : String) : Except ResponseFault Response :=
  match Json.readAll ResponseNote.read document with
  | .ok note => ofNote note
  | .error cause => .error (.unreadable cause)

/-- The response that a text is; every other text is malformed. -/
def parse (document : String) : Except Fault Response :=
  match interpret document with
  | .ok response => .ok response
  | .error fault => .error (.malformed fault.message)

end Response

/-! ## In words -/

/-- The failure in words, for the log. -/
def Failure.outline : Failure → String
  | unexpected data => "Unexpected \x7b data: " ++ data.outline ++ " \x7d"
  | pass name verdict counterexamples =>
    let kind := match verdict with
      | .counterexample => "CounterExample"
      | .deadlock => "Deadlock"
    "PassFailure \x7b pass_name: " ++ Text.quoted name ++ ", checking_result: " ++ kind
      ++ ", counterexamples: [" ++ String.intercalate ", " (Json.outlineItems counterexamples)
      ++ "] \x7d"

end OperatorModes.Backend
