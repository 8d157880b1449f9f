import OperatorModes.Backend.Fault
import OperatorModes.Json.Variant

/-!
# Requests

What the checker sends to the backend: a command and a configuration, which is any document.
-/

namespace OperatorModes.Backend

/-- What the backend is asked to do. -/
inductive Command where
  | check
  | typecheck
  deriving DecidableEq, Repr

namespace Command

/-- The name of a command in a request. -/
def name : Command → String
  | check => "CHECK"
  | typecheck => "TYPECHECK"

/-- The names of the commands. -/
def known : List (String × Command) := [("CHECK", check), ("TYPECHECK", typecheck)]

/-- Reads a command. -/
def read : Json.Reader Command := Json.variant known

end Command

/-- A request to the backend. -/
structure Request where
  command : Command
  config : Json
  deriving Repr

namespace Request

/-- A request of which some fields have been read. -/
structure Draft where
  command : Option Command := none
  config : Option Json := none

/-- The fields of a request. -/
def shape : Json.Shape Json.Reader Draft Request where
  name := "struct BackendRequest"
  slots :=
    [Json.field "cmd" false Draft.command (fun d c => { d with command := some c }) Command.read,
      Json.field "config" false Draft.config (fun d v => { d with config := some v }) Json.value]
  blank := {}
  close := fun d => do
    let command ← Json.need "cmd" d.command
    let config ← Json.need "config" d.config
    .ok { command, config }

/-- Reads a request. -/
def read : Json.Reader Request := Json.record shape

/-- The request as a document. -/
def toJson (r : Request) : Json :=
  .obj [("cmd", .str r.command.name), ("config", r.config)]

/-- The text that is sent. Every document can be written, so this never fails. -/
def encode (r : Request) : Except Fault String :=
  .ok r.toJson.compact

end Request

end OperatorModes.Backend
