import OperatorModes.Config
import OperatorModes.Json.Record

/-!
# Configurations as documents

Every field of a configuration may be missing and then has its default.
-/

namespace OperatorModes

namespace CheckerConfig

/-- Checker settings of which some fields have been read. -/
structure Draft where
  reportSuggestions : Option Bool := none
  denySuggestions : Option Bool := none

/-- The fields of the checker settings. -/
def shape : Json.Shape Json.Reader Draft CheckerConfig where
  name := "struct CheckerConfig"
  slots :=
    [Json.field "report_suggestions" true Draft.reportSuggestions
        (fun d b => { d with reportSuggestions := some b }) Json.boolean,
      Json.field "deny_suggestions" true Draft.denySuggestions
        (fun d b => { d with denySuggestions := some b }) Json.boolean]
  blank := {}
  close := fun d =>
    let default : CheckerConfig := {}
    .ok
      { reportSuggestions := d.reportSuggestions.getD default.reportSuggestions
        denySuggestions := d.denySuggestions.getD default.denySuggestions }

/-- Reads checker settings. -/
def read : Json.Reader CheckerConfig := Json.record shape

/-- Checker settings as a document. -/
def toJson (c : CheckerConfig) : Json :=
  .obj [("report_suggestions", .bool c.reportSuggestions),
    ("deny_suggestions", .bool c.denySuggestions)]

end CheckerConfig

namespace BackendConfig

/-- Backend settings of which some fields have been read. -/
structure Draft where
  address : Option String := none
  retryInterval : Option UInt64 := none
  connectTimeout : Option UInt64 := none

/-- The fields of the backend settings. -/
def shape : Json.Shape Json.Reader Draft BackendConfig where
  name := "struct BackendConfig"
  slots :=
    [Json.field "address" true Draft.address (fun d s => { d with address := some s }) Json.text,
      Json.field "retry_interval_ms" true Draft.retryInterval
        (fun d n => { d with retryInterval := some n }) (Json.word64 "u64"),
      Json.field "connect_timeout_ms" true Draft.connectTimeout
        (fun d n => { d with connectTimeout := some n }) (Json.word64 "u64")]
  blank := {}
  close := fun d =>
    let default : BackendConfig := {}
    .ok
      { address := d.address.getD default.address
        retryInterval := d.retryInterval.getD default.retryInterval
        connectTimeout := d.connectTimeout.getD default.connectTimeout }

/-- Reads backend settings. -/
def read : Json.Reader BackendConfig := Json.record shape

/-- Backend settings as a document. -/
def toJson (c : BackendConfig) : Json :=
  .obj [("address", .str c.address), ("retry_interval_ms", .word c.retryInterval),
    ("connect_timeout_ms", .word c.connectTimeout)]

end BackendConfig

namespace Config

/-- A configuration of which some fields have been read. -/
structure Draft where
  checker : Option CheckerConfig := none
  backend : Option BackendConfig := none

/-- The fields of a configuration. -/
def shape : Json.Shape Json.Reader Draft Config where
  name := "struct Config"
  slots :=
    [Json.field "checker" true Draft.checker (fun d c => { d with checker := some c })
        CheckerConfig.read,
      Json.field "backend" true Draft.backend (fun d c => { d with backend := some c })
        BackendConfig.read]
  blank := {}
  close := fun d => .ok { checker := d.checker.getD {}, backend := d.backend.getD {} }

/-- Reads a configuration. -/
def read : Json.Reader Config := Json.record shape

/-- A configuration as a document. -/
def toJson (c : Config) : Json :=
  .obj [("checker", c.checker.toJson), ("backend", c.backend.toJson)]

/-- The configuration that a document holds. -/
def ofDocument (document : String) : Except Json.ReadError Config :=
  Json.readAll read document

end Config

end OperatorModes
