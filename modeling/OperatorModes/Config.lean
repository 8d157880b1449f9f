/-!
# Configuration

How the checker reports what it finds and how the verification backend is reached.
-/

namespace OperatorModes

/-- How findings become a verdict and a report. -/
structure CheckerConfig where
  /-- Whether suggestions appear in the report. -/
  reportSuggestions : Bool := true
  /-- Whether a suggestion fails the check, reported or not. -/
  denySuggestions : Bool := false
  deriving DecidableEq, Repr

/-- Where the verification backend is and how long to wait for it. -/
structure BackendConfig where
  address : String := "localhost:8822"
  /-- Milliseconds between two attempts to connect. -/
  retryInterval : UInt64 := 1000
  /-- Milliseconds after which no further attempt is made. -/
  connectTimeout : UInt64 := 300000
  deriving DecidableEq, Repr

/-- The whole configuration. -/
structure Config where
  checker : CheckerConfig := {}
  backend : BackendConfig := {}
  deriving DecidableEq, Repr

end OperatorModes
