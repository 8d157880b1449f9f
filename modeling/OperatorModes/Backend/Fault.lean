import OperatorModes.Backend.Duration

/-!
# Faults at the backend

What can go wrong between the checker and the external verification backend. Every fault is a
value with a message.
-/

namespace OperatorModes.Backend

/-- Why the backend could not be used. -/
inductive Fault where
  /-- No connection was made before the time was up. -/
  | timeout (address : String) (waited : Duration)
  | connection (cause : String)
  /-- A response that is not what a backend answers. -/
  | malformed (cause : String)
  /-- A request that cannot be written. -/
  | encode (cause : String)
  deriving DecidableEq, Repr

/-- The message for a fault. -/
def Fault.message : Fault → String
  | timeout address waited =>
    "failed to connect to verification backend at " ++ address ++ " after " ++ waited.render
      ++ "; is the server running?"
  | connection cause => "connection to verification backend failed: " ++ cause
  | malformed cause => "malformed response from verification backend: " ++ cause
  | encode cause => "failed to encode request for verification backend: " ++ cause

end OperatorModes.Backend
