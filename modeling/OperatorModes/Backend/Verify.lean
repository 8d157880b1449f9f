import OperatorModes.Backend.Request
import OperatorModes.Backend.Response
import OperatorModes.Event

/-!
# Submitting a check

A check is submitted as a request to a verifier, which may be another after each request made of it.
What it makes of the request is returned as it is; a failure is noted in the log.
-/

namespace OperatorModes.Backend

/-- What a verifier makes of a request, in a state that it keeps between requests. -/
abbrev Verifier (σ : Type) : Type := Request → StateM σ (Except Fault Response)

/-- The same verifier with a record of the requests made of it, in their order. -/
def Verifier.recording {σ : Type} (verifier : Verifier σ) : Verifier (σ × List Request) :=
  fun request => do
    let (state, made) ← get
    let (answer, state) := (verifier request).run state
    set (state, made ++ [request])
    return answer

/-- A submitted check: the answer, and the events on the way. -/
structure Submission where
  answer : Except Fault Response
  events : List Event

/-- What an answer leaves in the log. -/
def answerEvents : Except Fault Response → List Event
  | .ok (.failure failure) => [.verificationFailed failure.outline]
  | _ => []

/-- Submits a configuration to be checked. -/
def submitCheck {σ : Type} (verifier : Verifier σ) (config : Json) : StateM σ Submission := do
  let answer ← verifier { command := .check, config }
  return { answer, events := answerEvents answer }

end OperatorModes.Backend
