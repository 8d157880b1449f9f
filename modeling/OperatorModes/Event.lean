import OperatorModes.Diagnostic

/-!
# Events

What a run leaves in the log besides its result. A run returns its events in order; an event is what
happened, and its level, text and fields follow from that.
-/

namespace OperatorModes

/-- How much attention an event asks for. -/
inductive Event.Level where
  | trace
  | debug
  | info
  | warn
  | error
  deriving DecidableEq, Repr

/-- Something that happened in a run. -/
inductive Event where
  /-- An effect was reduced to a qualifier. -/
  | reduced (effect : Effect) (mode : Qualifier)
  | accepted (name : String) (qualifier : Qualifier)
  | tooWeak (name : String) (diagnostic : Diagnostic)
  | tooStrong (name : String) (declared suggested : Qualifier)
  | missingEffect (moduleName : String) (cause : MissingEffect)
  /-- Every definition was checked. -/
  | finished (moduleName : String) (definitions errors suggestions : Nat)
  /-- The backend did not accept a connection and will be asked again. -/
  | retrying (address : String) (attempts : UInt32) (cause : String)
  | givingUp (address : String) (attempts : UInt32) (cause : String)
  | connected (address : String) (attempts : UInt32)
  /-- The backend did not confirm what it was asked; the failure in words. -/
  | verificationFailed (failure : String)
  deriving DecidableEq, Repr

namespace Event

/-- The name of a level in the log. -/
def Level.name : Level → String
  | trace => "TRACE"
  | debug => "DEBUG"
  | info => "INFO"
  | warn => "WARN"
  | error => "ERROR"

/-- How much attention the event asks for. -/
def level : Event → Level
  | reduced .. => .trace
  | accepted .. => .debug
  | tooWeak .. => .debug
  | tooStrong .. => .debug
  | missingEffect .. => .error
  | finished .. => .info
  | retrying .. => .trace
  | givingUp .. => .warn
  | connected .. => .debug
  | verificationFailed .. => .info

/-- The text of the event. -/
def message : Event → String
  | reduced .. => "reduced effect"
  | accepted .. => "accepted"
  | tooWeak _ diagnostic => diagnostic.message
  | tooStrong .. => "qualifier stronger than needed"
  | missingEffect _ cause => cause.message
  | finished .. => "mode check finished"
  | retrying _ _ cause => "retrying: " ++ cause
  | givingUp _ _ cause => "giving up: " ++ cause
  | connected .. => "connected to backend"
  | verificationFailed failure => "verification failed: " ++ failure

/-- The named values that go with the text. -/
def fields : Event → List (String × String)
  | reduced effect mode => [("effect", effect.render), ("mode", mode.name)]
  | accepted name qualifier => [("name", name), ("qualifier", qualifier.name)]
  | tooWeak name _ => [("name", name)]
  | tooStrong name declared suggested =>
    [("name", name), ("declared", declared.name), ("suggested", suggested.name)]
  | missingEffect moduleName _ => [("module", moduleName)]
  | finished moduleName definitions errors suggestions =>
    [("module", moduleName), ("definitions", toString definitions), ("errors", toString errors),
      ("suggestions", toString suggestions)]
  | retrying address attempts _ => [("address", address), ("attempts", toString attempts.toNat)]
  | givingUp address attempts _ => [("address", address), ("attempts", toString attempts.toNat)]
  | connected address attempts => [("address", address), ("attempts", toString attempts.toNat)]
  | verificationFailed _ => []

end Event

end OperatorModes
