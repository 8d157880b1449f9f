import OperatorModes.Backend.Fault
import OperatorModes.Config
import OperatorModes.Event

/-!
# Connecting

Attempts to connect are repeated until one succeeds or the time is up. A run is a function of what
the world does: for each attempt its outcome and the time that has passed when it ends. After a
failed attempt the time decides: if the limit is reached the run ends, and otherwise it pauses for
the retry interval, but no longer than the time that is left.
-/

namespace OperatorModes.Backend

/-- One attempt to connect: what came of it, and the time since the start of the run at its end. -/
structure Attempt (κ : Type) where
  outcome : Except Fault κ
  elapsed : Duration

/-- A run of attempts. -/
structure ConnectRun (κ : Type) where
  /-- The connection or the final fault; nothing while the run has not ended. -/
  result : Option (Except Fault κ)
  /-- The attempts made, counted in 32 bits. -/
  attempts : UInt32
  /-- The address of each attempt. -/
  addresses : List String
  /-- The pauses between attempts. -/
  pauses : List Duration
  events : List Event

namespace ConnectRun

variable {κ : Type}

/-- The run with an attempt and a pause before it. -/
def after (later : ConnectRun κ) (address : String) (pause : Duration) (event : Event) :
    ConnectRun κ :=
  { later with
    addresses := address :: later.addresses
    pauses := pause :: later.pauses
    events := event :: later.events }

end ConnectRun

end OperatorModes.Backend

namespace OperatorModes.BackendConfig

open OperatorModes.Backend

/-- The pause between two attempts. -/
def interval (config : BackendConfig) : Duration :=
  .ofMilliseconds config.retryInterval.toNat

/-- The time after which no further attempt is made. -/
def timeout (config : BackendConfig) : Duration :=
  .ofMilliseconds config.connectTimeout.toNat

/-- How long to pause after an attempt that failed at a time; nothing when the time is up. -/
def pause? (config : BackendConfig) (elapsed : Duration) : Option Duration :=
  if config.timeout ≤ elapsed then none
  else
    some (config.interval.min ⟨config.timeout.nanoseconds - elapsed.nanoseconds⟩)

variable {κ : Type}

/-- Connects, when so many attempts have been made before. -/
def connectFrom (config : BackendConfig) : UInt32 → List (Attempt κ) → ConnectRun κ
  | made, [] => { result := none, attempts := made, addresses := [], pauses := [], events := [] }
  | made, attempt :: rest =>
    let made := made + 1
    match attempt.outcome with
    | .ok connection =>
      { result := some (.ok connection)
        attempts := made
        addresses := [config.address]
        pauses := []
        events := [.connected config.address made] }
    | .error cause =>
      match config.pause? attempt.elapsed with
      | none =>
        { result := some (.error (.timeout config.address attempt.elapsed))
          attempts := made
          addresses := [config.address]
          pauses := []
          events := [.givingUp config.address made cause.message] }
      | some pause =>
        (config.connectFrom made rest).after config.address pause
          (.retrying config.address made cause.message)

/-- Connects. The attempts that the world has in store after the end of the run are not made. -/
def connect (config : BackendConfig) (attempts : List (Attempt κ)) : ConnectRun κ :=
  config.connectFrom 0 attempts

end OperatorModes.BackendConfig
