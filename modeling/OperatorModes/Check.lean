import OperatorModes.Config
import OperatorModes.Event

/-!
# Checking modes

Each definition's declared qualifier is held against the one inferred for its effect: the same is
accepted, a weaker one is an error, a stronger one is a suggestion. The walk goes on after a finding of
either kind and ends only at a definition without an effect. Findings are kept by identifier, so of the
errors of several definitions with one identifier only the last is kept, and suggestions are reported
only where there is no error.
-/

namespace OperatorModes

/-- What comes of checking one definition. -/
inductive Outcome where
  | accepted
  /-- Declared weaker than its effect requires. -/
  | tooWeak (diagnostic : Diagnostic)
  /-- Declared stronger than needed; the inferred qualifier would do. -/
  | tooStrong (suggested : Qualifier)
  deriving DecidableEq, Repr

/-- The outcome for a definition with a given effect. -/
def Definition.judge (d : Definition) (effect : Effect) : Outcome :=
  let inferred := effect.inferMode
  if inferred = d.qualifier then .accepted
  else if inferred.join d.qualifier = inferred then
    .tooWeak (Diagnostic.tooWeak d inferred effect)
  else .tooStrong inferred

/-- Checks one definition against the effect stored for it. -/
def checkDefinition (d : Definition) (effects : EffectMap) : Except MissingEffect Outcome :=
  match effects.find? d.id with
  | none => .error { id := d.id, name := d.name }
  | some effect => .ok (d.judge effect)

/-- What checking one definition leaves in the log: the effect, if there is one, is reduced. -/
def checkDefinitionEvents (d : Definition) (effects : EffectMap) : List Event :=
  match effects.find? d.id with
  | none => []
  | some effect => [.reduced effect effect.inferMode]

/-- The event that reports an outcome. -/
def Outcome.event (d : Definition) : Outcome → Event
  | accepted => .accepted d.name d.qualifier
  | tooWeak diagnostic => .tooWeak d.name diagnostic
  | tooStrong suggested => .tooStrong d.name d.qualifier suggested

/-- The errors by identifier. -/
abbrev ErrorMap : Type := SortedMap DefinitionId Diagnostic

/-- The suggested qualifiers by identifier. -/
abbrev SuggestionMap : Type := SortedMap DefinitionId Qualifier

/-- The result of checking a module. -/
inductive CheckResult where
  /-- Some definition is declared too weak: all such errors. -/
  | failure (errors : ErrorMap)
  /-- No errors: all suggestions. -/
  | success (suggestions : SuggestionMap)
  deriving DecidableEq, Repr

namespace CheckResult

/-- Whether there was no error. -/
def isSuccess : CheckResult → Bool
  | failure _ => false
  | success _ => true

/-- The errors, when there are any. -/
def errors : CheckResult → Option ErrorMap
  | failure errors => some errors
  | success _ => none

/-- The suggestions, when there are no errors. -/
def suggestions : CheckResult → Option SuggestionMap
  | failure _ => none
  | success suggestions => some suggestions

end CheckResult

/-- What has been found in the definitions checked so far. -/
structure Findings where
  errors : ErrorMap := .empty
  suggestions : SuggestionMap := .empty
  deriving DecidableEq, Repr

namespace Findings

/-- Adds the outcome of one definition. -/
def record (found : Findings) (d : Definition) : Outcome → Findings
  | .accepted => found
  | .tooWeak diagnostic => { found with errors := found.errors.insert d.id diagnostic }
  | .tooStrong suggested => { found with suggestions := found.suggestions.insert d.id suggested }

/-- The result of a walk that has come to its end. -/
def result (found : Findings) : CheckResult :=
  if found.errors.isEmpty then .success found.suggestions else .failure found.errors

end Findings

/-- A value together with the events on the way to it. -/
structure Logged (α : Type) where
  value : α
  events : List Event
  deriving Repr

/-- Checks definitions in order, adding to what has been found before. -/
def walk (moduleName : String) (effects : EffectMap) :
    List Definition → Findings → Logged (Except MissingEffect Findings)
  | [], found => { value := .ok found, events := [] }
  | d :: rest, found =>
    let reduction := checkDefinitionEvents d effects
    match checkDefinition d effects with
    | .error cause =>
      { value := .error cause, events := reduction ++ [.missingEffect moduleName cause] }
    | .ok outcome =>
      let later := walk moduleName effects rest (found.record d outcome)
      { value := later.value, events := reduction ++ outcome.event d :: later.events }

/-- Checks every definition of a module in document order. -/
def checkModesLogged (m : Module) (effects : EffectMap) :
    Logged (Except MissingEffect CheckResult) :=
  let walked := walk m.name effects m.definitions {}
  match walked.value with
  | .error cause => { value := .error cause, events := walked.events }
  | .ok found =>
    { value := .ok found.result
      events := walked.events
        ++ [.finished m.name m.definitions.length found.errors.size found.suggestions.size] }

/-- The result of checking every definition of a module in document order. -/
def checkModes (m : Module) (effects : EffectMap) : Except MissingEffect CheckResult :=
  (checkModesLogged m effects).value

/-! ## Under a configuration -/

/-- A result to report, with the verdict. -/
structure CheckReport where
  result : CheckResult
  passed : Bool
  deriving DecidableEq, Repr

namespace CheckerConfig

/-- Whether a result passes. -/
def passes (config : CheckerConfig) : CheckResult → Bool
  | .failure _ => false
  | .success suggestions => !(config.denySuggestions && !suggestions.isEmpty)

/-- What is reported of a result. -/
def reported (config : CheckerConfig) : CheckResult → CheckResult
  | .failure errors => .failure errors
  | .success suggestions =>
    if config.reportSuggestions then .success suggestions else .success .empty

/-- The report on a result. The verdict is that of the full result, so suggestions that are denied
fail a module even when they are not reported. -/
def report (config : CheckerConfig) (result : CheckResult) : CheckReport :=
  { result := config.reported result, passed := config.passes result }

/-- Checks a module and reports. -/
def check (config : CheckerConfig) (m : Module) (effects : EffectMap) :
    Except MissingEffect CheckReport :=
  match checkModes m effects with
  | .error cause => .error cause
  | .ok result => .ok (config.report result)

end CheckerConfig

end OperatorModes
