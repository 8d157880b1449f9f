import OperatorModes.Effect
import OperatorModes.Qualifier
import OperatorModes.SortedMap

/-!
# Modules

What is checked: the definitions of a module in document order, each with the qualifier it is
declared with, and the effects inferred for them, found by the identifier of the definition.
-/

namespace OperatorModes

/-- The identifier a definition has in its document. It need not be the only one with it. -/
abbrev DefinitionId : Type := UInt64

/-- A place in source text. -/
structure Span where
  line : UInt64
  column : UInt64
  deriving DecidableEq, Repr

/-- Line and column with a colon between them. -/
def Span.render (s : Span) : String :=
  toString s.line.toNat ++ ":" ++ toString s.column.toNat

/-- An operator with its declared qualifier. -/
structure Definition where
  id : DefinitionId
  name : String
  qualifier : Qualifier
  span : Option Span := none
  deriving DecidableEq, Repr

namespace Definition

/-- The definition at another place. -/
def withSpan (d : Definition) (line column : UInt64) : Definition :=
  { d with span := some { line, column } }

/-- Where messages say the definition is: its name, and its place if that is known. -/
def location (d : Definition) : String :=
  match d.span with
  | some span => d.name ++ " at " ++ span.render
  | none => d.name

end Definition

/-- A module: its definitions in document order. -/
structure Module where
  name : String := ""
  definitions : List Definition := []
  deriving DecidableEq, Repr

/-- The inferred effects by the identifiers of their definitions. -/
abbrev EffectMap : Type := SortedMap DefinitionId Effect

/-- A module together with the effects of its definitions. -/
structure CheckInput where
  module : Module
  effects : EffectMap := .empty
  deriving DecidableEq, Repr

end OperatorModes
