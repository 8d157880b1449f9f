import OperatorModes.Document.Effect
import OperatorModes.Module

/-!
# Modules as documents

Records for spans, definitions, modules and the whole input of a check. The place of a definition
and its absence are kept apart: an absent place is not written at all, and `null` is read as one.
-/

namespace OperatorModes

/-! ## Spans -/

namespace Span

/-- A span of which some fields have been read. -/
structure Draft where
  line : Option UInt64 := none
  column : Option UInt64 := none

/-- The fields of a span. -/
def shape : Json.Shape Json.Reader Draft Span where
  name := "struct Span"
  slots :=
    [Json.field "line" false Draft.line (fun d n => { d with line := some n })
        (Json.word64 "usize"),
      Json.field "column" false Draft.column (fun d n => { d with column := some n })
        (Json.word64 "usize")]
  blank := {}
  close := fun d => do
    let line ← Json.need "line" d.line
    let column ← Json.need "column" d.column
    .ok { line, column }

/-- Reads a span. -/
def read : Json.Reader Span := Json.record shape

/-- The span as a document. -/
def toJson (s : Span) : Json :=
  .obj [("line", .word s.line), ("column", .word s.column)]

end Span

/-! ## Definitions -/

namespace Definition

/-- A definition of which some fields have been read. -/
structure Draft where
  id : Option DefinitionId := none
  name : Option String := none
  qualifier : Option Qualifier := none
  span : Option (Option Span) := none

/-- The fields of a definition. -/
def shape : Json.Shape Json.Reader Draft Definition where
  name := "struct Definition"
  slots :=
    [Json.field "id" false Draft.id (fun d n => { d with id := some n }) (Json.word64 "u64"),
      Json.field "name" false Draft.name (fun d s => { d with name := some s }) Json.text,
      Json.field "qualifier" false Draft.qualifier (fun d q => { d with qualifier := some q })
        Qualifier.read,
      Json.field "span" true Draft.span (fun d s => { d with span := some s })
        (Json.nullable Span.read)]
  blank := {}
  close := fun d => do
    let id ← Json.need "id" d.id
    let name ← Json.need "name" d.name
    let qualifier ← Json.need "qualifier" d.qualifier
    .ok { id, name, qualifier, span := d.span.getD none }

/-- Reads a definition. -/
def read : Json.Reader Definition := Json.record shape

/-- The definition as a document. -/
def toJson (d : Definition) : Json :=
  .obj ([("id", .word d.id), ("name", .str d.name), ("qualifier", d.qualifier.toJson)]
    ++ match d.span with
      | some span => [("span", span.toJson)]
      | none => [])

end Definition

/-! ## Modules -/

namespace Module

/-- A module of which some fields have been read. -/
structure Draft where
  name : Option String := none
  definitions : Option (List Definition) := none

/-- The fields of a module. -/
def shape : Json.Shape Json.Reader Draft Module where
  name := "struct Module"
  slots :=
    [Json.field "name" false Draft.name (fun d s => { d with name := some s }) Json.text,
      Json.field "definitions" true Draft.definitions (fun d ds => { d with definitions := some ds })
        (Json.list Definition.read)]
  blank := {}
  close := fun d => do
    let name ← Json.need "name" d.name
    .ok { name, definitions := d.definitions.getD [] }

/-- Reads a module. -/
def read : Json.Reader Module := Json.record shape

/-- The module as a document. -/
def toJson (m : Module) : Json :=
  .obj [("name", .str m.name), ("definitions", .arr (m.definitions.map Definition.toJson))]

end Module

/-! ## Inputs -/

/-- A map by identifiers as an object: the keys are decimal, in numeric order. -/
def SortedMap.toJson {α : Type} (entry : α → Json) (m : SortedMap UInt64 α) : Json :=
  .obj (m.entries.map fun e => (toString e.1.toNat, entry e.2))

namespace CheckInput

/-- An input of which some fields have been read. -/
structure Draft where
  module : Option Module := none
  effects : Option EffectMap := none

/-- The fields of an input. -/
def shape : Json.Shape Json.Reader Draft CheckInput where
  name := "struct CheckInput"
  slots :=
    [Json.field "module" false Draft.module (fun d m => { d with module := some m }) Module.read,
      Json.field "effects" true Draft.effects (fun d es => { d with effects := some es })
        (Json.wordMap Effect.read)]
  blank := {}
  close := fun d => do
    let module ← Json.need "module" d.module
    .ok { module, effects := d.effects.getD .empty }

/-- Reads an input. -/
def read : Json.Reader CheckInput := Json.record shape

/-- The input as a document. -/
def toJson (input : CheckInput) : Json :=
  .obj [("module", input.module.toJson), ("effects", input.effects.toJson Effect.toJson)]

/-- The input that a document holds. -/
def ofDocument (document : String) : Except Json.ReadError CheckInput :=
  Json.readAll read document

end CheckInput

end OperatorModes
