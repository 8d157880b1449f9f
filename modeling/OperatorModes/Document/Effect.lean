import OperatorModes.Effect
import OperatorModes.Json.Variant
import OperatorModes.Qualifier

/-!
# Qualifiers and effects as documents

A qualifier is written by its lattice name and read by that or its keyword. Payloads and effects are
tagged variants that nest in one another. The outermost is read from text, with its fields as plain
documents; these are then decoded, which needs no more steps than the document is deep.
-/

namespace OperatorModes

/-! ## Qualifiers -/

namespace Qualifier

/-- The names by which a document may call a qualifier. -/
def known : List (String × Qualifier) :=
  [("pure val", pureVal), ("staticval", pureVal), ("pure def", pureDef), ("staticdef", pureDef),
    ("val", val), ("def", defn), ("action", action), ("temporal", temporal)]

/-- Reads a qualifier by exactly one of its names. -/
def read : Json.Reader Qualifier := Json.variant known

/-- The qualifier by its lattice name. -/
def toJson (q : Qualifier) : Json := .str q.name

end Qualifier

/-! ## Payloads -/

namespace Payload

/-- The two kinds of payload in a document. -/
inductive Kind where
  | concrete
  | union
  deriving DecidableEq, Repr

/-- The names of the kinds. -/
def Kind.known : List (String × Kind) := [("concrete", concrete), ("union", union)]

mutual

/-- The payload with its kind. -/
def toJson : Payload → Json
  | names vars => .obj [("kind", .str "concrete"), ("vars", .arr (vars.toList.map .str))]
  | union members => .obj [("kind", .str "union"), ("variables", .arr (toJsonAll members))]

/-- Each payload of a list. -/
def toJsonAll : List Payload → List Json
  | [] => []
  | p :: rest => p.toJson :: toJsonAll rest

end

/-- The fields of a set of names. -/
def namesShape : Json.Shape Json.Decoder (Option (List String)) Payload where
  name := "struct variant VariablesEffect::Concrete"
  slots := [Json.part "vars" false id (fun _ vars => some vars) (Json.decodeList Json.decodeText)]
  blank := none
  close := fun vars => do
    let vars ← Json.need "vars" vars
    .ok (of vars)

/-- The fields of a union, given a decoder of its members. -/
def unionShape (member : Json.Decoder Payload) :
    Json.Shape Json.Decoder (Option (List Payload)) Payload where
  name := "struct variant VariablesEffect::Union"
  slots := [Json.part "variables" false id (fun _ ps => some ps) (Json.decodeList member)]
  blank := none
  close := fun members => do
    let members ← Json.need "variables" members
    .ok (union members)

/-- Decodes the fields of a kind. -/
def ofFields (member : Json.Decoder Payload) : Kind → Json.Decoder Payload
  | .concrete => Json.decodeRecord namesShape Json.taggedLeftOver
  | .union => Json.decodeRecord (unionShape member) Json.taggedLeftOver

/-- Decodes a payload that nests less deep than the fuel. -/
def decodeWithin : Nat → Json.Decoder Payload
  | 0, _ => .error .tooDeep
  | fuel + 1, v => do
    let (kind, fields) ← Json.decodeTagged "VariablesEffect" Kind.known v
    ofFields (decodeWithin fuel) kind fields

/-- Decodes a payload. -/
def decode : Json.Decoder Payload := fun v =>
  decodeWithin (v.depth + 1) v

/-- Reads a payload. -/
def read : Json.Reader Payload := fun budget text => do
  let ((kind, fields), rest) ← Json.tagged "VariablesEffect" Kind.known budget text
  let p ← ofFields decode kind fields
  .ok (p, rest)

end Payload

/-! ## Effects -/

namespace Effect

/-- The two kinds of effect in a document. -/
inductive Kind where
  | concrete
  | arrow
  deriving DecidableEq, Repr

/-- The names of the kinds. -/
def Kind.known : List (String × Kind) := [("concrete", concrete), ("arrow", arrow)]

mutual

/-- The effect with its kind; a footprint always with all three payloads. -/
def toJson : Effect → Json
  | leaf f =>
    .obj [("kind", .str "concrete"), ("read", f.reads.toJson), ("update", f.updates.toJson),
      ("temporal", f.temporal.toJson)]
  | arrow params result =>
    .obj [("kind", .str "arrow"), ("params", .arr (toJsonAll params)), ("result", result.toJson)]

/-- Each effect of a list. -/
def toJsonAll : List Effect → List Json
  | [] => []
  | e :: rest => e.toJson :: toJsonAll rest

end

/-- A footprint of which some payloads have been decoded. -/
structure LeafDraft where
  reads : Option Payload := none
  updates : Option Payload := none
  temporal : Option Payload := none

/-- The fields of a footprint; a missing payload is empty. -/
def leafShape : Json.Shape Json.Decoder LeafDraft Effect where
  name := "struct ConcreteEffect"
  slots :=
    [Json.part "read" true LeafDraft.reads (fun d p => { d with reads := some p }) Payload.decode,
      Json.part "update" true LeafDraft.updates (fun d p => { d with updates := some p })
        Payload.decode,
      Json.part "temporal" true LeafDraft.temporal (fun d p => { d with temporal := some p })
        Payload.decode]
  blank := {}
  close := fun d =>
    .ok (leaf
      { reads := d.reads.getD .empty
        updates := d.updates.getD .empty
        temporal := d.temporal.getD .empty })

/-- An arrow of which some fields have been decoded. -/
structure ArrowDraft where
  params : Option (List Effect) := none
  result : Option Effect := none

/-- The fields of an arrow, given a decoder of its parts. -/
def arrowShape (inner : Json.Decoder Effect) : Json.Shape Json.Decoder ArrowDraft Effect where
  name := "struct ArrowEffect"
  slots :=
    [Json.part "params" false ArrowDraft.params (fun d ps => { d with params := some ps })
        (Json.decodeList inner),
      Json.part "result" false ArrowDraft.result (fun d r => { d with result := some r }) inner]
  blank := {}
  close := fun d => do
    let params ← Json.need "params" d.params
    let result ← Json.need "result" d.result
    .ok (arrow params result)

/-- Decodes the fields of a kind. -/
def ofFields (inner : Json.Decoder Effect) : Kind → Json.Decoder Effect
  | .concrete => Json.decodeRecord leafShape Json.taggedLeftOver
  | .arrow => Json.decodeRecord (arrowShape inner) Json.taggedLeftOver

/-- Decodes an effect that nests less deep than the fuel. -/
def decodeWithin : Nat → Json.Decoder Effect
  | 0, _ => .error .tooDeep
  | fuel + 1, v => do
    let (kind, fields) ← Json.decodeTagged "Effect" Kind.known v
    ofFields (decodeWithin fuel) kind fields

/-- Decodes an effect. -/
def decode : Json.Decoder Effect := fun v =>
  decodeWithin (v.depth + 1) v

/-- Reads an effect. -/
def read : Json.Reader Effect := fun budget text => do
  let ((kind, fields), rest) ← Json.tagged "Effect" Kind.known budget text
  let e ← ofFields decode kind fields
  .ok (e, rest)

end Effect

end OperatorModes
