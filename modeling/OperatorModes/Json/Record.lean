import OperatorModes.Json.Reader

/-!
# Records

A record is written as an object with its fields as members, in any order and among members that
are passed over, or as an array of its fields in the order of their declaration. A `Shape` says what
the fields of a record are, how one is read into a draft of the record, and how a draft becomes the
record once its object or array has ended. The same description serves for reading from text and for
decoding a document that has been read before.
-/

namespace OperatorModes.Json

/-- One field of a record of type `σ`, read by readers of kind `F`. -/
structure Slot (F : Type → Type) (σ : Type) where
  key : String
  /-- Whether the field may be missing. -/
  isOptional : Bool
  /-- Whether a draft has the field already. -/
  isFilled : σ → Bool
  /-- Reads the field into a draft. -/
  read : σ → F σ

/-- The fields of a record and what a draft of it becomes. -/
structure Shape (F : Type → Type) (σ α : Type) where
  /-- What messages call the record. -/
  name : String
  slots : List (Slot F σ)
  blank : σ
  /-- Supplies what is missing and may be, and complains about the rest. -/
  close : σ → Except ReadError α

/-- A field that has to be there. -/
def need {β : Type} (key : String) : Option β → Except ReadError β
  | some b => .ok b
  | none => .error (.missingField key)

namespace Shape

variable {F : Type → Type} {σ α : Type}

/-- The field with a key. -/
def slot? (shape : Shape F σ α) (key : String) : Option (Slot F σ) :=
  shape.slots.find? fun slot => slot.key == key

/-- The fault of an array that ends after so many fields. -/
def tooShort (shape : Shape F σ α) (length : Nat) : ReadError :=
  let n := shape.slots.length
  .wrongLength length
    (shape.name ++ " with " ++ toString n ++ if n = 1 then " element" else " elements")

/-- Checks that every remaining field may be missing, when so many are there. -/
def checkRest (shape : Shape F σ α) (remaining : List (Slot F σ)) (length : Nat) :
    Except ReadError Unit :=
  match remaining.findIdx? fun slot => !slot.isOptional with
  | some i => .error (shape.tooShort (length + i))
  | none => .ok ()

/-! ## From text -/

/-- Reads a member into a draft, or passes over it. A repeated field is a fault before its value is
looked at. -/
def member (shape : Shape Reader σ α) (budget : Nat) (draft : σ) : Scan σ := fun text => do
  let (key, text) ← string text
  match shape.slot? key with
  | none => do
    let text ← colon text
    let rest ← skim text
    .ok (draft, rest)
  | some slot =>
    if slot.isFilled draft then .error (.duplicateField key)
    else do
      let text ← colon text
      slot.read draft budget text

/-- Reads the remaining fields from an array, when so many have been read. -/
def elements (shape : Shape Reader σ α) (budget : Nat) : List (Slot Reader σ) → Nat → σ → Scan σ
  | [], _, draft, text => do
    let rest ← closeList text
    .ok (draft, rest)
  | slot :: slots, length, draft, text => do
    match ← nextItem (length == 0) text with
    | none => do
      shape.checkRest (slot :: slots) length
      let rest ← closeList text
      .ok (draft, rest)
    | some text => do
      let (draft, rest) ← slot.read draft budget text
      elements shape budget slots (length + 1) draft rest

end Shape

/-- Reads a record. -/
def record {σ α : Type} (shape : Shape Reader σ α) : Reader α := fun budget text =>
  match skipSpace text with
  | '\x7b' :: rest => enclosed budget fun b => do
    let (draft, rest) ← members (shape.member b) shape.blank rest
    let a ← shape.close draft
    .ok (a, rest)
  | '[' :: rest => enclosed budget fun b => do
    let (draft, rest) ← shape.elements b shape.slots 0 shape.blank rest
    let a ← shape.close draft
    .ok (a, rest)
  | text => .error (mismatch shape.name text)

/-- A field of a record in text, by the part of the draft that holds it. -/
def field {σ β : Type} (key : String) (isOptional : Bool) (get : σ → Option β) (put : σ → β → σ)
    (reader : Reader β) : Slot Reader σ :=
  { key, isOptional
    isFilled := fun draft => (get draft).isSome
    read := fun draft => reader.map (put draft) }

/-! ## From a document -/

/-- A reader of documents that have been read before. -/
abbrev Decoder (α : Type) : Type := Json → Except ReadError α

/-- A field of a record in a document, by the part of the draft that holds it. -/
def part {σ β : Type} (key : String) (isOptional : Bool) (get : σ → Option β) (put : σ → β → σ)
    (decoder : Decoder β) : Slot Decoder σ :=
  { key, isOptional
    isFilled := fun draft => (get draft).isSome
    read := fun draft v =>
      match decoder v with
      | .ok b => .ok (put draft b)
      | .error e => .error e }

namespace Shape

variable {σ α : Type}

/-- Decodes members into a draft, one after another. -/
def gather (shape : Shape Decoder σ α) : List (String × Json) → σ → Except ReadError σ
  | [], draft => .ok draft
  | (key, v) :: rest, draft =>
    match shape.slot? key with
    | none => shape.gather rest draft
    | some slot =>
      if slot.isFilled draft then .error (.duplicateField key)
      else do
        let draft ← slot.read draft v
        shape.gather rest draft

/-- Decodes items into the remaining fields, when so many have been decoded. What is said of items
that are left over depends on the number of all items and of fields. -/
def gatherItems (shape : Shape Decoder σ α) (leftOver : Nat → Nat → ReadError) :
    List (Slot Decoder σ) → List Json → Nat → σ → Except ReadError σ
  | [], [], _, draft => .ok draft
  | [], v :: rest, length, _ => .error (leftOver (length + (v :: rest).length) length)
  | slot :: slots, [], length, draft => do
    shape.checkRest (slot :: slots) length
    .ok draft
  | slot :: slots, v :: rest, length, draft => do
    let draft ← slot.read draft v
    shape.gatherItems leftOver slots rest (length + 1) draft

end Shape

/-- Decodes a record. -/
def decodeRecord {σ α : Type} (shape : Shape Decoder σ α) (leftOver : Nat → Nat → ReadError) :
    Decoder α
  | obj members => do
    let draft ← shape.gather members shape.blank
    shape.close draft
  | arr items => do
    let draft ← shape.gatherItems leftOver shape.slots items 0 shape.blank
    shape.close draft
  | v => .error (.wrongType v.found shape.name)

/-- Decodes each document of a list. -/
def decodeEach {α : Type} (decoder : Decoder α) : List Json → Except ReadError (List α)
  | [] => .ok []
  | v :: rest => do
    let a ← decoder v
    let as ← decodeEach decoder rest
    .ok (a :: as)

/-- Decodes an array. -/
def decodeList {α : Type} (decoder : Decoder α) : Decoder (List α)
  | arr items => decodeEach decoder items
  | v => .error (.wrongType v.found "a sequence")

/-- Decodes a string. -/
def decodeText : Decoder String
  | str s => .ok s
  | v => .error (.wrongType v.found "a string")

end OperatorModes.Json
