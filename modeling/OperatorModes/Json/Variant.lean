import OperatorModes.Json.Record

/-!
# Variants

A plain variant is written as its name, or as an object whose one member has the name for its key
and `null` for its value. A tagged variant is an object with its name in the member `kind` and its
fields beside it, or an array with its name first. The whole of a tagged variant is read before any
of its fields is decoded, so that what is wrong with its text comes before what is wrong with its
fields.
-/

namespace OperatorModes.Json

/-- The variant with a name. -/
def pick {τ : Type} (known : List (String × τ)) (name : String) : Except ReadError τ :=
  match lookupEntry name known with
  | some t => .ok t
  | none => .error (.unknownVariant name (known.map (·.1)))

/-! ## Plain variants -/

/-- Reads `null`. -/
def unit : Scan Unit := fun text =>
  match skipSpace text with
  | 'n' :: rest => do
    let rest ← word? ['u', 'l', 'l'] rest
    .ok ((), rest)
  | text => .error (mismatch "unit" text)

/-- Reads the one member of an object that names a variant. -/
def soleMember {τ : Type} (known : List (String × τ)) : Scan τ := fun text =>
  match skipSpace text with
  | [] => .error .endInObject
  | '\x7d' :: _ => .error .expectedValue
  | '"' :: rest => do
    let (name, rest) ← string rest
    let t ← pick known name
    let rest ← colon rest
    let (_, rest) ← unit rest
    match skipSpace rest with
    | [] => .error .endInObject
    | '\x7d' :: rest => .ok (t, rest)
    | _ => .error .expectedValue
  | _ => .error .keyNotString

/-- Reads a plain variant. -/
def variant {τ : Type} (known : List (String × τ)) : Reader τ := fun budget text =>
  match skipSpace text with
  | [] => .error .endInValue
  | '"' :: rest => do
    let (name, rest) ← string rest
    let t ← pick known name
    .ok (t, rest)
  | '\x7b' :: rest => enclosed budget fun _ => soleMember known rest
  | _ => .error .expectedValue

/-- Decodes a plain variant. -/
def decodeVariant {τ : Type} (known : List (String × τ)) : Decoder τ
  | str name => pick known name
  | obj [(name, v)] => do
    let t ← pick known name
    match v with
    | null => .ok t
    | v => .error (.wrongType v.found "unit")
  | obj _ => .error (.wrongValue .map "map with a single key")
  | v => .error (.wrongType v.found "string or map")

/-! ## Tagged variants -/

/-- The key of the member that names the variant. -/
def tagKey : String := "kind"

/-- What messages call a tagged variant. -/
def taggedName (name : String) : String :=
  "internally tagged enum " ++ name

/-- Reads the name of a tagged variant. -/
def tag {τ : Type} (known : List (String × τ)) : Scan τ := fun text =>
  match skipSpace text with
  | '"' :: rest => do
    let (name, rest) ← string rest
    let t ← pick known name
    .ok (t, rest)
  | text => .error (mismatch "variant identifier" text)

/-- Reads a member of a tagged variant: its name, or a field. -/
def taggedMember {τ : Type} (known : List (String × τ)) (budget : Nat)
    (gathered : Option τ × List (String × Json)) : Scan (Option τ × List (String × Json)) :=
  fun text => do
    let (key, text) ← string text
    if key = tagKey then
      if gathered.1.isSome then .error (.duplicateField tagKey)
      else do
        let text ← colon text
        let (t, rest) ← tag known text
        .ok ((some t, gathered.2), rest)
    else do
      let text ← colon text
      let (v, rest) ← tree budget text
      .ok ((gathered.1, (key, v) :: gathered.2), rest)

/-- Reads a tagged variant: which one it is, and the object or array of its fields. -/
def tagged {τ : Type} (name : String) (known : List (String × τ)) : Reader (τ × Json) :=
  fun budget text =>
    match skipSpace text with
    | '\x7b' :: rest => enclosed budget fun b => do
      let ((t, reversed), rest) ← members (taggedMember known b) (none, []) rest
      let t ← need tagKey t
      .ok ((t, obj reversed.reverse), rest)
    | '[' :: rest => enclosed budget fun b => do
      match ← nextItem true rest with
      | none => .error (.missingField tagKey)
      | some text => do
        let (t, rest) ← tag known text
        let (vs, rest) ← items (tree b) false rest
        .ok ((t, arr vs), rest)
    | text => .error (mismatch (taggedName name) text)

/-- Decodes the name of a tagged variant; inside another variant its number serves as well. -/
def decodeTag {τ : Type} (known : List (String × τ)) : Decoder τ
  | str name => pick known name
  | num (.int i) =>
    if 0 ≤ i then
      match known[i.toNat]? with
      | some (_, t) => .ok t
      | none =>
        .error (.wrongValue (.int i) ("variant index 0 <= i < " ++ toString known.length))
    else .error (.wrongType (.int i) "variant identifier")
  | v => .error (.wrongType v.found "variant identifier")

/-- Separates the name of a tagged variant from its fields. Fields are gathered in reverse. -/
def separate {τ : Type} (known : List (String × τ)) :
    List (String × Json) → Option τ → List (String × Json) → Except ReadError (τ × Json)
  | [], t, reversed => do
    let t ← need tagKey t
    .ok (t, obj reversed.reverse)
  | (key, v) :: rest, t, reversed =>
    if key = tagKey then
      if t.isSome then .error (.duplicateField tagKey)
      else do
        let t ← decodeTag known v
        separate known rest (some t) reversed
    else separate known rest t ((key, v) :: reversed)

/-- Decodes a tagged variant: which one it is, and the object or array of its fields. -/
def decodeTagged {τ : Type} (name : String) (known : List (String × τ)) : Decoder (τ × Json)
  | obj members => separate known members none []
  | arr [] => .error (.missingField tagKey)
  | arr (v :: rest) => do
    let t ← decodeTag known v
    .ok (t, arr rest)
  | v => .error (.wrongType v.found (taggedName name))

/-- The fault of items left over after the fields of a tagged variant. -/
def taggedLeftOver (length fields : Nat) : ReadError :=
  .wrongLength length
    (toString fields ++ (if fields = 1 then " element" else " elements") ++ " in sequence")

end OperatorModes.Json
