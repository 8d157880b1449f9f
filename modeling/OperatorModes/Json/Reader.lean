import OperatorModes.Json.Skim

/-!
# Reading values from text

Readers that know how many more arrays and objects may be opened. `tree` reads any value; `list`,
`members` and the readers of simple values are what readers of particular types are made of. A
reader stops at the first fault in text order.

How deep a document may nest (`depthLimit`) is the rule of a third party, the general reader of
documents that the program is built on: none of the formats here asks for it.
-/

namespace OperatorModes.Json

/-- A reader with its budget: how many arrays and objects it may open inside one another. -/
abbrev Reader (α : Type) : Type := Nat → Scan α

/-- The budget of a whole document. -/
def depthLimit : Nat := 127

/-- What becomes of a value that has been read. -/
def mapScan {α β : Type} (f : α → β) (r : Except ReadError (α × List Char)) :
    Except ReadError (β × List Char) :=
  match r with
  | .ok (a, rest) => .ok (f a, rest)
  | .error e => .error e

/-- The reader of values that another reader's values become. -/
def Reader.map {α β : Type} (f : α → β) (reader : Reader α) : Reader β :=
  fun budget text => mapScan f (reader budget text)

/-- Opens an array or object if the budget allows it. -/
def enclosed {α : Type} (budget : Nat) (inside : Nat → Except ReadError α) : Except ReadError α :=
  match budget with
  | 0 => .error .tooDeep
  | b + 1 => inside b

/-! ## Arrays -/

/-- Goes on to the next item of an array: the text that starts with it, or nothing when the closing
bracket is next. -/
def nextItem (isFirst : Bool) (text : List Char) : Except ReadError (Option (List Char)) :=
  match skipSpace text with
  | [] => .error .endInList
  | ']' :: _ => .ok none
  | ',' :: rest =>
    if isFirst then .ok (some (',' :: rest))
    else
      match skipSpace rest with
      | [] => .error .endInValue
      | ']' :: _ => .error .trailingComma
      | rest => .ok (some rest)
  | text => if isFirst then .ok (some text) else .error .expectedListEnd

/-- Takes the closing bracket of an array whose items are known to have ended. -/
def closeList (text : List Char) : Except ReadError (List Char) :=
  match skipSpace text with
  | [] => .error .endInList
  | ']' :: rest => .ok rest
  | ',' :: rest =>
    match skipSpace rest with
    | ']' :: _ => .error .trailingComma
    | _ => .error .trailingCharacters
  | _ => .error .trailingCharacters

/-- Reads items up to and with the closing bracket. Each item takes a character, so the length of
the text is enough fuel. -/
def itemsLoop {α : Type} (item : Scan α) : Nat → Bool → Scan (List α)
  | 0, _, _ => .error .endInList
  | fuel + 1, isFirst, text => do
    match ← nextItem isFirst text with
    | none => do
      let rest ← closeList text
      .ok ([], rest)
    | some text => do
      let (x, rest) ← item text
      let (xs, rest) ← itemsLoop item fuel false rest
      .ok (x :: xs, rest)

/-- Reads the items of an array whose opening bracket has been taken. -/
def items {α : Type} (item : Scan α) (isFirst : Bool) : Scan (List α) :=
  fun text => itemsLoop item (text.length + 1) isFirst text

/-- Reads an array. -/
def list {α : Type} (item : Reader α) : Reader (List α) := fun budget text =>
  match skipSpace text with
  | '[' :: rest => enclosed budget fun b => items (item b) true rest
  | text => .error (mismatch "a sequence" text)

/-! ## Objects -/

/-- Goes on to the next member of an object: the text after the opening quote of its key, or nothing
when the closing brace is next. -/
def nextMember (isFirst : Bool) (text : List Char) : Except ReadError (Option (List Char)) :=
  match skipSpace text with
  | [] => .error .endInObject
  | '\x7d' :: _ => .ok none
  | '"' :: rest => if isFirst then .ok (some rest) else .error .expectedObjectEnd
  | ',' :: rest =>
    if isFirst then .error .keyNotString
    else
      match skipSpace rest with
      | [] => .error .endInValue
      | '"' :: rest => .ok (some rest)
      | '\x7d' :: _ => .error .trailingComma
      | _ => .error .keyNotString
  | _ => if isFirst then .error .keyNotString else .error .expectedObjectEnd

/-- Takes the closing brace of an object whose members have ended. -/
def closeObject (text : List Char) : Except ReadError (List Char) :=
  match skipSpace text with
  | '\x7d' :: rest => .ok rest
  | _ => .error .endInObject

/-- Takes the colon after a key. -/
def colon (text : List Char) : Except ReadError (List Char) :=
  match skipSpace text with
  | [] => .error .endInObject
  | ':' :: rest => .ok rest
  | _ => .error .expectedColon

/-- Reads members up to and with the closing brace. A member starts after the opening quote of its
key and turns what has been gathered before it into what has been gathered with it. -/
def membersLoop {σ : Type} (member : σ → Scan σ) : Nat → Bool → σ → Scan σ
  | 0, _, _, _ => .error .endInObject
  | fuel + 1, isFirst, gathered, text => do
    match ← nextMember isFirst text with
    | none => do
      let rest ← closeObject text
      .ok (gathered, rest)
    | some text => do
      let (gathered, rest) ← member gathered text
      membersLoop member fuel false gathered rest

/-- Reads the members of an object whose opening brace has been taken. -/
def members {σ : Type} (member : σ → Scan σ) (start : σ) : Scan σ :=
  fun text => membersLoop member (text.length + 1) true start text

/-! ## Values -/

/-- Reads one value of any kind. Members are gathered in reverse. -/
def tree : Reader Json
  | budget, text =>
    match skipSpace text with
    | [] => .error .endInValue
    | c :: rest =>
      if c = 'n' then do
        let rest ← word? ['u', 'l', 'l'] rest
        .ok (null, rest)
      else if c = 't' then do
        let rest ← word? ['r', 'u', 'e'] rest
        .ok (bool true, rest)
      else if c = 'f' then do
        let rest ← word? ['a', 'l', 's', 'e'] rest
        .ok (bool false, rest)
      else if c = '"' then mapScan str (string rest)
      else if c = '[' then
        match budget with
        | 0 => .error .tooDeep
        | b + 1 => mapScan arr (items (tree b) true rest)
      else if c = '\x7b' then
        match budget with
        | 0 => .error .tooDeep
        | b + 1 =>
          mapScan (fun reversed => obj reversed.reverse)
            (members (fun before text => do
              let (key, text) ← string text
              let text ← colon text
              let (value, rest) ← tree b text
              .ok ((key, value) :: before, rest)) [] rest)
      else if c.isDigit || c == '-' then mapScan num (number (c :: rest))
      else .error .expectedValue

/-- Reads a value and forgets the order and repetition of its members. -/
def value : Reader Json :=
  tree.map canonical

/-- Reads a truth value. -/
def boolean : Reader Bool := fun _ text =>
  match skipSpace text with
  | 't' :: rest => do
    let rest ← word? ['r', 'u', 'e'] rest
    .ok (true, rest)
  | 'f' :: rest => do
    let rest ← word? ['a', 'l', 's', 'e'] rest
    .ok (false, rest)
  | text => .error (mismatch "a boolean" text)

/-- Reads a string. -/
def text : Reader String := fun _ text =>
  match skipSpace text with
  | '"' :: rest => string rest
  | text => .error (mismatch "a string" text)

/-- An integer from 0 to `2^64 - 1` as a word. -/
def Number.word? (expected : String) : Number → Except ReadError UInt64
  | .int i => if 0 ≤ i then .ok (.ofNat i.toNat) else .error (.wrongValue (.int i) expected)
  | .float x => .error (.wrongType (.float x) expected)

/-- Reads an unsigned integer of 64 bits. -/
def word64 (expected : String) : Reader UInt64 := fun _ text =>
  match skipSpace text with
  | [] => .error .endInValue
  | c :: rest =>
    if c.isDigit || c == '-' then do
      let (n, rest) ← number (c :: rest)
      let w ← n.word? expected
      .ok (w, rest)
    else .error (mismatch expected (c :: rest))

/-- Reads `null` as nothing and anything else as a value. -/
def nullable {α : Type} (reader : Reader α) : Reader (Option α) := fun budget text =>
  match skipSpace text with
  | 'n' :: rest => do
    let rest ← word? ['u', 'l', 'l'] rest
    .ok (none, rest)
  | text => (reader.map some) budget text

/-- Reads a key that stands for an identifier: the digits of a number directly between quotes,
of which the opening one has been taken. -/
def wordKey (expected : String) : Scan UInt64 := fun text =>
  match text with
  | [] => .error .keyNotNumber
  | c :: _ =>
    if c.isDigit || c == '-' then do
      let (n, rest) ← number text
      let w ← n.word? expected
      match rest with
      | '"' :: rest => .ok (w, rest)
      | _ => .error .expectedQuote
    else .error .keyNotNumber

/-- Reads an object whose keys stand for identifiers. Of repeated keys the last counts. -/
def wordMap {α : Type} (item : Reader α) : Reader (SortedMap UInt64 α) := fun budget text =>
  match skipSpace text with
  | '\x7b' :: rest => enclosed budget fun b =>
    members (fun (m : SortedMap UInt64 α) text => do
      let (key, text) ← wordKey "u64" text
      let text ← colon text
      let (x, rest) ← item b text
      .ok (m.insert key x, rest)) .empty rest
  | text => .error (mismatch "a map" text)

/-- The value that a document of nothing but one value holds. -/
def readAll {α : Type} (reader : Reader α) (document : String) : Except ReadError α := do
  let (a, rest) ← reader depthLimit document.toList
  if (skipSpace rest).isEmpty then .ok a else .error .trailingCharacters

end OperatorModes.Json
