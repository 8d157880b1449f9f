import OperatorModes.Json.Token

/-!
# Passing over a value

The value of a member that nobody asks for is passed over without being read: its brackets, words,
strings and numbers must be well formed, but the range of numbers, the pairing of surrogates and the
depth of nesting are not checked, and some faults have causes of their own.
-/

namespace OperatorModes.Json

/-- Where a skimmer stands inside a string. -/
inductive SkimString where
  | plain
  | escape
  /-- Inside the four digits of an escape: so many are missing. -/
  | digits (missing : Nat)

/-- Passes over a string up to and with its closing quote. -/
def skimStringTail : SkimString → List Char → Except ReadError (List Char)
  | _, [] => .error .endInString
  | .plain, c :: rest =>
    if c = '"' then .ok rest
    else if c = '\\' then skimStringTail .escape rest
    else if c.toNat < 0x20 then .error .controlCharacter
    else skimStringTail .plain rest
  | .escape, c :: rest =>
    if c = 'u' then
      if isShort rest then .error .endInString else skimStringTail (.digits 4) rest
    else if (escaped? c).isSome then skimStringTail .plain rest
    else .error .invalidEscape
  | .digits missing, c :: rest =>
    if (hexValue? c).isNone then .error .invalidEscape
    else if 1 < missing then skimStringTail (.digits (missing - 1)) rest
    else skimStringTail .plain rest

/-- Passes over a string whose opening quote has been taken. -/
def skimString : List Char → Except ReadError (List Char) :=
  skimStringTail .plain

/-- Passes over at least one digit; a missing digit is a fault of the number even at the end. -/
def skimDigits (text : List Char) : Except ReadError (List Char) :=
  match text with
  | [] => .error .invalidNumber
  | c :: _ => if c.isDigit then .ok (text.dropWhile Char.isDigit) else .error .invalidNumber

/-- Passes over an exponent, if one is next. -/
def skimExponent : List Char → Except ReadError (List Char)
  | [] => .ok []
  | e :: rest =>
    if e = 'e' ∨ e = 'E' then
      match rest with
      | '-' :: rest => skimDigits rest
      | '+' :: rest => skimDigits rest
      | _ => skimDigits rest
    else .ok (e :: rest)

/-- Passes over a number without its minus sign. -/
def skimNumber (text : List Char) : Except ReadError (List Char) := do
  let text ← match text with
    | '0' :: c :: _ => if c.isDigit then .error .invalidNumber else skimDigits text
    | _ => skimDigits text
  let text ← match text with
    | '.' :: rest => skimDigits rest
    | _ => .ok text
  skimExponent text

/-- A bracket that is open. -/
inductive Frame where
  | list
  | object
  deriving DecidableEq, Repr

/-- What a skimmer expects next. -/
inductive SkimState where
  | value
  /-- The first item or member of the innermost bracket, or its end. -/
  | opened
  /-- The end of the innermost bracket, or a comma. -/
  | closed

/-- The fault at the end of a text inside a bracket. -/
def Frame.unfinished : Frame → ReadError
  | list => .endInList
  | object => .endInObject

/-- The fault of neither a comma nor the end after a value inside a bracket. -/
def Frame.expectedEnd : Frame → ReadError
  | list => .expectedListEnd
  | object => .expectedObjectEnd

/-- The character that closes a bracket. -/
def Frame.close : Frame → Char
  | list => ']'
  | object => '\x7d'

/-- Passes over a key and the colon after it. -/
def skimKey (text : List Char) : Except ReadError (List Char) :=
  match skipSpace text with
  | [] => .error .endInObject
  | '"' :: rest => do
    let rest ← skimString rest
    match skipSpace rest with
    | [] => .error .endInObject
    | ':' :: rest => .ok rest
    | _ => .error .expectedColon
  | _ => .error .keyNotString

/-- Goes on to the next value inside a bracket, past the key if the bracket is of an object. -/
def Frame.enter (frame : Frame) (text : List Char) : Except ReadError (List Char) :=
  match frame with
  | list => .ok text
  | object => skimKey text

/-- Passes over a word, a string or a number. -/
def skimScalar : List Char → Except ReadError (List Char)
  | [] => .error .endInValue
  | c :: rest =>
    if c = 'n' then word? ['u', 'l', 'l'] rest
    else if c = 't' then word? ['r', 'u', 'e'] rest
    else if c = 'f' then word? ['a', 'l', 's', 'e'] rest
    else if c = '"' then skimString rest
    else if c = '-' then skimNumber rest
    else if c.isDigit then skimNumber (c :: rest)
    else .error .expectedValue

/-- Passes over the rest of a value, given the open brackets, innermost first. Every step takes a
character or enters a bracket just opened, so twice the length of the text is enough fuel. -/
def skimLoop : Nat → SkimState → List Frame → List Char → Except ReadError (List Char)
  | 0, _, _, _ => .error .expectedValue
  | fuel + 1, .value, frames, text =>
    match skipSpace text with
    | '[' :: rest => skimLoop fuel .opened (.list :: frames) rest
    | '\x7b' :: rest => skimLoop fuel .opened (.object :: frames) rest
    | text => do
      let rest ← skimScalar text
      skimLoop fuel .closed frames rest
  | _ + 1, _, [], text => .ok text
  | fuel + 1, .opened, frame :: outer, text =>
    match skipSpace text with
    | [] => .error frame.unfinished
    | c :: rest =>
      if c = frame.close then skimLoop fuel .closed outer rest
      else do
        let rest ← frame.enter (c :: rest)
        skimLoop fuel .value (frame :: outer) rest
  | fuel + 1, .closed, frame :: outer, text =>
    match skipSpace text with
    | [] => .error frame.unfinished
    | c :: rest =>
      if c = frame.close then skimLoop fuel .closed outer rest
      else if c = ',' then do
        let rest ← frame.enter rest
        skimLoop fuel .value (frame :: outer) rest
      else .error frame.expectedEnd

/-- Passes over one value. -/
def skim (text : List Char) : Except ReadError (List Char) :=
  skimLoop (2 * text.length + 2) .value [] text

end OperatorModes.Json
