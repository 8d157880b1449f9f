import OperatorModes.Json.ReadError

/-!
# Words, strings and numbers

The parts of a document without parts of their own. A text is the list of its remaining characters;
each reader takes what belongs to it from the front and returns the rest, or the cause for which it
cannot. Strings are read one character at a time by a small machine, so that every reader here
follows the list it is given.
-/

namespace OperatorModes.Json

/-- A reader: it takes a value from the front of a text. -/
abbrev Scan (α : Type) : Type := List Char → Except ReadError (α × List Char)

/-- The white space of JSON. -/
def isSpace (c : Char) : Bool :=
  c == ' ' || c == '\n' || c == '\t' || c == '\r'

/-- The text from its first character that is not white space. -/
def skipSpace (text : List Char) : List Char :=
  text.dropWhile isSpace

/-- Takes the rest of a word whose first letter has been taken. -/
def word? : List Char → List Char → Except ReadError (List Char)
  | [], text => .ok text
  | _ :: _, [] => .error .endInValue
  | w :: ws, c :: rest => if c = w then word? ws rest else .error .misspelledWord

/-! ## Strings -/

/-- The value of a digit of base sixteen, of either case. -/
def hexValue? (c : Char) : Option Nat :=
  let n := c.toNat
  if 48 ≤ n ∧ n ≤ 57 then some (n - 48)
  else if 65 ≤ n ∧ n ≤ 70 then some (n - 55)
  else if 97 ≤ n ∧ n ≤ 102 then some (n - 87)
  else none

/-- The character that a letter stands for after a backslash. -/
def escaped? (c : Char) : Option Char :=
  if c = '"' ∨ c = '\\' ∨ c = '/' then some c
  else if c = 'b' then some (Char.ofNat 0x08)
  else if c = 'f' then some (Char.ofNat 0x0C)
  else if c = 'n' then some '\n'
  else if c = 'r' then some '\r'
  else if c = 't' then some '\t'
  else none

/-- Whether fewer than four bytes remain, so that no four digits can follow. -/
def isShort (text : List Char) : Bool :=
  (String.ofList (text.take 4)).utf8ByteSize < 4

/-- Where a reader stands inside a string. -/
inductive StringState where
  | plain
  /-- After a backslash. -/
  | escape
  /-- Inside the four digits of an escape: so many are missing, this is the value so far. -/
  | digits (missing : Nat) (value : Nat)
  /-- After a high surrogate, where a backslash is due. -/
  | pairEscape (high : Nat)
  /-- After a high surrogate and a backslash, where `u` is due. -/
  | pairLetter (high : Nat)
  /-- Inside the four digits that complete a high surrogate. -/
  | pairDigits (high : Nat) (missing : Nat) (value : Nat)
  deriving Repr

/-- Whether a code unit is the first half of a surrogate pair. -/
def isHighSurrogate (n : Nat) : Bool := 0xD800 ≤ n && n ≤ 0xDBFF

/-- Whether a code unit is the second half of a surrogate pair. -/
def isLowSurrogate (n : Nat) : Bool := 0xDC00 ≤ n && n ≤ 0xDFFF

/-- The character of a surrogate pair. -/
def pairChar (high low : Nat) : Char :=
  Char.ofNat ((high - 0xD800) * 0x400 + (low - 0xDC00) + 0x10000)

/-- Reads on inside a string, with the characters read so far in reverse, up to and with the closing
quote. -/
def stringTail : StringState → List Char → Scan String
  | _, _, [] => .error .endInString
  | .plain, done, c :: rest =>
    if c = '"' then .ok (String.ofList done.reverse, rest)
    else if c = '\\' then stringTail .escape done rest
    else if c.toNat < 0x20 then .error .controlCharacter
    else stringTail .plain (c :: done) rest
  | .escape, done, c :: rest =>
    if c = 'u' then
      if isShort rest then .error .endInString else stringTail (.digits 4 0) done rest
    else
      match escaped? c with
      | some d => stringTail .plain (d :: done) rest
      | none => .error .invalidEscape
  | .digits missing value, done, c :: rest =>
    match hexValue? c with
    | none => .error .invalidEscape
    | some d =>
      let n := value * 16 + d
      if 1 < missing then stringTail (.digits (missing - 1) n) done rest
      else if isLowSurrogate n then .error .loneSurrogate
      else if isHighSurrogate n then stringTail (.pairEscape n) done rest
      else stringTail .plain (Char.ofNat n :: done) rest
  | .pairEscape high, done, c :: rest =>
    if c = '\\' then stringTail (.pairLetter high) done rest else .error .unpairedSurrogate
  | .pairLetter high, done, c :: rest =>
    if c = 'u' then
      if isShort rest then .error .endInString else stringTail (.pairDigits high 4 0) done rest
    else .error .unpairedSurrogate
  | .pairDigits high missing value, done, c :: rest =>
    match hexValue? c with
    | none => .error .invalidEscape
    | some d =>
      let n := value * 16 + d
      if 1 < missing then stringTail (.pairDigits high (missing - 1) n) done rest
      else if isLowSurrogate n then stringTail .plain (pairChar high n :: done) rest
      else .error .loneSurrogate

/-- Reads a string whose opening quote has been taken. -/
def string : Scan String :=
  stringTail .plain []

/-! ## Numbers -/

/-- The value of a decimal digit. -/
def digitValue (c : Char) : Nat :=
  c.toNat - 48

/-- The digits at the front of a text, and the rest. -/
def spanDigits (text : List Char) : List Char × List Char :=
  (text.takeWhile Char.isDigit, text.dropWhile Char.isDigit)

/-- Appends digits to a significand until the next one would not fit into 64 bits. Returns the
significand and how many digits are left over. -/
def absorb : Nat → List Char → Nat × Nat
  | s, [] => (s, 0)
  | s, c :: rest =>
    let next := s * 10 + digitValue c
    if next < UInt64.size then absorb next rest else (s, rest.length + 1)

/-- Reads at least one digit, as after a point or in an exponent. -/
def someDigits (text : List Char) : Except ReadError (List Char × List Char) :=
  match text with
  | [] => .error .endInValue
  | c :: _ => if c.isDigit then .ok (spanDigits text) else .error .invalidNumber

/-- Reads the digits in front of the point; a zero stands alone. -/
def integerDigits (text : List Char) : Except ReadError (List Char × List Char) :=
  match text with
  | '0' :: c :: _ => if c.isDigit then .error .invalidNumber else someDigits text
  | _ => someDigits text

/-- Reads a point and the digits after it, if a point is next. -/
def fractionDigits : List Char → Except ReadError (Option (List Char) × List Char)
  | '.' :: rest => do
    let (digits, rest) ← someDigits rest
    .ok (some digits, rest)
  | text => .ok (none, text)

/-- Reads an exponent with its sign, if one is next. -/
def exponentPart : List Char → Except ReadError (Option Int × List Char)
  | [] => .ok (none, [])
  | e :: rest =>
    if e = 'e' ∨ e = 'E' then
      match rest with
      | '-' :: rest => do
        let (digits, rest) ← someDigits rest
        .ok (some (-(digits.foldl (fun n c => n * 10 + digitValue c) 0 : Nat)), rest)
      | '+' :: rest => do
        let (digits, rest) ← someDigits rest
        .ok (some (digits.foldl (fun n c => n * 10 + digitValue c) 0 : Nat), rest)
      | _ => do
        let (digits, rest) ← someDigits rest
        .ok (some (digits.foldl (fun n c => n * 10 + digitValue c) 0 : Nat), rest)
    else .ok (none, e :: rest)

/-- The number of a sign, a significand and a power of ten. -/
def floatNumber (negative : Bool) (significand : Nat) (exponent : Int) : Except ReadError Number :=
  match Decimal.Binary64.scaled significand exponent with
  | some x => .ok (.float (if negative then x.neg else x))
  | none => .error .numberOutOfRange

/-- The number of a sign and an integer below `2^64`; an integer only if it fits into 64 bits with
its sign and is not negative zero. -/
def integerNumber (negative : Bool) (n : Nat) : Except ReadError Number :=
  if !negative then .ok (.int n)
  else if n = 0 ∨ 0x8000000000000000 < n then floatNumber true n 0
  else .ok (.int (-n))

/-- Reads a number that begins with a digit or a minus sign. Digits in front of the point that do not
fit count as zeros, digits after it are dropped from the first that does not fit. -/
def number (text : List Char) : Except ReadError (Number × List Char) := do
  let (negative, text) := match text with
    | '-' :: rest => (true, rest)
    | _ => (false, text)
  let (whole, text) ← integerDigits text
  let (significand, excess) := absorb 0 whole
  let (fraction, text) ← fractionDigits text
  let (power, text) ← exponentPart text
  match fraction, power with
  | none, none =>
    if excess = 0 then do
      let n ← integerNumber negative significand
      .ok (n, text)
    else do
      let n ← floatNumber negative significand excess
      .ok (n, text)
  | _, _ =>
    let digits := fraction.getD []
    let (significand, dropped) := absorb significand digits
    let exponent : Int := excess - (digits.length - dropped : Nat) + power.getD 0
    let n ← floatNumber negative significand exponent
    .ok (n, text)

/-! ## Values in place of others -/

/-- The cause for which the value at the front of a text cannot stand for what is expected. Words,
strings and numbers are read to their end first and may be faulty themselves; arrays and objects are
not looked into. -/
def mismatch (expected : String) (text : List Char) : ReadError :=
  let reported {α : Type} (r : Except ReadError α) (found : α → Found) : ReadError :=
    match r with
    | .ok a => .wrongType (found a) expected
    | .error e => e
  match text with
  | [] => .endInValue
  | 'n' :: rest => reported (word? ['u', 'l', 'l'] rest) fun _ => .null
  | 't' :: rest => reported (word? ['r', 'u', 'e'] rest) fun _ => .bool true
  | 'f' :: rest => reported (word? ['a', 'l', 's', 'e'] rest) fun _ => .bool false
  | '"' :: rest => reported (string rest) fun r => .str r.1
  | '[' :: _ => .wrongType .seq expected
  | '\x7b' :: _ => .wrongType .map expected
  | c :: rest =>
    if c.isDigit || c == '-' then reported (number (c :: rest)) fun r => r.1.found
    else .expectedValue

end OperatorModes.Json
