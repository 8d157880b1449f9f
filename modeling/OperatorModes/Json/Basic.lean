import OperatorModes.Decimal.Binary64
import OperatorModes.SortedMap

/-!
# JSON documents

A JSON document as a tree. An object keeps its members in text order with repetitions, because what
is wrong with a document can depend on both. `canonical` forgets them: the members are put in key
order and of repeated keys the last counts. `depth` is the greatest nesting of arrays and objects.
-/

namespace OperatorModes

/-- A number: an integer between `-2^63` and `2^64 - 1`, or a floating-point number. -/
inductive Json.Number where
  | int (value : Int)
  | float (value : Decimal.Binary64)
  deriving DecidableEq, Repr

/-- A JSON document. -/
inductive Json where
  | null
  | bool (value : Bool)
  | num (value : Json.Number)
  | str (value : String)
  | arr (items : List Json)
  | obj (members : List (String × Json))
  deriving Repr

namespace Json

instance : Inhabited Json := ⟨null⟩

/-- A natural number as a document. -/
def nat (n : Nat) : Json := num (.int n)

/-- An identifier or another 64-bit word as a document. -/
def word (n : UInt64) : Json := nat n.toNat

mutual

/-- The greatest number of arrays and objects around any place in the document, itself counted. -/
def depth : Json → Nat
  | arr items => depthOfItems items + 1
  | obj members => depthOfMembers members + 1
  | _ => 0

/-- The greatest depth of a list of documents. -/
def depthOfItems : List Json → Nat
  | [] => 0
  | v :: rest => max v.depth (depthOfItems rest)

/-- The greatest depth of the values of a list of members. -/
def depthOfMembers : List (String × Json) → Nat
  | [] => 0
  | (_, v) :: rest => max v.depth (depthOfMembers rest)

end

mutual

/-- The document with every object in key order and each key once, with its last value. -/
def canonical : Json → Json
  | arr items => arr (canonicalItems items)
  | obj members => obj (canonicalMembers members [])
  | v => v

/-- Each document of a list in canonical form. -/
def canonicalItems : List Json → List Json
  | [] => []
  | v :: rest => v.canonical :: canonicalItems rest

/-- The members, their values in canonical form, put one after another into a list that is in key
order. -/
def canonicalMembers : List (String × Json) → List (String × Json) → List (String × Json)
  | [], done => done
  | (k, v) :: rest, done => canonicalMembers rest (insertEntry k v.canonical done)

end

/-- The value of the first member with a key. -/
def find? (members : List (String × Json)) (key : String) : Option Json :=
  lookupEntry key members

end Json

end OperatorModes
