import OperatorModes.Text.Blank

/-!
# Qualifiers

The six qualifiers an operator may be declared with, in one chain from the weakest to the
strongest:

    pure val < pure def < val < def < action < temporal

`join` is the maximum of the chain. A qualifier has a lattice name, used in diagnostics and
documents, and a keyword, used in source text; `parse` takes either, with any white space between
the words.
-/

namespace OperatorModes

/-- What an operator definition is declared as, or is inferred to need. -/
inductive Qualifier where
  /-- No parameters and no state. -/
  | pureVal
  /-- Parameters, and no state but what the parameters give access to. -/
  | pureDef
  /-- No parameters; may read the state. -/
  | val
  /-- Parameters; may read state that no parameter gives access to. -/
  | defn
  /-- Updates a state variable. -/
  | action
  /-- Built with temporal operators. -/
  | temporal
  deriving DecidableEq, Repr

namespace Qualifier

/-- The chain, weakest first. -/
def all : List Qualifier :=
  [pureVal, pureDef, val, defn, action, temporal]

/-- The place in the chain, from 0 for the weakest. -/
def rank : Qualifier → Nat
  | pureVal => 0
  | pureDef => 1
  | val => 2
  | defn => 3
  | action => 4
  | temporal => 5

theorem rank_inj {a b : Qualifier} : a.rank = b.rank ↔ a = b := by
  cases a <;> cases b <;> decide

instance : LE Qualifier := ⟨fun a b => a.rank ≤ b.rank⟩
instance : LT Qualifier := ⟨fun a b => a.rank < b.rank⟩
instance (a b : Qualifier) : Decidable (a ≤ b) := inferInstanceAs (Decidable (a.rank ≤ b.rank))
instance (a b : Qualifier) : Decidable (a < b) := inferInstanceAs (Decidable (a.rank < b.rank))

theorem le_iff_rank {a b : Qualifier} : a ≤ b ↔ a.rank ≤ b.rank := Iff.rfl
theorem lt_iff_rank {a b : Qualifier} : a < b ↔ a.rank < b.rank := Iff.rfl

/-- The stronger of two qualifiers. -/
def join (a b : Qualifier) : Qualifier :=
  if b.rank ≤ a.rank then a else b

theorem rank_join (a b : Qualifier) : (a.join b).rank = max a.rank b.rank := by
  cases a <;> cases b <;> rfl

/-- The name in diagnostics and documents. -/
def name : Qualifier → String
  | pureVal => "staticval"
  | pureDef => "staticdef"
  | val => "val"
  | defn => "def"
  | action => "action"
  | temporal => "temporal"

/-- The keyword in source text. -/
def keyword : Qualifier → String
  | pureVal => "pure val"
  | pureDef => "pure def"
  | val => "val"
  | defn => "def"
  | action => "action"
  | temporal => "temporal"

/-- Reads a lattice name or a keyword; only the sequence of words matters. -/
def parse? (s : String) : Option Qualifier :=
  let spelled := Text.collapse s
  all.find? fun q => q.name == spelled || q.keyword == spelled

/-- The text of the complaint about a name that is none of a qualifier's. -/
def unknownMessage (s : String) : String :=
  "unknown qualifier '" ++ s ++ "'"

end Qualifier

/-- A text that was to name a qualifier and does not. -/
structure UnknownQualifier where
  /-- The text as it was given. -/
  given : String
  deriving DecidableEq, Repr

/-- The fault as a message. -/
def UnknownQualifier.message (e : UnknownQualifier) : String :=
  Qualifier.unknownMessage e.given

/-- Reads a lattice name or a keyword, or returns what was given in their place. -/
def Qualifier.parse (s : String) : Except UnknownQualifier Qualifier :=
  match parse? s with
  | some q => .ok q
  | none => .error { given := s }

end OperatorModes
