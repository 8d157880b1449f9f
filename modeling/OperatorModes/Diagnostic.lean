import OperatorModes.Inference
import OperatorModes.Module

/-!
# Diagnostics

What a user is told about a definition whose declared qualifier is not the inferred one, and the
fault that no user can mend: a definition for which no effect was inferred.
-/

namespace OperatorModes

/-- A complaint with its place and, for complaints made elsewhere, further complaints under it. -/
inductive Diagnostic where
  | mk (location message : String) (children : List Diagnostic)
  deriving Repr

namespace Diagnostic

/-- Where the complaint is about. -/
def location : Diagnostic → String
  | mk location _ _ => location

/-- What the complaint is. -/
def message : Diagnostic → String
  | mk _ message _ => message

/-- The complaints under this one. -/
def children : Diagnostic → List Diagnostic
  | mk _ _ children => children

/-- Place and complaint on one line. -/
def render (d : Diagnostic) : String :=
  d.location ++ ": " ++ d.message

mutual

/-- Whether two complaints are the same, with all that is under them. -/
def same : Diagnostic → Diagnostic → Bool
  | mk l m cs, mk l' m' cs' => l == l' && m == m' && sameAll cs cs'

/-- Whether two lists of complaints are the same one by one. -/
def sameAll : List Diagnostic → List Diagnostic → Bool
  | [], [] => true
  | c :: cs, d :: ds => c.same d && sameAll cs ds
  | _, _ => false

end

mutual

theorem same_iff : ∀ {c d : Diagnostic}, c.same d = true ↔ c = d
  | mk l m cs, mk l' m' cs' => by
    simp [same, sameAll_iff cs cs', and_assoc]

theorem sameAll_iff : ∀ (cs ds : List Diagnostic), sameAll cs ds = true ↔ cs = ds
  | [], [] => by simp [sameAll]
  | [], d :: ds => by simp [sameAll]
  | c :: cs, [] => by simp [sameAll]
  | c :: cs, d :: ds => by
    simp [sameAll, same_iff (c := c) (d := d), sameAll_iff cs ds]

end

instance : DecidableEq Diagnostic := fun _ _ => decidable_of_iff _ same_iff

/-- The complaint about a definition that does more than its qualifier admits. -/
def tooWeak (d : Definition) (inferred : Qualifier) (effect : Effect) : Diagnostic :=
  mk d.location
    ("'" ++ d.name ++ "' is declared as " ++ d.qualifier.keyword ++ " but its effect "
      ++ effect.render ++ " requires " ++ inferred.keyword ++ " (expected: " ++ inferred.name
      ++ ", found: " ++ d.qualifier.name ++ ")")
    []

end Diagnostic

/-- What is suggested for a definition that does less than its qualifier admits. -/
def suggestionMessage (d : Definition) (suggested : Qualifier) : String :=
  "'" ++ d.name ++ "' is declared as " ++ d.qualifier.keyword ++ " but can be declared as "
    ++ suggested.keyword

/-- A definition for which there is no effect: the effects belong to another module. -/
structure MissingEffect where
  id : DefinitionId
  name : String
  deriving DecidableEq, Repr

namespace MissingEffect

/-- What is missing, for a definition with this name and identifier. -/
def detail (e : MissingEffect) : String :=
  "no effect found for definition '" ++ e.name ++ "' (id " ++ toString e.id.toNat ++ ")"

/-- The fault as the checker reports it. -/
def message (e : MissingEffect) : String :=
  "internal error: " ++ e.detail

end MissingEffect

end OperatorModes
