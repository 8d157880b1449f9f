import OperatorModes.NameSet

/-!
# Payloads

The state variables that one component of an effect touches: a set of names, or a union of
payloads that came from several branches or arguments. Only the flattened set, `flatten`,
matters to inference and to messages; a union of sets and the set of the union stay different
payloads all the same.
-/

namespace OperatorModes

/-- The variables a component of an effect touches. -/
inductive Payload where
  | names (vars : NameSet)
  | union (members : List Payload)
  deriving Repr

namespace Payload

/-- The payload that mentions no variable. -/
def empty : Payload := names .empty

instance : Inhabited Payload := ⟨empty⟩

/-- The payload of a list of names. -/
def of (vars : List String) : Payload := names (.ofList vars)

/-- Whether the payload is written as a union. -/
def isUnion : Payload → Bool
  | names _ => false
  | union _ => true

mutual

/-- Adds every variable of the payload to a set. -/
def collectInto : Payload → NameSet → NameSet
  | names vars, out => out.union vars
  | union members, out => collectMembers members out

/-- Adds every variable of the members to a set, member by member. -/
def collectMembers : List Payload → NameSet → NameSet
  | [], out => out
  | p :: rest, out => collectMembers rest (p.collectInto out)

end

/-- The set of all variables in the payload. -/
def flatten (p : Payload) : NameSet :=
  p.collectInto .empty

mutual

/-- Whether a name occurs anywhere in the payload. -/
def contains : Payload → String → Bool
  | names vars, n => vars.contains n
  | union members, n => anyContains members n

/-- Whether a name occurs in one of the members. -/
def anyContains : List Payload → String → Bool
  | [], _ => false
  | p :: rest, n => p.contains n || anyContains rest n

end

mutual

/-- Whether no variable occurs anywhere in the payload. -/
def isEmpty : Payload → Bool
  | names vars => vars.isEmpty
  | union members => allEmpty members

/-- Whether no variable occurs in any of the members. -/
def allEmpty : List Payload → Bool
  | [] => true
  | p :: rest => p.isEmpty && allEmpty rest

end

/-- The variables in increasing order, a comma and a space between each two. -/
def render (p : Payload) : String :=
  String.intercalate ", " p.flatten.toList

mutual

/-- Whether two payloads are the same: sets by their members, unions member by member, and a
union never the same as a set. -/
def same : Payload → Payload → Bool
  | names s, names t => s == t
  | union ps, union qs => sameMembers ps qs
  | _, _ => false

/-- Whether two lists of payloads are the same member by member. -/
def sameMembers : List Payload → List Payload → Bool
  | [], [] => true
  | p :: ps, q :: qs => p.same q && sameMembers ps qs
  | _, _ => false

end

mutual

theorem same_iff : ∀ {p q : Payload}, p.same q = true ↔ p = q
  | names s, names t => by simp [same]
  | names s, union qs => by simp [same]
  | union ps, names t => by simp [same]
  | union ps, union qs => by simp [same, sameMembers_iff ps qs]

theorem sameMembers_iff : ∀ (ps qs : List Payload), sameMembers ps qs = true ↔ ps = qs
  | [], [] => by simp [sameMembers]
  | [], q :: qs => by simp [sameMembers]
  | p :: ps, [] => by simp [sameMembers]
  | p :: ps, q :: qs => by
    simp [sameMembers, same_iff (p := p) (q := q), sameMembers_iff ps qs]

end

instance : DecidableEq Payload := fun _ _ => decidable_of_iff _ same_iff

end Payload

end OperatorModes
