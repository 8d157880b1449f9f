import OperatorModes.Payload

/-!
# Effects

What the body of an operator does to the state, as inferred before any qualifier is checked. An
effect has the shape of its operator: a footprint for a construct without parameters, an arrow for
one with parameters, whose result may be an arrow again.
-/

namespace OperatorModes

/-- What a construct without parameters reads, updates and uses under temporal operators. -/
structure Footprint where
  reads : Payload := .empty
  updates : Payload := .empty
  temporal : Payload := .empty
  deriving DecidableEq, Repr

namespace Footprint

/-- The footprint that touches nothing. -/
def pure : Footprint := {}

/-- The footprint that only reads. -/
def reading (reads : Payload) : Footprint := { reads }

/-- The footprint that reads and updates. -/
def updating (reads updates : Payload) : Footprint := { reads, updates }

/-- The footprint of a temporal formula. -/
def timed (temporal : Payload) : Footprint := { temporal }

/-- Whether some variable is updated. -/
def isAction (f : Footprint) : Bool := !f.updates.isEmpty

/-- Whether some variable stands under a temporal operator. -/
def isTemporal (f : Footprint) : Bool := !f.temporal.isEmpty

/-- Whether some variable is read. -/
def readsState (f : Footprint) : Bool := !f.reads.isEmpty

/-- One component with its label, or nothing when no variable occurs in it. -/
def component (label : String) (p : Payload) : List String :=
  if p.isEmpty then [] else [label ++ "[" ++ p.render ++ "]"]

/-- The components that mention a variable, joined by `&`; `Pure` when there is none. -/
def render (f : Footprint) : String :=
  match component "Read" f.reads ++ component "Update" f.updates
      ++ component "Temporal" f.temporal with
  | [] => "Pure"
  | parts => String.intercalate " & " parts

end Footprint

/-- The effect of an operator. -/
inductive Effect where
  | leaf (footprint : Footprint)
  | arrow (params : List Effect) (result : Effect)
  deriving Repr

namespace Effect

instance : Inhabited Effect := ⟨leaf .pure⟩

/-- What the value that the operator finally yields reads: the reads of the innermost result. -/
def resultReads : Effect → Payload
  | leaf f => f.reads
  | arrow _ result => result.resultReads

mutual

/-- The footprints of the effect in text order, through parameters and results at every depth. -/
def leaves : Effect → List Footprint
  | leaf f => [f]
  | arrow params result => leavesOfAll params ++ result.leaves

/-- The footprints of a list of effects, in order. -/
def leavesOfAll : List Effect → List Footprint
  | [] => []
  | e :: rest => e.leaves ++ leavesOfAll rest

end

mutual

/-- The effect as text: parameters in parentheses in front of `=>`. -/
def render : Effect → String
  | leaf f => f.render
  | arrow params result => "(" ++ renderParams params ++ ") => " ++ result.render

/-- The parameters, a comma and a space between each two. -/
def renderParams : List Effect → String
  | [] => ""
  | [e] => e.render
  | e :: rest => e.render ++ ", " ++ renderParams rest

end

mutual

/-- Whether two effects are the same, payload by payload. -/
def same : Effect → Effect → Bool
  | leaf f, leaf g => f == g
  | arrow ps r, arrow qs t => sameAll ps qs && r.same t
  | _, _ => false

/-- Whether two lists of effects are the same member by member. -/
def sameAll : List Effect → List Effect → Bool
  | [], [] => true
  | d :: ds, e :: es => d.same e && sameAll ds es
  | _, _ => false

end

mutual

theorem same_iff : ∀ {d e : Effect}, d.same e = true ↔ d = e
  | leaf f, leaf g => by simp [same]
  | leaf f, arrow qs t => by simp [same]
  | arrow ps r, leaf g => by simp [same]
  | arrow ps r, arrow qs t => by
    simp [same, sameAll_iff ps qs, same_iff (d := r) (e := t)]

theorem sameAll_iff : ∀ (ds es : List Effect), sameAll ds es = true ↔ ds = es
  | [], [] => by simp [sameAll]
  | [], e :: es => by simp [sameAll]
  | d :: ds, [] => by simp [sameAll]
  | d :: ds, e :: es => by
    simp [sameAll, same_iff (d := d) (e := e), sameAll_iff ds es]

end

instance : DecidableEq Effect := fun _ _ => decidable_of_iff _ same_iff

end Effect

end OperatorModes
