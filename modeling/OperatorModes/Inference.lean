import OperatorModes.Effect
import OperatorModes.Qualifier

/-!
# Inference

The qualifier an effect needs, by one pass from the leaves to the root. A footprint is classified
by what it touches. An arrow takes what its parameters and its result came to; if that is `action`
or `temporal` it stands, and otherwise the arrow decides anew: `pureDef` when every variable that
the result reads is read by some parameter, `defn` when one is not.
-/

namespace OperatorModes

/-- The qualifier of one footprint; an update outranks a temporal operator. -/
def Footprint.classify (f : Footprint) : Qualifier :=
  if f.isAction then .action
  else if f.isTemporal then .temporal
  else if f.readsState then .val
  else .pureVal

namespace Effect

/-- Adds the variables that the results of the parameters read to a set. -/
def collectReads : List Effect → NameSet → NameSet
  | [], out => out
  | p :: rest, out => collectReads rest (p.resultReads.collectInto out)

/-- Every variable that some parameter gives access to. -/
def parameterReads (params : List Effect) : NameSet :=
  collectReads params .empty

/-- Whether a payload mentions a variable outside a set. -/
def readsOutside (reads : Payload) (reachable : NameSet) : Bool :=
  reads.flatten.toList.any fun n => !reachable.contains n

/-- What an arrow makes of the qualifier its parts came to. -/
def reduceArrow (params : List Effect) (result : Effect) (parts : Qualifier) : Qualifier :=
  match parts with
  | .action => .action
  | .temporal => .temporal
  | _ => if readsOutside result.resultReads (parameterReads params) then .defn else .pureDef

mutual

/-- Joins an effect to the qualifier that the effects before it came to. -/
def fold : Effect → Qualifier → Qualifier
  | leaf f, before => before.join f.classify
  | arrow params result, before =>
    reduceArrow params result (result.fold (foldAll params before))

/-- Joins a list of effects, from left to right. -/
def foldAll : List Effect → Qualifier → Qualifier
  | [], before => before
  | e :: rest, before => foldAll rest (e.fold before)

end

/-- The weakest qualifier that admits the effect. -/
def inferMode (e : Effect) : Qualifier :=
  e.fold .pureVal

end Effect

end OperatorModes
