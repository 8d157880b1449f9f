import OperatorModes.Inference
import OperatorModes.Proofs.Payload
import OperatorModes.Proofs.Qualifier

/-!
# What each qualifier admits

Inference threads one qualifier from leaf to leaf, and every arrow may throw it away and decide anew,
so the fold is not the join of what it meets. It still bounds what it meets from above by any
qualifier that no arrow can exceed on its own:

> `fold_le_iff`: for a bound of at least `defn`, the fold is within the bound exactly when the
> qualifier it started from and every leaf are.

An arrow can only move the qualifier within `pureDef … defn`, which is below each such bound; that is
the whole invariant. Updates and temporal operators are therefore never lost, however deep they
stand, and below `action` only the root decides. `Qualifier.Admits` says what that comes to, by the
leaves and the reads of the root alone, and the payoff is that inference computes the least
qualifier that admits an effect:

> `inferMode_le_iff`: `e.inferMode ≤ q` exactly when `q` admits `e`.
-/

namespace OperatorModes

/-! ## Classifying one footprint -/

/-- No name is mentioned. -/
def Payload.Vacant (p : Payload) : Prop := ∀ n, ¬ p.Mentions n

theorem Payload.vacant_iff {p : Payload} : p.Vacant ↔ p.isEmpty = true := isEmpty_iff.symm

namespace Footprint

variable {f : Footprint}

theorem classify_le_action_iff :
    f.classify ≤ .action ↔ ¬ (¬ f.temporal.Vacant ∧ f.updates.Vacant) := by
  rw [Payload.vacant_iff, Payload.vacant_iff]
  unfold classify isAction isTemporal readsState
  cases f.updates.isEmpty <;> cases f.temporal.isEmpty <;> cases f.reads.isEmpty <;> decide

theorem classify_le_defn_iff :
    f.classify ≤ .defn ↔ f.updates.Vacant ∧ f.temporal.Vacant := by
  rw [Payload.vacant_iff, Payload.vacant_iff]
  unfold classify isAction isTemporal readsState
  cases f.updates.isEmpty <;> cases f.temporal.isEmpty <;> cases f.reads.isEmpty <;> decide

/-- A footprint by itself never needs more than `val` short of `action`. -/
theorem classify_le_val_iff : f.classify ≤ .val ↔ f.classify ≤ .defn := by
  unfold classify
  cases f.isAction <;> cases f.isTemporal <;> cases f.readsState <;> decide

/-- Nor does it need parameters. -/
theorem classify_le_pureDef_iff : f.classify ≤ .pureDef ↔ f.classify ≤ .pureVal := by
  unfold classify
  cases f.isAction <;> cases f.isTemporal <;> cases f.readsState <;> decide

theorem classify_le_pureVal_iff :
    f.classify ≤ .pureVal ↔ f.reads.Vacant ∧ f.updates.Vacant ∧ f.temporal.Vacant := by
  rw [Payload.vacant_iff, Payload.vacant_iff, Payload.vacant_iff]
  unfold classify isAction isTemporal readsState
  cases f.updates.isEmpty <;> cases f.temporal.isEmpty <;> cases f.reads.isEmpty <;> decide

end Footprint

namespace Effect

/-! ## What parameters give access to -/

theorem mem_collectReads {n : String} :
    ∀ (params : List Effect) (out : NameSet),
      n ∈ collectReads params out ↔ n ∈ out ∨ ∃ p ∈ params, p.resultReads.Mentions n
  | [], out => by simp [collectReads]
  | p :: rest, out => by
    rw [collectReads, mem_collectReads rest, Payload.mem_collectInto, or_assoc]
    simp only [List.mem_cons, exists_eq_or_imp]

/-- Parameters give access to what their results read. -/
theorem mem_parameterReads {n : String} {params : List Effect} :
    n ∈ parameterReads params ↔ ∃ p ∈ params, p.resultReads.Mentions n := by
  rw [parameterReads, mem_collectReads, NameSet.mem_empty, false_or]

theorem readsOutside_iff {reads : Payload} {reachable : NameSet} :
    readsOutside reads reachable = true ↔ ∃ n, reads.Mentions n ∧ n ∉ reachable := by
  unfold readsOutside
  rw [List.any_eq_true]
  simp only [← NameSet.mem_def, Payload.mem_flatten, Bool.not_eq_true', ← Bool.not_eq_true,
    NameSet.contains_iff]

/-- Every variable that the result of an arrow reads is read by the result of one of its parameters.
A footprint has no parameters and is not asked for any. -/
def SelfContained : Effect → Prop
  | leaf _ => True
  | arrow params result =>
    ∀ n, result.resultReads.Mentions n → ∃ p ∈ params, p.resultReads.Mentions n

theorem readsOutside_eq_false_iff {params : List Effect} {result : Effect} :
    readsOutside result.resultReads (parameterReads params) = false ↔
      (arrow params result).SelfContained := by
  rw [← Bool.not_eq_true, readsOutside_iff]
  constructor
  · intro h n hn
    refine Classical.byContradiction fun hno => h ⟨n, hn, fun hmem => hno ?_⟩
    exact mem_parameterReads.mp hmem
  · intro h houtside
    obtain ⟨n, hn, hout⟩ := houtside
    exact hout (mem_parameterReads.mpr (h n hn))

/-! ## One arrow -/

/-- An arrow lets `action` and `temporal` stand. -/
theorem reduceArrow_of_action_le {params : List Effect} {result : Effect} {parts : Qualifier}
    (h : .action ≤ parts) : reduceArrow params result parts = parts := by
  cases parts with
  | action => rfl
  | temporal => rfl
  | _ => exact absurd h (by decide)

/-- Below `action` an arrow decides by its own reads, whatever its parts came to. -/
theorem reduceArrow_of_le_defn {params : List Effect} {result : Effect} {parts : Qualifier}
    (h : parts ≤ .defn) :
    reduceArrow params result parts =
      if readsOutside result.resultReads (parameterReads params) then .defn else .pureDef := by
  cases parts with
  | action => exact absurd h (by decide)
  | temporal => exact absurd h (by decide)
  | _ => rfl

/-- An arrow stays within any bound of at least `defn` exactly when its parts do. -/
theorem reduceArrow_le_iff {params : List Effect} {result : Effect} {parts bound : Qualifier}
    (hb : .defn ≤ bound) : reduceArrow params result parts ≤ bound ↔ parts ≤ bound := by
  by_cases hp : parts ≤ .defn
  · have hr : reduceArrow params result parts ≤ .defn := by
      rw [reduceArrow_of_le_defn hp]
      split <;> decide
    exact iff_of_true (Qualifier.le_trans hr hb) (Qualifier.le_trans hp hb)
  · rw [reduceArrow_of_action_le (Qualifier.not_le_defn.mp hp)]

/-! ## The whole fold -/

mutual

/-- The fold is within a bound of at least `defn` exactly when the qualifier it started from and
every leaf are. -/
theorem fold_le_iff {bound : Qualifier} (hb : .defn ≤ bound) :
    ∀ (e : Effect) (before : Qualifier),
      e.fold before ≤ bound ↔ before ≤ bound ∧ ∀ f ∈ e.leaves, f.classify ≤ bound
  | leaf f, before => by
    rw [fold, Qualifier.join_le_iff, leaves]
    simp only [List.mem_singleton, forall_eq]
  | arrow params result, before => by
    rw [fold, reduceArrow_le_iff hb, fold_le_iff hb result, foldAll_le_iff hb params, leaves,
      and_assoc]
    simp only [List.mem_append, or_imp, forall_and]

theorem foldAll_le_iff {bound : Qualifier} (hb : .defn ≤ bound) :
    ∀ (es : List Effect) (before : Qualifier),
      foldAll es before ≤ bound ↔ before ≤ bound ∧ ∀ f ∈ leavesOfAll es, f.classify ≤ bound
  | [], before => by simp [foldAll, leavesOfAll]
  | e :: rest, before => by
    rw [foldAll, foldAll_le_iff hb rest, fold_le_iff hb e, leavesOfAll, and_assoc]
    simp only [List.mem_append, or_imp, forall_and]

end

theorem inferMode_le_iff_leaves {e : Effect} {bound : Qualifier} (hb : .defn ≤ bound) :
    e.inferMode ≤ bound ↔ ∀ f ∈ e.leaves, f.classify ≤ bound := by
  rw [inferMode, fold_le_iff hb]
  exact and_iff_right (Qualifier.pureVal_le bound)

theorem inferMode_leaf (f : Footprint) : (leaf f).inferMode = f.classify :=
  Qualifier.pureVal_join f.classify

/-- Below `action` the root arrow decides between `pureDef` and `defn` by its own reads. -/
theorem inferMode_arrow_of_le_defn {params : List Effect} {result : Effect}
    (h : (arrow params result).inferMode ≤ .defn) :
    (arrow params result).inferMode =
      if readsOutside result.resultReads (parameterReads params) then .defn else .pureDef := by
  rw [inferMode, fold] at h ⊢
  exact reduceArrow_of_le_defn ((reduceArrow_le_iff (Qualifier.le_refl _)).mp h)

/-- No variable is updated and none stands under a temporal operator, at any depth. -/
def Still (e : Effect) : Prop := ∀ f ∈ e.leaves, f.updates.Vacant ∧ f.temporal.Vacant

theorem inferMode_le_defn_iff {e : Effect} : e.inferMode ≤ .defn ↔ e.Still := by
  rw [inferMode_le_iff_leaves (Qualifier.le_refl _)]
  unfold Still
  simp only [Footprint.classify_le_defn_iff]

/-- An arrow needs less than `defn` exactly when it is still and reads what its parameters read; it
then needs `pureDef`. -/
theorem inferMode_arrow_le_iff {params : List Effect} {result : Effect} {bound : Qualifier}
    (hlo : .pureDef ≤ bound) (hhi : bound < .defn) :
    (arrow params result).inferMode ≤ bound ↔
      (arrow params result).Still ∧ (arrow params result).SelfContained := by
  rw [← inferMode_le_defn_iff, ← readsOutside_eq_false_iff]
  constructor
  · intro h
    have hdef : (arrow params result).inferMode ≤ .defn :=
      Qualifier.le_trans h (Nat.le_of_lt hhi)
    refine ⟨hdef, ?_⟩
    -- The arrow decides by its own reads; a read from outside would have made it `defn`.
    rw [inferMode_arrow_of_le_defn hdef] at h
    split at h
    · exact absurd h (Qualifier.not_le.mpr hhi)
    · next hout => exact Bool.eq_false_iff.mpr hout
  · intro hboth
    obtain ⟨hdef, hout⟩ := hboth
    rw [inferMode_arrow_of_le_defn hdef, hout]
    exact hlo

/-- An arrow is never without parameters. -/
theorem not_inferMode_arrow_le_pureVal {params : List Effect} {result : Effect} :
    ¬ (arrow params result).inferMode ≤ .pureVal := by
  intro h
  have hdef : (arrow params result).inferMode ≤ .defn := Qualifier.le_trans h (by decide)
  rw [inferMode_arrow_of_le_defn hdef] at h
  split at h
  · exact absurd h (by decide)
  · exact absurd h (by decide)

end Effect

/-! ## Admission -/

/-- What a qualifier admits. `temporal` admits everything; `action` no temporal operator without an
update beside it; `defn` neither of the two; `val` moreover no result that reads what no parameter
reads; `pureDef` moreover no state in an operator without parameters; and `pureVal` only a footprint
that touches nothing. -/
def Qualifier.Admits : Qualifier → Effect → Prop
  | temporal, _ => True
  | action, e => ∀ f ∈ e.leaves, ¬ (¬ f.temporal.Vacant ∧ f.updates.Vacant)
  | defn, e => e.Still
  | val, e => e.Still ∧ e.SelfContained
  | pureDef, e => e.Still ∧ e.SelfContained ∧ ∀ f, e = .leaf f → f.reads.Vacant
  | pureVal, e =>
    ∃ f, e = .leaf f ∧ f.reads.Vacant ∧ f.updates.Vacant ∧ f.temporal.Vacant

namespace Effect

theorem still_leaf {f : Footprint} :
    (leaf f).Still ↔ f.updates.Vacant ∧ f.temporal.Vacant := by
  unfold Still leaves
  simp only [List.mem_singleton, forall_eq]

theorem inferMode_leaf_le_iff {f : Footprint} (q : Qualifier) :
    (leaf f).inferMode ≤ q ↔ q.Admits (leaf f) := by
  rw [inferMode_leaf]
  cases q with
  | pureVal =>
    rw [Footprint.classify_le_pureVal_iff]
    simp [Qualifier.Admits]
  | pureDef =>
    rw [Footprint.classify_le_pureDef_iff, Footprint.classify_le_pureVal_iff]
    simp only [Qualifier.Admits, still_leaf, SelfContained, leaf.injEq, forall_eq', true_and]
    exact and_comm
  | val =>
    rw [Footprint.classify_le_val_iff, Footprint.classify_le_defn_iff]
    simp only [Qualifier.Admits, still_leaf, SelfContained, and_true]
  | defn => exact Footprint.classify_le_defn_iff.trans still_leaf.symm
  | action =>
    rw [Footprint.classify_le_action_iff]
    simp only [Qualifier.Admits, leaves, List.mem_singleton, forall_eq]
  | temporal => exact iff_of_true (Qualifier.le_temporal _) trivial

theorem inferMode_arrow_admits_iff {params : List Effect} {result : Effect} (q : Qualifier) :
    (arrow params result).inferMode ≤ q ↔ q.Admits (arrow params result) := by
  cases q with
  | pureVal =>
    refine iff_of_false not_inferMode_arrow_le_pureVal ?_
    intro hleaf
    obtain ⟨f, hf, -⟩ := hleaf
    cases hf
  | pureDef =>
    rw [inferMode_arrow_le_iff (Qualifier.le_refl _) (by decide)]
    simp [Qualifier.Admits]
  | val => exact inferMode_arrow_le_iff (by decide) (by decide)
  | defn => exact inferMode_le_defn_iff
  | action =>
    rw [inferMode_le_iff_leaves (by decide)]
    simp only [Footprint.classify_le_action_iff, Qualifier.Admits]
  | temporal => exact iff_of_true (Qualifier.le_temporal _) trivial

/-- **Inference is least.** The inferred qualifier is within `q` exactly when `q` admits the effect,
so it is the weakest qualifier that does. -/
theorem inferMode_le_iff {e : Effect} {q : Qualifier} : e.inferMode ≤ q ↔ q.Admits e := by
  -- Only the root is looked at here: what lies below it is settled by `fold_le_iff`.
  cases e with
  | leaf f => exact inferMode_leaf_le_iff q
  | arrow params result => exact inferMode_arrow_admits_iff q

end Effect

end OperatorModes
