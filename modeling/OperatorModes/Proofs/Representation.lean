import OperatorModes.Proofs.Check
import OperatorModes.Proofs.ClosedForm

/-!
# How payloads are written makes no difference

A payload is a set of names or a union of payloads, and the functions that read one each walk it in
their own way. Two effects are alike when they have the same arrows and their footprints hold, place
by place, the same variables, in whatever unions. A check cannot tell them apart:

> `Alike.inferMode_eq`: they need the same qualifier.
> `Alike.render_eq`: they are written as the same text.

Neither follows the fold. The peak is a function of the leaves, where footprints that are alike are
classified alike, and the closed form of inference needs no more than the peak and the variables that
the results at the root read. Everything further goes by the qualifier and the text alone.
-/

namespace OperatorModes

/-! ## Payloads and footprints -/

/-- The payloads hold the same variables. -/
def Payload.Alike (p q : Payload) : Prop := p.flatten = q.flatten

instance (p q : Payload) : Decidable (p.Alike q) :=
  inferInstanceAs (Decidable (p.flatten = q.flatten))

namespace Payload.Alike

variable {p q : Payload}

theorem symm (h : p.Alike q) : q.Alike p := Eq.symm h

theorem mentions_iff (h : p.Alike q) {n : String} : p.Mentions n ↔ q.Mentions n := by
  rw [← mem_flatten, ← mem_flatten, h]

theorem isEmpty_eq (h : p.Alike q) : p.isEmpty = q.isEmpty := by
  rw [Bool.eq_iff_iff, isEmpty_iff, isEmpty_iff]
  exact forall_congr' fun n => not_congr h.mentions_iff

theorem render_eq (h : p.Alike q) : p.render = q.render := by
  rw [render, render, h]

end Payload.Alike

/-- The footprints hold the same variables in each component. -/
structure Footprint.Alike (f g : Footprint) : Prop where
  reads : f.reads.Alike g.reads
  updates : f.updates.Alike g.updates
  temporal : f.temporal.Alike g.temporal

instance (f g : Footprint) : Decidable (f.Alike g) :=
  decidable_of_iff (f.reads.Alike g.reads ∧ f.updates.Alike g.updates ∧ f.temporal.Alike g.temporal)
    ⟨fun h => ⟨h.1, h.2.1, h.2.2⟩, fun h => ⟨h.reads, h.updates, h.temporal⟩⟩

theorem Footprint.component_eq_of_alike {label : String} {p q : Payload} (h : p.Alike q) :
    component label p = component label q := by
  rw [component, component, h.isEmpty_eq, h.render_eq]

namespace Footprint.Alike

variable {f g : Footprint}

theorem classify_eq (h : f.Alike g) : f.classify = g.classify := by
  rw [classify, classify, isAction, isAction, isTemporal, isTemporal, readsState, readsState,
    h.updates.isEmpty_eq, h.temporal.isEmpty_eq, h.reads.isEmpty_eq]

theorem render_eq (h : f.Alike g) : f.render = g.render := by
  rw [render, render, component_eq_of_alike h.reads, component_eq_of_alike h.updates,
    component_eq_of_alike h.temporal]

end Footprint.Alike

/-! ## Effects of one shape -/

namespace Effect

mutual

/-- The effects have the same arrows, and their footprints are related place by place. -/
def Corresponds (r : Footprint → Footprint → Prop) : Effect → Effect → Prop
  | leaf f, leaf g => r f g
  | arrow ps d, arrow qs e => AllCorrespond r ps qs ∧ d.Corresponds r e
  | _, _ => False

/-- The lists are equally long, and their effects correspond one by one. -/
def AllCorrespond (r : Footprint → Footprint → Prop) : List Effect → List Effect → Prop
  | [], [] => True
  | d :: ds, e :: es => d.Corresponds r e ∧ AllCorrespond r ds es
  | _, _ => False

end

mutual

instance decidableCorresponds (r : Footprint → Footprint → Prop) [DecidableRel r] :
    ∀ d e : Effect, Decidable (d.Corresponds r e)
  | leaf f, leaf g => inferInstanceAs (Decidable (r f g))
  | arrow ps d, arrow qs e =>
    @instDecidableAnd _ _ (decidableAllCorrespond r ps qs) (decidableCorresponds r d e)
  | leaf _, arrow _ _ => .isFalse id
  | arrow _ _, leaf _ => .isFalse id

instance decidableAllCorrespond (r : Footprint → Footprint → Prop) [DecidableRel r] :
    ∀ ds es : List Effect, Decidable (AllCorrespond r ds es)
  | [], [] => .isTrue trivial
  | d :: ds, e :: es =>
    @instDecidableAnd _ _ (decidableCorresponds r d e) (decidableAllCorrespond r ds es)
  | [], _ :: _ => .isFalse id
  | _ :: _, [] => .isFalse id

end

section

variable {r : Footprint → Footprint → Prop}

/-- What relates the reads of footprints that correspond relates those of the innermost results. -/
theorem Corresponds.resultReads {s : Payload → Payload → Prop}
    (hr : ∀ f g, r f g → s f.reads g.reads) :
    ∀ {d e : Effect}, d.Corresponds r e → s d.resultReads e.resultReads
  | leaf f, leaf g, h => hr f g h
  | arrow _ _, arrow _ _, h => by
    rw [Effect.resultReads, Effect.resultReads]
    exact Corresponds.resultReads hr h.2
  | leaf _, arrow _ _, h => h.elim
  | arrow _ _, leaf _, h => h.elim

mutual

theorem Corresponds.forall₂_leaves :
    ∀ {d e : Effect}, d.Corresponds r e → List.Forall₂ r d.leaves e.leaves
  | leaf _, leaf _, h => .cons h .nil
  | arrow _ _, arrow _ _, h => by
    rw [leaves, leaves]
    exact List.rel_append (AllCorrespond.forall₂_leaves h.1) h.2.forall₂_leaves
  | leaf _, arrow _ _, h => h.elim
  | arrow _ _, leaf _, h => h.elim

theorem AllCorrespond.forall₂_leaves :
    ∀ {ds es : List Effect}, AllCorrespond r ds es →
      List.Forall₂ r (leavesOfAll ds) (leavesOfAll es)
  | [], [], _ => .nil
  | _ :: _, _ :: _, h => by
    rw [leavesOfAll, leavesOfAll]
    exact List.rel_append h.1.forall₂_leaves (AllCorrespond.forall₂_leaves h.2)
  | [], _ :: _, h => h.elim
  | _ :: _, [], h => h.elim

end

mutual

theorem Corresponds.imp {s : Footprint → Footprint → Prop} (hrs : ∀ f g, r f g → s f g) :
    ∀ {d e : Effect}, d.Corresponds r e → d.Corresponds s e
  | leaf f, leaf g, h => hrs f g h
  | arrow _ _, arrow _ _, h => ⟨AllCorrespond.imp hrs h.1, Corresponds.imp hrs h.2⟩
  | leaf _, arrow _ _, h => h.elim
  | arrow _ _, leaf _, h => h.elim

theorem AllCorrespond.imp {s : Footprint → Footprint → Prop} (hrs : ∀ f g, r f g → s f g) :
    ∀ {ds es : List Effect}, AllCorrespond r ds es → AllCorrespond s ds es
  | [], [], _ => trivial
  | _ :: _, _ :: _, h => ⟨Corresponds.imp hrs h.1, AllCorrespond.imp hrs h.2⟩
  | [], _ :: _, h => h.elim
  | _ :: _, [], h => h.elim

end

end

/-- The effects have the same arrows, and their footprints hold the same variables. -/
abbrev Alike : Effect → Effect → Prop := Corresponds Footprint.Alike

/-- The lists are equally long, and their effects are alike one by one. -/
abbrev AllAlike : List Effect → List Effect → Prop := AllCorrespond Footprint.Alike

/-! ## The qualifier -/

theorem Alike.peak_eq {d e : Effect} (h : d.Alike e) : d.peak = e.peak := by
  have hclassify : List.Forall₂ (· = ·) (d.leaves.map Footprint.classify)
      (e.leaves.map Footprint.classify) := by
    rw [List.forall₂_map_left_iff, List.forall₂_map_right_iff]
    exact h.forall₂_leaves.imp fun f g hfg => hfg.classify_eq
  rw [List.forall₂_eq_eq_eq] at hclassify
  rw [peak, peak, hclassify]

theorem Alike.resultReads {d e : Effect} (h : d.Alike e) : d.resultReads.Alike e.resultReads :=
  Corresponds.resultReads (fun _ _ hfg => hfg.reads) h

/-- What no parameter gives access to is the same of parameters that are alike. -/
theorem AllAlike.forall_not_mem_iff {n : String} :
    ∀ {ps qs : List Effect}, AllAlike ps qs →
      ((∀ p ∈ ps, n ∉ p.resultReads.flatten) ↔ ∀ q ∈ qs, n ∉ q.resultReads.flatten)
  | [], [], _ => Iff.rfl
  | p :: ps, q :: qs, h => by
    have hhead : p.resultReads.flatten = q.resultReads.flatten := Alike.resultReads h.1
    rw [List.forall_mem_cons, List.forall_mem_cons, hhead, AllAlike.forall_not_mem_iff h.2]
  | [], _ :: _, h => h.elim
  | _ :: _, [], h => h.elim

theorem Alike.ownMode_eq : ∀ {d e : Effect}, d.Alike e → d.ownMode = e.ownMode
  | leaf _, leaf _, h => h.classify_eq
  | arrow ps d, arrow qs e, h => by
    have hreads : d.resultReads.flatten = e.resultReads.flatten := Alike.resultReads h.2
    have hreach : ReachesOut ps d ↔ ReachesOut qs e := by
      unfold ReachesOut
      rw [hreads]
      simp only [AllAlike.forall_not_mem_iff h.1]
    rw [ownMode, ownMode]
    simp only [hreach]
  | leaf _, arrow _ _, h => h.elim
  | arrow _ _, leaf _, h => h.elim

theorem Alike.inferMode_eq {d e : Effect} (h : d.Alike e) : d.inferMode = e.inferMode :=
  inferMode_eq_of_peak_eq h.peak_eq fun _ => h.ownMode_eq

/-! ## The text -/

mutual

theorem Alike.render_eq : ∀ {d e : Effect}, d.Alike e → d.render = e.render
  | leaf _, leaf _, h => by
    rw [render, render, Footprint.Alike.render_eq h]
  | arrow _ _, arrow _ _, h => by
    rw [render, render, AllAlike.renderParams_eq h.1, Alike.render_eq h.2]
  | leaf _, arrow _ _, h => h.elim
  | arrow _ _, leaf _, h => h.elim

theorem AllAlike.renderParams_eq :
    ∀ {ps qs : List Effect}, AllAlike ps qs → renderParams ps = renderParams qs
  | [], [], _ => rfl
  | [p], [q], h => by
    rw [renderParams, renderParams, Alike.render_eq h.1]
  | p :: p' :: ps, q :: q' :: qs, h => by
    show p.render ++ ", " ++ renderParams (p' :: ps) = q.render ++ ", " ++ renderParams (q' :: qs)
    rw [Alike.render_eq h.1, AllAlike.renderParams_eq h.2]
  | [], _ :: _, h => h.elim
  | _ :: _, [], h => h.elim
  | [_], _ :: _ :: _, h => h.2.elim
  | _ :: _ :: _, [_], h => h.2.elim

end

end Effect

/-! ## Checks -/

/-- At every identifier both maps hold effects that are alike, or neither holds one. -/
def EffectMap.Alike (effects effects' : EffectMap) : Prop :=
  ∀ id, Option.Rel Effect.Alike (effects.find? id) (effects'.find? id)

theorem Definition.judge_eq_of_alike (d : Definition) {e e' : Effect} (h : e.Alike e') :
    d.judge e = d.judge e' := by
  rw [judge, judge, Diagnostic.tooWeak, Diagnostic.tooWeak, h.inferMode_eq, h.render_eq]

theorem checkDefinition_eq_of_alike {effects effects' : EffectMap} (h : effects.Alike effects')
    (d : Definition) : checkDefinition d effects = checkDefinition d effects' := by
  rw [checkDefinition, checkDefinition]
  have hfound := h d.id
  generalize effects.find? d.id = found at hfound ⊢
  generalize effects'.find? d.id = found' at hfound ⊢
  cases hfound with
  | none => rfl
  | some halike => exact congrArg Except.ok (d.judge_eq_of_alike halike)

/-- **The representation of payloads makes no difference.** Effects with the same arrows whose
footprints hold the same variables need the same qualifier and are written as the same text. Checked
against maps that hold such effects at the same identifiers, every definition has the same outcome,
to the text of its diagnostic, and every module the same result. -/
theorem representation_irrelevant :
    (∀ d e : Effect, d.Alike e → d.inferMode = e.inferMode ∧ d.render = e.render) ∧
    ∀ effects effects' : EffectMap, effects.Alike effects' →
      (∀ d, checkDefinition d effects = checkDefinition d effects') ∧
      ∀ m, checkModes m effects = checkModes m effects' := by
  refine ⟨fun d e h => ⟨h.inferMode_eq, h.render_eq⟩, fun effects effects' h => ⟨?_, fun m => ?_⟩⟩
  · exact checkDefinition_eq_of_alike h
  · exact checkModes_congr fun d _ => checkDefinition_eq_of_alike h d

/-- Unions in another order, with repetitions and empty members, against one set each. -/
theorem representation_irrelevant_nested :
    let nested : Effect :=
      .arrow [.leaf (.reading (.union [.empty, .of ["y"], .union []]))]
        (.leaf (.updating (.union [.of ["y"], .union [.of ["x"], .empty], .of ["y"]])
          (.union [.of ["x"], .of ["x"]])))
    let flat : Effect :=
      .arrow [.leaf (.reading (.of ["y"]))] (.leaf (.updating (.of ["x", "y"]) (.of ["x"])))
    let effects : EffectMap := .ofList [(1, nested)]
    let effects' : EffectMap := .ofList [(1, flat)]
    nested ≠ flat ∧ nested.Alike flat ∧ nested.inferMode = flat.inferMode ∧
      nested.render = "(Read[y]) => Read[x, y] & Update[x]" ∧ nested.render = flat.render ∧
      effects.Alike effects' ∧ (∀ d, checkDefinition d effects = checkDefinition d effects') ∧
      ∀ m, checkModes m effects = checkModes m effects' := by
  intro nested flat effects effects'
  obtain ⟨heffects, hmaps⟩ := representation_irrelevant
  have halike : nested.Alike flat := by decide
  obtain ⟨hmode, htext⟩ := heffects nested flat halike
  have hmap : effects.Alike effects' := by
    intro id
    have hone : ∀ e : Effect,
        (SortedMap.ofList [((1 : DefinitionId), e)]).find? id = if id = 1 then some e else none :=
      SortedMap.find?_insert .empty 1 id
    rw [hone nested, hone flat]
    split
    · exact .some halike
    · exact .none
  obtain ⟨hdefinition, hmodule⟩ := hmaps effects effects' hmap
  exact ⟨by decide, halike, hmode, htext.trans rfl, htext, hmap, hdefinition, hmodule⟩

end OperatorModes
