import OperatorModes.Proofs.Inference

/-!
# Inference in closed form

Inference carries one qualifier through an effect from left to right, into every arrow and out of it,
and an arrow may leave less than it was given. What comes of that can be said without a walk. The peak
of an effect is the strongest qualifier of any of its footprints. If that is `action` or `temporal`,
no arrow can lower it; if it is not, whatever was carried is thrown away at the root, and the root
decides by its own reads (`ownMode`):

> `fold_eq_of_action_le`: from `action` on, the fold joins what it started from and the peak
> `fold_arrow_of_le_defn`: below, an arrow comes to the same wherever it starts from

Both follow from the bounds of the fold (`fold_le_iff`) without another induction.
-/

namespace OperatorModes

/-! ## The strongest of many -/

namespace Qualifier

/-- The strongest of a list of qualifiers; the weakest there is, if the list is empty. -/
def strongest (qs : List Qualifier) : Qualifier :=
  qs.foldr join .pureVal

/-- It is the least upper bound of the list. -/
theorem strongest_le_iff {bound : Qualifier} :
    ∀ {qs : List Qualifier}, strongest qs ≤ bound ↔ ∀ q ∈ qs, q ≤ bound
  | [] => iff_of_true (pureVal_le bound) (List.forall_mem_nil _)
  | q :: qs => by
    have hcons : strongest (q :: qs) = q.join (strongest qs) := rfl
    rw [hcons, join_le_iff, strongest_le_iff, List.forall_mem_cons]

theorem action_le_iff {q : Qualifier} : action ≤ q ↔ q = action ∨ q = temporal := by
  cases q <;> decide

theorem join_eq_right_of_le {a b : Qualifier} (h : a ≤ b) : a.join b = b := by
  rw [← rank_inj, rank_join]
  exact Nat.max_eq_right h

/-- From `action` on, a qualifier is known by the bounds that no arrow can exceed on its own. -/
theorem eq_of_forall_le_iff {a b : Qualifier} (h : ∀ bound, .defn ≤ bound → (a ≤ bound ↔ b ≤ bound))
    (hb : .action ≤ b) : a = b := by
  have hdefn : ∀ {q : Qualifier}, .action ≤ q → .defn ≤ q := fun hq => le_trans (by decide) hq
  -- The one is not within `defn`, or the other would be.
  have ha : .action ≤ a := not_le_defn.mp fun hle =>
    not_le_defn.mpr hb ((h .defn (le_refl _)).mp hle)
  apply le_antisymm
  · exact (h b (hdefn hb)).mpr (le_refl _)
  · exact (h a (hdefn ha)).mp (le_refl _)

end Qualifier

namespace Effect

/-- The strongest qualifier of any footprint in the effect, through parameters and results at every
depth. -/
def peak (e : Effect) : Qualifier :=
  .strongest (e.leaves.map Footprint.classify)

theorem peak_le_iff {e : Effect} {bound : Qualifier} :
    e.peak ≤ bound ↔ ∀ f ∈ e.leaves, f.classify ≤ bound := by
  rw [peak, Qualifier.strongest_le_iff, List.forall_mem_map]

theorem peak_leaf (f : Footprint) : (leaf f).peak = f.classify := by
  refine Qualifier.le_antisymm (peak_le_iff.mpr ?_) (peak_le_iff.mp (Qualifier.le_refl _) f ?_)
  · exact List.forall_mem_singleton.mpr (Qualifier.le_refl _)
  · exact List.mem_singleton_self f

/-- Some variable that the result reads is read by the result of no parameter. -/
def ReachesOut (params : List Effect) (result : Effect) : Prop :=
  ∃ n ∈ result.resultReads.flatten.toList, ∀ p ∈ params, n ∉ p.resultReads.flatten

instance (params : List Effect) (result : Effect) : Decidable (ReachesOut params result) :=
  inferInstanceAs (Decidable (∃ n ∈ result.resultReads.flatten.toList, _))

theorem readsOutside_iff_reachesOut {params : List Effect} {result : Effect} :
    readsOutside result.resultReads (parameterReads params) = true ↔ ReachesOut params result := by
  rw [readsOutside_iff]
  refine exists_congr fun n => ?_
  rw [← NameSet.mem_def, Payload.mem_flatten, mem_parameterReads, not_exists]
  simp only [Payload.mem_flatten, not_and]

/-- What an effect needs when nothing in it is updated or temporal: a footprint by what it reads, an
arrow by whether its result reads what no parameter gives access to. -/
def ownMode : Effect → Qualifier
  | leaf f => f.classify
  | arrow params result => if ReachesOut params result then .defn else .pureDef

/-! ## Both cases of the fold -/

theorem fold_le_iff_peak {e : Effect} {before bound : Qualifier} (hb : .defn ≤ bound) :
    e.fold before ≤ bound ↔ before.join e.peak ≤ bound := by
  rw [fold_le_iff hb, Qualifier.join_le_iff, peak_le_iff]

/-- What is updated or temporal is never lost. -/
theorem fold_eq_of_action_le {e : Effect} {before : Qualifier}
    (h : .action ≤ before.join e.peak) : e.fold before = before.join e.peak :=
  Qualifier.eq_of_forall_le_iff (fun _ hb => fold_le_iff_peak hb) h

theorem reduceArrow_eq_ownMode {params : List Effect} {result : Effect} {parts : Qualifier}
    (h : parts ≤ .defn) : reduceArrow params result parts = (arrow params result).ownMode := by
  rw [reduceArrow_of_le_defn h, ownMode]
  simp only [readsOutside_iff_reachesOut]

/-- Below `action` it makes no difference what an arrow starts from. -/
theorem fold_arrow_of_le_defn {params : List Effect} {result : Effect} {before : Qualifier}
    (h : before.join (arrow params result).peak ≤ .defn) :
    (arrow params result).fold before = (arrow params result).ownMode := by
  have hfold := (fold_le_iff_peak (Qualifier.le_refl .defn)).mpr h
  rw [fold] at hfold ⊢
  exact reduceArrow_eq_ownMode ((reduceArrow_le_iff (Qualifier.le_refl _)).mp hfold)

theorem inferMode_of_action_le {e : Effect} (h : .action ≤ e.peak) : e.inferMode = e.peak := by
  rw [← Qualifier.pureVal_join e.peak] at h
  rw [inferMode, fold_eq_of_action_le h, Qualifier.pureVal_join]

theorem inferMode_of_le_defn {e : Effect} (h : e.peak ≤ .defn) : e.inferMode = e.ownMode := by
  cases e with
  | leaf f => exact inferMode_leaf f
  | arrow params result =>
    rw [← Qualifier.pureVal_join (arrow params result).peak] at h
    exact fold_arrow_of_le_defn h

/-- With the same peak only the roots can make a difference, and only below `action`. -/
theorem inferMode_eq_of_peak_eq {d e : Effect} (hpeak : d.peak = e.peak)
    (hown : d.peak ≤ .defn → d.ownMode = e.ownMode) : d.inferMode = e.inferMode := by
  by_cases hd : d.peak ≤ .defn
  · rw [inferMode_of_le_defn hd, inferMode_of_le_defn (hpeak ▸ hd), hown hd]
  · rw [Qualifier.not_le_defn] at hd
    rw [inferMode_of_action_le hd, inferMode_of_action_le (hpeak ▸ hd), hpeak]

/-- What went before a sibling, short of `action`, makes no difference to an arrow. -/
theorem fold_arrow_eq_inferMode {params : List Effect} {result : Effect} {before : Qualifier}
    (h : before ≤ .defn) :
    (arrow params result).fold before = (arrow params result).inferMode := by
  by_cases hpeak : (arrow params result).peak ≤ .defn
  · rw [inferMode_of_le_defn hpeak, fold_arrow_of_le_defn (Qualifier.join_le_iff.mpr ⟨h, hpeak⟩)]
  · rw [Qualifier.not_le_defn] at hpeak
    have hjoin : before.join (arrow params result).peak = (arrow params result).peak :=
      Qualifier.join_eq_right_of_le
        (Qualifier.le_trans h (Qualifier.le_trans (by decide) hpeak))
    rw [inferMode_of_action_le hpeak, fold_eq_of_action_le (hjoin.symm ▸ hpeak), hjoin]

/-! ## The closed form -/

/-- **Inference in closed form.** If some footprint of an effect updates or is temporal, the effect
needs the peak of its footprints. Otherwise a footprint needs its own qualifier, and an arrow needs
`defn` or `pureDef` by whether its result reads a variable that the results of its own parameters do
not. So an arrow needs the same whatever its siblings came to before it, and, unless something in it
is updated or temporal, whatever the arrows inside it came to. -/
theorem inferMode_closed_form :
    (∀ e : Effect, e.inferMode =
      if e.peak = .action ∨ e.peak = .temporal then e.peak
      else match e with
        | leaf _ => e.peak
        | arrow params result => if ReachesOut params result then .defn else .pureDef) ∧
    (∀ f, (leaf f).peak = f.classify) ∧
    ∀ params result,
      (∀ before ≤ .defn, (arrow params result).fold before = (arrow params result).inferMode) ∧
      ((arrow params result).peak ≤ .defn → ∀ parts ≤ .defn,
        reduceArrow params result parts = (arrow params result).inferMode) := by
  refine ⟨fun e => ?_, peak_leaf, fun params result =>
    ⟨fun before h => fold_arrow_eq_inferMode h, fun hpeak parts h => ?_⟩⟩
  · split
    · next h => exact inferMode_of_action_le (Qualifier.action_le_iff.mpr h)
    · next h =>
      have hpeak : e.peak ≤ .defn := Decidable.of_not_not fun hle =>
        h (Qualifier.action_le_iff.mp (Qualifier.not_le_defn.mp hle))
      rw [inferMode_of_le_defn hpeak]
      cases e with
      | leaf f => exact (peak_leaf f).symm
      | arrow params result => rfl
  · rw [reduceArrow_eq_ownMode h, inferMode_of_le_defn hpeak]

/-- An arrow whose first parameter is an arrow that needs `defn` and whose result reads what the
second parameter reads: nothing of the `defn` is left at the root. -/
theorem inferMode_closed_form_nested :
    let x : Effect := leaf (.reading (.of ["x"]))
    let inner : Effect := arrow [leaf .pure] x
    let outer : Effect := arrow [inner, x] x
    inner.inferMode = .defn ∧ outer.peak = .val ∧ outer.inferMode = .pureDef ∧
      outer.fold .defn = .pureDef ∧ reduceArrow [inner, x] x .defn = .pureDef := by
  intro x inner outer
  obtain ⟨hclosed, -, harrow⟩ := inferMode_closed_form
  obtain ⟨hsiblings, hparts⟩ := harrow [inner, x] x
  have hpeak : outer.peak = .val := by decide
  have hstill : outer.peak ≤ .defn := by rw [hpeak]; decide
  have hinner : inner.inferMode = .defn := (hclosed inner).trans (by decide)
  have houter : outer.inferMode = .pureDef := (hclosed outer).trans (by decide)
  refine ⟨hinner, hpeak, houter, ?_, ?_⟩
  · exact (hsiblings .defn (by decide)).trans houter
  · exact (hparts hstill .defn (by decide)).trans houter

end Effect

end OperatorModes
