import OperatorModes.Proofs.Monotonicity

/-!
# Currying

An operator may take its parameters at once, `arrow (ps ++ qs) r`, or some of them and then the
others, `arrow ps (arrow qs r)`. Both have the same footprints in the same order, so they have one
peak and nothing that is updated or temporal tells them apart. Below that the root decides by its own
parameters, and the curried operator has fewer of them at its root:

> `inferMode_curry`: the curried operator needs at least as much, and more exactly where it reads
> nothing but what its parameters read, but not all of it by the time of the first result
> (`LateReads`).
-/

namespace OperatorModes.Effect

theorem leavesOfAll_append :
    ∀ ps qs : List Effect, leavesOfAll (ps ++ qs) = leavesOfAll ps ++ leavesOfAll qs
  | [], _ => rfl
  | p :: ps, qs => by
    rw [List.cons_append, leavesOfAll, leavesOfAll, leavesOfAll_append ps qs, List.append_assoc]

/-- Without updates and temporal operators there is nothing above `defn`. -/
theorem peak_le_defn_iff {e : Effect} :
    e.peak ≤ .defn ↔ ∀ f ∈ e.leaves, f.isAction = false ∧ f.isTemporal = false := by
  rw [peak_le_iff]
  refine forall₂_congr fun f _ => ?_
  unfold Footprint.classify
  cases f.isAction <;> cases f.isTemporal <;> cases f.readsState <;> decide

theorem reachesOut_iff {params : List Effect} {result : Effect} :
    ReachesOut params result ↔ ∃ n ∈ result.resultReads.flatten, n ∉ parameterReads params := by
  rw [← readsOutside_iff_reachesOut, readsOutside_iff]
  simp only [Payload.mem_flatten]

section

variable {ps qs : List Effect} {r : Effect}

theorem leaves_curry : (arrow ps (arrow qs r)).leaves = (arrow (ps ++ qs) r).leaves := by
  rw [leaves, leaves, leaves, leavesOfAll_append, List.append_assoc]

theorem peak_curry : (arrow ps (arrow qs r)).peak = (arrow (ps ++ qs) r).peak := by
  rw [peak, peak, leaves_curry]

/-- What all parameters do not give access to, the first of them do not. -/
theorem ReachesOut.curry (h : ReachesOut (ps ++ qs) r) : ReachesOut ps (arrow qs r) :=
  h.mono (Payload.Alike.within rfl) fun p hp =>
    ⟨p, List.mem_append_left qs hp, Payload.Alike.within rfl⟩

theorem inferMode_le_curry :
    (arrow (ps ++ qs) r).inferMode ≤ (arrow ps (arrow qs r)).inferMode := by
  refine inferMode_le_inferMode (fun bound _ h => ?_) (ownMode_arrow_le ReachesOut.curry)
  rwa [peak_curry] at h

end

/-- Nothing is updated or temporal, and the result reads only what the parameters read, but not only
what the first of them read. -/
structure LateReads (ps qs : List Effect) (r : Effect) : Prop where
  still : ∀ f ∈ leavesOfAll ps ++ leavesOfAll qs ++ r.leaves,
    f.isAction = false ∧ f.isTemporal = false
  inside : ∀ n ∈ r.resultReads.flatten, n ∈ parameterReads (ps ++ qs)
  late : ∃ n ∈ r.resultReads.flatten, n ∉ parameterReads ps

section

variable {ps qs : List Effect} {r : Effect}

theorem lateReads_iff :
    LateReads ps qs r ↔ (arrow (ps ++ qs) r).peak ≤ .defn ∧ ¬ ReachesOut (ps ++ qs) r ∧
      ReachesOut ps (arrow qs r) := by
  rw [peak_le_defn_iff, leaves, leavesOfAll_append, reachesOut_iff, reachesOut_iff, resultReads]
  simp only [not_exists, not_and, not_not]
  exact ⟨fun h => ⟨h.still, h.inside, h.late⟩, fun h => ⟨h.1, h.2.1, h.2.2⟩⟩

theorem LateReads.inferMode_eq (h : LateReads ps qs r) :
    (arrow (ps ++ qs) r).inferMode = .pureDef ∧ (arrow ps (arrow qs r)).inferMode = .defn := by
  obtain ⟨hpeak, hin, hout⟩ := lateReads_iff.mp h
  rw [inferMode_of_le_defn hpeak, inferMode_of_le_defn (peak_curry.symm ▸ hpeak)]
  exact ⟨if_neg hin, if_pos hout⟩

/-- Nothing else makes a difference. -/
theorem lateReads_of_inferMode_ne
    (h : (arrow (ps ++ qs) r).inferMode ≠ (arrow ps (arrow qs r)).inferMode) :
    LateReads ps qs r := by
  have hpeak : (arrow (ps ++ qs) r).peak ≤ .defn := Decidable.of_not_not fun hle =>
    h (inferMode_eq_of_peak_eq peak_curry.symm fun hdefn => absurd hdefn hle)
  have hown : (arrow (ps ++ qs) r).ownMode ≠ (arrow ps (arrow qs r)).ownMode := fun hsame =>
    h (inferMode_eq_of_peak_eq peak_curry.symm fun _ => hsame)
  rw [ownMode, ownMode] at hown
  have hin : ¬ ReachesOut (ps ++ qs) r := fun hout =>
    hown (by rw [if_pos hout, if_pos hout.curry])
  have hout : ReachesOut ps (arrow qs r) := Decidable.of_not_not fun hno =>
    hown (by rw [if_neg hin, if_neg hno])
  exact lateReads_iff.mpr ⟨hpeak, hin, hout⟩

end

/-- **Currying.** The curried operator needs at least what the uncurried one does. It needs more
exactly if nothing is updated or temporal and the result reads only variables that the parameters
read, some of which the first parameters do not; it then needs `defn`, and the uncurried one
`pureDef`. -/
theorem inferMode_curry (ps qs : List Effect) (r : Effect) :
    (arrow (ps ++ qs) r).inferMode ≤ (arrow ps (arrow qs r)).inferMode ∧
    ((arrow (ps ++ qs) r).inferMode ≠ (arrow ps (arrow qs r)).inferMode ↔ LateReads ps qs r) ∧
    (LateReads ps qs r → (arrow (ps ++ qs) r).inferMode = .pureDef ∧
      (arrow ps (arrow qs r)).inferMode = .defn) := by
  refine ⟨inferMode_le_curry, ⟨lateReads_of_inferMode_ne, fun h => ?_⟩, LateReads.inferMode_eq⟩
  rw [h.inferMode_eq.1, h.inferMode_eq.2]
  decide

/-- A result that reads one variable of each of two parameters. -/
theorem inferMode_curry_two :
    let x : Effect := leaf (.reading (.of ["x"]))
    let y : Effect := leaf (.reading (.of ["y"]))
    let both : Effect := leaf (.reading (.of ["x", "y"]))
    LateReads [x] [y] both ∧ (arrow [x, y] both).inferMode = .pureDef ∧
      (arrow [x] (arrow [y] both)).inferMode = .defn := by
  intro x y both
  obtain ⟨-, hdiffer, hmodes⟩ := inferMode_curry [x] [y] both
  have hlate : LateReads [x] [y] both := hdiffer.mp (by decide)
  exact ⟨hlate, hmodes hlate⟩

end OperatorModes.Effect
