import OperatorModes.Proofs.Acceptance

/-!
# The one qualifier that is accepted

What is inferred for a definition depends on its effect and not on what it is declared as. So when a
definition is declared anew, only the other side of the comparison moves, and the chain of qualifiers
falls into three parts around the inferred one. `SettledAt` says what the three parts come to, with all
that is said about a qualifier that is too weak. It holds of no more than one qualifier, since only one
is accepted:

> `checkDefinition_redeclare`: a definition has no effect and every declaration fails alike, or there
> is exactly one qualifier at which it is settled.
-/

namespace OperatorModes

/-- **A definition is settled at a qualifier**: of all declarations, that one is accepted, every weaker
one is an error in which the definition is named and placed and nothing else is complained of, and
every stronger one brings that qualifier as a suggestion. -/
structure Definition.SettledAt (effects : EffectMap) (d : Definition) (e : Effect) (q : Qualifier) :
    Prop where
  accepted_iff : ∀ declared,
    checkDefinition (d.redeclare declared) effects = .ok .accepted ↔ declared = q
  tooWeak_iff : ∀ declared diagnostic,
    checkDefinition (d.redeclare declared) effects = .ok (.tooWeak diagnostic) ↔
      declared < q ∧ diagnostic = .mk d.location (tooWeakText d.name declared q e) []
  tooStrong_iff : ∀ declared suggested,
    checkDefinition (d.redeclare declared) effects = .ok (.tooStrong suggested) ↔
      q < declared ∧ suggested = q

namespace Definition

variable {d : Definition} {e : Effect} {effects : EffectMap}

theorem judge_eq_accepted_iff : d.judge e = .accepted ↔ d.qualifier = e.inferMode := by
  rcases d.judge_cases e with ⟨heq, hj⟩ | ⟨hlt, hj⟩ | ⟨hgt, hj⟩
  · exact iff_of_true hj heq
  · rw [hj]
    exact iff_of_false (fun h => by cases h) (Qualifier.ne_of_lt hlt)
  · rw [hj]
    exact iff_of_false (fun h => by cases h) (Qualifier.ne_of_lt hgt).symm

theorem complaint_redeclare (d : Definition) (declared : Qualifier) (e : Effect) :
    (d.redeclare declared).complaint e
      = .mk d.location (tooWeakText d.name declared e.inferMode e) [] := rfl

theorem checkDefinition_redeclare_of_some (he : effects.find? d.id = some e)
    (declared : Qualifier) :
    checkDefinition (d.redeclare declared) effects = .ok ((d.redeclare declared).judge e) :=
  checkDefinition_of_some he

theorem settledAt_inferMode (he : effects.find? d.id = some e) :
    d.SettledAt effects e e.inferMode where
  accepted_iff := by
    intro declared
    rw [checkDefinition_redeclare_of_some he, Except.ok.injEq]
    exact judge_eq_accepted_iff
  tooWeak_iff := by
    intro declared diagnostic
    rw [checkDefinition_redeclare_of_some he, Except.ok.injEq, ← complaint_redeclare]
    exact judge_eq_tooWeak_iff
  tooStrong_iff := by
    intro declared suggested
    rw [checkDefinition_redeclare_of_some he, Except.ok.injEq]
    exact judge_eq_tooStrong_iff

/-- Only one qualifier is accepted, so a definition is settled at no other. -/
theorem SettledAt.unique {q q' : Qualifier} (h : d.SettledAt effects e q)
    (h' : d.SettledAt effects e q') : q' = q :=
  (h.accepted_iff q').mp ((h'.accepted_iff q').mpr rfl)

end Definition

/-- **Each definition has exactly one accepted qualifier.** A check of it fails exactly when no effect
is stored under its identifier, names it by identifier and name, and fails the same however it is
declared. Otherwise it is settled at exactly one qualifier, the one inferred for the stored effect: the
weakest that admits it. -/
theorem checkDefinition_redeclare (d : Definition) (effects : EffectMap) :
    (∀ declared cause, checkDefinition (d.redeclare declared) effects = .error cause ↔
      d.id ∉ effects.keys ∧ cause = { id := d.id, name := d.name }) ∧
    ∀ e, effects.find? d.id = some e →
      (∃! q, d.SettledAt effects e q) ∧ d.SettledAt effects e e.inferMode ∧
        ∀ q : Qualifier, q.Admits e ↔ e.inferMode ≤ q := by
  constructor
  · intro declared cause
    rw [SortedMap.mem_keys_iff, Option.not_isSome_iff_eq_none]
    cases he : effects.find? d.id with
    | none =>
      have hlacks : (d.redeclare declared).LacksEffect effects := he
      rw [checkDefinition_of_lacksEffect hlacks, Except.error.injEq]
      exact eq_comm.trans (and_iff_right rfl).symm
    | some e =>
      rw [Definition.checkDefinition_redeclare_of_some he]
      exact iff_of_false nofun nofun
  · intro e he
    have hsettled : d.SettledAt effects e e.inferMode := Definition.settledAt_inferMode he
    exact ⟨⟨e.inferMode, hsettled, fun q h => hsettled.unique h⟩, hsettled,
      fun q => Effect.inferMode_le_iff.symm⟩

/-- A definition that updates a variable, with its place: declared as a value it is told to be an
action, and declared as a temporal formula it is suggested to be one. -/
theorem checkDefinition_redeclare_updating :
    let d : Definition :=
      { id := 1, name := "step", qualifier := .defn, span := some { line := 4, column := 1 } }
    let e : Effect := .leaf (.updating .empty (.of ["x"]))
    let effects : EffectMap := .ofList [(1, e)]
    (∃! q, d.SettledAt effects e q) ∧
      checkDefinition (d.redeclare .action) effects = .ok .accepted ∧
      checkDefinition (d.redeclare .val) effects = .ok (.tooWeak (.mk "step at 4:1"
        ("'step' is declared as val but its effect Update[x] requires action "
          ++ "(expected: action, found: val)") [])) ∧
      checkDefinition (d.redeclare .temporal) effects = .ok (.tooStrong .action) := by
  intro d e effects
  have he : effects.find? d.id = some e := rfl
  obtain ⟨hunique, hsettled, -⟩ := (checkDefinition_redeclare d effects).2 e he
  refine ⟨hunique, (hsettled.accepted_iff .action).mpr rfl,
    (hsettled.tooWeak_iff .val _).mpr ⟨by decide, by decide⟩,
    (hsettled.tooStrong_iff .temporal .action).mpr ⟨by decide, rfl⟩⟩

end OperatorModes
