import OperatorModes.Proofs.Check

/-!
# Accepting what is suggested

A suggestion is the qualifier inferred for the effect at its identifier, and the effect is all it
depends on. So definitions that share an identifier are suggested the same, and once every definition
that has a suggestion has taken it, each one is declared as exactly what is inferred for it
(`isSettled_of_mem_accept`). A module of settled definitions has nothing more to report
(`checkModes_of_settled`). Nor does less than the suggestion do: what is below it is below the
inferred qualifier, hence too weak.

> `accept_converges`: accepting the suggestions leaves nothing to suggest, and no suggestion could
> have gone further.
-/

namespace OperatorModes

/-! ## Declaring anew -/

/-- The definition with another declared qualifier. -/
def Definition.redeclare (d : Definition) (q : Qualifier) : Definition :=
  { d with qualifier := q }

/-- The definition as a suggestion for its identifier would have it. -/
def Definition.accept (suggestions : SuggestionMap) (d : Definition) : Definition :=
  match suggestions.find? d.id with
  | some q => d.redeclare q
  | none => d

/-- The definition declared as what is inferred for its effect. -/
def Definition.settle (effects : EffectMap) (d : Definition) : Definition :=
  match effects.find? d.id with
  | some e => d.redeclare e.inferMode
  | none => d

/-- The module in which every definition that has a suggestion takes it. -/
def Module.accept (m : Module) (suggestions : SuggestionMap) : Module :=
  { m with definitions := m.definitions.map (Definition.accept suggestions) }

/-- The module in which every definition is declared as what is inferred for its effect. -/
def Module.settle (m : Module) (effects : EffectMap) : Module :=
  { m with definitions := m.definitions.map (Definition.settle effects) }

/-- The module in which the definition at a place of the list is declared anew. -/
def Module.redeclareAt (m : Module) (i : Nat) (q : Qualifier) : Module :=
  { m with definitions := m.definitions.modify i (Definition.redeclare · q) }

/-! ## Settled definitions -/

/-- The definition is declared as exactly what is inferred for the effect stored for it. -/
def Definition.IsSettled (effects : EffectMap) (d : Definition) : Prop :=
  ∃ e, effects.find? d.id = some e ∧ d.qualifier = e.inferMode

namespace Definition

variable {effects : EffectMap} {suggestions : SuggestionMap} {d : Definition} {e : Effect}

theorem id_accept : (d.accept suggestions).id = d.id := by
  unfold accept
  split
  · rfl
  · rfl

theorem IsSettled.not_lacksEffect (h : d.IsSettled effects) : ¬ d.LacksEffect effects := by
  obtain ⟨e, he, -⟩ := h
  exact not_lacksEffect_iff.mpr ⟨e, he⟩

theorem IsSettled.not_tooWeak (h : d.IsSettled effects) : ¬ d.IsTooWeak effects := by
  obtain ⟨e, he, heq⟩ := h
  rw [isTooWeak_iff he]
  exact fun hlt => Qualifier.ne_of_lt hlt heq

theorem IsSettled.not_tooStrong (h : d.IsSettled effects) : ¬ d.IsTooStrong effects := by
  obtain ⟨e, he, heq⟩ := h
  rw [isTooStrong_iff he]
  exact fun hlt => Qualifier.ne_of_lt hlt heq.symm

/-- What is neither too weak nor too strong is settled: the qualifiers are a chain. -/
theorem isSettled_of_not (hlacks : ¬ d.LacksEffect effects) (hweak : ¬ d.IsTooWeak effects)
    (hstrong : ¬ d.IsTooStrong effects) : d.IsSettled effects := by
  obtain ⟨e, he⟩ := not_lacksEffect_iff.mp hlacks
  rw [isTooWeak_iff he, Qualifier.not_lt] at hweak
  rw [isTooStrong_iff he, Qualifier.not_lt] at hstrong
  exact ⟨e, he, Qualifier.le_antisymm hstrong hweak⟩

theorem isSettled_settle (h : ¬ d.LacksEffect effects) : (d.settle effects).IsSettled effects := by
  obtain ⟨e, he⟩ := not_lacksEffect_iff.mp h
  rw [settle, he]
  exact ⟨e, he, rfl⟩

end Definition

/-! ## What a module of such definitions comes to -/

section

variable {m : Module} {effects : EffectMap}

/-- Settled definitions give a check nothing to report. -/
theorem checkModes_of_settled (h : ∀ d ∈ m.definitions, d.IsSettled effects) :
    checkModes m effects = .ok (.success .empty) := by
  obtain ⟨found, hcheck, hrec⟩ := checkModes_recorded fun d hd => (h d hd).not_lacksEffect
  have herrors : found.errors.isEmpty = true :=
    hrec.errors_isEmpty_iff.mpr fun d hd => (h d hd).not_tooWeak
  have hsuggestions : found.suggestions.isEmpty = true :=
    hrec.suggestions_isEmpty_iff.mpr fun d hd => (h d hd).not_tooStrong
  rw [hcheck, Findings.result, if_pos herrors, SortedMap.eq_empty_of_isEmpty hsuggestions]

/-- One definition that is too weak fails a check in which nothing is missing. -/
theorem exists_failure_of_tooWeak (hall : ∀ d ∈ m.definitions, ¬ d.LacksEffect effects)
    {d : Definition} (hd : d ∈ m.definitions) (hweak : d.IsTooWeak effects) :
    ∃ errors, checkModes m effects = .ok (.failure errors) := by
  obtain ⟨found, hcheck, hrec⟩ := checkModes_recorded hall
  have herrors : ¬ found.errors.isEmpty = true := fun hempty =>
    hrec.errors_isEmpty_iff.mp hempty d hd hweak
  exact ⟨found.errors, by rw [hcheck, Findings.result, if_neg herrors]⟩

/-- What a check that succeeds has found. -/
theorem recorded_of_success {suggestions : SuggestionMap}
    (h : checkModes m effects = .ok (.success suggestions)) :
    (∀ d ∈ m.definitions, ¬ d.IsTooWeak effects) ∧
      ∃ found, found.suggestions = suggestions ∧ Recorded effects m.definitions found := by
  obtain ⟨found, hresult, hrec⟩ := recorded_of_checkModes h
  rw [Findings.result] at hresult
  split at hresult
  · next hempty =>
    cases hresult
    exact ⟨hrec.errors_isEmpty_iff.mp hempty, found, rfl, hrec⟩
  · cases hresult

/-- Every suggestion is the qualifier inferred for the effect at its identifier. -/
theorem find?_suggestions_eq {suggestions : SuggestionMap} {d : Definition} {e : Effect}
    {q : Qualifier} (h : checkModes m effects = .ok (.success suggestions))
    (he : effects.find? d.id = some e) (hq : suggestions.find? d.id = some q) :
    q = e.inferMode := by
  obtain ⟨-, found, rfl, hrec⟩ := recorded_of_success h
  obtain ⟨-, e', he', hinferred⟩ := (hrec.suggestions d.id q).mp hq
  rw [he, Option.some.injEq] at he'
  rw [hinferred, he']

/-- A definition that takes its suggestion is settled, and one that has none was settled before. -/
theorem isSettled_accept {suggestions : SuggestionMap} {d : Definition}
    (h : checkModes m effects = .ok (.success suggestions)) (hd : d ∈ m.definitions) :
    (d.accept suggestions).IsSettled effects := by
  obtain ⟨hnone, found, hfound, hrec⟩ := recorded_of_success h
  have hall := not_lacksEffect_of_checkModes h
  unfold Definition.accept
  cases hq : suggestions.find? d.id with
  | some q =>
    obtain ⟨e, he⟩ := Definition.not_lacksEffect_iff.mp (hall d hd)
    exact ⟨e, he, find?_suggestions_eq h he hq⟩
  | none =>
    refine Definition.isSettled_of_not (hall d hd) (hnone d hd) fun hstrong => ?_
    have hsome := hrec.isSome_suggestions_iff.mpr ⟨d, hd, rfl, hstrong⟩
    rw [hfound, hq] at hsome
    cases hsome

theorem isSettled_of_mem_accept {suggestions : SuggestionMap}
    (h : checkModes m effects = .ok (.success suggestions)) :
    ∀ d ∈ (m.accept suggestions).definitions, d.IsSettled effects := by
  intro d hd
  obtain ⟨c, hc, rfl⟩ := List.mem_map.mp hd
  exact isSettled_accept h hc

/-- Declaring one definition below what is inferred for it fails the check, whatever the others are
declared as. -/
theorem exists_failure_redeclareAt (hall : ∀ d ∈ m.definitions, ¬ d.LacksEffect effects) {i : Nat}
    {d : Definition} {e : Effect} {p : Qualifier} (hd : m.definitions[i]? = some d)
    (he : effects.find? d.id = some e) (hp : p < e.inferMode) :
    ∃ errors, checkModes (m.redeclareAt i p) effects = .ok (.failure errors) := by
  have hat : (m.redeclareAt i p).definitions[i]? = some (d.redeclare p) := by
    rw [Module.redeclareAt, List.getElem?_modify_eq, hd]
    rfl
  refine exists_failure_of_tooWeak (fun c hc => ?_) (List.mem_of_getElem? hat) ⟨e, he, hp⟩
  -- Whether there is an effect for a definition does not depend on what it is declared as.
  obtain ⟨j, hj⟩ := List.mem_iff_getElem?.mp hc
  rw [Module.redeclareAt, List.getElem?_modify, Option.map_eq_map, Option.map_eq_some_iff] at hj
  obtain ⟨b, hb, rfl⟩ := hj
  have hb := hall b (List.mem_of_getElem? hb)
  split
  · exact hb
  · exact hb

end

/-! ## Convergence -/

/-- **Accepting the suggestions converges in one step.** The module in which they are accepted is
checked with nothing to report, and so passes under every configuration; and none of them could have
been stronger, for a definition declared below its suggestion fails the check, be the others as they
were or as suggested. The same comes of declaring every definition as what is inferred for it. -/
theorem accept_converges (m : Module) (effects : EffectMap) :
    (∀ suggestions, checkModes m effects = .ok (.success suggestions) →
      checkModes (m.accept suggestions) effects = .ok (.success .empty) ∧
      (∀ config : CheckerConfig, config.check (m.accept suggestions) effects =
        .ok { result := .success .empty, passed := true }) ∧
      ∀ i d q p, m.definitions[i]? = some d → suggestions.find? d.id = some q → p < q →
        (∃ errors, checkModes (m.redeclareAt i p) effects = .ok (.failure errors)) ∧
        ∃ errors,
          checkModes ((m.accept suggestions).redeclareAt i p) effects = .ok (.failure errors)) ∧
    ((∀ d ∈ m.definitions, ¬ d.LacksEffect effects) →
      checkModes (m.settle effects) effects = .ok (.success .empty)) := by
  refine ⟨fun suggestions h => ?_, fun hall => checkModes_of_settled fun d hd => ?_⟩
  · -- Accepting leaves every definition settled; the rest is about modules of settled definitions.
    have hsettled := isSettled_of_mem_accept h
    have hcheck := checkModes_of_settled hsettled
    refine ⟨hcheck, fun config => ?_, fun i d q p hd hq hp => ?_⟩
    · rw [CheckerConfig.check, hcheck]
      exact congrArg Except.ok config.report_success_empty
    · have hall := not_lacksEffect_of_checkModes h
      obtain ⟨e, he⟩ := Definition.not_lacksEffect_iff.mp (hall d (List.mem_of_getElem? hd))
      have hlt : p < e.inferMode := find?_suggestions_eq h he hq ▸ hp
      have hd' : (m.accept suggestions).definitions[i]? = some (d.accept suggestions) := by
        rw [Module.accept, List.getElem?_map, hd]
        rfl
      have he' : effects.find? (d.accept suggestions).id = some e := by
        rw [Definition.id_accept]
        exact he
      exact ⟨exists_failure_redeclareAt hall hd he hlt,
        exists_failure_redeclareAt (fun c hc => (hsettled c hc).not_lacksEffect) hd' he' hlt⟩
  · obtain ⟨c, hc, rfl⟩ := List.mem_map.mp hd
    exact Definition.isSettled_settle (hall c hc)

/-- Of two definitions of one identifier only the first has cause for the suggestion, which both of
them take; the second is declared so already. -/
theorem accept_converges_repeated :
    let m : Module :=
      { definitions := [{ id := 1, name := "a", qualifier := .temporal },
          { id := 1, name := "b", qualifier := .val }, { id := 2, name := "c", qualifier := .defn }] }
    let effects : EffectMap :=
      .ofList [(1, .leaf (.reading (.of ["x"]))), (2, .arrow [] (.leaf (.reading (.of ["x"]))))]
    let suggestions : SuggestionMap := .ofList [(1, .val)]
    checkModes m effects = .ok (.success suggestions) ∧
      checkModes (m.accept suggestions) effects = .ok (.success .empty) ∧
      (m.accept suggestions).definitions.map Definition.qualifier = [.val, .val, .defn] ∧
      (∃ errors, checkModes (m.redeclareAt 1 .pureDef) effects = .ok (.failure errors)) ∧
      (∀ d ∈ m.definitions, ¬ d.LacksEffect effects) ∧
      checkModes (m.settle effects) effects = .ok (.success .empty) := by
  intro m effects suggestions
  have hcheck : checkModes m effects = .ok (.success suggestions) := by rfl
  have hall : ∀ d ∈ m.definitions, ¬ d.LacksEffect effects := by decide
  obtain ⟨haccept, hsettle⟩ := accept_converges m effects
  obtain ⟨hnothing, -, hbelow⟩ := haccept suggestions hcheck
  have hfails := (hbelow 1 _ .val .pureDef rfl (by decide) (by decide)).1
  exact ⟨hcheck, hnothing, by decide, hfails, hall, hsettle hall⟩

end OperatorModes
