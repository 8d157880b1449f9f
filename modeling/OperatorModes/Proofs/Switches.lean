import OperatorModes.Proofs.Check

/-!
# The two switches of a check

One switch hides suggestions from a report, the other makes them fail a check. Each acts on the
result of a check alone, and each on its own part of the report: the verdict is taken from the
result before anything is hidden in it (`passes_iff_exists`), and only suggestions are ever hidden
(`reported_success`).

> `switches_independent`: a check fails and has a result as the walk does, and reports under two
> configurations differ in the verdict only by the one switch and in the result only by the other.
-/

namespace OperatorModes.CheckerConfig

variable {config : CheckerConfig} {result : CheckResult}

/-! ## What is reported -/

/-- Suggestions are reported all or not at all. -/
theorem reported_success (config : CheckerConfig) (found : SuggestionMap) :
    config.reported (.success found)
      = .success (if config.reportSuggestions then found else .empty) :=
  (apply_ite CheckResult.success _ _ _).symm

/-- What is reported goes by the one switch. -/
theorem reported_congr {other : CheckerConfig}
    (h : config.reportSuggestions = other.reportSuggestions) (result : CheckResult) :
    config.reported result = other.reported result := by
  cases result with
  | failure errors => rfl
  | success found => rw [reported, reported, h]

/-! ## What passes -/

/-- What passes is a success, without any suggestion if suggestions are denied. -/
theorem passes_iff_exists :
    config.passes result = true ↔
      ∃ found, result = .success found ∧
        (config.denySuggestions = true → found.isEmpty = true) := by
  cases result with
  | failure errors =>
    refine iff_of_false Bool.false_ne_true (fun h => ?_)
    obtain ⟨found, hfound, -⟩ := h
    cases hfound
  | success found =>
    simp only [CheckResult.success.injEq, exists_eq_left']
    show (!(config.denySuggestions && !found.isEmpty)) = true ↔ _
    cases config.denySuggestions <;> cases found.isEmpty <;> decide

/-- The verdict goes by the other switch. -/
theorem passes_congr {other : CheckerConfig} (h : config.denySuggestions = other.denySuggestions)
    (result : CheckResult) : config.passes result = other.passes result := by
  rw [Bool.eq_iff_iff, passes_iff_exists, passes_iff_exists, h]

/-- Denying suggestions fails those successes that have some, and nothing else. -/
theorem denied_iff {allowing denying : CheckerConfig} (hallow : allowing.denySuggestions = false)
    (hdeny : denying.denySuggestions = true) :
    (allowing.passes result = true ∧ denying.passes result = false) ↔
      ∃ found, result = .success found ∧ found.isEmpty = false := by
  rw [← Bool.not_eq_true (denying.passes result), passes_iff_exists, passes_iff_exists, hallow,
    hdeny]
  cases result with
  | failure errors => simp
  | success found => simp

/-! ## Reports -/

variable {m : Module} {effects : EffectMap}

/-- A check has no report exactly if there is no result, and for the same reason. -/
theorem check_eq_error_iff {cause : MissingEffect} :
    config.check m effects = .error cause ↔ checkModes m effects = .error cause := by
  rw [check]
  cases checkModes m effects with
  | error missing => simp only [Except.error.injEq]
  | ok result => exact iff_of_false (fun h => by cases h) (fun h => by cases h)

/-- Where there is a result, the report is on it. -/
theorem check_of_ok (h : checkModes m effects = .ok result) :
    config.check m effects = .ok (config.report result) := by
  rw [check, h]

/-- **The switches do not interfere.** Under any configuration a check of a module ends in the missing
effect that the walk meets, if it meets one, and otherwise in a report. Under any two, then, it ends in
the same missing effect or in a report under both. Configurations that agree on whether suggestions are
denied give the same verdict, and ones that agree on whether they are reported the same result. Errors
are reported whole under both and never pass; a success is reported with the suggestions found or
without any. Denying suggestions turns a verdict only from passed to failed, and does so exactly when a
success has suggestions, reported or not. -/
theorem switches_independent (m : Module) (effects : EffectMap) (c c' : CheckerConfig) :
    (∀ cause, (c.check m effects = .error cause ↔ checkModes m effects = .error cause) ∧
      (c.check m effects = .error cause ↔ c'.check m effects = .error cause)) ∧
    ∀ result, checkModes m effects = .ok result →
      ∃ r r', c.check m effects = .ok r ∧ c'.check m effects = .ok r' ∧
        (c.denySuggestions = c'.denySuggestions → r.passed = r'.passed) ∧
        (c.reportSuggestions = c'.reportSuggestions → r.result = r'.result) ∧
        (∀ errors, result = .failure errors →
          r.result = .failure errors ∧ r'.result = .failure errors ∧
            r.passed = false ∧ r'.passed = false) ∧
        (∀ found, result = .success found →
          r.result = .success (if c.reportSuggestions then found else .empty)) ∧
        (c.denySuggestions = false → c'.denySuggestions = true →
          (r'.passed = true → r.passed = true) ∧
          ((r.passed = true ∧ r'.passed = false) ↔
            ∃ found, result = .success found ∧ found.isEmpty = false)) := by
  refine ⟨fun cause => ⟨check_eq_error_iff, check_eq_error_iff.trans check_eq_error_iff.symm⟩,
    fun result hresult => ⟨c.report result, c'.report result, check_of_ok hresult,
      check_of_ok hresult, fun hdeny => passes_congr hdeny result,
      fun hreport => reported_congr hreport result, fun errors herrors => ?_,
      fun found hfound => ?_, fun hallow hdeny => ⟨fun hpassed => ?_, denied_iff hallow hdeny⟩⟩⟩
  · subst herrors
    exact ⟨rfl, rfl, rfl, rfl⟩
  · subst hfound
    exact c.reported_success found
  · obtain ⟨found, hfound, -⟩ := passes_iff_exists.mp hpassed
    refine passes_iff_exists.mpr ⟨found, hfound, fun hdenied => ?_⟩
    rw [hallow] at hdenied
    cases hdenied

/-- A suggestion that is not reported passes where it is allowed and fails where it is denied. -/
theorem switches_independent_hidden :
    let m : Module := { definitions := [{ id := 1, name := "c", qualifier := .val }] }
    let effects : EffectMap := .ofList [(1, .leaf .pure)]
    let shown : CheckerConfig := { reportSuggestions := true, denySuggestions := false }
    let hidden : CheckerConfig := { reportSuggestions := false, denySuggestions := true }
    ∃ r r', shown.check m effects = .ok r ∧ hidden.check m effects = .ok r' ∧
      r.result = .success (.ofList [(1, .pureVal)]) ∧ r'.result = .success .empty ∧
      r.passed = true ∧ r'.passed = false := by
  intro m effects shown hidden
  have hfound : checkModes m effects = .ok (.success (.ofList [(1, .pureVal)])) := by rfl
  obtain ⟨r, r', hr, hr', -, -, -, hresult, hdenied⟩ :=
    (switches_independent m effects shown hidden).2 _ hfound
  obtain ⟨hpassed, hfailed⟩ := (hdenied rfl rfl).2.mpr ⟨_, rfl, by decide⟩
  have hnothing : r'.result = .success .empty := by
    rw [check_of_ok hfound, Except.ok.injEq] at hr'
    rw [← hr']
    rfl
  exact ⟨r, r', hr, hr', hresult _ rfl, hnothing, hpassed, hfailed⟩

end OperatorModes.CheckerConfig
