import OperatorModes.Proofs.Check

/-!
# The order of definitions

A check walks its definitions one after another, and what it has found lets an observer see in which
order: an error replaces an earlier one at the same identifier, and the first definition without an
effect ends the walk. Nothing else does. The suggestions and the identifiers of the errors are said
by which definitions there are (`Recorded`), so two walks over the same definitions agree on them
(`Recorded.suggestions_eq`, `Recorded.keys_errors_eq`), and where no two definitions share an
identifier there is nothing for an error to replace (`Recorded.errors_eq`).

> `checkModes_reordered`: a check of the same definitions in another order comes to the same result
> but for the errors of definitions that share an identifier, and effects of other definitions make
> no difference at all.
-/

namespace OperatorModes

/-- Failures with errors at the same identifiers, or twice the same success. -/
def CheckResult.Agrees : CheckResult → CheckResult → Prop
  | failure errors, failure errors' => errors.keys = errors'.keys
  | success suggestions, success suggestions' => suggestions = suggestions'
  | _, _ => False

/-! ## Records of the same definitions -/

namespace Recorded

variable {effects : EffectMap} {checked checked' : List Definition} {found found' : Findings}

/-- Suggestions at one identifier are all the same, so it makes no difference which comes last. -/
theorem suggestions_eq (h : Recorded effects checked found) (h' : Recorded effects checked' found')
    (hmem : ∀ d, d ∈ checked ↔ d ∈ checked') : found.suggestions = found'.suggestions := by
  refine SortedMap.ext_find? fun k => Option.ext fun q => ?_
  rw [h.suggestions k q, h'.suggestions k q]
  simp only [hmem]

theorem keys_errors_eq (h : Recorded effects checked found) (h' : Recorded effects checked' found')
    (hmem : ∀ d, d ∈ checked ↔ d ∈ checked') : found.errors.keys = found'.errors.keys := by
  refine SortedMap.keys_eq_of_mem_iff fun k => ?_
  rw [h.errors_exact.1 k, h'.errors_exact.1 k]
  simp only [hmem]

/-- With one definition for each identifier, the last that is too weak there is the only one. -/
theorem isLast_errorAt_iff (hids : (checked.map Definition.id).Nodup) {k : DefinitionId}
    {d : Definition} :
    IsLast (Definition.IsErrorAt effects k) checked d ↔
      d ∈ checked ∧ d.IsErrorAt effects k := by
  refine isLast_iff_of_unique fun b hb c hc hat hat' => ?_
  exact List.inj_on_of_nodup_map hids hb hc (hat.1.trans hat'.1.symm)

theorem errors_eq (h : Recorded effects checked found) (h' : Recorded effects checked' found')
    (hperm : checked'.Perm checked) (hids : (checked.map Definition.id).Nodup) :
    found.errors = found'.errors := by
  have hids' : (checked'.map Definition.id).Nodup := (hperm.map _).nodup_iff.mpr hids
  refine SortedMap.ext_find? fun k => Option.ext fun diagnostic => ?_
  rw [h.errors k diagnostic, h'.errors k diagnostic]
  simp only [isLast_errorAt_iff hids, isLast_errorAt_iff hids', hperm.mem_iff]

/-- The results of two records of the same definitions agree. -/
theorem agrees (h : Recorded effects checked found) (h' : Recorded effects checked' found')
    (hmem : ∀ d, d ∈ checked ↔ d ∈ checked') : found.result.Agrees found'.result := by
  have hempty : found.errors.isEmpty = found'.errors.isEmpty := by
    rw [Bool.eq_iff_iff, h.errors_isEmpty_iff, h'.errors_isEmpty_iff]
    simp only [hmem]
  rw [Findings.result, Findings.result, ← hempty]
  cases found.errors.isEmpty with
  | false => exact h.keys_errors_eq h' hmem
  | true => exact h.suggestions_eq h' hmem

end Recorded

/-! ## Checks -/

section

variable {m : Module} {effects : EffectMap}

/-- A check ends without a result exactly if some definition has no effect. -/
theorem exists_error_iff :
    (∃ cause, checkModes m effects = .error cause) ↔
      ∃ d ∈ m.definitions, d.LacksEffect effects := by
  constructor
  · intro herror
    obtain ⟨cause, herror⟩ := herror
    refine Classical.byContradiction fun hno => ?_
    obtain ⟨found, hcheck, -⟩ := checkModes_recorded fun d hd hlacks => hno ⟨d, hd, hlacks⟩
    rw [hcheck] at herror
    cases herror
  · intro hlacks
    obtain ⟨d, hd, hlacks⟩ := hlacks
    obtain ⟨c, hfirst⟩ := exists_isFirst_of_mem (P := Definition.LacksEffect effects) hlacks hd
    exact ⟨_, checkModes_of_isFirst hfirst⟩

end

/-- **The order of definitions makes no difference, nor do effects of other definitions.** Of two
modules with the same definitions in different orders, either both have a definition without an
effect or none has. If none has, both checks fail with errors at the same identifiers, or both
succeed with the same suggestions; and if no two definitions share an identifier, the errors are the
same too. Maps that hold the same effects for the definitions of a module give the same result, or
report the same definition as without an effect, whatever else they hold. -/
theorem checkModes_reordered (m : Module) (effects : EffectMap) :
    (∀ m' : Module, m'.definitions.Perm m.definitions →
      ((∃ cause, checkModes m effects = .error cause) ↔
        ∃ cause, checkModes m' effects = .error cause) ∧
      ((∀ d ∈ m.definitions, ¬ d.LacksEffect effects) →
        ∃ result result', checkModes m effects = .ok result ∧ checkModes m' effects = .ok result' ∧
          result.Agrees result' ∧
          ((m.definitions.map Definition.id).Nodup → result = result'))) ∧
    ∀ effects' : EffectMap, (∀ d ∈ m.definitions, effects.find? d.id = effects'.find? d.id) →
      checkModes m effects = checkModes m effects' := by
  refine ⟨fun m' hperm => ⟨?_, fun hall => ?_⟩,
    fun effects' hsame => checkModes_congr fun d hd => ?_⟩
  · rw [exists_error_iff, exists_error_iff]
    simp only [hperm.mem_iff]
  · have hmem : ∀ d, d ∈ m.definitions ↔ d ∈ m'.definitions := fun d => hperm.mem_iff.symm
    obtain ⟨found, hcheck, hrec⟩ := checkModes_recorded hall
    obtain ⟨found', hcheck', hrec'⟩ := checkModes_recorded fun d hd => hall d ((hmem d).mpr hd)
    refine ⟨_, _, hcheck, hcheck', hrec.agrees hrec' hmem, fun hids => ?_⟩
    rw [Findings.result, Findings.result, hrec.errors_eq hrec' hperm hids,
      hrec.suggestions_eq hrec' hmem]
  · rw [checkDefinition, checkDefinition, hsame d hd]

/-- Two definitions that are too weak and share an identifier: each order reports the error of the
one that comes last. Two with identifiers of their own have the same errors in both orders. -/
theorem checkModes_reordered_shared :
    let a : Definition := { id := 1, name := "a", qualifier := .pureVal }
    let b : Definition := { id := 1, name := "b", qualifier := .val }
    let c : Definition := { id := 2, name := "c", qualifier := .val }
    let write : Effect := .leaf (.updating .empty (.of ["x"]))
    let effects : EffectMap := .ofList [(1, write), (2, write)]
    let wider : EffectMap := .ofList [(7, .leaf .pure), (2, write), (1, write)]
    let firstError : CheckResult → Option String := fun result =>
      (result.errors.bind (·.find? 1)).map Diagnostic.location
    (∃ result result', checkModes { definitions := [a, b] } effects = .ok result ∧
      checkModes { definitions := [b, a] } effects = .ok result' ∧ result.Agrees result' ∧
      firstError result = some "b" ∧ firstError result' = some "a") ∧
    (∃ result, checkModes { definitions := [a, c] } effects = .ok result ∧
      checkModes { definitions := [c, a] } effects = .ok result ∧ result.isSuccess = false) ∧
    checkModes { definitions := [a, c] } effects = checkModes { definitions := [a, c] } wider := by
  intro a b c write effects wider firstError
  obtain ⟨hshared, -⟩ := checkModes_reordered { definitions := [a, b] } effects
  obtain ⟨hapart, hwider⟩ := checkModes_reordered { definitions := [a, c] } effects
  refine ⟨?_, ?_, hwider wider (by decide)⟩
  · obtain ⟨-, hresults⟩ := hshared { definitions := [b, a] } (.swap a b [])
    obtain ⟨result, result', hcheck, hcheck', hagrees, -⟩ := hresults (by decide)
    have hlast : (checkModes { definitions := [a, b] } effects).toOption.bind firstError
        = some "b" := by decide +kernel
    have hlast' : (checkModes { definitions := [b, a] } effects).toOption.bind firstError
        = some "a" := by decide +kernel
    rw [hcheck] at hlast
    rw [hcheck'] at hlast'
    exact ⟨result, result', hcheck, hcheck', hagrees, hlast, hlast'⟩
  · obtain ⟨-, hresults⟩ := hapart { definitions := [c, a] } (.swap a c [])
    obtain ⟨result, result', hcheck, hcheck', -, hsame⟩ := hresults (by decide)
    have hfails : (checkModes { definitions := [a, c] } effects).toOption.map
        CheckResult.isSuccess = some false := by decide +kernel
    rw [hcheck] at hfails
    exact ⟨result, hcheck, hsame (by decide) ▸ hcheck', Option.some.inj hfails⟩

end OperatorModes
