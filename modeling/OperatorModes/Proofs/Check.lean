import OperatorModes.Check
import OperatorModes.Proofs.Inference
import OperatorModes.Proofs.Occurrence
import OperatorModes.Proofs.SortedMap

/-!
# What a check of a module finds

A walk over the definitions adds to two maps and stops at the first definition without an effect. Its
invariant, `Recorded`, says what the maps hold after any number of definitions, by the definitions
alone: at each identifier the error of the *last* definition with that identifier that is declared
too weak, whatever came after it, and at each identifier of a definition declared too strong the
qualifier inferred for the effect stored there. One definition preserves it (`Recorded.step`), so a
walk does (`walk_recorded`), and the result of a whole check is read off the invariant:

> `checkModes_exact`: which missing effect, which errors and which suggestions a check reports.
> `checkModes_success_iff_admits`: a check succeeds exactly when every definition has an effect and
> its declared qualifier admits it.
-/

namespace OperatorModes

/-! ## What is said of a definition -/

/-- The text of the complaint about a definition that is declared as one qualifier where its effect
requires another. -/
def tooWeakText (name : String) (declared required : Qualifier) (e : Effect) : String :=
  "'" ++ name ++ "' is declared as " ++ declared.keyword ++ " but its effect " ++ e.render
    ++ " requires " ++ required.keyword ++ " (expected: " ++ required.name ++ ", found: "
    ++ declared.name ++ ")"

/-- **What is said of a definition that is declared too weak for an effect**: that text, at the place of
the definition, and nothing under it. -/
def Definition.complaint (d : Definition) (e : Effect) : Diagnostic :=
  .mk d.location (tooWeakText d.name d.qualifier e.inferMode e) []

theorem Diagnostic.tooWeak_eq_complaint (d : Definition) (e : Effect) :
    tooWeak d e.inferMode e = d.complaint e := rfl

/-! ## One definition -/

/-- No effect is stored for the definition. -/
def Definition.LacksEffect (effects : EffectMap) (d : Definition) : Prop :=
  effects.find? d.id = none

/-- The definition is declared weaker than the effect stored for it requires. -/
def Definition.IsTooWeak (effects : EffectMap) (d : Definition) : Prop :=
  ∃ e, effects.find? d.id = some e ∧ d.qualifier < e.inferMode

/-- The definition is declared stronger than the effect stored for it requires. -/
def Definition.IsTooStrong (effects : EffectMap) (d : Definition) : Prop :=
  ∃ e, effects.find? d.id = some e ∧ e.inferMode < d.qualifier

namespace Definition

variable {d : Definition} {e : Effect} {effects : EffectMap}

theorem not_lacksEffect_iff : ¬ d.LacksEffect effects ↔ ∃ e, effects.find? d.id = some e :=
  Option.ne_none_iff_exists'

/-- The three outcomes are the three ways in which declared and inferred qualifier may stand to each
other in the chain. -/
theorem judge_cases (d : Definition) (e : Effect) :
    (d.qualifier = e.inferMode ∧ d.judge e = .accepted) ∨
    (d.qualifier < e.inferMode ∧ d.judge e = .tooWeak (d.complaint e)) ∨
    (e.inferMode < d.qualifier ∧ d.judge e = .tooStrong e.inferMode) := by
  unfold judge
  by_cases heq : e.inferMode = d.qualifier
  · exact Or.inl ⟨heq.symm, if_pos heq⟩
  · right
    rw [if_neg heq]
    by_cases hle : d.qualifier ≤ e.inferMode
    · left
      refine ⟨Qualifier.not_le.mp fun h => heq (Qualifier.le_antisymm h hle), ?_⟩
      rw [if_pos (Qualifier.join_eq_left_iff.mpr hle), Diagnostic.tooWeak_eq_complaint]
    · right
      refine ⟨Qualifier.not_le.mp hle, ?_⟩
      rw [if_neg fun h => hle (Qualifier.join_eq_left_iff.mp h)]

theorem judge_eq_tooWeak_iff {diagnostic : Diagnostic} :
    d.judge e = .tooWeak diagnostic ↔
      d.qualifier < e.inferMode ∧ diagnostic = d.complaint e := by
  rcases d.judge_cases e with ⟨heq, hj⟩ | ⟨hlt, hj⟩ | ⟨hgt, hj⟩
  · rw [hj]
    exact iff_of_false (fun h => by cases h) fun h => Qualifier.ne_of_lt h.1 heq
  · rw [hj, Outcome.tooWeak.injEq]
    exact eq_comm.trans (and_iff_right hlt).symm
  · rw [hj]
    exact iff_of_false (fun h => by cases h) fun h => Nat.lt_asymm hgt h.1

theorem judge_eq_tooStrong_iff {q : Qualifier} :
    d.judge e = .tooStrong q ↔ e.inferMode < d.qualifier ∧ q = e.inferMode := by
  rcases d.judge_cases e with ⟨heq, hj⟩ | ⟨hlt, hj⟩ | ⟨hgt, hj⟩
  · rw [hj]
    exact iff_of_false (fun h => by cases h) fun h => Qualifier.ne_of_lt h.1 heq.symm
  · rw [hj]
    exact iff_of_false (fun h => by cases h) fun h => Nat.lt_asymm hlt h.1
  · rw [hj, Outcome.tooStrong.injEq]
    exact eq_comm.trans (and_iff_right hgt).symm

theorem isTooWeak_iff (he : effects.find? d.id = some e) :
    d.IsTooWeak effects ↔ d.qualifier < e.inferMode := by
  unfold IsTooWeak
  rw [he]
  simp only [Option.some.injEq, exists_eq_left']

theorem isTooStrong_iff (he : effects.find? d.id = some e) :
    d.IsTooStrong effects ↔ e.inferMode < d.qualifier := by
  unfold IsTooStrong
  rw [he]
  simp only [Option.some.injEq, exists_eq_left']

end Definition

instance (effects : EffectMap) (d : Definition) : Decidable (d.LacksEffect effects) :=
  inferInstanceAs (Decidable (effects.find? d.id = none))

instance (effects : EffectMap) (d : Definition) : Decidable (d.IsTooWeak effects) :=
  match h : effects.find? d.id with
  | some _ => decidable_of_iff _ (Definition.isTooWeak_iff h).symm
  | none => isFalse fun ⟨_, he, _⟩ => Option.some_ne_none _ (he.symm.trans h)

instance (effects : EffectMap) (d : Definition) : Decidable (d.IsTooStrong effects) :=
  match h : effects.find? d.id with
  | some _ => decidable_of_iff _ (Definition.isTooStrong_iff h).symm
  | none => isFalse fun ⟨_, he, _⟩ => Option.some_ne_none _ (he.symm.trans h)

/-! ## What the maps hold -/

/-- The definition is declared too weak and has the identifier. -/
def Definition.IsErrorAt (effects : EffectMap) (k : DefinitionId) (d : Definition) : Prop :=
  d.id = k ∧ d.IsTooWeak effects

/-- What has been found after the definitions in a list: at an identifier the error of the last
definition that is too weak there, and the qualifier inferred for the effect there if some definition
is too strong there. -/
structure Recorded (effects : EffectMap) (checked : List Definition) (found : Findings) : Prop where
  errors : ∀ k diagnostic, found.errors.find? k = some diagnostic ↔
    ∃ d e, IsLast (Definition.IsErrorAt effects k) checked d ∧ effects.find? k = some e ∧
      diagnostic = d.complaint e
  suggestions : ∀ k q, found.suggestions.find? k = some q ↔
    (∃ d ∈ checked, d.id = k ∧ d.IsTooStrong effects) ∧
      ∃ e, effects.find? k = some e ∧ q = e.inferMode

theorem recorded_nil (effects : EffectMap) : Recorded effects [] {} where
  errors := by
    intro k diagnostic
    refine iff_of_false (by simp) ?_
    intro herror
    obtain ⟨d, e, hlast, -⟩ := herror
    exact not_isLast_nil hlast
  suggestions := by
    intro k q
    refine iff_of_false (by simp) ?_
    intro hsuggestion
    obtain ⟨⟨d, hd, -⟩, -⟩ := hsuggestion
    cases hd

namespace Recorded

variable {effects : EffectMap} {checked : List Definition} {found : Findings} {d : Definition}
  {e : Effect}

/-- A definition that is not too weak leaves the last error at every identifier. -/
theorem errors_concat_of_not_tooWeak (h : Recorded effects checked found)
    (hd : ¬ d.IsTooWeak effects) (k : DefinitionId) (diagnostic : Diagnostic) :
    found.errors.find? k = some diagnostic ↔
      ∃ c e, IsLast (Definition.IsErrorAt effects k) (checked ++ [d]) c ∧
        effects.find? k = some e ∧ diagnostic = c.complaint e := by
  have hno : ¬ d.IsErrorAt effects k := fun hat => hd hat.2
  rw [h.errors k diagnostic]
  simp only [isLast_concat_iff, hno, false_and, false_or, not_false_iff, true_and]

/-- A definition that is not too strong leaves the suggestions. -/
theorem suggestions_concat_of_not_tooStrong (h : Recorded effects checked found)
    (hd : ¬ d.IsTooStrong effects) (k : DefinitionId) (q : Qualifier) :
    found.suggestions.find? k = some q ↔
      (∃ c ∈ checked ++ [d], c.id = k ∧ c.IsTooStrong effects) ∧
        ∃ e, effects.find? k = some e ∧ q = e.inferMode := by
  rw [h.suggestions k q]
  simp only [List.mem_append, List.mem_singleton, or_and_right, exists_or, exists_eq_left, hd,
    and_false, or_false]

/-- The error of a definition that is too weak replaces one at the same identifier. -/
theorem errors_insert (h : Recorded effects checked found) (he : effects.find? d.id = some e)
    (hd : d.IsTooWeak effects) (k : DefinitionId) (diagnostic : Diagnostic) :
    (found.errors.insert d.id (d.complaint e)).find? k = some diagnostic ↔
      ∃ c e, IsLast (Definition.IsErrorAt effects k) (checked ++ [d]) c ∧
        effects.find? k = some e ∧ diagnostic = c.complaint e := by
  rw [SortedMap.find?_insert]
  by_cases hk : k = d.id
  · -- At the identifier of the definition, the definition is now the last that is too weak.
    have hat : d.IsErrorAt effects k := ⟨hk.symm, hd⟩
    subst hk
    rw [if_pos rfl, he]
    simp only [isLast_concat_iff, hat, true_and, not_true_eq_false, false_and, or_false,
      Option.some.injEq]
    constructor
    · intro hnew
      exact ⟨d, e, rfl, rfl, hnew.symm⟩
    · intro hlast
      obtain ⟨c, e', hc, he', hnew⟩ := hlast
      rw [hnew, hc, he']
  · have hno : ¬ d.IsErrorAt effects k := fun hat => hk hat.1.symm
    rw [if_neg hk, h.errors k diagnostic]
    simp only [isLast_concat_iff, hno, false_and, false_or, not_false_iff, true_and]

/-- The suggestion for a definition that is too strong is the one already there, if there is one:
both are the qualifier inferred for the same effect. -/
theorem suggestions_insert (h : Recorded effects checked found) (he : effects.find? d.id = some e)
    (hd : d.IsTooStrong effects) (k : DefinitionId) (q : Qualifier) :
    (found.suggestions.insert d.id e.inferMode).find? k = some q ↔
      (∃ c ∈ checked ++ [d], c.id = k ∧ c.IsTooStrong effects) ∧
        ∃ e, effects.find? k = some e ∧ q = e.inferMode := by
  rw [SortedMap.find?_insert]
  by_cases hk : k = d.id
  · subst hk
    have hsome : ∃ c ∈ checked ++ [d], c.id = d.id ∧ c.IsTooStrong effects :=
      ⟨d, by simp, rfl, hd⟩
    rw [if_pos rfl, he]
    simp only [hsome, true_and, Option.some.injEq, exists_eq_left']
    exact eq_comm
  · rw [if_neg hk, h.suggestions k q]
    simp only [List.mem_append, List.mem_singleton, or_and_right, exists_or, exists_eq_left,
      Ne.symm hk, false_and, or_false]

/-- Checking one more definition keeps the record. -/
theorem step (h : Recorded effects checked found) (he : effects.find? d.id = some e) :
    Recorded effects (checked ++ [d]) (found.record d (d.judge e)) := by
  rcases d.judge_cases e with ⟨heq, hj⟩ | ⟨hlt, hj⟩ | ⟨hlt, hj⟩
  · have hweak : ¬ d.IsTooWeak effects := fun hw =>
      Qualifier.ne_of_lt ((Definition.isTooWeak_iff he).mp hw) heq
    have hstrong : ¬ d.IsTooStrong effects := fun hs =>
      Qualifier.ne_of_lt ((Definition.isTooStrong_iff he).mp hs) heq.symm
    rw [hj]
    exact ⟨h.errors_concat_of_not_tooWeak hweak, h.suggestions_concat_of_not_tooStrong hstrong⟩
  · have hweak : d.IsTooWeak effects := (Definition.isTooWeak_iff he).mpr hlt
    have hstrong : ¬ d.IsTooStrong effects := fun hs =>
      Nat.lt_asymm hlt ((Definition.isTooStrong_iff he).mp hs)
    rw [hj]
    exact ⟨h.errors_insert he hweak, h.suggestions_concat_of_not_tooStrong hstrong⟩
  · have hweak : ¬ d.IsTooWeak effects := fun hw =>
      Nat.lt_asymm hlt ((Definition.isTooWeak_iff he).mp hw)
    have hstrong : d.IsTooStrong effects := (Definition.isTooStrong_iff he).mpr hlt
    rw [hj]
    exact ⟨h.errors_concat_of_not_tooWeak hweak, h.suggestions_insert he hstrong⟩

end Recorded

/-! ## Walks -/

section

variable {effects : EffectMap}

theorem checkDefinition_of_some {d : Definition} {e : Effect} (he : effects.find? d.id = some e) :
    checkDefinition d effects = .ok (d.judge e) := by
  rw [checkDefinition, he]

theorem checkDefinition_of_lacksEffect {d : Definition} (h : d.LacksEffect effects) :
    checkDefinition d effects = .error { id := d.id, name := d.name } := by
  rw [checkDefinition, show effects.find? d.id = none from h]

theorem checkDefinition_eq_ok_iff {d : Definition} {outcome : Outcome} :
    checkDefinition d effects = .ok outcome ↔
      ∃ e, effects.find? d.id = some e ∧ d.judge e = outcome := by
  cases he : effects.find? d.id with
  | none => simp [checkDefinition_of_lacksEffect he]
  | some e => simp [checkDefinition_of_some he]

/-- A walk past a definition with an effect goes on with its outcome recorded. -/
theorem walk_cons_value {name : String} {d : Definition} {rest : List Definition}
    {found : Findings} {e : Effect} (he : effects.find? d.id = some e) :
    (walk name effects (d :: rest) found).value =
      (walk name effects rest (found.record d (d.judge e))).value := by
  rw [walk, checkDefinition_of_some he]

/-- A walk over definitions that all have effects comes to its end and keeps the record. -/
theorem walk_recorded (name : String) :
    ∀ (rest : List Definition) {checked : List Definition} {found : Findings},
      (∀ d ∈ rest, ¬ d.LacksEffect effects) → Recorded effects checked found →
      ∃ found', (walk name effects rest found).value = .ok found' ∧
        Recorded effects (checked ++ rest) found'
  | [], checked, found, _, h => ⟨found, rfl, by rw [List.append_nil]; exact h⟩
  | d :: rest, checked, found, hall, h => by
    obtain ⟨hd, hrest⟩ := List.forall_mem_cons.mp hall
    obtain ⟨e, he⟩ := Definition.not_lacksEffect_iff.mp hd
    obtain ⟨found', hwalk, hrec⟩ := walk_recorded name rest hrest (h.step he)
    refine ⟨found', (walk_cons_value he).trans hwalk, ?_⟩
    rw [List.append_assoc] at hrec
    exact hrec

/-- A walk stops at the first definition without an effect, whatever has been found before it. -/
theorem walk_of_isFirst {name : String} {d : Definition} :
    ∀ {definitions : List Definition} {found : Findings},
      IsFirst (Definition.LacksEffect effects) definitions d →
      (walk name effects definitions found).value = .error { id := d.id, name := d.name } := by
  intro definitions found hfirst
  obtain ⟨before, after, rfl, hd, hbefore⟩ := hfirst
  -- The induction is on what stands before the definition: all of it has effects.
  induction before generalizing found with
  | nil => rw [List.nil_append, walk, checkDefinition_of_lacksEffect hd]
  | cons c before ih =>
    obtain ⟨hc, hbefore⟩ := List.forall_mem_cons.mp hbefore
    obtain ⟨e, he⟩ := Definition.not_lacksEffect_iff.mp hc
    rw [List.cons_append, walk_cons_value he]
    exact ih hbefore

/-- A walk asks the effects only for the outcome of each definition. -/
theorem walk_value_congr {effects' : EffectMap} (name : String) :
    ∀ {definitions : List Definition} (found : Findings),
      (∀ d ∈ definitions, checkDefinition d effects = checkDefinition d effects') →
      (walk name effects definitions found).value = (walk name effects' definitions found).value
  | [], _, _ => rfl
  | d :: rest, found, h => by
    obtain ⟨hd, hrest⟩ := List.forall_mem_cons.mp h
    rw [walk, walk, hd]
    cases checkDefinition d effects' with
    | error cause => rfl
    | ok outcome => exact walk_value_congr name (found.record d outcome) hrest

end

/-! ## Modules -/

section

variable {m : Module} {effects : EffectMap}

theorem checkModes_of_walk_ok {found : Findings}
    (h : (walk m.name effects m.definitions {}).value = .ok found) :
    checkModes m effects = .ok found.result := by
  rw [checkModes, checkModesLogged]
  simp only [h]

theorem checkModes_of_walk_error {cause : MissingEffect}
    (h : (walk m.name effects m.definitions {}).value = .error cause) :
    checkModes m effects = .error cause := by
  rw [checkModes, checkModesLogged]
  simp only [h]

theorem checkModes_of_isFirst {d : Definition}
    (h : IsFirst (Definition.LacksEffect effects) m.definitions d) :
    checkModes m effects = .error { id := d.id, name := d.name } :=
  checkModes_of_walk_error (walk_of_isFirst h)

theorem checkModes_recorded (h : ∀ d ∈ m.definitions, ¬ d.LacksEffect effects) :
    ∃ found, checkModes m effects = .ok found.result ∧ Recorded effects m.definitions found := by
  obtain ⟨found, hwalk, hrec⟩ := walk_recorded m.name m.definitions h (recorded_nil effects)
  exact ⟨found, checkModes_of_walk_ok hwalk, hrec⟩

/-- A check that comes to its end has met an effect for every definition. -/
theorem not_lacksEffect_of_checkModes {result : CheckResult} (h : checkModes m effects = .ok result) :
    ∀ d ∈ m.definitions, ¬ d.LacksEffect effects := by
  intro d hd hlacks
  obtain ⟨c, hfirst⟩ := exists_isFirst_of_mem (P := Definition.LacksEffect effects) hlacks hd
  rw [checkModes_of_isFirst hfirst] at h
  cases h

theorem checkModes_congr {effects' : EffectMap}
    (h : ∀ d ∈ m.definitions, checkDefinition d effects = checkDefinition d effects') :
    checkModes m effects = checkModes m effects' := by
  have hwalk := walk_value_congr m.name {} h
  cases hvalue : (walk m.name effects' m.definitions {}).value with
  | error cause =>
    rw [checkModes_of_walk_error hvalue, checkModes_of_walk_error (hwalk.trans hvalue)]
  | ok found => rw [checkModes_of_walk_ok hvalue, checkModes_of_walk_ok (hwalk.trans hvalue)]

/-- Every result is that of a record of what was found. -/
theorem recorded_of_checkModes {result : CheckResult} (h : checkModes m effects = .ok result) :
    ∃ found, result = found.result ∧ Recorded effects m.definitions found := by
  obtain ⟨found, hcheck, hrec⟩ := checkModes_recorded (not_lacksEffect_of_checkModes h)
  rw [hcheck, Except.ok.injEq] at h
  exact ⟨found, h.symm, hrec⟩

end

namespace Recorded

variable {effects : EffectMap} {checked : List Definition} {found : Findings}

theorem isSome_errors_iff (h : Recorded effects checked found) {k : DefinitionId} :
    (found.errors.find? k).isSome = true ↔ ∃ d ∈ checked, d.id = k ∧ d.IsTooWeak effects := by
  rw [Option.isSome_iff_exists]
  constructor
  · intro herror
    obtain ⟨diagnostic, hfound⟩ := herror
    obtain ⟨d, e, hlast, -⟩ := (h.errors k diagnostic).mp hfound
    exact ⟨d, hlast.mem, hlast.holds⟩
  · intro hweak
    obtain ⟨d, hd, hat⟩ := hweak
    obtain ⟨c, hlast⟩ := exists_isLast_of_mem (P := Definition.IsErrorAt effects k) hd hat
    obtain ⟨hck, e, he, -⟩ := hlast.holds
    exact ⟨_, (h.errors k _).mpr ⟨c, e, hlast, hck ▸ he, rfl⟩⟩

theorem isSome_suggestions_iff (h : Recorded effects checked found) {k : DefinitionId} :
    (found.suggestions.find? k).isSome = true ↔
      ∃ d ∈ checked, d.id = k ∧ d.IsTooStrong effects := by
  rw [Option.isSome_iff_exists]
  constructor
  · intro hsuggestion
    obtain ⟨q, hfound⟩ := hsuggestion
    exact ((h.suggestions k q).mp hfound).1
  · intro hstrong
    obtain ⟨d, hd, hk, e, he, hlt⟩ := hstrong
    exact ⟨_, (h.suggestions k _).mpr ⟨⟨d, hd, hk, e, he, hlt⟩, e, hk ▸ he, rfl⟩⟩

theorem errors_isEmpty_iff (h : Recorded effects checked found) :
    found.errors.isEmpty = true ↔ ∀ d ∈ checked, ¬ d.IsTooWeak effects := by
  rw [SortedMap.isEmpty_iff]
  simp only [← Option.not_isSome_iff_eq_none, h.isSome_errors_iff]
  constructor
  · intro hnone d hd hweak
    exact hnone d.id ⟨d, hd, rfl, hweak⟩
  · intro hnone k hweak
    obtain ⟨d, hd, -, hweak⟩ := hweak
    exact hnone d hd hweak

theorem suggestions_isEmpty_iff (h : Recorded effects checked found) :
    found.suggestions.isEmpty = true ↔ ∀ d ∈ checked, ¬ d.IsTooStrong effects := by
  rw [SortedMap.isEmpty_iff]
  simp only [← Option.not_isSome_iff_eq_none, h.isSome_suggestions_iff]
  constructor
  · intro hnone d hd hstrong
    exact hnone d.id ⟨d, hd, rfl, hstrong⟩
  · intro hnone k hstrong
    obtain ⟨d, hd, -, hstrong⟩ := hstrong
    exact hnone d hd hstrong

/-- The errors, in full: their identifiers and, at each of them, the last error. -/
theorem errors_exact (h : Recorded effects checked found) :
    (∀ k, k ∈ found.errors.keys ↔ ∃ d ∈ checked, d.id = k ∧ d.IsTooWeak effects) ∧
    ∀ k ∈ found.errors.keys, ∃ d e,
      IsLast (fun c => c.id = k ∧ c.IsTooWeak effects) checked d ∧ effects.find? k = some e ∧
        found.errors.find? k = some (d.complaint e) := by
  refine ⟨fun k => SortedMap.mem_keys_iff.trans h.isSome_errors_iff, fun k hk => ?_⟩
  obtain ⟨diagnostic, hfound⟩ := Option.isSome_iff_exists.mp (SortedMap.mem_keys_iff.mp hk)
  obtain ⟨d, e, hlast, he, rfl⟩ := (h.errors k diagnostic).mp hfound
  exact ⟨d, e, hlast, he, hfound⟩

/-- The suggestions, in full: their identifiers and, at each of them, the inferred qualifier. -/
theorem suggestions_exact (h : Recorded effects checked found) :
    (∀ k, k ∈ found.suggestions.keys ↔ ∃ d ∈ checked, d.id = k ∧ d.IsTooStrong effects) ∧
    ∀ k ∈ found.suggestions.keys, ∃ e,
      effects.find? k = some e ∧ found.suggestions.find? k = some e.inferMode := by
  refine ⟨fun k => SortedMap.mem_keys_iff.trans h.isSome_suggestions_iff, fun k hk => ?_⟩
  obtain ⟨q, hfound⟩ := Option.isSome_iff_exists.mp (SortedMap.mem_keys_iff.mp hk)
  obtain ⟨-, e, he, rfl⟩ := (h.suggestions k q).mp hfound
  exact ⟨e, he, hfound⟩

end Recorded

/-! ## Under a configuration -/

/-- The verdict on what has been recorded: no error, and no suggestion if suggestions are denied. -/
theorem Recorded.passes_iff {effects : EffectMap} {checked : List Definition} {found : Findings}
    (h : Recorded effects checked found) (config : CheckerConfig) :
    config.passes found.result = true ↔
      (∀ d ∈ checked, ¬ d.IsTooWeak effects) ∧
        ¬ (config.denySuggestions = true ∧ ∃ d ∈ checked, d.IsTooStrong effects) := by
  have hsome : found.suggestions.isEmpty = false ↔ ∃ d ∈ checked, d.IsTooStrong effects := by
    rw [← Bool.not_eq_true, h.suggestions_isEmpty_iff]
    simp only [Classical.not_forall, Classical.not_not, exists_prop]
  rw [← h.errors_isEmpty_iff, ← hsome, Findings.result]
  cases found.errors.isEmpty with
  | false =>
    rw [if_neg Bool.false_ne_true]
    exact iff_of_false Bool.false_ne_true fun h => Bool.false_ne_true h.1
  | true =>
    rw [if_pos rfl]
    show (!(config.denySuggestions && !found.suggestions.isEmpty)) = true ↔ _
    rw [Bool.not_eq_true', ← Bool.not_eq_true, Bool.and_eq_true, Bool.not_eq_true']
    exact (and_iff_right rfl).symm

/-- What is reported of a success is a success. -/
theorem CheckerConfig.exists_report_success (config : CheckerConfig) (suggestions : SuggestionMap) :
    ∃ reported, (config.report (.success suggestions)).result = .success reported := by
  rw [report, reported]
  split
  · exact ⟨_, rfl⟩
  · exact ⟨_, rfl⟩

/-- What passes is a success. -/
theorem CheckerConfig.isSuccess_of_passed {config : CheckerConfig} {result : CheckResult}
    (h : (config.report result).passed = true) :
    (config.report result).result.isSuccess = true := by
  cases result with
  | failure errors => cases h
  | success suggestions =>
    obtain ⟨reported, hreported⟩ := config.exists_report_success suggestions
    rw [hreported]
    rfl

/-- Where there is nothing to report, every configuration passes. -/
theorem CheckerConfig.report_success_empty (config : CheckerConfig) :
    config.report (.success .empty) = { result := .success .empty, passed := true } := by
  obtain ⟨reportSuggestions, denySuggestions⟩ := config
  cases reportSuggestions <;> cases denySuggestions <;> rfl

theorem CheckerConfig.check_of_isFirst {m : Module} {effects : EffectMap} {d : Definition}
    (config : CheckerConfig) (h : IsFirst (Definition.LacksEffect effects) m.definitions d) :
    config.check m effects = .error { id := d.id, name := d.name } := by
  rw [check, checkModes_of_isFirst h]

theorem CheckerConfig.check_recorded {m : Module} {effects : EffectMap} (config : CheckerConfig)
    (h : ∀ d ∈ m.definitions, ¬ d.LacksEffect effects) :
    ∃ found, config.check m effects = .ok (config.report found.result) ∧
      Recorded effects m.definitions found := by
  obtain ⟨found, hcheck, hrec⟩ := checkModes_recorded h
  exact ⟨found, by rw [check, hcheck], hrec⟩

/-- Every report is on the result of a check of the module. -/
theorem CheckerConfig.exists_of_check {m : Module} {effects : EffectMap} {config : CheckerConfig}
    {report : CheckReport} (h : config.check m effects = .ok report) :
    ∃ result, checkModes m effects = .ok result ∧ report = config.report result := by
  rw [check] at h
  cases hcheck : checkModes m effects with
  | error cause =>
    rw [hcheck] at h
    cases h
  | ok result =>
    rw [hcheck] at h
    cases h
    exact ⟨result, rfl, rfl⟩

/-! ## The result of a check -/

/-- **A check reports exactly what its definitions give cause for.** If some definition has no
effect, the first such definition is reported and nothing else. Otherwise the check fails exactly
when some definition is too weak, with an error for each identifier of such a definition, the last
one's; and if none is, it succeeds with a suggestion for each identifier of a definition that is too
strong, the qualifier inferred for the effect stored there. -/
theorem checkModes_exact (m : Module) (effects : EffectMap) :
    ((∃ d ∈ m.definitions, d.LacksEffect effects) →
      ∃ d, IsFirst (Definition.LacksEffect effects) m.definitions d ∧
        checkModes m effects = .error { id := d.id, name := d.name }) ∧
    ((∀ d ∈ m.definitions, ¬ d.LacksEffect effects) →
      ((∃ errors, checkModes m effects = .ok (.failure errors)) ↔
        ∃ d ∈ m.definitions, d.IsTooWeak effects) ∧
      (∀ errors, checkModes m effects = .ok (.failure errors) →
        errors.isEmpty = false ∧
        (∀ k, k ∈ errors.keys ↔ ∃ d ∈ m.definitions, d.id = k ∧ d.IsTooWeak effects) ∧
        ∀ k ∈ errors.keys, ∃ d e,
          IsLast (fun c => c.id = k ∧ c.IsTooWeak effects) m.definitions d ∧
            effects.find? k = some e ∧
            errors.find? k = some (d.complaint e)) ∧
      ((∀ d ∈ m.definitions, ¬ d.IsTooWeak effects) →
        ∃ suggestions, checkModes m effects = .ok (.success suggestions) ∧
          (∀ k, k ∈ suggestions.keys ↔ ∃ d ∈ m.definitions, d.id = k ∧ d.IsTooStrong effects) ∧
          ∀ k ∈ suggestions.keys, ∃ e,
            effects.find? k = some e ∧ suggestions.find? k = some e.inferMode)) := by
  refine ⟨fun hmissing => ?_, fun hall => ?_⟩
  · obtain ⟨d, hd, hlacks⟩ := hmissing
    obtain ⟨c, hfirst⟩ := exists_isFirst_of_mem (P := Definition.LacksEffect effects) hlacks hd
    exact ⟨c, hfirst, checkModes_of_isFirst hfirst⟩
  obtain ⟨found, hcheck, hrec⟩ := checkModes_recorded hall
  rw [hcheck]
  -- The result is a failure or a success by whether an error was recorded.
  cases hempty : found.errors.isEmpty with
  | true =>
    have hresult : found.result = .success found.suggestions := by
      rw [Findings.result, hempty, if_pos rfl]
    have hnone := hrec.errors_isEmpty_iff.mp hempty
    rw [hresult]
    refine ⟨iff_of_false ?_ ?_, ?_, fun _ => ⟨found.suggestions, rfl, hrec.suggestions_exact⟩⟩
    · intro hfails
      obtain ⟨errors, h⟩ := hfails
      cases h
    · intro hweak
      obtain ⟨d, hd, hweak⟩ := hweak
      exact hnone d hd hweak
    · intro errors h
      cases h
  | false =>
    have hresult : found.result = .failure found.errors := by
      rw [Findings.result, hempty, if_neg Bool.false_ne_true]
    have hsome : ∃ d ∈ m.definitions, d.IsTooWeak effects := by
      obtain ⟨k, diagnostic, hfound⟩ := SortedMap.isEmpty_eq_false_iff.mp hempty
      obtain ⟨d, e, hlast, -⟩ := (hrec.errors k diagnostic).mp hfound
      exact ⟨d, hlast.mem, hlast.holds.2⟩
    rw [hresult]
    refine ⟨iff_of_true ⟨_, rfl⟩ hsome, ?_, ?_⟩
    · intro errors h
      cases h
      exact ⟨hempty, hrec.errors_exact⟩
    · intro hnone
      obtain ⟨d, hd, hweak⟩ := hsome
      exact absurd hweak (hnone d hd)

/-- Of three definitions of one identifier the second is the last that is too weak. Its error stands,
although the definition after it is accepted. -/
theorem checkModes_exact_repeated :
    let m : Module :=
      { definitions := [{ id := 1, name := "a", qualifier := .pureVal },
          { id := 1, name := "b", qualifier := .val }, { id := 1, name := "c", qualifier := .action }] }
    let effects : EffectMap := .ofList [(1, .leaf (.updating .empty (.of ["x"])))]
    (∀ d ∈ m.definitions, ¬ d.LacksEffect effects) ∧ (∃ d ∈ m.definitions, d.IsTooWeak effects) ∧
      ∃ errors, checkModes m effects = .ok (.failure errors) ∧
        (∀ k, k ∈ errors.keys ↔ ∃ d ∈ m.definitions, d.id = k ∧ d.IsTooWeak effects) ∧
        (errors.find? 1).map Diagnostic.location = some "b" := by
  intro m effects
  have hall : ∀ d ∈ m.definitions, ¬ d.LacksEffect effects := by decide
  have hweak : ∃ d ∈ m.definitions, d.IsTooWeak effects := by decide
  obtain ⟨hfails, hexact, -⟩ := (checkModes_exact m effects).2 hall
  obtain ⟨errors, hcheck⟩ := hfails.mpr hweak
  refine ⟨hall, hweak, errors, hcheck, (hexact errors hcheck).2.1, ?_⟩
  have hlocation : (match checkModes m effects with
      | .ok (.failure errors) => (errors.find? 1).map Diagnostic.location
      | _ => none) = some "b" := by decide +kernel
  rw [hcheck] at hlocation
  exact hlocation

/-- **A check succeeds exactly when every definition has an effect that its declared qualifier
admits.** -/
theorem checkModes_success_iff_admits (m : Module) (effects : EffectMap) :
    (∃ suggestions, checkModes m effects = .ok (.success suggestions)) ↔
      ∀ d ∈ m.definitions, ∃ e, effects.find? d.id = some e ∧ d.qualifier.Admits e := by
  by_cases hall : ∀ d ∈ m.definitions, ¬ d.LacksEffect effects
  · obtain ⟨found, hcheck, hrec⟩ := checkModes_recorded hall
    have hsuccess : (∃ suggestions, checkModes m effects = .ok (.success suggestions)) ↔
        found.errors.isEmpty = true := by
      rw [hcheck, Findings.result]
      cases found.errors.isEmpty <;> simp
    rw [hsuccess, hrec.errors_isEmpty_iff]
    -- Not too weak is to be at least the inferred qualifier, the least one that admits the effect.
    refine forall_congr' fun d => forall_congr' fun hd => ?_
    obtain ⟨e, he⟩ := Definition.not_lacksEffect_iff.mp (hall d hd)
    rw [Definition.isTooWeak_iff he, Qualifier.not_lt, Effect.inferMode_le_iff, he]
    simp only [Option.some.injEq, exists_eq_left']
  · refine iff_of_false ?_ ?_
    · intro hsuccess
      obtain ⟨suggestions, h⟩ := hsuccess
      obtain ⟨d, hd⟩ := Classical.not_forall.mp hall
      obtain ⟨hd, hlacks⟩ := Classical.not_forall.mp hd
      obtain ⟨c, hfirst⟩ := exists_isFirst_of_mem (P := Definition.LacksEffect effects)
        (Classical.not_not.mp hlacks) hd
      rw [checkModes_of_isFirst hfirst] at h
      cases h
    · intro h
      refine hall fun d hd => ?_
      obtain ⟨e, he, -⟩ := h d hd
      exact Definition.not_lacksEffect_iff.mpr ⟨e, he⟩

end OperatorModes
