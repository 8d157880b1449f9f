import Mathlib.Data.List.Dedup
import OperatorModes.Proofs.Check

/-!
# The log of a check

A walk logs on two levels: reducing an effect leaves an entry, and so does what comes of the
definition it belongs to. `Definition.entries` says what the two are for one definition, by the chain
of qualifiers alone. What has been found before has no part in it, so a walk over definitions with
effects logs their entries one after another (`log_walk_append`), and what the log ends with depends
on whether the walk meets a definition without one. The summary counts findings as they are kept, by
identifier: `size_errors_eq` and `size_suggestions_eq` say it in terms of the definitions.

> `checkModes_log`: the log of a check, entry for entry, and the result that goes with it.
-/

namespace OperatorModes

/-! ## Entries -/

/-- **What the log shows of an event**: its level, its text and the values that go with it. -/
structure LogEntry where
  level : Event.Level
  message : String
  fields : List (String × String)
  deriving DecidableEq, Repr

/-- An event as the log shows it. -/
def Event.entry (event : Event) : LogEntry :=
  { level := event.level, message := event.message, fields := event.fields }

/-- The entry for an effect that is reduced. -/
def Effect.reductionEntry (e : Effect) : LogEntry :=
  { level := .trace
    message := "reduced effect"
    fields := [("effect", e.render), ("mode", e.inferMode.name)] }

namespace Definition

/-- The entry for how the declared qualifier of a definition stands to the one inferred for an
effect. -/
def verdictEntry (d : Definition) (e : Effect) : LogEntry :=
  if d.qualifier = e.inferMode then
    { level := .debug
      message := "accepted"
      fields := [("name", d.name), ("qualifier", d.qualifier.name)] }
  else if d.qualifier < e.inferMode then
    { level := .debug
      message := tooWeakText d.name d.qualifier e.inferMode e
      fields := [("name", d.name)] }
  else
    { level := .debug
      message := "qualifier stronger than needed"
      fields := [("name", d.name), ("declared", d.qualifier.name),
        ("suggested", e.inferMode.name)] }

/-- What checking a definition leaves in the log: two entries if there is an effect for it. -/
def entries (effects : EffectMap) (d : Definition) : List LogEntry :=
  match effects.find? d.id with
  | some e => [e.reductionEntry, d.verdictEntry e]
  | none => []

/-- The identifiers of the definitions with a property, each once. -/
def idsOf (P : Definition → Prop) [DecidablePred P] (definitions : List Definition) :
    List DefinitionId :=
  ((definitions.filter fun d => P d).map Definition.id).dedup

end Definition

/-- The entry that says for which definition of a module there is no effect. -/
def Module.missingEntry (m : Module) (d : Definition) : LogEntry :=
  { level := .error
    message := "internal error: no effect found for definition '" ++ d.name ++ "' (id "
      ++ toString d.id.toNat ++ ")"
    fields := [("module", m.name)] }

/-- The entry that sums up a check that has come to its end. -/
def Module.summaryEntry (m : Module) (errors suggestions : Nat) : LogEntry :=
  { level := .info
    message := "mode check finished"
    fields := [("module", m.name), ("definitions", toString m.definitions.length),
      ("errors", toString errors), ("suggestions", toString suggestions)] }

/-- The events that come with a value, as the log shows them. -/
def Logged.log {α : Type} (x : Logged α) : List LogEntry :=
  x.events.map Event.entry

/-- The complaint about a missing effect, with its parts side by side. -/
theorem MissingEffect.message_eq (cause : MissingEffect) :
    cause.message = "internal error: no effect found for definition '" ++ cause.name ++ "' (id "
      ++ toString cause.id.toNat ++ ")" := by
  have htext : "internal error: " ++ "no effect found for definition '"
      = "internal error: no effect found for definition '" := by decide
  show "internal error: " ++ ("no effect found for definition '" ++ cause.name ++ "' (id "
    ++ toString cause.id.toNat ++ ")") = _
  rw [← String.append_assoc, ← String.append_assoc, ← String.append_assoc, ← String.append_assoc]
  exact congrArg (· ++ cause.name ++ "' (id " ++ toString cause.id.toNat ++ ")") htext

/-! ## One definition -/

section

variable {effects : EffectMap} {d : Definition} {e : Effect}

/-- The event for an outcome shows how the two qualifiers stand to each other. -/
theorem entry_event_judge (d : Definition) (e : Effect) :
    ((d.judge e).event d).entry = d.verdictEntry e := by
  unfold Definition.verdictEntry
  rcases d.judge_cases e with ⟨heq, hj⟩ | ⟨hlt, hj⟩ | ⟨hgt, hj⟩
  · rw [hj, if_pos heq]
    rfl
  · rw [hj, if_neg (Qualifier.ne_of_lt hlt), if_pos hlt]
    rfl
  · have hnot : ¬ d.qualifier < e.inferMode := fun hlt => Nat.lt_asymm hlt hgt
    rw [hj, if_neg (Qualifier.ne_of_lt hgt).symm, if_neg hnot]
    rfl

theorem entries_of_some (he : effects.find? d.id = some e) :
    d.entries effects = [e.reductionEntry, d.verdictEntry e] := by
  rw [Definition.entries, he]

/-- A definition with an effect leaves its entries and has its outcome recorded. -/
theorem log_walk_cons {name : String} {rest : List Definition} {found : Findings}
    (he : effects.find? d.id = some e) :
    (walk name effects (d :: rest) found).log
      = d.entries effects ++ (walk name effects rest (found.record d (d.judge e))).log := by
  have hreduction : checkDefinitionEvents d effects = [.reduced e e.inferMode] := by
    rw [checkDefinitionEvents, he]
  rw [entries_of_some he, Logged.log, walk, checkDefinition_of_some he, hreduction,
    ← entry_event_judge]
  rfl

/-- A definition without an effect is the last that the log tells of. -/
theorem log_walk_of_lacksEffect {m : Module} {rest : List Definition} {found : Findings}
    (h : d.LacksEffect effects) :
    (walk m.name effects (d :: rest) found).log = [m.missingEntry d] := by
  have hreduction : checkDefinitionEvents d effects = [] := by
    rw [checkDefinitionEvents, show effects.find? d.id = none from h]
  rw [Logged.log, walk, checkDefinition_of_lacksEffect h, hreduction, Module.missingEntry,
    ← MissingEffect.message_eq { id := d.id, name := d.name }]
  rfl

end

/-! ## Walks -/

/-- A walk logs the entries of the definitions it gets past, whatever comes after them. -/
theorem log_walk_append {effects : EffectMap} (name : String) (rest : List Definition) :
    ∀ {before : List Definition} (found : Findings), (∀ d ∈ before, ¬ d.LacksEffect effects) →
      ∃ found', (walk name effects (before ++ rest) found).log
        = before.flatMap (Definition.entries effects) ++ (walk name effects rest found').log
  | [], found, _ => ⟨found, rfl⟩
  | d :: before, found, h => by
    obtain ⟨hd, hbefore⟩ := List.forall_mem_cons.mp h
    obtain ⟨e, he⟩ := Definition.not_lacksEffect_iff.mp hd
    obtain ⟨found', hlog⟩ := log_walk_append name rest (found.record d (d.judge e)) hbefore
    refine ⟨found', ?_⟩
    rw [List.cons_append, log_walk_cons he, hlog, List.flatMap_cons, List.append_assoc]

/-! ## Counting -/

/-- The keys of a map that are the identifiers of the definitions with a property are counted by
them. -/
theorem SortedMap.size_eq_length_idsOf {α : Type} {checked : List Definition}
    {P : Definition → Prop} [DecidablePred P] {kept : SortedMap DefinitionId α}
    (h : ∀ k, k ∈ kept.keys ↔ ∃ d ∈ checked, d.id = k ∧ P d) :
    kept.size = (Definition.idsOf P checked).length := by
  refine (SortedMap.size_eq_length_iff fun k => ?_).mpr (List.nodup_dedup _)
  rw [h k, Definition.idsOf, List.mem_dedup]
  simp only [List.mem_map, List.mem_filter, decide_eq_true_iff]
  exact exists_congr fun d => and_right_comm.trans and_assoc

/-- Nothing else makes a failure than an error that is counted. -/
theorem Findings.isSuccess_result_iff (found : Findings) :
    found.result.isSuccess = true ↔ found.errors.size = 0 := by
  have hempty : found.errors.isEmpty = true ↔ found.errors.size = 0 :=
    List.isEmpty_iff_length_eq_zero
  rw [← hempty, Findings.result]
  cases found.errors.isEmpty with
  | false => exact iff_of_false Bool.false_ne_true Bool.false_ne_true
  | true => exact iff_of_true rfl rfl

namespace Recorded

variable {effects : EffectMap} {checked : List Definition} {found : Findings}

theorem size_errors_eq (h : Recorded effects checked found) :
    found.errors.size
      = (Definition.idsOf (Definition.IsTooWeak effects) checked).length :=
  SortedMap.size_eq_length_idsOf h.errors_exact.1

theorem size_suggestions_eq (h : Recorded effects checked found) :
    found.suggestions.size
      = (Definition.idsOf (Definition.IsTooStrong effects) checked).length :=
  SortedMap.size_eq_length_idsOf h.suggestions_exact.1

end Recorded

/-! ## Modules -/

section

variable {m : Module} {effects : EffectMap}

theorem log_checkModesLogged_of_error {cause : MissingEffect}
    (h : (walk m.name effects m.definitions {}).value = .error cause) :
    (checkModesLogged m effects).log = (walk m.name effects m.definitions {}).log := by
  rw [checkModesLogged]
  simp only [h]
  rfl

theorem log_checkModesLogged_of_ok {found : Findings}
    (h : (walk m.name effects m.definitions {}).value = .ok found) :
    (checkModesLogged m effects).log
      = (walk m.name effects m.definitions {}).log
        ++ [m.summaryEntry found.errors.size found.suggestions.size] := by
  rw [checkModesLogged]
  simp only [h]
  exact List.map_append

/-- **The log of a check mirrors the check.** Up to the first definition without an effect each
definition has two entries, in document order: its effect with what that is reduced to, and how its
declared qualifier stands to it. If there is such a definition, one entry names it, which is the last,
and so does the fault that is returned. Otherwise a summary ends the log; it counts the definitions,
and by their different identifiers those that are too weak and those that are too strong; and the check
succeeds exactly when it counts no error. -/
theorem checkModes_log (m : Module) (effects : EffectMap) :
    let run := checkModesLogged m effects
    let errors := (Definition.idsOf (Definition.IsTooWeak effects) m.definitions).length
    let suggestions := (Definition.idsOf (Definition.IsTooStrong effects) m.definitions).length
    (∀ before d after, m.definitions = before ++ d :: after →
      (∀ c ∈ before, ¬ c.LacksEffect effects) → d.LacksEffect effects →
      run.log = before.flatMap (Definition.entries effects) ++ [m.missingEntry d] ∧
        run.value = .error { id := d.id, name := d.name }) ∧
    ((∀ d ∈ m.definitions, ¬ d.LacksEffect effects) →
      run.log = m.definitions.flatMap (Definition.entries effects)
          ++ [m.summaryEntry errors suggestions] ∧
        ∃ result, run.value = .ok result ∧ (result.isSuccess = true ↔ errors = 0)) := by
  intro run errors suggestions
  constructor
  · intro before d after hdefinitions hbefore hlacks
    have hfirst : IsFirst (Definition.LacksEffect effects) m.definitions d :=
      ⟨before, after, hdefinitions, hlacks, hbefore⟩
    obtain ⟨found, hlog⟩ := log_walk_append m.name (d :: after) {} hbefore
    refine ⟨?_, checkModes_of_isFirst hfirst⟩
    show (checkModesLogged m effects).log = _
    rw [log_checkModesLogged_of_error (walk_of_isFirst hfirst), hdefinitions, hlog,
      log_walk_of_lacksEffect hlacks]
  · intro hall
    obtain ⟨found, hwalk, hrec⟩ := walk_recorded m.name m.definitions hall (recorded_nil effects)
    obtain ⟨_, hlog⟩ := log_walk_append m.name [] {} hall
    have herrors : found.errors.size = errors := hrec.size_errors_eq
    have hsuggestions : found.suggestions.size = suggestions := hrec.size_suggestions_eq
    refine ⟨?_, found.result, checkModes_of_walk_ok hwalk, ?_⟩
    · rw [List.append_nil] at hlog
      show (checkModesLogged m effects).log = _
      rw [log_checkModesLogged_of_ok hwalk, hlog, herrors, hsuggestions]
      exact congrArg (· ++ _) (List.append_nil _)
    · rw [← herrors]
      exact found.isSuccess_result_iff

end

/-- Of four definitions with one identifier two are too weak and one is too strong, so one error and
one suggestion are counted. In a second module the definition in the middle has no effect, and the
error before it is logged although no result tells of it. -/
theorem checkModes_log_shared :
    let a : Definition := { id := 1, name := "a", qualifier := .pureVal }
    let b : Definition := { id := 1, name := "b", qualifier := .val }
    let c : Definition := { id := 1, name := "c", qualifier := .temporal }
    let d : Definition := { id := 1, name := "d", qualifier := .action }
    let ghost : Definition := { id := 2, name := "ghost", qualifier := .val }
    let effects : EffectMap := .ofList [(1, .leaf (.updating .empty (.of ["x"])))]
    let whole : Module := { name := "m", definitions := [a, b, c, d] }
    let broken : Module := { name := "n", definitions := [b, ghost, c] }
    (checkModesLogged whole effects).log
        = [a, b, c, d].flatMap (Definition.entries effects) ++ [whole.summaryEntry 1 1] ∧
      (∃ result, (checkModesLogged whole effects).value = .ok result ∧
        (result.isSuccess = true ↔ 1 = 0)) ∧
      (checkModesLogged broken effects).log
        = b.entries effects ++ [broken.missingEntry ghost] ∧
      (checkModesLogged broken effects).value = .error { id := 2, name := "ghost" } := by
  intro a b c d ghost effects whole broken
  have hall : ∀ d ∈ whole.definitions, ¬ d.LacksEffect effects := by decide
  obtain ⟨hlog, hresult⟩ := (checkModes_log whole effects).2 hall
  obtain ⟨hlog', hvalue'⟩ :=
    (checkModes_log broken effects).1 [b] ghost [c] rfl (by decide) (by decide)
  have herrors : (Definition.idsOf (Definition.IsTooWeak effects) whole.definitions).length = 1 := by
    decide
  have hsuggestions :
      (Definition.idsOf (Definition.IsTooStrong effects) whole.definitions).length = 1 := by
    decide
  rw [herrors, hsuggestions] at hlog
  rw [herrors] at hresult
  exact ⟨hlog, hresult, hlog', hvalue'⟩

end OperatorModes
