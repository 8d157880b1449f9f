import OperatorModes.Proofs.Report

/-!
# Inference and check agree

An inference and a check go over the same definitions in walks of their own: the one makes a row of
each, the other keeps findings by identifier and comes to a verdict. Both stop at the first definition
without an effect, each with a fault of its own kind, and `FirstMissing` is when. Where neither stops,
a definition is too weak or too strong exactly when its own row says so (`AreRows.exists_tooWeak_iff`,
`AreRows.exists_tooStrong_iff`), which holds however often an identifier is repeated, although what a
check reports need not tell the definitions apart. So the rows decide the verdict. How a row is printed
is spelled out (`IsRowLine`): its line tells the two cases apart by the sign. What is printed of a row
is one text, which takes up more than one line if there are line breaks in the name.

> `infer_check_agree`: both fail together and name the same definition, or the rows are complete and
> say how the check ends.
-/

namespace OperatorModes.Cli

/-! ## Rows -/

/-- **The rows of a list of definitions**: one for each, in their order, with the qualifier inferred
for the effect that is stored for it. -/
structure AreRows (effects : EffectMap) (definitions : List Definition)
    (rows : List (Definition × Qualifier)) : Prop where
  definitions : rows.map Prod.fst = definitions
  inferred : ∀ row ∈ rows, ∃ e, effects.find? row.1.id = some e ∧ row.2 = e.inferMode

section

variable {effects : EffectMap} {definitions : List Definition} {rows : List (Definition × Qualifier)}

theorem inferRows_cons {d : Definition} {rest : List Definition} {e : Effect}
    (he : effects.find? d.id = some e) :
    inferRows effects (d :: rest)
      = (inferRows effects rest).map fun rows => (d, e.inferMode) :: rows := by
  rw [inferRows, he]
  cases inferRows effects rest <;> rfl

/-- An inference stops at the first definition without an effect. -/
theorem inferRows_of_isFirst {d : Definition}
    (h : IsFirst (Definition.LacksEffect effects) definitions d) :
    inferRows effects definitions = .error { id := d.id, name := d.name } := by
  obtain ⟨before, after, rfl, hd, hbefore⟩ := h
  induction before with
  | nil =>
    rw [List.nil_append, inferRows, show effects.find? d.id = none from hd]
  | cons c before ih =>
    obtain ⟨hc, hbefore⟩ := List.forall_mem_cons.mp hbefore
    obtain ⟨e, he⟩ := Definition.not_lacksEffect_iff.mp hc
    rw [List.cons_append, inferRows_cons he, ih hbefore]
    rfl

theorem exists_inferRows :
    ∀ {definitions : List Definition}, (∀ d ∈ definitions, ¬ d.LacksEffect effects) →
      ∃ rows, inferRows effects definitions = .ok rows ∧ AreRows effects definitions rows
  | [], _ => ⟨[], rfl, rfl, fun _ hrow => absurd hrow (List.not_mem_nil)⟩
  | d :: rest, h => by
    obtain ⟨hd, hrest⟩ := List.forall_mem_cons.mp h
    obtain ⟨e, he⟩ := Definition.not_lacksEffect_iff.mp hd
    obtain ⟨rows, hrows, hdefinitions, hinferred⟩ := exists_inferRows hrest
    refine ⟨(d, e.inferMode) :: rows, by rw [inferRows_cons he, hrows]; rfl, ?_, ?_⟩
    · rw [List.map_cons, hdefinitions]
    · exact List.forall_mem_cons.mpr ⟨⟨e, he, rfl⟩, hinferred⟩

namespace AreRows

/-- What holds of some definition holds of the definition of some row. -/
theorem exists_definition_iff (h : AreRows effects definitions rows) {P : Definition → Prop} :
    (∃ d ∈ definitions, P d) ↔ ∃ row ∈ rows, P row.1 := by
  rw [← h.definitions]
  simp only [List.mem_map, exists_exists_and_eq_and]

theorem exists_tooWeak_iff (h : AreRows effects definitions rows) :
    (∃ d ∈ definitions, d.IsTooWeak effects) ↔ ∃ row ∈ rows, row.1.qualifier < row.2 := by
  rw [h.exists_definition_iff]
  refine exists_congr fun row => and_congr_right fun hrow => ?_
  obtain ⟨e, he, hinferred⟩ := h.inferred row hrow
  rw [Definition.isTooWeak_iff he, hinferred]

theorem exists_tooStrong_iff (h : AreRows effects definitions rows) :
    (∃ d ∈ definitions, d.IsTooStrong effects) ↔ ∃ row ∈ rows, row.2 < row.1.qualifier := by
  rw [h.exists_definition_iff]
  refine exists_congr fun row => and_congr_right fun hrow => ?_
  obtain ⟨e, he, hinferred⟩ := h.inferred row hrow
  rw [Definition.isTooStrong_iff he, hinferred]

end AreRows

/-- Both qualifiers are the same in every row when neither is below the other in any. -/
theorem forall_eq_iff :
    (∀ row ∈ rows, row.1.qualifier = row.2) ↔
      (¬ ∃ row ∈ rows, row.1.qualifier < row.2) ∧ ¬ ∃ row ∈ rows, row.2 < row.1.qualifier := by
  constructor
  · intro h
    refine ⟨fun hweak => ?_, fun hstrong => ?_⟩
    · obtain ⟨row, hrow, hlt⟩ := hweak
      exact Qualifier.ne_of_lt hlt (h row hrow)
    · obtain ⟨row, hrow, hlt⟩ := hstrong
      exact Qualifier.ne_of_lt hlt (h row hrow).symm
  · intro h row hrow
    obtain ⟨hweak, hstrong⟩ := h
    apply Qualifier.le_antisymm
    · exact Qualifier.not_lt.mp fun hlt => hstrong ⟨row, hrow, hlt⟩
    · exact Qualifier.not_lt.mp fun hlt => hweak ⟨row, hrow, hlt⟩

/-- The verdict on what has been recorded, by the rows of the same definitions. -/
theorem passes_iff_of_areRows {found : Findings} (hrec : Recorded effects definitions found)
    (hrows : AreRows effects definitions rows) (config : CheckerConfig) :
    config.passes found.result = true ↔
      (¬ ∃ row ∈ rows, row.1.qualifier < row.2) ∧
        ¬ (config.denySuggestions = true ∧ ∃ row ∈ rows, row.2 < row.1.qualifier) := by
  rw [hrec.passes_iff, ← hrows.exists_tooWeak_iff, ← hrows.exists_tooStrong_iff, not_exists]
  simp only [not_and]

end

/-! ## What is printed of a row -/

/-- **A text in a column of some width**: after it only spaces, as many as it is short of the width.
Characters are counted, and a longer text stands as it is. -/
def InColumn (width : Nat) (text column : String) : Prop :=
  ∃ spaces, column = text ++ String.ofList (List.replicate spaces ' ') ∧
    column.length = max width text.length

/-- The sign between qualifiers that are the same, or that are not, plain or in its colour. -/
def signText : (colour same : Bool) → String
  | false, true => "="
  | false, false => "≠"
  | true, true => "\x1b[32m=\x1b[0m"
  | true, false => "\x1b[33m≠\x1b[0m"

/-- **The line of a row**, with the sign for qualifiers that are the same or with the other: the name
in a column of 24 characters, the keyword of the declared qualifier in one of 10, the sign, and the
keyword of the inferred one. -/
def IsRowLine (colour same : Bool) (row : Definition × Qualifier) (line : String) : Prop :=
  ∃ name declared, InColumn 24 row.1.name name ∧ InColumn 10 row.1.qualifier.keyword declared ∧
    line = name ++ " declared " ++ declared ++ " " ++ signText colour same ++ " inferred "
      ++ row.2.keyword

/-- A row as an entry of the document, its members in key order. -/
def rowDocument (row : Definition × Qualifier) : Json :=
  .obj [("declared", .str row.1.qualifier.name), ("id", .word row.1.id),
    ("inferred", .str row.2.name), ("name", .str row.1.name)]

theorem inColumn_padRight (width : Nat) (text : String) :
    InColumn width text (padRight width text) := by
  refine ⟨width - text.length, rfl, ?_⟩
  rw [padRight, String.length_append, String.length_ofList, List.length_replicate]
  omega

/-- What stands in a column is settled by its text and its width. -/
theorem InColumn.unique {width : Nat} {text column column' : String}
    (h : InColumn width text column) (h' : InColumn width text column') : column = column' := by
  obtain ⟨spaces, rfl, hlength⟩ := h
  obtain ⟨spaces', rfl, hlength'⟩ := h'
  rw [String.length_append, String.length_ofList, List.length_replicate] at hlength hlength'
  have hspaces : spaces = spaces' := by omega
  rw [hspaces]

theorem signText_inj (colour : Bool) {same same' : Bool} :
    signText colour same = signText colour same' ↔ same = same' := by
  cases colour <;> cases same <;> cases same' <;> decide

/-- The sign of a line is the one that its qualifiers call for. -/
theorem rowLine_eq (colour : Bool) (row : Definition × Qualifier) :
    rowLine colour row = padRight 24 row.1.name ++ " declared "
      ++ padRight 10 row.1.qualifier.keyword ++ " "
      ++ signText colour (decide (row.1.qualifier = row.2)) ++ " inferred " ++ row.2.keyword := by
  rw [rowLine]
  by_cases heq : row.1.qualifier = row.2
  · rw [if_pos heq.symm, decide_eq_true heq]
    cases colour <;> rfl
  · rw [if_neg fun h => heq h.symm, decide_eq_false heq]
    cases colour <;> rfl

/-- A row is printed as its line, with the sign of equality exactly when declared and inferred
qualifier are the same. -/
theorem isRowLine_rowLine_iff {colour same : Bool} {row : Definition × Qualifier} :
    IsRowLine colour same row (rowLine colour row) ↔ same = decide (row.1.qualifier = row.2) := by
  rw [rowLine_eq]
  constructor
  · intro h
    obtain ⟨name, declared, hname, hdeclared, hline⟩ := h
    rw [hname.unique (inColumn_padRight _ _), hdeclared.unique (inColumn_padRight _ _)] at hline
    simp only [← String.toList_inj, String.toList_append, List.append_cancel_left_eq,
      List.append_cancel_right_eq] at hline
    exact ((signText_inj colour).mp (String.toList_inj.mp hline)).symm
  · intro h
    rw [h]
    exact ⟨_, _, inColumn_padRight _ _, inColumn_padRight _ _, rfl⟩

theorem integral_rowDocument (row : Definition × Qualifier) : Json.Integral (rowDocument row) := by
  refine .obj ?_
  simp only [List.forall_mem_cons]
  exact ⟨.str _, .int (Json.fitsWord_toNat row.1.id), .str _, .str _, List.forall_mem_nil _⟩

/-- The document that an inference prints has one entry for each row. -/
theorem readAll_rows (rows : List (Definition × Qualifier)) :
    Json.readAll Json.tree (Json.arr (rows.map rowEntry)).pretty
      = .ok (.arr (rows.map rowDocument)) := by
  have hprinted : (Json.arr (rows.map rowEntry)).canonical = .arr (rows.map rowDocument) := by
    rw [Json.canonical, Json.canonicalItems_eq_map, List.map_map]
    rfl
  have hdepth : (Json.arr (rows.map rowDocument)).depth ≤ Json.depthLimit := by
    have hitems : Json.depthOfItems (rows.map rowDocument) ≤ 1 :=
      Json.depthOfItems_map_le (fun _ => Nat.le_refl 1) rows
    show Json.depthOfItems _ + 1 ≤ 127
    omega
  have hintegral : Json.Integral (Json.arr (rows.map rowDocument)) :=
    Json.integral_arr_map fun row _ => integral_rowDocument row
  rw [Json.readAll_pretty (hprinted ▸ hintegral) (hprinted ▸ hdepth), hprinted]

/-- The line shows the row with the sign that its qualifiers call for, and with no other. -/
def ShowsRow (colour : Bool) (row : Definition × Qualifier) (line : String) : Prop :=
  ∀ same, IsRowLine colour same row line ↔ (same = true ↔ row.1.qualifier = row.2)

theorem showsRow_rowLine (colour : Bool) (row : Definition × Qualifier) :
    ShowsRow colour row (rowLine colour row) := by
  intro same
  rw [isRowLine_rowLine_iff, Bool.eq_iff_iff, decide_eq_true_iff]

/-- All rows are shown with the sign of equality exactly when the qualifiers are the same in each. -/
theorem forall₂_isRowLine_iff {colour : Bool} {rows : List (Definition × Qualifier)}
    {lines : List String} (h : List.Forall₂ (ShowsRow colour) rows lines) :
    List.Forall₂ (IsRowLine colour true) rows lines ↔ ∀ row ∈ rows, row.1.qualifier = row.2 := by
  induction h with
  | nil => exact iff_of_true .nil (List.forall_mem_nil _)
  | cons hline _ ih =>
    rw [List.forall₂_cons, List.forall_mem_cons, hline true, ih]
    exact and_congr_left fun _ => ⟨fun h => h.mp rfl, fun h => iff_of_true rfl h⟩

/-- **What an inference leaves behind for its rows**: one line that shows each row, or one document with
an entry for each, and nothing on the error output. -/
def Prints (colour json : Bool) (rows : List (Definition × Qualifier)) (output : Output) : Prop :=
  output.exit = 0 ∧ output.err = [] ∧
    if json then
      ∃ text, output.out = [text] ∧ Json.readAll Json.tree text = .ok (.arr (rows.map rowDocument))
    else List.Forall₂ (ShowsRow colour) rows output.out

theorem prints_inferReport (colour json : Bool) (rows : List (Definition × Qualifier)) :
    Prints colour json rows (inferReport colour json rows) := by
  cases json with
  | true => exact ⟨rfl, rfl, _, rfl, readAll_rows rows⟩
  | false =>
    exact ⟨rfl, rfl, List.forall₂_map_right_iff.mpr
      (List.forall₂_same.mpr fun row _ => showsRow_rowLine colour row)⟩

/-! ## How both commands end -/

/-- The input in a file has a definition without an effect, and this is said of the first of them. -/
def FirstMissing (files : Files) (file : String) (cause : MissingEffect) : Prop :=
  ∃ input d, Holds files CheckInput.ofDocument file input ∧
    IsFirst (Definition.LacksEffect input.effects) input.module.definitions d ∧
    cause = { id := d.id, name := d.name }

section

variable {files : Files} {file : String} {json deny : Bool} {cause : MissingEffect}

theorem rows_of_holds {input : CheckInput} {rows : List (Definition × Qualifier)}
    (hinput : Holds files CheckInput.ofDocument file input)
    (hrows : inferRows input.effects input.module.definitions = .ok rows) :
    InferOptions.rows files { file, json } = .ok rows := by
  simp only [InferOptions.rows, loadInput, load_of_holds hinput, hrows]

theorem FirstMissing.rows_eq (h : FirstMissing files file cause) :
    InferOptions.rows files { file, json } = .error (.nothingToInfer cause) := by
  obtain ⟨input, d, hinput, hfirst, rfl⟩ := h
  simp only [InferOptions.rows, loadInput, load_of_holds hinput, inferRows_of_isFirst hfirst]

theorem FirstMissing.report_eq (h : FirstMissing files file cause) :
    CheckOptions.report files { file, json, denySuggestions := deny }
      = .error (.missingEffect cause) := by
  obtain ⟨input, d, hinput, hfirst, rfl⟩ := h
  simp only [CheckOptions.report, loadConfig, loadInput, load_of_holds hinput,
    CheckerConfig.check_of_isFirst _ hfirst]

/-- An input that cannot be loaded is no fault of a definition. -/
theorem loadInput_error {fault : RunFault} (h : loadInput files file = .error fault) :
    ∀ cause, fault ≠ .missingEffect cause ∧ fault ≠ .nothingToInfer cause := by
  intro cause
  unfold loadInput load at h
  split at h
  · cases h
    exact ⟨nofun, nofun⟩
  · split at h
    · cases h
    · cases h
      exact ⟨nofun, nofun⟩

/-- Both commands end in one of three ways: they cannot load their input, they miss an effect, or the
one has its rows and the other a report with the verdict that the rows give. -/
theorem agreement_cases (files : Files) (file : String) :
    (∃ fault, (∀ cause, fault ≠ .missingEffect cause ∧ fault ≠ .nothingToInfer cause) ∧
      (∀ json, InferOptions.rows files { file, json } = .error fault) ∧
      ∀ json deny,
        CheckOptions.report files { file, json, denySuggestions := deny } = .error fault) ∨
    (∃ cause, FirstMissing files file cause) ∨
    ∃ input rows, Holds files CheckInput.ofDocument file input ∧
      AreRows input.effects input.module.definitions rows ∧
      (∀ json, InferOptions.rows files { file, json } = .ok rows) ∧
      ∀ json deny, ∃ report,
        CheckOptions.report files { file, json, denySuggestions := deny } = .ok (input, report) ∧
        (report.passed = true ↔
          (¬ ∃ row ∈ rows, row.1.qualifier < row.2) ∧
            ¬ (deny = true ∧ ∃ row ∈ rows, row.2 < row.1.qualifier)) := by
  rcases load_cases files CheckInput.ofDocument .badInput file with
    ⟨input, hinput, hload⟩ | ⟨-, fault, hload⟩
  · right
    by_cases hlacks : ∃ d ∈ input.module.definitions, d.LacksEffect input.effects
    · left
      obtain ⟨d, hd, hlack⟩ := hlacks
      obtain ⟨first, hfirst⟩ :=
        exists_isFirst_of_mem (P := Definition.LacksEffect input.effects) hlack hd
      exact ⟨_, input, first, hinput, hfirst, rfl⟩
    · right
      have hall : ∀ d ∈ input.module.definitions, ¬ d.LacksEffect input.effects :=
        fun d hd h => hlacks ⟨d, hd, h⟩
      obtain ⟨rows, hinfer, hrows⟩ := exists_inferRows hall
      refine ⟨input, rows, hinput, hrows, fun _ => rows_of_holds hinput hinfer,
        fun json deny => ?_⟩
      let settings : CheckerConfig := { denySuggestions := deny }
      have hsettings : CheckOptions.settings { file, json, denySuggestions := deny } {}
          = settings := by
        cases deny <;> rfl
      obtain ⟨found, hcheck, hrec⟩ := settings.check_recorded hall
      refine ⟨settings.report found.result, ?_, passes_iff_of_areRows hrec hrows settings⟩
      simp only [CheckOptions.report, loadConfig, loadInput, hload, hsettings, hcheck]
  · left
    refine ⟨fault, loadInput_error hload, fun json => ?_, fun json deny => ?_⟩
    · simp only [InferOptions.rows, loadInput, hload]
    · simp only [CheckOptions.report, loadConfig, loadInput, hload]

/-- An inference misses an effect exactly when there is a first definition that lacks one. -/
theorem rows_eq_nothingToInfer_iff :
    InferOptions.rows files { file, json } = .error (.nothingToInfer cause) ↔
      FirstMissing files file cause := by
  refine ⟨fun h => ?_, fun h => h.rows_eq⟩
  rcases agreement_cases files file with
    ⟨fault, hother, hrows, -⟩ | ⟨cause', hfirst⟩ | ⟨input, rows, -, -, hrows, -⟩
  · rw [hrows, Except.error.injEq] at h
    exact absurd h (hother cause).2
  · rw [hfirst.rows_eq, Except.error.injEq, RunFault.nothingToInfer.injEq] at h
    rwa [h] at hfirst
  · rw [hrows] at h
    cases h

/-- A check misses an effect exactly then, too. -/
theorem report_eq_missingEffect_iff :
    CheckOptions.report files { file, json, denySuggestions := deny }
        = .error (.missingEffect cause) ↔
      FirstMissing files file cause := by
  refine ⟨fun h => ?_, fun h => h.report_eq⟩
  rcases agreement_cases files file with
    ⟨fault, hother, -, hreport⟩ | ⟨cause', hfirst⟩ | ⟨input, rows, -, -, -, hreport⟩
  · rw [hreport, Except.error.injEq] at h
    exact absurd h (hother cause).1
  · rw [hfirst.report_eq, Except.error.injEq, RunFault.missingEffect.injEq] at h
    rwa [h] at hfirst
  · obtain ⟨report, hok, -⟩ := hreport json deny
    rw [hok] at h
    cases h

end

theorem run_infer_of_error {files : Files} {options : InferOptions} {fault : RunFault}
    (colour : Bool) (h : options.rows files = .error fault) :
    run files colour (.infer options) = fault.output colour := by
  rw [run, runInfer, h]

theorem run_infer_of_ok {files : Files} {options : InferOptions}
    {rows : List (Definition × Qualifier)} (colour : Bool) (h : options.rows files = .ok rows) :
    run files colour (.infer options) = inferReport colour options.json rows := by
  rw [run, runInfer, h]

theorem run_check_of_error {files : Files} {options : CheckOptions} {fault : RunFault}
    (colour : Bool) (h : options.report files = .error fault) :
    run files colour (.check options) = fault.output colour := by
  rw [run, runCheck, h]

theorem exitOf_ne_two (passed : Bool) : exitOf passed ≠ 2 := by
  cases passed <;> decide

theorem exitOf_eq_one_iff {passed : Bool} : exitOf passed = 1 ↔ ¬ passed = true := by
  cases passed <;> decide

/-- Both commands fail on the same files. -/
theorem exit_infer_eq_two_iff (files : Files) (colour : Bool) (file : String)
    (inferJson checkJson deny : Bool) :
    (run files colour (.infer { file, json := inferJson })).exit = 2 ↔
      (run files colour (.check { file, json := checkJson, denySuggestions := deny })).exit = 2 := by
  rcases agreement_cases files file with
    ⟨fault, -, hrows, hreport⟩ | ⟨cause, hfirst⟩ | ⟨input, rows, -, -, hrows, hreport⟩
  · rw [run_infer_of_error colour (hrows inferJson),
      run_check_of_error colour (hreport checkJson deny)]
  · rw [run_infer_of_error colour hfirst.rows_eq, run_check_of_error colour hfirst.report_eq]
    exact Iff.rfl
  · obtain ⟨report, hok, -⟩ := hreport checkJson deny
    rw [run_infer_of_ok colour (hrows inferJson), exit_runCheck_of_report hok,
      (prints_inferReport colour inferJson rows).1]
    exact iff_of_false (by decide) (exitOf_ne_two _)

/-- **`infer` and `check` agree.** Without a configuration they end with 2 on the same files, and where
an effect is missing both name the first definition without one. Otherwise `infer` ends with 0 and
prints the rows of the definitions in the file, and the rows say how `check` ends: with 1 exactly when
in some row the declared qualifier is below the inferred one, and with 0, if suggestions are denied,
exactly when they are the same in every row. In words that is when every line has the sign of
equality. -/
theorem infer_check_agree (files : Files) (colour : Bool) (file : String)
    (inferJson checkJson : Bool) :
    let infer := run files colour (.infer { file, json := inferJson })
    let check := fun deny =>
      run files colour (.check { file, json := checkJson, denySuggestions := deny })
    (∀ deny, infer.exit = 2 ↔ (check deny).exit = 2) ∧
    (∀ cause,
      (InferOptions.rows files { file, json := inferJson } = .error (.nothingToInfer cause) ↔
        FirstMissing files file cause) ∧
      ∀ deny,
        (CheckOptions.report files { file, json := checkJson, denySuggestions := deny }
            = .error (.missingEffect cause) ↔
          FirstMissing files file cause) ∧
        (FirstMissing files file cause →
          infer = { exit := 2, err := [errorLine colour cause.detail] } ∧
          check deny = { exit := 2, err := [errorLine colour cause.message] })) ∧
    (infer.exit ≠ 2 → ∃ input rows, Holds files CheckInput.ofDocument file input ∧
      AreRows input.effects input.module.definitions rows ∧ Prints colour inferJson rows infer ∧
      ((check false).exit = 1 ↔ ∃ row ∈ rows, row.1.qualifier < row.2) ∧
      ((check true).exit = 0 ↔ ∀ row ∈ rows, row.1.qualifier = row.2) ∧
      (inferJson = false →
        ((check true).exit = 0 ↔ List.Forall₂ (IsRowLine colour true) rows infer.out))) := by
  intro infer check
  refine ⟨fun deny => exit_infer_eq_two_iff files colour file inferJson checkJson deny,
    fun cause => ⟨rows_eq_nothingToInfer_iff, fun deny => ⟨report_eq_missingEffect_iff,
      fun hfirst => ⟨run_infer_of_error colour hfirst.rows_eq,
        run_check_of_error colour hfirst.report_eq⟩⟩⟩, fun hexit => ?_⟩
  rcases agreement_cases files file with
    ⟨fault, -, hrows, -⟩ | ⟨cause, hfirst⟩ | ⟨input, rows, hinput, hrows, hok, hreport⟩
  · have hinfer : infer = fault.output colour := run_infer_of_error colour (hrows inferJson)
    rw [hinfer] at hexit
    exact absurd rfl hexit
  · have hinfer : infer = (RunFault.nothingToInfer cause).output colour :=
      run_infer_of_error colour hfirst.rows_eq
    rw [hinfer] at hexit
    exact absurd rfl hexit
  · have hinfer : infer = inferReport colour inferJson rows :=
      run_infer_of_ok colour (hok inferJson)
    obtain ⟨plain, hplain, hplainpassed⟩ := hreport checkJson false
    obtain ⟨denied, hdenied, hdeniedpassed⟩ := hreport checkJson true
    have hcheck : (check false).exit = exitOf plain.passed := exit_runCheck_of_report hplain
    have hdeny : (check true).exit = exitOf denied.passed := exit_runCheck_of_report hdenied
    have hprints : Prints colour inferJson rows infer :=
      hinfer ▸ prints_inferReport colour inferJson rows
    have hequal : (check true).exit = 0 ↔ ∀ row ∈ rows, row.1.qualifier = row.2 := by
      rw [hdeny, exitOf_eq_zero_iff, hdeniedpassed, forall_eq_iff]
      simp
    refine ⟨input, rows, hinput, hrows, hprints, ?_, hequal, fun hwords => ?_⟩
    · rw [hcheck, exitOf_eq_one_iff, hplainpassed]
      simp
    · subst hwords
      exact hequal.trans (forall₂_isRowLine_iff hprints.2.2).symm

/-- One file with an identifier for two definitions, one too weak and one too strong, and one file in
which the second definition and the third have no effect. -/
theorem infer_check_agree_repeated :
    let f : Definition := { id := 1, name := "f", qualifier := .pureVal }
    let g : Definition := { id := 1, name := "g", qualifier := .action }
    let h : Definition := { id := 2, name := "h", qualifier := .pureVal }
    let effects : EffectMap := .ofList [(1, .leaf (.reading (.of ["x"])))]
    let files : Files := fun path => .ok (CheckInput.toJson
      { module := { definitions := if path = "a.json" then [f, g] else [g, h, h] }, effects }).compact
    let infer := fun file => run files false (.infer { file })
    let check := fun file deny => run files false (.check { file, denySuggestions := deny })
    (infer "a.json").exit = 0 ∧
      (infer "a.json").out = ["f                        declared pure val   ≠ inferred val",
        "g                        declared action     ≠ inferred val"] ∧
      (check "a.json" false).exit = 1 ∧ (check "a.json" true).exit ≠ 0 ∧
      (infer "b.json").err = ["error: no effect found for definition 'h' (id 2)"] ∧
      (check "b.json" true).err
        = ["error: internal error: no effect found for definition 'h' (id 2)"] := by
  intro f g h effects files infer check
  have hholds : Holds files CheckInput.ofDocument "a.json"
      { module := { definitions := [f, g] }, effects } := holds_of_written rfl (by decide)
  have hrows : InferOptions.rows files { file := "a.json" } = .ok [(f, .val), (g, .val)] :=
    rows_of_holds hholds rfl
  have hinfer : infer "a.json" = inferReport false false [(f, .val), (g, .val)] :=
    run_infer_of_ok false hrows
  have hexit : (infer "a.json").exit = 0 := by
    rw [hinfer]
    rfl
  have hgoes : (infer "a.json").exit ≠ 2 := by
    rw [hexit]
    decide
  obtain ⟨input, rows, hinput, hrows, -, hweak, hsame, -⟩ :=
    (infer_check_agree files false "a.json" false false).2.2 hgoes
  rw [hinput.unique hholds] at hrows
  -- The first definition is too weak, which its own row shows.
  have hbelow : ∃ row ∈ rows, row.1.qualifier < row.2 := hrows.exists_tooWeak_iff.mp (by decide)
  have hmissing : FirstMissing files "b.json" { id := 2, name := "h" } :=
    ⟨{ module := { definitions := [g, h, h] }, effects }, h, holds_of_written rfl (by decide),
      ⟨[g], [h], rfl, by decide, by decide⟩, rfl⟩
  obtain ⟨hstops, hcheck⟩ :=
    (((infer_check_agree files false "b.json" false false).2.1 _).2 true).2 hmissing
  refine ⟨hexit, ?_, hweak.mpr hbelow, fun hzero => ?_, ?_, ?_⟩
  · rw [hinfer]
    decide
  · obtain ⟨row, hrow, hlt⟩ := hbelow
    exact Qualifier.ne_of_lt hlt (hsame.mp hzero row hrow)
  · rw [show infer "b.json" = _ from hstops]
    decide
  · rw [show check "b.json" true = _ from hcheck]
    decide

end OperatorModes.Cli
