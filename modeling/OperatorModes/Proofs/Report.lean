import Mathlib.Data.List.Nodup
import OperatorModes.Proofs.Document.RoundTrip
import OperatorModes.Proofs.Exit
import OperatorModes.Proofs.Json.Indented

/-!
# What a check reports

A check keeps its findings by identifier, and a report looks them up again for each definition in
document order. When no two definitions share an identifier, what is looked up for a definition is
what was found for it (`Recorded.find?_errors_of_unique`), so the two together are no more than one
pass over the definitions: `tooWeakOnes` and `tooStrongOnes` say what that pass keeps, by the declared
and the inferred qualifier alone. The errors kept by identifier are then as many as the definitions
that have one (`size_errors_eq_length`).

> `check_report_complete`: either report lists exactly the definitions that give cause for it, each
> under its own name, in document order.
-/

namespace OperatorModes

/-! ## Findings of a definition that shares its identifier with no other -/

namespace Recorded

variable {effects : EffectMap} {checked : List Definition} {found : Findings} {d : Definition}
  {e : Effect}

theorem find?_errors_of_unique (h : Recorded effects checked found) (hd : d ∈ checked)
    (hunique : ∀ c ∈ checked, c.id = d.id → c = d) (he : effects.find? d.id = some e) :
    found.errors.find? d.id
      = if d.qualifier < e.inferMode then some (d.complaint e) else none := by
  by_cases hlt : d.qualifier < e.inferMode
  · have hat : d.IsErrorAt effects d.id := ⟨rfl, (Definition.isTooWeak_iff he).mpr hlt⟩
    obtain ⟨c, hlast⟩ := exists_isLast_of_mem (P := Definition.IsErrorAt effects d.id) hd hat
    have hc : c = d := hunique c hlast.mem hlast.holds.1
    rw [if_pos hlt, h.errors d.id]
    exact ⟨d, e, hc ▸ hlast, he, rfl⟩
  · rw [if_neg hlt, ← Option.not_isSome_iff_eq_none, h.isSome_errors_iff]
    intro hsome
    obtain ⟨c, hc, hid, hweak⟩ := hsome
    rw [hunique c hc hid, Definition.isTooWeak_iff he] at hweak
    exact hlt hweak

theorem find?_suggestions_of_unique (h : Recorded effects checked found) (hd : d ∈ checked)
    (hunique : ∀ c ∈ checked, c.id = d.id → c = d) (he : effects.find? d.id = some e) :
    found.suggestions.find? d.id
      = if e.inferMode < d.qualifier then some e.inferMode else none := by
  by_cases hlt : e.inferMode < d.qualifier
  · rw [if_pos hlt, h.suggestions d.id]
    exact ⟨⟨d, hd, rfl, (Definition.isTooStrong_iff he).mpr hlt⟩, e, he, rfl⟩
  · rw [if_neg hlt, ← Option.not_isSome_iff_eq_none, h.isSome_suggestions_iff]
    intro hsome
    obtain ⟨c, hc, hid, hstrong⟩ := hsome
    rw [hunique c hc hid, Definition.isTooStrong_iff he] at hstrong
    exact hlt hstrong

end Recorded

namespace Cli

/-! ## One pass over the definitions -/

/-- The definitions whose declared qualifier stands in a relation to the inferred one, each with the
effect stored for it, in document order. -/
def related (r : Qualifier → Qualifier → Prop) [DecidableRel r] (effects : EffectMap)
    (definitions : List Definition) : List (Definition × Effect) :=
  definitions.filterMap fun d =>
    (effects.find? d.id).bind fun e => if r d.qualifier e.inferMode then some (d, e) else none

/-- The definitions declared too weak. -/
def tooWeakOnes (effects : EffectMap) (definitions : List Definition) :
    List (Definition × Effect) :=
  related (fun declared inferred => declared < inferred) effects definitions

/-- The definitions declared too strong. -/
def tooStrongOnes (effects : EffectMap) (definitions : List Definition) :
    List (Definition × Effect) :=
  related (fun declared inferred => inferred < declared) effects definitions

/-- A definition with its own error. -/
def withError (x : Definition × Effect) : Definition × Diagnostic :=
  (x.1, x.1.complaint x.2)

/-- A definition with its own suggestion. -/
def withSuggestion (x : Definition × Effect) : Definition × Qualifier :=
  (x.1, x.2.inferMode)

theorem mem_findingsOf {α : Type} {definitions : List Definition}
    {stored : SortedMap DefinitionId α} {d : Definition} {x : α} :
    (d, x) ∈ findingsOf definitions stored ↔ d ∈ definitions ∧ stored.find? d.id = some x := by
  simp only [findingsOf, List.mem_filterMap, Option.map_eq_some_iff, Prod.mk.injEq]
  constructor
  · rintro ⟨c, hc, y, hy, rfl, rfl⟩
    exact ⟨hc, hy⟩
  · rintro ⟨hd, hx⟩
    exact ⟨d, hd, x, hx, rfl, rfl⟩

@[simp] theorem findingsOf_empty {α : Type} (definitions : List Definition) :
    findingsOf definitions (.empty : SortedMap DefinitionId α) = [] :=
  List.filterMap_eq_nil_iff.mpr fun _ _ => rfl

/-- The identifiers of the findings are those of the definitions at which something is stored. -/
theorem ids_findingsOf {α : Type} (definitions : List Definition)
    (stored : SortedMap DefinitionId α) :
    (findingsOf definitions stored).map (fun x => x.1.id)
      = (definitions.map Definition.id).filter fun k => (stored.find? k).isSome := by
  induction definitions with
  | nil => rfl
  | cons d definitions ih =>
    rw [List.map_cons, List.filter_cons, ← ih, findingsOf, List.filterMap_cons]
    cases stored.find? d.id with
    | none => rfl
    | some x => rfl

section

variable {effects : EffectMap} {definitions : List Definition} {found : Findings}

/-- There are as many errors as definitions with one exactly when these share no identifier. -/
theorem size_errors_iff (hrec : Recorded effects definitions found) :
    found.errors.size = (findingsOf definitions found.errors).length ↔
      ((findingsOf definitions found.errors).map fun x => x.1.id).Nodup := by
  rw [← List.length_map (fun x : Definition × Diagnostic => x.1.id)]
  refine SortedMap.size_eq_length_iff fun k => ?_
  rw [ids_findingsOf, List.mem_filter, List.mem_map, SortedMap.mem_keys_iff]
  refine and_iff_right_of_imp fun hsome => ?_
  -- An error is stored only where a definition has one.
  obtain ⟨d, hd, hid, -⟩ := hrec.isSome_errors_iff.mp hsome
  exact ⟨d, hd, hid⟩

/-- Where each definition finds its own, what is found is one pass over the definitions. -/
theorem findingsOf_eq_map {α : Type} {stored : SortedMap DefinitionId α}
    {r : Qualifier → Qualifier → Prop} [DecidableRel r] {f : Definition → Effect → α}
    (heffects : ∀ d ∈ definitions, ¬ d.LacksEffect effects)
    (hown : ∀ d ∈ definitions, ∀ e, effects.find? d.id = some e →
      stored.find? d.id = if r d.qualifier e.inferMode then some (f d e) else none) :
    findingsOf definitions stored
      = (related r effects definitions).map fun x => (x.1, f x.1 x.2) := by
  rw [findingsOf, related, List.map_filterMap]
  refine List.filterMap_congr fun d hd => ?_
  obtain ⟨e, he⟩ := Definition.not_lacksEffect_iff.mp (heffects d hd)
  rw [hown d hd e he, he]
  by_cases hr : r d.qualifier e.inferMode
  · simp [hr]
  · simp [hr]

variable (hrec : Recorded effects definitions found)
  (hids : (definitions.map Definition.id).Nodup)
  (heffects : ∀ d ∈ definitions, ¬ d.LacksEffect effects)

include hrec hids heffects

theorem findingsOf_errors_eq :
    findingsOf definitions found.errors = (tooWeakOnes effects definitions).map withError :=
  findingsOf_eq_map (f := fun d e => d.complaint e) heffects
    fun _ hd _ he => hrec.find?_errors_of_unique hd
      (fun _ hc hid => List.inj_on_of_nodup_map hids hc hd hid) he

theorem findingsOf_suggestions_eq :
    findingsOf definitions found.suggestions
      = (tooStrongOnes effects definitions).map withSuggestion :=
  findingsOf_eq_map (f := fun _ e => e.inferMode) heffects fun _ hd _ he =>
    hrec.find?_suggestions_of_unique hd
      (fun _ hc hid => List.inj_on_of_nodup_map hids hc hd hid) he

theorem size_errors_eq_length :
    found.errors.size = (tooWeakOnes effects definitions).length := by
  have hnodup : ((findingsOf definitions found.errors).map fun x => x.1.id).Nodup := by
    rw [ids_findingsOf]
    exact hids.filter _
  rw [(size_errors_iff hrec).mpr hnodup, findingsOf_errors_eq hrec hids heffects, List.length_map]

end

/-! ## What is left of the findings in a report -/

/-- A report keeps every error. -/
theorem errorsOf_report (definitions : List Definition) (settings : CheckerConfig)
    (found : Findings) :
    errorsOf definitions (settings.report found.result).result
      = findingsOf definitions found.errors := by
  unfold Findings.result
  cases hempty : found.errors.isEmpty with
  | false => rfl
  | true =>
    obtain ⟨reported, hreported⟩ := settings.exists_report_success found.suggestions
    rw [if_pos rfl, hreported, SortedMap.eq_empty_of_isEmpty hempty, findingsOf_empty]
    rfl

/-- A report keeps the suggestions if there is no error and suggestions are to be reported. -/
theorem suggestionsOf_report (definitions : List Definition) (settings : CheckerConfig)
    (found : Findings) :
    suggestionsOf definitions (settings.report found.result).result
      = if found.errors.isEmpty && settings.reportSuggestions
        then findingsOf definitions found.suggestions else [] := by
  unfold Findings.result
  cases found.errors.isEmpty with
  | false => rfl
  | true =>
    rw [if_pos rfl, Bool.true_and, CheckerConfig.report, CheckerConfig.reported]
    split
    · rfl
    · exact findingsOf_empty definitions

/-- What begins the line of an error. -/
def errorMark (colour : Bool) : String :=
  paint colour .boldRed "error:"

/-- The line that counts the errors in a file. -/
def countLine (colour : Bool) (file : String) (n : Nat) : String :=
  paint colour .red "✗" ++ " " ++ file ++ ": " ++ toString n ++ " mode error(s)"

/-- The line that says that there are suggestions and none is allowed. -/
def deniedLine (colour : Bool) (file : String) : String :=
  paint colour .red "✗" ++ " " ++ file ++ ": suggestions denied"

/-- The line for the error of a definition: its place and what is said of it. -/
def tooWeakLine (colour : Bool) (x : Definition × Effect) : String :=
  errorMark colour ++ " "
    ++ (x.1.location ++ ": " ++ tooWeakText x.1.name x.1.qualifier x.2.inferMode x.2)

section

variable (colour : Bool) (file : String) (definitions : List Definition)

theorem err_checkWords_failure (errors : ErrorMap) (passed : Bool) :
    (checkWords colour file definitions ⟨.failure errors, passed⟩).err
      = (findingsOf definitions errors).map (fun e => errorLine colour e.2.render) ++
        [countLine colour file errors.size] :=
  rfl

theorem err_checkWords_success (suggestions : SuggestionMap) (passed : Bool) :
    (checkWords colour file definitions ⟨.success suggestions, passed⟩).err
      = if passed then [] else [deniedLine colour file] := by
  cases passed <;> rfl

/-- What the report in words leaves on the error output: the errors and how many there are, or else
whether there are suggestions that are denied. -/
theorem err_checkWords (settings : CheckerConfig) (found : Findings) :
    (checkWords colour file definitions (settings.report found.result)).err
      = if found.errors.isEmpty then
          if settings.passes found.result then [] else [deniedLine colour file]
        else (findingsOf definitions found.errors).map (fun e => errorLine colour e.2.render) ++
          [countLine colour file found.errors.size] := by
  unfold Findings.result
  cases found.errors.isEmpty with
  | false => exact err_checkWords_failure colour file definitions found.errors false
  | true =>
    -- Which suggestions are reported makes no difference here, only that they are no errors.
    rw [if_pos rfl, if_pos rfl, CheckerConfig.report, CheckerConfig.reported, ← apply_ite,
      err_checkWords_success]

end

/-! ## The report as a document -/

/-- The entry for the error of a definition, its members in key order. -/
def tooWeakEntry (x : Definition × Effect) : Json :=
  .obj [("children", .arr []), ("id", .word x.1.id), ("location", .str x.1.location),
    ("message", .str (tooWeakText x.1.name x.1.qualifier x.2.inferMode x.2)),
    ("name", .str x.1.name)]

/-- The entry for the suggestion for a definition, its members in key order. -/
def tooStrongEntry (x : Definition × Effect) : Json :=
  .obj [("id", .word x.1.id), ("keyword", .str x.2.inferMode.keyword), ("name", .str x.1.name),
    ("suggested", .str x.2.inferMode.name)]

/-- A report with these errors, these suggestions and this verdict. -/
def reportDocument (weak strong : List (Definition × Effect)) (valid : Bool) : Json :=
  .obj [("errors", .arr (weak.map tooWeakEntry)), ("suggestions", .arr (strong.map tooStrongEntry)),
    ("valid", .bool valid)]

/-- The entry for a finding that is an error, its members in key order. -/
def errorDocument (e : Definition × Diagnostic) : Json :=
  .obj [("children", .arr []), ("id", .word e.1.id), ("location", .str e.2.location),
    ("message", .str e.2.message), ("name", .str e.1.name)]

/-- The entry for a finding that is a suggestion, its members in key order. -/
def suggestionDocument (e : Definition × Qualifier) : Json :=
  .obj [("id", .word e.1.id), ("keyword", .str e.2.keyword), ("name", .str e.1.name),
    ("suggested", .str e.2.name)]

/-- A report with these findings and this verdict. -/
def findingsDocument (errors : List (Definition × Diagnostic))
    (suggestions : List (Definition × Qualifier)) (valid : Bool) : Json :=
  .obj [("errors", .arr (errors.map errorDocument)),
    ("suggestions", .arr (suggestions.map suggestionDocument)), ("valid", .bool valid)]

theorem findingsDocument_map (weak strong : List (Definition × Effect)) (valid : Bool) :
    findingsDocument (weak.map withError) (strong.map withSuggestion) valid
      = reportDocument weak strong valid := by
  rw [findingsDocument, List.map_map, List.map_map]
  rfl

theorem integral_findingsDocument (errors : List (Definition × Diagnostic))
    (suggestions : List (Definition × Qualifier)) (valid : Bool) :
    Json.Integral (findingsDocument errors suggestions valid) := by
  have herror : ∀ e, Json.Integral (errorDocument e) := by
    intro e
    refine .obj ?_
    simp only [List.forall_mem_cons]
    exact ⟨.arr (List.forall_mem_nil _), Json.integral_word e.1.id, .str _, .str _, .str _,
      List.forall_mem_nil _⟩
  have hsuggestion : ∀ e, Json.Integral (suggestionDocument e) := by
    intro e
    refine .obj ?_
    simp only [List.forall_mem_cons]
    exact ⟨Json.integral_word e.1.id, .str _, .str _, .str _, List.forall_mem_nil _⟩
  refine .obj ?_
  simp only [List.forall_mem_cons]
  exact ⟨Json.integral_arr_map fun e _ => herror e,
    Json.integral_arr_map fun e _ => hsuggestion e, .bool valid, List.forall_mem_nil _⟩

/-- A report, an array in it, an entry and the entry's children are all that is inside one another. -/
theorem depth_findingsDocument_le (errors : List (Definition × Diagnostic))
    (suggestions : List (Definition × Qualifier)) (valid : Bool) :
    (findingsDocument errors suggestions valid).depth ≤ 4 := by
  have herrors : Json.depthOfItems (errors.map errorDocument) ≤ 2 :=
    Json.depthOfItems_map_le (fun _ => Nat.le_refl 2) errors
  have hsuggestions : Json.depthOfItems (suggestions.map suggestionDocument) ≤ 2 :=
    Json.depthOfItems_map_le (fun _ => Nat.le_succ 1) suggestions
  show max (_ + 1) (max (_ + 1) (max 0 0)) + 1 ≤ 4
  omega

/-- Before a report is printed, its members and those of its entries are put in key order. -/
theorem canonical_checkDocument {definitions : List Definition} {report : CheckReport}
    (h : ∀ e ∈ errorsOf definitions report.result, e.2.children = []) :
    (checkDocument definitions report).canonical
      = findingsDocument (errorsOf definitions report.result)
          (suggestionsOf definitions report.result) report.passed := by
  have hsorted : (checkDocument definitions report).canonical
      = .obj [("errors", .arr (Json.canonicalItems
            ((errorsOf definitions report.result).map fun e => errorEntry e.1 e.2))),
          ("suggestions", .arr (Json.canonicalItems
            ((suggestionsOf definitions report.result).map fun e => suggestionEntry e.1 e.2))),
          ("valid", .bool report.passed)] := rfl
  have herror : (errorsOf definitions report.result).map
      (Json.canonical ∘ fun e => errorEntry e.1 e.2)
        = (errorsOf definitions report.result).map errorDocument := by
    refine List.map_congr_left fun e he => ?_
    rw [Function.comp_apply, errorEntry, h e he]
    rfl
  rw [hsorted, Json.canonicalItems_eq_map, Json.canonicalItems_eq_map, List.map_map, List.map_map,
    herror]
  rfl

/-- The document that is printed of a report on what has been recorded. -/
theorem readAll_pretty_checkDocument {effects : EffectMap} {definitions : List Definition}
    {found : Findings} (hrec : Recorded effects definitions found) (settings : CheckerConfig) :
    let report := settings.report found.result
    Json.readAll Json.tree (checkDocument definitions report).pretty
      = .ok (findingsDocument (errorsOf definitions report.result)
          (suggestionsOf definitions report.result) report.passed) := by
  intro report
  have hchildren : ∀ e ∈ errorsOf definitions report.result, e.2.children = [] := by
    rw [errorsOf_report]
    intro e he
    -- The errors of a check are complaints about definitions.
    obtain ⟨d, e', -, -, hdiagnostic⟩ := (hrec.errors e.1.id e.2).mp (mem_findingsOf.mp he).2
    rw [hdiagnostic]
    rfl
  have hprinted := canonical_checkDocument hchildren
  -- No report comes near the depth at which a document can no longer be read.
  have hdepth : (checkDocument definitions report).canonical.depth ≤ Json.depthLimit := by
    rw [hprinted]
    exact Nat.le_trans (depth_findingsDocument_le _ _ _) (by decide)
  rw [Json.readAll_pretty (hprinted ▸ integral_findingsDocument _ _ _) hdepth, hprinted]

/-! ## What a run prints -/

/-- Files and options give a check this input and these settings. -/
def Supplies (files : Files) (options : CheckOptions) (input : CheckInput)
    (settings : CheckerConfig) : Prop :=
  Holds files CheckInput.ofDocument options.file input ∧
    ∃ c, ConfigIs files options.config c ∧ options.settings c.checker = settings

/-- A file in which an input was written holds it, unless it is too deep to be read. -/
theorem holds_of_written {files : Files} {path : String} {input : CheckInput}
    (hfile : files path = .ok input.toJson.compact) (hdepth : input.toJson.depth ≤ 127) :
    Holds files CheckInput.ofDocument path input :=
  ⟨_, hfile, (Json.readAll_compact input.reads_toJson).trans (if_pos hdepth)⟩

theorem load_of_holds {α : Type} {files : Files} {decode : String → Except Json.ReadError α}
    {path : String} {a : α} (h : Holds files decode path a)
    (bad : String → Json.ReadError → RunFault) : load files decode bad path = .ok a := by
  obtain ⟨document, hfile, hdecode⟩ := h
  simp only [load, hfile, hdecode]

theorem loadConfig_of_configIs {files : Files} {config : Option String} {c : Config}
    (h : ConfigIs files config c) : loadConfig files config = .ok c := by
  cases config with
  | none => exact congrArg Except.ok (Eq.symm h)
  | some path => exact load_of_holds h _

/-- A run prints the report on its input, as a document or in words. -/
theorem run_of_supplies {files : Files} {options : CheckOptions} {input : CheckInput}
    {settings : CheckerConfig} {report : CheckReport} (colour : Bool)
    (h : Supplies files options input settings)
    (hcheck : settings.check input.module input.effects = .ok report) :
    run files colour (.check options)
      = if options.json then checkJson input.module.definitions report
        else checkWords colour options.file input.module.definitions report := by
  obtain ⟨hinput, c, hconfig, hsettings⟩ := h
  have hreport : options.report files = .ok (input, report) := by
    simp only [CheckOptions.report, loadConfig_of_configIs hconfig, loadInput,
      load_of_holds hinput, hsettings, hcheck]
  rw [run, runCheck, hreport]

/-- The document that a run prints of its report, if it is to print one. -/
theorem out_run_of_supplies {files : Files} {options : CheckOptions} {input : CheckInput}
    {settings : CheckerConfig} {report : CheckReport} (colour : Bool)
    (h : Supplies files options input settings)
    (hcheck : settings.check input.module input.effects = .ok report)
    (hjson : options.json = true) :
    ∃ text, (run files colour (.check options)).out = [text] ∧
      Json.readAll Json.tree text
        = .ok (findingsDocument (errorsOf input.module.definitions report.result)
            (suggestionsOf input.module.definitions report.result) report.passed) := by
  obtain ⟨result, hresult, rfl⟩ := CheckerConfig.exists_of_check hcheck
  obtain ⟨found, rfl, hrec⟩ := recorded_of_checkModes hresult
  rw [run_of_supplies colour h hcheck, if_pos hjson]
  exact ⟨_, rfl, readAll_pretty_checkDocument hrec settings⟩

/-! ## Completeness -/

section

variable {effects : EffectMap} {definitions : List Definition} {found : Findings}

variable (hrec : Recorded effects definitions found)
  (hids : (definitions.map Definition.id).Nodup)
  (heffects : ∀ d ∈ definitions, ¬ d.LacksEffect effects)

include hrec hids heffects

theorem isEmpty_errors_eq : found.errors.isEmpty = (tooWeakOnes effects definitions).isEmpty := by
  have hsize : found.errors.entries.length = (tooWeakOnes effects definitions).length :=
    size_errors_eq_length hrec hids heffects
  rw [SortedMap.isEmpty, Bool.eq_iff_iff, List.isEmpty_iff_length_eq_zero,
    List.isEmpty_iff_length_eq_zero, hsize]

/-- The document that is printed. -/
theorem readAll_checkDocument (settings : CheckerConfig) :
    let report := settings.report found.result
    let weak := tooWeakOnes effects definitions
    let strong := tooStrongOnes effects definitions
    Json.readAll Json.tree (checkDocument definitions report).pretty
      = .ok (reportDocument weak (if weak.isEmpty && settings.reportSuggestions then strong else [])
          report.passed) := by
  intro report weak strong
  have hweak : errorsOf definitions report.result = weak.map withError :=
    (errorsOf_report definitions settings found).trans (findingsOf_errors_eq hrec hids heffects)
  have hstrong : suggestionsOf definitions report.result
      = (if weak.isEmpty && settings.reportSuggestions then strong else []).map withSuggestion := by
    rw [suggestionsOf_report, isEmpty_errors_eq hrec hids heffects,
      findingsOf_suggestions_eq hrec hids heffects]
    split
    · rfl
    · rfl
  rw [readAll_pretty_checkDocument hrec settings, hweak, hstrong, findingsDocument_map]

/-- The lines that are printed on the error output. -/
theorem err_checkWords_eq (settings : CheckerConfig) (colour : Bool) (file : String) :
    let weak := tooWeakOnes effects definitions
    (checkWords colour file definitions (settings.report found.result)).err
      = if weak.isEmpty then
          if settings.passes found.result then []
          else [deniedLine colour file]
        else weak.map (tooWeakLine colour) ++ [countLine colour file weak.length] := by
  intro weak
  rw [err_checkWords, isEmpty_errors_eq hrec hids heffects, findingsOf_errors_eq hrec hids heffects,
    size_errors_eq_length hrec hids heffects, List.map_map]
  rfl

end

theorem exitOf_eq_zero_iff {passed : Bool} : exitOf passed = 0 ↔ passed = true := by
  cases passed <;> decide

/-- **The report of a check is complete and in document order.** When every definition has an effect
and an identifier of its own, the document that is printed has one entry for each definition that is
too weak and, if there is none and suggestions are reported, one for each that is too strong, each
made of what the definition itself gives cause for; and it is marked valid exactly when the exit code
is 0. In words the errors are the same ones, counted. -/
theorem check_report_complete {files : Files} {options : CheckOptions} {input : CheckInput}
    {settings : CheckerConfig} (hsupplies : Supplies files options input settings)
    (hids : (input.module.definitions.map Definition.id).Nodup)
    (heffects : ∀ d ∈ input.module.definitions, ¬ d.LacksEffect input.effects) (colour : Bool) :
    let result := run files colour (.check options)
    let weak := tooWeakOnes input.effects input.module.definitions
    let strong := tooStrongOnes input.effects input.module.definitions
    (options.json = true →
      result.err = [] ∧ ∃ text, result.out = [text] ∧
        Json.readAll Json.tree text = .ok (reportDocument weak
          (if weak.isEmpty && settings.reportSuggestions then strong else [])
          (decide (result.exit = 0)))) ∧
    (options.json = false →
      result.err
        = if weak.isEmpty then
            if result.exit = 0 then []
            else [deniedLine colour options.file]
          else weak.map (tooWeakLine colour) ++ [countLine colour options.file weak.length]) := by
  intro result weak strong
  obtain ⟨found, hcheck, hrec⟩ := settings.check_recorded heffects
  have hrun := run_of_supplies colour hsupplies hcheck
  refine ⟨fun hjson => ?_, fun hjson => ?_⟩
  · have hresult : result = checkJson input.module.definitions (settings.report found.result) :=
      hrun.trans (if_pos hjson)
    have hexit : result.exit = 0 ↔ (settings.report found.result).passed = true := by
      rw [hresult]
      exact exitOf_eq_zero_iff
    simp only [hexit, Bool.decide_eq_true]
    rw [hresult]
    exact ⟨rfl, _, rfl, readAll_checkDocument hrec hids heffects settings⟩
  · have hresult : result
        = checkWords colour options.file input.module.definitions (settings.report found.result) :=
      hrun.trans (if_neg (Bool.eq_false_iff.mp hjson))
    have hexit : result.exit = 0 ↔ settings.passes found.result = true := by
      rw [hresult, exit_checkWords]
      exact exitOf_eq_zero_iff
    simp only [hexit]
    rw [hresult]
    exact err_checkWords_eq hrec hids heffects settings colour options.file

/-- Two definitions that are too weak, their identifiers in falling order: their errors are listed as
the definitions are, and counted. The third could be declared stronger than it need be, which is not
reported beside errors. -/
theorem check_report_complete_falling :
    let f : Definition := { id := 7, name := "f", qualifier := .val }
    let g : Definition := { id := 2, name := "g", qualifier := .pureVal }
    let h : Definition := { id := 5, name := "h", qualifier := .temporal }
    let updating : Effect := .leaf (.updating .empty (.of ["x"]))
    let reading : Effect := .leaf (.reading (.of ["x"]))
    let input : CheckInput :=
      { module := { name := "m", definitions := [f, g, h] }
        effects := .ofList [(2, reading), (5, .leaf .pure), (7, updating)] }
    let files : Files := fun _ => .ok input.toJson.compact
    let options : CheckOptions := { file := "m.json", json := true }
    Supplies files options input {} ∧ (input.module.definitions.map Definition.id).Nodup ∧
      (∀ d ∈ input.module.definitions, ¬ d.LacksEffect input.effects) ∧
      (∃ text, (run files false (.check options)).out = [text] ∧
        Json.readAll Json.tree text
          = .ok (reportDocument [(f, updating), (g, reading)] [] false)) ∧
      (run files false (.check { options with json := false })).err.getLast?
        = some "✗ m.json: 2 mode error(s)" := by
  intro f g h updating reading input files options
  have hids : (input.module.definitions.map Definition.id).Nodup := by decide
  have heffects : ∀ d ∈ input.module.definitions, ¬ d.LacksEffect input.effects := by decide
  have hweak : tooWeakOnes input.effects input.module.definitions
      = [(f, updating), (g, reading)] := by decide
  have hholds : Holds files CheckInput.ofDocument "m.json" input :=
    holds_of_written rfl (by decide)
  have hsupplies : Supplies files options input {} := ⟨hholds, {}, rfl, rfl⟩
  have hwords : Supplies files { options with json := false } input {} := ⟨hholds, {}, rfl, rfl⟩
  have hcheck : ({} : CheckerConfig).check input.module input.effects
      = .ok { result := .failure (.ofList [(2, g.complaint reading), (7, f.complaint updating)]),
              passed := false } := by rfl
  have hexit : (run files false (.check options)).exit = 1 := by
    rw [run_of_supplies false hsupplies hcheck]
    rfl
  obtain ⟨-, printed, hout, hread⟩ :=
    (check_report_complete hsupplies hids heffects false).1 rfl
  have herr := (check_report_complete hwords hids heffects false).2 rfl
  rw [hweak] at hread herr
  rw [hexit] at hread
  refine ⟨hsupplies, hids, heffects, ⟨printed, hout, hread⟩, ?_⟩
  rw [herr, if_neg (by decide), List.getLast?_concat]
  decide

end Cli

end OperatorModes
