import OperatorModes.Proofs.Agreement

/-!
# The first fault of a run

A run can be kept from its end in three places: by its configuration, by its input, and by a
definition without an effect. `FirstFault` says which of them comes first and what is said about it,
by the files alone: the configuration before the input, whatever the input holds, and the input before
the definitions, of which the first without an effect counts, whatever was found before it. Of a
document that cannot be decoded the cause is given without its place in the text, as everywhere. Every
run has a first fault or is ready to go on (`firstFault_or_ready`). What both commands make of either is
`StopsAt`:

> `run_stopsAt_firstFault`: a run fails exactly when there is a first fault, and then one line about
> it is all that is printed.
-/

namespace OperatorModes.Cli

/-! ## Files -/

/-- The file at a path cannot be read, or its text not be decoded, and this is what is said about it.
Of a text that cannot be decoded the complaint stands between the path and the cause. -/
inductive Unusable {α : Type} (files : Files) (decode : String → Except Json.ReadError α)
    (complaint path : String) : String → Prop
  | unreadable {fault : FileFault} (hfile : files path = .error fault) :
    Unusable files decode complaint path (path ++ ": " ++ fault.message)
  | undecodable {document : String} {cause : Json.ReadError} (hfile : files path = .ok document)
      (hdecode : decode document = .error cause) :
    Unusable files decode complaint path (path ++ complaint ++ cause.message)

section

variable {α : Type} {files : Files} {decode : String → Except Json.ReadError α}
  {complaint path text : String}

theorem holds_or_unusable (files : Files) (decode : String → Except Json.ReadError α)
    (complaint path : String) :
    (∃ a, Holds files decode path a) ∨ ∃ text, Unusable files decode complaint path text := by
  cases hfile : files path with
  | error fault => exact Or.inr ⟨_, .unreadable hfile⟩
  | ok document =>
    cases hdecode : decode document with
    | ok a => exact Or.inl ⟨a, document, hfile, hdecode⟩
    | error cause => exact Or.inr ⟨_, .undecodable hfile hdecode⟩

/-- Loading a file that is of no use ends in the fault that is said about it. -/
theorem Unusable.load_eq (h : Unusable files decode complaint path text)
    (bad : String → Json.ReadError → RunFault)
    (hbad : ∀ cause, (bad path cause).message = path ++ complaint ++ cause.message) :
    ∃ fault, load files decode bad path = .error fault ∧ fault.message = text := by
  cases h with
  | @unreadable fault hfile =>
    exact ⟨.unreadable path fault, by rw [load, hfile], rfl⟩
  | @undecodable document cause hfile hdecode =>
    exact ⟨bad path cause, by simp only [load, hfile, hdecode], hbad cause⟩

end

/-! ## What comes first -/

/-- **The first fault of a run**, in words. -/
inductive FirstFault (files : Files) (config : Option String) (file : String)
    (missing : MissingEffect → String) : String → Prop
  /-- A configuration is given and is of no use. -/
  | config {path text : String} (hgiven : config = some path)
      (h : Unusable files Config.ofDocument ": invalid config: " path text) :
    FirstFault files config file missing text
  /-- The configuration is fine, and the input is of no use. -/
  | input {c : Config} {text : String} (hconfig : ConfigIs files config c)
      (h : Unusable files CheckInput.ofDocument ": malformed input: " file text) :
    FirstFault files config file missing text
  /-- The files are fine, and this is the first definition without an effect. -/
  | effect {c : Config} {input : CheckInput} {d : Definition} (hconfig : ConfigIs files config c)
      (hinput : Holds files CheckInput.ofDocument file input)
      (hfirst : IsFirst (Definition.LacksEffect input.effects) input.module.definitions d) :
    FirstFault files config file missing (missing { id := d.id, name := d.name })

/-- Nothing keeps a run from its end: its files are fine, and there is an effect for every definition
in the input. -/
structure Ready (files : Files) (config : Option String) (file : String) (c : Config)
    (input : CheckInput) : Prop where
  configured : ConfigIs files config c
  supplied : Holds files CheckInput.ofDocument file input
  complete : ∀ d ∈ input.module.definitions, ¬ d.LacksEffect input.effects

theorem firstFault_or_ready (files : Files) (config : Option String) (file : String)
    (missing : MissingEffect → String) :
    (∃ text, FirstFault files config file missing text) ∨
      ∃ c input, Ready files config file c input := by
  have hconfig : (∃ c, ConfigIs files config c) ∨ ∃ path text, config = some path ∧
      Unusable files Config.ofDocument ": invalid config: " path text := by
    cases config with
    | none => exact Or.inl ⟨{}, rfl⟩
    | some path =>
      rcases holds_or_unusable files Config.ofDocument ": invalid config: " path with h | ⟨text, h⟩
      · exact Or.inl h
      · exact Or.inr ⟨path, text, rfl, h⟩
  rcases hconfig with ⟨c, hc⟩ | ⟨path, text, hgiven, h⟩
  case inr => exact Or.inl ⟨text, .config hgiven h⟩
  rcases holds_or_unusable files CheckInput.ofDocument ": malformed input: " file with
    ⟨input, hinput⟩ | ⟨text, h⟩
  case inr => exact Or.inl ⟨text, .input hc h⟩
  by_cases hlacks : ∃ d ∈ input.module.definitions, d.LacksEffect input.effects
  · obtain ⟨d, hd, hlack⟩ := hlacks
    obtain ⟨first, hfirst⟩ :=
      exists_isFirst_of_mem (P := Definition.LacksEffect input.effects) hlack hd
    exact Or.inl ⟨_, .effect hc hinput hfirst⟩
  · exact Or.inr ⟨c, input, hc, hinput, fun d hd hlack => hlacks ⟨d, hd, hlack⟩⟩

/-! ## Checks -/

section

variable {files : Files} {text : String}

theorem FirstFault.report_eq {options : CheckOptions}
    (h : FirstFault files options.config options.file MissingEffect.message text) :
    ∃ fault, options.report files = .error fault ∧ fault.message = text := by
  cases h with
  | config hgiven h =>
    obtain ⟨fault, hload, htext⟩ := h.load_eq .badConfig fun _ => rfl
    exact ⟨fault, by simp only [CheckOptions.report, loadConfig, hgiven, hload], htext⟩
  | input hconfig h =>
    obtain ⟨fault, hload, htext⟩ := h.load_eq .badInput fun _ => rfl
    refine ⟨fault, ?_, htext⟩
    simp only [CheckOptions.report, loadConfig_of_configIs hconfig, loadInput, hload]
  | @effect c input d hconfig hinput hfirst =>
    refine ⟨.missingEffect { id := d.id, name := d.name }, ?_, rfl⟩
    simp only [CheckOptions.report, loadConfig_of_configIs hconfig, loadInput,
      load_of_holds hinput, CheckerConfig.check_of_isFirst _ hfirst]

theorem Ready.report_eq {options : CheckOptions} {c : Config} {input : CheckInput}
    (h : Ready files options.config options.file c input) :
    ∃ report, options.report files = .ok (input, report) := by
  obtain ⟨found, hcheck, -⟩ := (options.settings c.checker).check_recorded h.complete
  refine ⟨(options.settings c.checker).report found.result, ?_⟩
  simp only [CheckOptions.report, loadConfig_of_configIs h.configured, loadInput,
    load_of_holds h.supplied, hcheck]

/-! ## Inferences -/

theorem FirstFault.rows_eq {options : InferOptions}
    (h : FirstFault files none options.file MissingEffect.detail text) :
    ∃ fault, options.rows files = .error fault ∧ fault.message = text := by
  cases h with
  | config hgiven _ => cases hgiven
  | input _ h =>
    obtain ⟨fault, hload, htext⟩ := h.load_eq .badInput fun _ => rfl
    exact ⟨fault, by simp only [InferOptions.rows, loadInput, hload], htext⟩
  | @effect c input d _ hinput hfirst =>
    refine ⟨.nothingToInfer { id := d.id, name := d.name }, ?_, rfl⟩
    simp only [InferOptions.rows, loadInput, load_of_holds hinput, inferRows_of_isFirst hfirst]

theorem Ready.rows_eq {options : InferOptions} {c : Config} {input : CheckInput}
    (h : Ready files none options.file c input) : ∃ rows, options.rows files = .ok rows := by
  obtain ⟨rows, hrows, -⟩ := exists_inferRows h.complete
  exact ⟨rows, rows_of_holds h.supplied hrows⟩

end

/-! ## What is printed -/

/-- **A run that stops at its first fault**: it fails exactly when there is one, and then nothing is
printed but one line about it on the error output. -/
structure StopsAt (colour : Bool) (first : String → Prop) (output : Output) : Prop where
  fails_iff : output.exit = 2 ↔ ∃ text, first text
  prints : ∀ text, first text → output = { exit := 2, out := [], err := [errorLine colour text] }

theorem stopsAt_of_cases {colour : Bool} {first : String → Prop} {output : Output}
    (hfault : ∀ text, first text → ∃ fault : RunFault,
      output = fault.output colour ∧ fault.message = text)
    (hcases : (∃ text, first text) ∨ output.exit ≠ 2) : StopsAt colour first output := by
  have hprints : ∀ text, first text →
      output = { exit := 2, out := [], err := [errorLine colour text] } := by
    intro text hfirst
    obtain ⟨fault, houtput, htext⟩ := hfault text hfirst
    rw [houtput, RunFault.output, htext]
  refine ⟨⟨fun hexit => hcases.resolve_right fun hne => hne hexit, fun hsome => ?_⟩, hprints⟩
  obtain ⟨text, hfirst⟩ := hsome
  rw [hprints text hfirst]

/-- **A failed run reports its first fault and prints nothing else.** A check that is given a
configuration of no use reports that, whatever its input holds; else it reports an input of no use;
else the first definition in document order without an effect, whatever was found in the definitions
before it. An inference has no configuration, and reports the same of its input. In no other case is
the exit code 2. -/
theorem run_stopsAt_firstFault (files : Files) (colour : Bool) :
    (∀ options : CheckOptions,
      StopsAt colour (FirstFault files options.config options.file MissingEffect.message)
        (run files colour (.check options))) ∧
    (∀ options : InferOptions,
      StopsAt colour (FirstFault files none options.file MissingEffect.detail)
        (run files colour (.infer options))) := by
  refine ⟨fun options => stopsAt_of_cases (fun text hfirst => ?_) ?_,
    fun options => stopsAt_of_cases (fun text hfirst => ?_) ?_⟩
  · obtain ⟨fault, hreport, htext⟩ := hfirst.report_eq
    exact ⟨fault, run_check_of_error colour hreport, htext⟩
  · refine (firstFault_or_ready files options.config options.file _).imp_right fun hready => ?_
    obtain ⟨c, input, hready⟩ := hready
    obtain ⟨report, hreport⟩ := hready.report_eq
    rw [exit_runCheck_of_report hreport]
    exact exitOf_ne_two _
  · obtain ⟨fault, hrows, htext⟩ := hfirst.rows_eq
    exact ⟨fault, run_infer_of_error colour hrows, htext⟩
  · refine (firstFault_or_ready files none options.file _).imp_right fun hready => ?_
    obtain ⟨c, input, hready⟩ := hready
    obtain ⟨rows, hrows⟩ := hready.rows_eq
    rw [run_infer_of_ok colour hrows, (prints_inferReport colour options.json rows).1]
    decide

/-- One input whose first definition is too weak and whose second has no effect, with and without a
configuration that cannot be decoded, and one input that is not there. The line about the configuration
stands here without the place in its text, which the program prints after it. -/
theorem run_stopsAt_firstFault_mixed :
    let weak : Definition := { id := 1, name := "weak", qualifier := .pureVal }
    let ghost : Definition := { id := 2, name := "ghost", qualifier := .val }
    let effects : EffectMap := .ofList [(1, .leaf (.updating .empty (.of ["x"])))]
    let input : CheckInput := { module := { definitions := [weak, ghost, weak] }, effects }
    let files : Files := fun path =>
      if path = "m.json" then .ok input.toJson.compact
      else if path = "c.json" then .ok "[" else .error .notFound
    run files false (.check { file := "m.json", json := true })
        = { exit := 2
            err := ["error: internal error: no effect found for definition 'ghost' (id 2)"] } ∧
      run files false (.check { file := "m.json", config := some "c.json" })
        = { exit := 2, err := ["error: c.json: invalid config: EOF while parsing a list"] } ∧
      run files false (.check { file := "n.json" })
        = { exit := 2, err := ["error: n.json: I/O error: No such file or directory (os error 2)"] } ∧
      run files false (.infer { file := "m.json" })
        = { exit := 2, err := ["error: no effect found for definition 'ghost' (id 2)"] } := by
  intro weak ghost effects input files
  have hholds : Holds files CheckInput.ofDocument "m.json" input :=
    holds_of_written rfl (by decide)
  have hfirst : IsFirst (Definition.LacksEffect input.effects) input.module.definitions ghost :=
    ⟨[weak], [weak], rfl, by decide, by decide⟩
  have hconfig : Config.ofDocument "[" = .error .endInList := rfl
  obtain ⟨hcheck, hinfer⟩ := run_stopsAt_firstFault files false
  refine ⟨?_, ?_, ?_, ?_⟩
  · rw [(hcheck { file := "m.json", json := true }).prints _ (.effect (c := {}) rfl hholds hfirst)]
    decide
  · rw [(hcheck { file := "m.json", config := some "c.json" }).prints _
      (.config rfl (.undecodable rfl hconfig))]
    decide
  · rw [(hcheck { file := "n.json" }).prints _ (.input (c := {}) rfl (.unreadable rfl))]
    decide
  · rw [(hinfer { file := "m.json" }).prints _ (.effect (c := {}) rfl hholds hfirst)]
    decide

end OperatorModes.Cli
