import OperatorModes.Cli.Run
import OperatorModes.Proofs.Check

/-!
# The exit code of a check

Three layers decide how a check ends: what can be read, what the checker finds, and what the switches
of the command line make of the configuration. Each is stated here by itself. `Holds` says what a
file holds, `Blocked` what keeps a check from its end, `DenyInForce` when a suggestion counts against
a module, and `Rejected` what then fails it. How the report is printed, and whether suggestions
appear in it, occur in none of them:

> `exit_check`: the exit code is 2 when the check is blocked, else 1 when it is rejected, else 0.
-/

namespace OperatorModes.Cli

/-! ## Files -/

/-- The file at a path can be read and its text decoded, to this value. -/
def Holds {α : Type} (files : Files) (decode : String → Except Json.ReadError α) (path : String)
    (a : α) : Prop :=
  ∃ document, files path = .ok document ∧ decode document = .ok a

section

variable {α : Type} {files : Files} {decode : String → Except Json.ReadError α} {path : String}

theorem Holds.unique {a b : α} (ha : Holds files decode path a) (hb : Holds files decode path b) :
    a = b := by
  obtain ⟨document, hfile, hdecode⟩ := ha
  obtain ⟨document', hfile', hdecode'⟩ := hb
  rw [hfile, Except.ok.injEq] at hfile'
  subst hfile'
  rw [hdecode, Except.ok.injEq] at hdecode'
  exact hdecode'

/-- Loading gives what the file holds, or else a fault. -/
theorem load_cases (files : Files) (decode : String → Except Json.ReadError α)
    (bad : String → Json.ReadError → RunFault) (path : String) :
    (∃ a, Holds files decode path a ∧ load files decode bad path = .ok a) ∨
    ((∀ a, ¬ Holds files decode path a) ∧ ∃ fault, load files decode bad path = .error fault) := by
  unfold load
  cases hfile : files path with
  | error fault =>
    right
    refine ⟨fun a h => ?_, _, rfl⟩
    obtain ⟨document, hok, -⟩ := h
    rw [hfile] at hok
    cases hok
  | ok document =>
    cases hdecode : decode document with
    | ok a => exact Or.inl ⟨a, ⟨document, hfile, hdecode⟩, by simp only [hdecode]⟩
    | error cause =>
      right
      refine ⟨fun a h => ?_, bad path cause, by simp only [hdecode]⟩
      obtain ⟨document', hfile', hok⟩ := h
      rw [hfile, Except.ok.injEq] at hfile'
      rw [← hfile', hdecode] at hok
      cases hok

end

/-! ## What a check comes to -/

/-- The configuration is given and cannot be read or decoded, or the input cannot, or some definition
in the input has no effect. -/
def Blocked (files : Files) (file : String) (config : Option String) : Prop :=
  (∃ path, config = some path ∧ ∀ c, ¬ Holds files Config.ofDocument path c) ∨
  (∀ input, ¬ Holds files CheckInput.ofDocument file input) ∨
  ∃ input, Holds files CheckInput.ofDocument file input ∧
    ∃ d ∈ input.module.definitions, d.LacksEffect input.effects

/-- Suggestions are denied on the command line, or by the configuration and not hidden on the command
line. -/
def DenyInForce (files : Files) (denySuggestions noSuggestions : Bool) (config : Option String) :
    Prop :=
  denySuggestions = true ∨
  noSuggestions = false ∧ ∃ path c, config = some path ∧ Holds files Config.ofDocument path c ∧
    c.checker.denySuggestions = true

/-- Some definition in the input is too weak, or denial is in force and some definition is too
strong. -/
def Rejected (files : Files) (file : String) (deny : Prop) : Prop :=
  ∃ input, Holds files CheckInput.ofDocument file input ∧
    ((∃ d ∈ input.module.definitions, d.IsTooWeak input.effects) ∨
      deny ∧ ∃ d ∈ input.module.definitions, d.IsTooStrong input.effects)

/-- Two directories give a check the same input, and configurations that deny suggestions alike. -/
def DenyAlike (files files' : Files) (file : String) (config : Option String) : Prop :=
  (∀ input, Holds files' CheckInput.ofDocument file input ↔
    Holds files CheckInput.ofDocument file input) ∧
  ∀ path, config = some path → ∀ deny,
    (∃ c, Holds files' Config.ofDocument path c ∧ c.checker.denySuggestions = deny) ↔
      ∃ c, Holds files Config.ofDocument path c ∧ c.checker.denySuggestions = deny

/-! ## Loading and settings -/

/-- The configuration of a run is the default, or what its file holds. -/
def ConfigIs (files : Files) : Option String → Config → Prop
  | none, c => c = {}
  | some path, c => Holds files Config.ofDocument path c

theorem loadConfig_cases (files : Files) (config : Option String) :
    (∃ c, ConfigIs files config c ∧ loadConfig files config = .ok c) ∨
    ((∃ path, config = some path ∧ ∀ c, ¬ Holds files Config.ofDocument path c) ∧
      ∃ fault, loadConfig files config = .error fault) := by
  cases config with
  | none => exact Or.inl ⟨{}, rfl, rfl⟩
  | some path =>
    rcases load_cases files Config.ofDocument .badConfig path with h | ⟨hno, hfault⟩
    · exact Or.inl h
    · exact Or.inr ⟨⟨path, rfl, hno⟩, hfault⟩

theorem ConfigIs.not_unusable {files : Files} {config : Option String} {c : Config}
    (h : ConfigIs files config c) :
    ¬ ∃ path, config = some path ∧ ∀ c, ¬ Holds files Config.ofDocument path c := by
  intro hunusable
  obtain ⟨path, hconfig, hno⟩ := hunusable
  subst hconfig
  exact hno c h

/-- The settings deny suggestions exactly when denial is in force. The two switches do not stand
together on a command line. -/
theorem settings_denySuggestions_iff {files : Files} {options : CheckOptions} {c : Config}
    (hc : ConfigIs files options.config c)
    (hswitches : ¬ (options.denySuggestions = true ∧ options.noSuggestions = true)) :
    (options.settings c.checker).denySuggestions = true ↔
      DenyInForce files options.denySuggestions options.noSuggestions options.config := by
  have hfile : (∃ path c, options.config = some path ∧ Holds files Config.ofDocument path c ∧
      c.checker.denySuggestions = true) ↔ c.checker.denySuggestions = true := by
    cases hconfig : options.config with
    | none =>
      rw [hconfig] at hc
      have hdefault : c.checker.denySuggestions = false := by rw [show c = {} from hc]
      rw [hdefault]
      refine iff_of_false (fun h => ?_) Bool.false_ne_true
      obtain ⟨path, _, hpath, -⟩ := h
      cases hpath
    | some path =>
      rw [hconfig] at hc
      constructor
      · intro hdenied
        obtain ⟨path', c', hpath, hholds, hdeny⟩ := hdenied
        cases hpath
        rw [hc.unique hholds]
        exact hdeny
      · intro hdeny
        exact ⟨path, c, rfl, hc, hdeny⟩
  unfold DenyInForce
  rw [hfile]
  unfold CheckOptions.settings
  cases hno : options.noSuggestions with
  | true =>
    -- Hiding suggestions takes denial back, and the two switches exclude each other.
    have hdeny : options.denySuggestions = false := by
      rw [← Bool.not_eq_true]
      exact fun h => hswitches ⟨h, hno⟩
    simp [hdeny]
  | false =>
    cases hdeny : options.denySuggestions with
    | true => simp
    | false => simp

/-! ## Command lines -/

theorem toCheck_switches {taken : Taken} {options : CheckOptions}
    (h : taken.toCheck = .check options) :
    ¬ (options.denySuggestions = true ∧ options.noSuggestions = true) := by
  unfold Taken.toCheck at h
  split at h
  · cases h
  · split at h
    · cases h
    · next hboth =>
      cases h
      intro hswitches
      exact hboth (Bool.and_eq_true_iff.mpr hswitches)

theorem toInfer_ne_check {taken : Taken} {options : CheckOptions} :
    taken.toInfer ≠ .check options := by
  intro h
  unfold Taken.toInfer at h
  split at h
  · cases h
  · cases h

theorem finish_eq_check {taken : Except Stop Taken} {invocation : Taken → Invocation}
    {options : CheckOptions} (h : finish taken invocation = .check options) :
    ∃ t, invocation t = .check options := by
  unfold finish at h
  split at h
  · exact ⟨_, h⟩
  · cases h
  · cases h

theorem helpOn_ne_check {names : List String} {options : CheckOptions} :
    helpOn names ≠ .check options := by
  intro h
  unfold helpOn at h
  split at h
  · cases h
  · split at h
    · cases h
    · cases h
  · cases h

/-- The command line never denies and hides suggestions at once. -/
theorem parse_check_switches {args : List String} {options : CheckOptions}
    (h : Invocation.parse args = .check options) :
    ¬ (options.denySuggestions = true ∧ options.noSuggestions = true) := by
  unfold Invocation.parse at h
  repeat' split at h
  all_goals first
    | cases h
    | exact absurd h helpOn_ne_check
    | skip
  -- Of the commands only `check` itself can have come to a check.
  · obtain ⟨t, ht⟩ := finish_eq_check h
    exact toCheck_switches ht
  · obtain ⟨t, ht⟩ := finish_eq_check h
    exact absurd ht toInfer_ne_check
  · obtain ⟨t, ht⟩ := finish_eq_check h
    cases ht

/-! ## The exit code -/

theorem exit_checkWords (colour : Bool) (file : String) (definitions : List Definition)
    (report : CheckReport) :
    (checkWords colour file definitions report).exit = exitOf report.passed := by
  unfold checkWords
  split
  · rfl
  · split
    · rfl
    · rfl

theorem exit_runCheck_of_fault {files : Files} {colour : Bool} {options : CheckOptions}
    {fault : RunFault} (h : options.report files = .error fault) :
    (run files colour (.check options)).exit = 2 := by
  rw [run, runCheck, h]
  rfl

theorem exit_runCheck_of_report {files : Files} {colour : Bool} {options : CheckOptions}
    {input : CheckInput} {report : CheckReport} (h : options.report files = .ok (input, report)) :
    (run files colour (.check options)).exit = exitOf report.passed := by
  rw [run, runCheck, h]
  cases hjson : options.json with
  | true => rfl
  | false => exact exit_checkWords colour options.file input.module.definitions report

/-- A check is blocked and ends in a fault, or it comes to a report on what has been recorded. -/
theorem report_cases (files : Files) (options : CheckOptions) :
    (Blocked files options.file options.config ∧ ∃ fault, options.report files = .error fault) ∨
    (¬ Blocked files options.file options.config ∧ ∃ c input found,
      ConfigIs files options.config c ∧ Holds files CheckInput.ofDocument options.file input ∧
      Recorded input.effects input.module.definitions found ∧
      options.report files = .ok (input, (options.settings c.checker).report found.result)) := by
  unfold CheckOptions.report loadInput
  -- The configuration is loaded before the input, and the input before anything is checked.
  rcases loadConfig_cases files options.config with ⟨c, hc, hconfig⟩ | ⟨hno, fault, hconfig⟩
  case inr => exact Or.inl ⟨Or.inl hno, fault, by rw [hconfig]⟩
  rw [hconfig]
  rcases load_cases files CheckInput.ofDocument .badInput options.file with
    ⟨input, hinput, hload⟩ | ⟨hno, fault, hload⟩
  case inr => exact Or.inl ⟨Or.inr (Or.inl hno), fault, by simp only [hload]⟩
  simp only [hload]
  by_cases hlacks : ∃ d ∈ input.module.definitions, d.LacksEffect input.effects
  · left
    obtain ⟨d, hd, hlack⟩ := hlacks
    obtain ⟨first, hfirst⟩ :=
      exists_isFirst_of_mem (P := Definition.LacksEffect input.effects) hlack hd
    rw [CheckerConfig.check_of_isFirst _ hfirst]
    exact ⟨Or.inr (Or.inr ⟨input, hinput, d, hd, hlack⟩), _, rfl⟩
  · right
    have hall : ∀ d ∈ input.module.definitions, ¬ d.LacksEffect input.effects :=
      fun d hd h => hlacks ⟨d, hd, h⟩
    obtain ⟨found, hcheck, hrec⟩ := (options.settings c.checker).check_recorded hall
    rw [hcheck]
    refine ⟨fun h => ?_, c, input, found, hc, hinput, hrec, rfl⟩
    rcases h with h | h | ⟨input', hinput', h⟩
    · exact hc.not_unusable h
    · exact h input hinput
    · rw [hinput'.unique hinput] at h
      exact hlacks h

/-- A file holds one input, so what is found in it decides. -/
theorem rejected_iff {files : Files} {file : String} {deny : Prop} {input : CheckInput}
    {found : Findings} {config : CheckerConfig}
    (hinput : Holds files CheckInput.ofDocument file input)
    (hrec : Recorded input.effects input.module.definitions found)
    (hdeny : config.denySuggestions = true ↔ deny) :
    Rejected files file deny ↔ ¬ config.passes found.result = true := by
  rw [hrec.passes_iff, hdeny]
  constructor
  · intro hrejected hpass
    obtain ⟨input', hinput', hfindings⟩ := hrejected
    rw [hinput'.unique hinput] at hfindings
    rcases hfindings with ⟨d, hd, hweak⟩ | hdenied
    · exact hpass.1 d hd hweak
    · exact hpass.2 hdenied
  · intro hfail
    refine Classical.byContradiction fun hno => hfail ⟨fun d hd hweak => ?_, fun hdenied => ?_⟩
    · exact hno ⟨input, hinput, Or.inl ⟨d, hd, hweak⟩⟩
    · exact hno ⟨input, hinput, Or.inr hdenied⟩

/-- A check ends in one of three ways, each with an exit code of its own. -/
theorem exit_check_cases (files : Files) (colour : Bool) (options : CheckOptions)
    (hswitches : ¬ (options.denySuggestions = true ∧ options.noSuggestions = true)) :
    let blocked := Blocked files options.file options.config
    let rejected := Rejected files options.file
      (DenyInForce files options.denySuggestions options.noSuggestions options.config)
    let exit := (run files colour (.check options)).exit
    (exit = 2 ∧ blocked) ∨ (exit = 1 ∧ ¬ blocked ∧ rejected) ∨
      (exit = 0 ∧ ¬ blocked ∧ ¬ rejected) := by
  intro blocked rejected exit
  rcases report_cases files options with
    ⟨hblocked, fault, hreport⟩ | ⟨hfree, c, input, found, hc, hinput, hrec, hreport⟩
  · exact Or.inl ⟨exit_runCheck_of_fault hreport, hblocked⟩
  · have hrejected : rejected ↔ ¬ (options.settings c.checker).passes found.result = true :=
      rejected_iff hinput hrec (settings_denySuggestions_iff hc hswitches)
    have hexit : exit = exitOf ((options.settings c.checker).passes found.result) :=
      exit_runCheck_of_report hreport
    right
    rw [hrejected, hexit]
    cases (options.settings c.checker).passes found.result with
    | true => exact Or.inr ⟨rfl, hfree, fun h => h rfl⟩
    | false => exact Or.inl ⟨rfl, hfree, Bool.false_ne_true⟩

/-! ## What does not matter -/

section

variable {files files' : Files} {file : String} {config : Option String}

theorem DenyAlike.blocked_iff (h : DenyAlike files files' file config) :
    Blocked files' file config ↔ Blocked files file config := by
  obtain ⟨hinput, hconfig⟩ := h
  have hunusable : ∀ path, config = some path →
      ((∀ c, ¬ Holds files' Config.ofDocument path c) ↔
        ∀ c, ¬ Holds files Config.ofDocument path c) := by
    intro path hpath
    constructor
    · intro hno c hc
      obtain ⟨c', hc', -⟩ := (hconfig path hpath c.checker.denySuggestions).mpr ⟨c, hc, rfl⟩
      exact hno c' hc'
    · intro hno c hc
      obtain ⟨c', hc', -⟩ := (hconfig path hpath c.checker.denySuggestions).mp ⟨c, hc, rfl⟩
      exact hno c' hc'
  unfold Blocked
  simp only [hinput]
  refine or_congr_left (exists_congr fun path => ?_)
  exact and_congr_right fun hpath => hunusable path hpath

theorem DenyAlike.denyInForce_iff (h : DenyAlike files files' file config)
    (denySuggestions noSuggestions : Bool) :
    DenyInForce files' denySuggestions noSuggestions config ↔
      DenyInForce files denySuggestions noSuggestions config := by
  unfold DenyInForce
  refine or_congr_right (and_congr_right fun _ => exists_congr fun path => ?_)
  simp only [exists_and_left]
  exact and_congr_right fun hpath => h.2 path hpath true

theorem DenyAlike.rejected_iff (h : DenyAlike files files' file config) (deny : Prop) :
    Rejected files' file deny ↔ Rejected files file deny := by
  unfold Rejected
  simp only [h.1]

end

/-- **The exit code of a check.** It is 2 when the check is blocked, 1 when it is not and the input is
rejected, and 0 otherwise. Printing the report as a document and leaving suggestions out of it change
nothing about that. -/
theorem exit_check (files : Files) (colour : Bool) (options : CheckOptions)
    (hswitches : ¬ (options.denySuggestions = true ∧ options.noSuggestions = true)) :
    ((run files colour (.check options)).exit = 2 ↔
      Blocked files options.file options.config) ∧
    ((run files colour (.check options)).exit = 1 ↔
      ¬ Blocked files options.file options.config ∧
      Rejected files options.file
        (DenyInForce files options.denySuggestions options.noSuggestions options.config)) ∧
    ((run files colour (.check options)).exit = 0 ↔
      ¬ Blocked files options.file options.config ∧
      ¬ Rejected files options.file
        (DenyInForce files options.denySuggestions options.noSuggestions options.config)) ∧
    ∀ files' json, DenyAlike files files' options.file options.config →
      (run files' colour (.check { options with json })).exit =
        (run files colour (.check options)).exit := by
  refine ⟨?_, ?_, ?_, fun files' json halike => ?_⟩
  · rcases exit_check_cases files colour options hswitches with h | h | h <;> simp [h]
  · rcases exit_check_cases files colour options hswitches with h | h | h <;> simp [h]
  · rcases exit_check_cases files colour options hswitches with h | h | h <;> simp [h]
  · -- What decides either run is the same, so the two fall into the same case.
    have h' := exit_check_cases files' colour { options with json } hswitches
    simp only [halike.blocked_iff, halike.denyInForce_iff, halike.rejected_iff] at h'
    rcases exit_check_cases files colour options hswitches with
        ⟨hexit, hb⟩ | ⟨hexit, hb, hr⟩ | ⟨hexit, hb, hr⟩ <;>
      rcases h' with ⟨hexit', hb'⟩ | ⟨hexit', hb', hr'⟩ | ⟨hexit', hb', hr'⟩ <;>
      first
      | exact hexit'.trans hexit.symm
      | contradiction

/-- Two definitions of one identifier, the suggestions for them denied and hidden by the
configuration: nothing is listed, and the check fails all the same. -/
theorem exit_check_hidden_and_denied :
    let input := "\x7b\"module\":\x7b\"name\":\"m\",\"definitions\":[" ++
      "\x7b\"id\":1,\"name\":\"f\",\"qualifier\":\"val\"\x7d," ++
      "\x7b\"id\":1,\"name\":\"g\",\"qualifier\":\"def\"\x7d]\x7d," ++
      "\"effects\":\x7b\"1\":\x7b\"kind\":\"concrete\"\x7d\x7d\x7d"
    let config := "\x7b\"checker\":\x7b\"report_suggestions\":false," ++
      "\"deny_suggestions\":true\x7d\x7d"
    let files : Files := fun path => .ok (if path = "c.json" then config else input)
    let options : CheckOptions := { file := "m.json", config := some "c.json" }
    ¬ (options.denySuggestions = true ∧ options.noSuggestions = true) ∧
      (run files false (.check options)).exit = 1 ∧
      ¬ Blocked files "m.json" (some "c.json") ∧
      Rejected files "m.json" (DenyInForce files false false (some "c.json")) := by
  intro input config files options
  have hswitches : ¬ (options.denySuggestions = true ∧ options.noSuggestions = true) := by decide
  have hexit : (run files false (.check options)).exit = 1 := by decide +kernel
  exact ⟨hswitches, hexit, (exit_check files false options hswitches).2.1.mp hexit⟩

end OperatorModes.Cli
