import OperatorModes.Proofs.Rendering

/-!
# Whose finding is reported

A report looks findings up by identifier, for one definition after another. Where an identifier is
shared, a definition may be given what was found for another: an error although nothing is wrong with
it, or in place of its own. `Attributed` says of what is printed, in words and as a document, that this
does not happen and that errors are counted as they are printed. Nothing but identifiers decides it:

> `attributed_iff`: both renderings attribute their findings rightly exactly when no error and no
> reported suggestion belongs to an identifier at which the definitions disagree.

Documents in which it fails are read and checked like any other (`not_attributed_shared`).
-/

namespace OperatorModes.Cli

/-- **What is printed about a definition is its own**: for each definition with an error there is a text
marked as an error and an entry in the document, made of the error that comes of checking that
definition, and likewise for suggestions; and as many errors are counted as are printed. -/
structure Attributed (effects : EffectMap) (colour : Bool) (file : String)
    (blamed advised : List Definition) (words document : Output) : Prop where
  errorTexts : List.Forall₂ (fun d text => ∃ own, checkDefinition d effects = .ok (.tooWeak own) ∧
      text = errorMark colour ++ " " ++ (own.location ++ ": " ++ own.message))
    blamed (marked (errorMark colour) words.err)
  suggestionTexts : List.Forall₂ (fun d text => ∃ own,
      checkDefinition d effects = .ok (.tooStrong own) ∧
        text = suggestionMark colour ++ " " ++ suggestionMessage d own)
    advised (marked (suggestionMark colour) words.out)
  entries : ∃ text errors suggestions valid, document.out = [text] ∧
    Json.readAll Json.tree text = .ok (.obj [("errors", .arr errors),
      ("suggestions", .arr suggestions), ("valid", .bool valid)]) ∧
    List.Forall₂ (fun d entry => ∃ own, checkDefinition d effects = .ok (.tooWeak own) ∧
      IsErrorEntry entry own.location own.message) blamed errors ∧
    List.Forall₂ (fun d entry => ∃ own, checkDefinition d effects = .ok (.tooStrong own) ∧
      IsSuggestionEntry entry d.name own.keyword) advised suggestions
  count : ∀ n, words.err.getLast? = some (countLine colour file n) →
    n = (marked (errorMark colour) words.err).length

/-- The definition stands once in the list, and no other in the list has its identifier. -/
def Alone (definitions : List Definition) (d : Definition) : Prop :=
  definitions.filter (fun c => c.id = d.id) = [d]

instance (definitions : List Definition) (d : Definition) : Decidable (Alone definitions d) :=
  inferInstanceAs (Decidable (_ = _))

/-! ## Definitions that share no identifier -/

theorem Alone.eq_of_id_eq {definitions : List Definition} {c d : Definition}
    (h : Alone definitions d) (hc : c ∈ definitions) (hid : c.id = d.id) : c = d := by
  have hmem : c ∈ definitions.filter (fun c => c.id = d.id) :=
    List.mem_filter.mpr ⟨hc, decide_eq_true hid⟩
  rw [h] at hmem
  exact List.mem_singleton.mp hmem

theorem count_ids (definitions : List Definition) (k : DefinitionId) :
    (definitions.map Definition.id).count k = (definitions.filter fun c => c.id = k).length := by
  rw [List.count_eq_countP, List.countP_map, List.countP_eq_length_filter]
  rfl

theorem alone_iff_count_le {definitions : List Definition} {d : Definition} (hd : d ∈ definitions) :
    Alone definitions d ↔ (definitions.map Definition.id).count d.id ≤ 1 := by
  have hmem : d ∈ definitions.filter (fun c => c.id = d.id) :=
    List.mem_filter.mpr ⟨hd, decide_eq_true rfl⟩
  rw [count_ids, Alone]
  constructor
  · intro h
    rw [h]
    exact Nat.le_refl 1
  · intro hle
    obtain ⟨c, hc⟩ := List.length_eq_one_iff.mp
      (Nat.le_antisymm hle (List.length_pos_of_mem hmem))
    rw [hc] at hmem ⊢
    rw [List.mem_singleton.mp hmem]

/-! ## Errors -/

section

variable {effects : EffectMap} {definitions : List Definition} {found : Findings}

/-- Errors are counted as they are printed exactly when no definition that is too weak shares its
identifier. -/
theorem size_errors_iff_alone (hrec : Recorded effects definitions found) :
    found.errors.size = (findingsOf definitions found.errors).length ↔
      ∀ d ∈ definitions, d.IsTooWeak effects → Alone definitions d := by
  rw [size_errors_iff hrec, ids_findingsOf, List.nodup_iff_count_le_one]
  constructor
  · intro hcount d hd hweak
    have hsome : (found.errors.find? d.id).isSome = true :=
      hrec.isSome_errors_iff.mpr ⟨d, hd, rfl, hweak⟩
    have hle := hcount d.id
    rw [List.count_filter (p := fun k => (found.errors.find? k).isSome) hsome] at hle
    exact (alone_iff_count_le hd).mpr hle
  · intro halone k
    by_cases hsome : (found.errors.find? k).isSome = true
    · obtain ⟨d, hd, rfl, hweak⟩ := hrec.isSome_errors_iff.mp hsome
      exact Nat.le_trans (List.filter_sublist.count_le d.id)
        ((alone_iff_count_le hd).mp (halone d hd hweak))
    · -- Nothing is counted at an identifier without an error.
      have hnot : k ∉ (definitions.map Definition.id).filter
          fun k => (found.errors.find? k).isSome := fun hk => hsome (List.mem_filter.mp hk).2
      rw [List.count_eq_zero.mpr hnot]
      exact Nat.zero_le 1

/-- What is stored for a definition that shares its identifier with none is its own error. -/
theorem own_error_of_alone (hrec : Recorded effects definitions found)
    (halone : ∀ d ∈ definitions, d.IsTooWeak effects → Alone definitions d) {d : Definition}
    {diagnostic : Diagnostic} (h : (d, diagnostic) ∈ findingsOf definitions found.errors) :
    checkDefinition d effects = .ok (.tooWeak diagnostic) := by
  obtain ⟨hd, hfound⟩ := mem_findingsOf.mp h
  obtain ⟨c, e, hlast, he, rfl⟩ := (hrec.errors d.id diagnostic).mp hfound
  obtain ⟨hid, hweak⟩ := hlast.holds
  -- The last definition that is too weak at the identifier is the only one there.
  have hdc : d = c := (halone c hlast.mem hweak).eq_of_id_eq hd hid.symm
  subst hdc
  exact checkDefinition_eq_ok_iff.mpr
    ⟨e, he, Definition.judge_eq_tooWeak_iff.mpr ⟨(Definition.isTooWeak_iff he).mp hweak, rfl⟩⟩

/-! ## Suggestions -/

/-- A suggestion is stored for exactly the definitions at whose identifier some definition is too
strong. -/
theorem exists_mem_suggestions_iff (hrec : Recorded effects definitions found) {d : Definition}
    (hd : d ∈ definitions) :
    (∃ q, (d, q) ∈ findingsOf definitions found.suggestions) ↔
      ∃ c ∈ definitions, c.id = d.id ∧ c.IsTooStrong effects := by
  rw [← hrec.isSome_suggestions_iff, Option.isSome_iff_exists]
  exact exists_congr fun q => mem_findingsOf.trans (and_iff_right hd)

theorem exists_tooStrong_iff {d : Definition} :
    (∃ q, checkDefinition d effects = .ok (.tooStrong q)) ↔ d.IsTooStrong effects := by
  simp only [checkDefinition_eq_ok_iff, Definition.judge_eq_tooStrong_iff]
  constructor
  · intro h
    obtain ⟨q, e, he, hlt, -⟩ := h
    exact ⟨e, he, hlt⟩
  · intro h
    obtain ⟨e, he, hlt⟩ := h
    exact ⟨e.inferMode, e, he, hlt, rfl⟩

/-- What is stored for a definition that is too strong is its own suggestion, even if it shares its
identifier: both are the qualifier inferred for the same effect. -/
theorem own_suggestion (hrec : Recorded effects definitions found) {d : Definition} {q : Qualifier}
    (h : (d, q) ∈ findingsOf definitions found.suggestions) (hstrong : d.IsTooStrong effects) :
    checkDefinition d effects = .ok (.tooStrong q) := by
  obtain ⟨-, e, he, rfl⟩ := (hrec.suggestions d.id q).mp (mem_findingsOf.mp h).2
  exact checkDefinition_eq_ok_iff.mpr
    ⟨e, he, Definition.judge_eq_tooStrong_iff.mpr ⟨(Definition.isTooStrong_iff he).mp hstrong, rfl⟩⟩

/-- If no definition that is too weak shares its identifier, what a report gives a definition as an
error is its own. -/
theorem own_errors_of_report (hrec : Recorded effects definitions found) (settings : CheckerConfig)
    (halone : ∀ d ∈ definitions, d.IsTooWeak effects → Alone definitions d) :
    ∀ x ∈ errorsOf definitions (settings.report found.result).result,
      checkDefinition x.1 effects = .ok (.tooWeak x.2) := by
  intro x hx
  rw [errorsOf_report] at hx
  exact own_error_of_alone hrec halone hx

/-- If all definitions that share an identifier with one that is too strong are too strong, what a
report gives a definition as a suggestion is its own. -/
theorem own_suggestions_of_report (hrec : Recorded effects definitions found)
    (settings : CheckerConfig)
    (hagree : (∀ d ∈ definitions, ¬ d.IsTooWeak effects) → settings.reportSuggestions = true →
      ∀ c ∈ definitions, ∀ d ∈ definitions, c.IsTooStrong effects → c.id = d.id →
        d.IsTooStrong effects) :
    ∀ x ∈ suggestionsOf definitions (settings.report found.result).result,
      checkDefinition x.1 effects = .ok (.tooStrong x.2) := by
  intro x hx
  rw [suggestionsOf_report] at hx
  split at hx
  · next hreported =>
    obtain ⟨hempty, hreport⟩ := Bool.and_eq_true_iff.mp hreported
    have hd := (mem_findingsOf.mp hx).1
    obtain ⟨c, hc, hid, hstrong⟩ := (exists_mem_suggestions_iff hrec hd).mp ⟨x.2, hx⟩
    exact own_suggestion hrec hx
      (hagree (hrec.errors_isEmpty_iff.mp hempty) hreport c hc x.1 hd hstrong hid)
  · cases hx

/-! ## Counts -/

theorem countLine_inj {colour : Bool} {file : String} {m n : Nat} :
    countLine colour file m = countLine colour file n ↔ m = n := by
  constructor
  · intro h
    simp only [countLine, ← String.toList_inj, String.toList_append, List.append_cancel_left_eq,
      List.append_cancel_right_eq] at h
    have hdigits : Nat.toDigits 10 m = Nat.toDigits 10 n := by
      rw [← Nat.toList_repr, ← Nat.toList_repr]
      exact h
    rw [← Nat.ofDigitChars_ten_toDigits (n := m), hdigits, Nat.ofDigitChars_ten_toDigits]
  · intro h
    rw [h]

/-- They end with different characters. -/
theorem deniedLine_ne_countLine (colour : Bool) (file : String) (n : Nat) :
    deniedLine colour file ≠ countLine colour file n := by
  intro h
  have hlast := congrArg (fun line => line.toList.getLast?) h
  have hdenied : (": suggestions denied".toList).getLast? = some 'd' := by decide
  have hcount : (" mode error(s)".toList).getLast? = some ')' := by decide
  simp only [deniedLine, countLine, String.toList_append, List.getLast?_append, hdenied, hcount,
    Option.some_or, Option.some.injEq] at hlast
  exact absurd hlast (by decide)

/-- Errors are counted as they are printed exactly when as many are stored as there are definitions that
are given one. -/
theorem count_checkWords_iff (colour : Bool) (file : String) (definitions : List Definition)
    (settings : CheckerConfig) (found : Findings) :
    let err := (checkWords colour file definitions (settings.report found.result)).err
    (∀ n, err.getLast? = some (countLine colour file n) →
        n = (marked (errorMark colour) err).length) ↔
      found.errors.size = (findingsOf definitions found.errors).length := by
  intro err
  have hmarked : (marked (errorMark colour) err).length
      = (findingsOf definitions found.errors).length := by
    rw [marked_err_checkWords, List.length_map, errorsOf_report]
  rw [hmarked, show err = _ from err_checkWords colour file definitions settings found]
  cases hempty : found.errors.isEmpty with
  | false =>
    rw [if_neg Bool.false_ne_true]
    simp only [List.getLast?_concat, Option.some.injEq, countLine_inj, forall_eq']
  | true =>
    rw [if_pos rfl, SortedMap.eq_empty_of_isEmpty hempty, findingsOf_empty]
    refine iff_of_true (fun n hlast => ?_) rfl
    split at hlast
    · cases hlast
    · exact absurd (Option.some.inj hlast) (deniedLine_ne_countLine colour file n)

end

/-! ## Attribution -/

/-- **When findings are attributed rightly.** What a check prints gives every definition its own finding,
in words and as a document, and counts the errors it prints, exactly when each definition that is too
weak shares its identifier with none, and, where suggestions are reported, all definitions that share an
identifier with one that is too strong are too strong. -/
theorem attributed_iff {files : Files} {options : CheckOptions} {input : CheckInput}
    {settings : CheckerConfig} {report : CheckReport}
    (hsupplies : Supplies files options input settings)
    (hcheck : settings.check input.module input.effects = .ok report) (colour : Bool) :
    let definitions := input.module.definitions
    Attributed input.effects colour options.file
        ((errorsOf definitions report.result).map Prod.fst)
        ((suggestionsOf definitions report.result).map Prod.fst)
        (run files colour (.check { options with json := false }))
        (run files colour (.check { options with json := true })) ↔
      (∀ d ∈ definitions, d.IsTooWeak input.effects → Alone definitions d) ∧
      ((∀ d ∈ definitions, ¬ d.IsTooWeak input.effects) → settings.reportSuggestions = true →
        ∀ c ∈ definitions, ∀ d ∈ definitions, c.IsTooStrong input.effects → c.id = d.id →
          d.IsTooStrong input.effects) := by
  intro definitions
  obtain ⟨text, hout, hread⟩ := out_run_of_supplies colour
    (show Supplies files { options with json := true } input settings from hsupplies) hcheck rfl
  have hwords := run_of_supplies colour
    (show Supplies files { options with json := false } input settings from hsupplies) hcheck
  rw [if_neg Bool.false_ne_true] at hwords
  rw [hwords]
  obtain ⟨result, hresult, rfl⟩ := CheckerConfig.exists_of_check hcheck
  obtain ⟨found, rfl, hrec⟩ := recorded_of_checkModes hresult
  have hcount := count_checkWords_iff colour options.file definitions settings found
  constructor
  · -- The count alone says that no error is shared; for suggestions, every definition that is given
    -- one has to be asked.
    intro hattr
    refine ⟨(size_errors_iff_alone hrec).mp (hcount.mp hattr.count),
      fun hnone hreport c hc d hd hstrong hid => ?_⟩
    obtain ⟨q, hq⟩ := (exists_mem_suggestions_iff hrec hd).mpr ⟨c, hc, hid, hstrong⟩
    have htexts := hattr.suggestionTexts
    rw [marked_out_checkWords, suggestionsOf_report, hrec.errors_isEmpty_iff.mpr hnone, hreport,
      forall₂_map_map_iff] at htexts
    obtain ⟨own, hown, -⟩ := htexts (d, q) hq
    exact exists_tooStrong_iff.mp ⟨own, hown⟩
  · intro hids
    obtain ⟨halone, hagree⟩ := hids
    have hownError := own_errors_of_report hrec settings halone
    have hownSuggestion := own_suggestions_of_report hrec settings hagree
    refine ⟨?_, ?_, ⟨text, _, _, _, hout, hread, ?_, ?_⟩,
      hcount.mpr ((size_errors_iff_alone hrec).mpr halone)⟩
    · rw [marked_err_checkWords, forall₂_map_map_iff]
      exact fun x hx => ⟨x.2, hownError x hx, String.append_assoc.symm⟩
    · rw [marked_out_checkWords, forall₂_map_map_iff]
      exact fun x hx => ⟨x.2, hownSuggestion x hx, String.append_assoc.symm⟩
    · exact forall₂_map_map_iff.mpr fun x hx =>
        ⟨x.2, hownError x hx, isErrorEntry_errorDocument.mpr ⟨rfl, rfl⟩⟩
    · exact forall₂_map_map_iff.mpr fun x hx =>
        ⟨x.2, hownSuggestion x hx, isSuggestionEntry_suggestionDocument.mpr ⟨rfl, rfl⟩⟩

/-- Two definitions of one identifier that are both too strong: what is stored there is a suggestion
for either. -/
theorem attributed_agreeing :
    let a : Definition := { id := 1, name := "a", qualifier := .temporal }
    let b : Definition := { id := 1, name := "b", qualifier := .action }
    let input : CheckInput :=
      { module := { definitions := [a, b] }
        effects := .ofList [(1, .leaf (.reading (.of ["x"])))] }
    let files : Files := fun _ => .ok input.toJson.compact
    let report : CheckReport := { result := .success (.ofList [(1, .val)]), passed := true }
    Supplies files { file := "m.json" } input {} ∧
      ({} : CheckerConfig).check input.module input.effects = .ok report ∧
      (suggestionsOf input.module.definitions report.result).map Prod.fst = [a, b] ∧
      Attributed input.effects false "m.json" [] [a, b]
        (run files false (.check { file := "m.json" }))
        (run files false (.check { file := "m.json", json := true })) := by
  intro a b input files report
  have hcheck : ({} : CheckerConfig).check input.module input.effects = .ok report := by rfl
  have hsupplies : Supplies files { file := "m.json" } input {} :=
    ⟨holds_of_written rfl (by decide), {}, rfl, rfl⟩
  exact ⟨hsupplies, hcheck, rfl,
    (attributed_iff hsupplies hcheck false).mpr ⟨by decide, fun _ _ => by decide⟩⟩

/-- Three definitions of one identifier, of which two are too weak and the third is accepted. The
error of the second is printed for each of them, the first's own not at all, and one error is
counted. -/
theorem not_attributed_shared :
    let a : Definition := { id := 1, name := "a", qualifier := .pureVal }
    let b : Definition := { id := 1, name := "b", qualifier := .val }
    let c : Definition := { id := 1, name := "c", qualifier := .action }
    let updating : Effect := .leaf (.updating .empty (.of ["x"]))
    let input : CheckInput :=
      { module := { name := "m", definitions := [a, b, c] }, effects := .ofList [(1, updating)] }
    let files : Files := fun _ => .ok input.toJson.compact
    let line := "error: " ++ (b.complaint updating).render
    ∃ report, Supplies files { file := "m.json" } input {} ∧
      ({} : CheckerConfig).check input.module input.effects = .ok report ∧
      run files false (.check { file := "m.json" })
        = { exit := 1, err := [line, line, line, "✗ m.json: 1 mode error(s)"] } ∧
      checkDefinition c input.effects = .ok .accepted ∧
      (errorsOf input.module.definitions report.result).map Prod.fst = [a, b, c] ∧
      ¬ Attributed input.effects false "m.json" [a, b, c] []
        (run files false (.check { file := "m.json" }))
        (run files false (.check { file := "m.json", json := true })) := by
  intro a b c updating input files line
  have hcheck : ({} : CheckerConfig).check input.module input.effects
      = .ok { result := .failure (.ofList [(1, b.complaint updating)]), passed := false } := by rfl
  have hsupplies : Supplies files { file := "m.json" } input {} :=
    ⟨holds_of_written rfl (by decide), {}, rfl, rfl⟩
  have haccepted : checkDefinition c input.effects = .ok .accepted := by rfl
  have hwords : run files false (.check { file := "m.json" })
      = { exit := 1, err := [line, line, line, "✗ m.json: 1 mode error(s)"] } := by
    rw [run_of_supplies false hsupplies hcheck]
    decide +kernel
  refine ⟨_, hsupplies, hcheck, hwords, haccepted, rfl, fun hattr => ?_⟩
  -- Three errors are printed where one is counted.
  have hprinted := hattr.errorTexts.length_eq
  have hcounted := hattr.count 1 (by rw [hwords]; decide)
  rw [← hprinted] at hcounted
  exact absurd hcounted (by decide)

end OperatorModes.Cli
