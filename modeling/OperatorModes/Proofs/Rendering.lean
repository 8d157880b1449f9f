import OperatorModes.Proofs.Report

/-!
# Both renderings report the same findings

A check is reported in words or as a document, by two functions that take the result and the verdict
apart each in its own way. Both list the findings of one report, `errorsOf` and `suggestionsOf`, and
put nothing among them that could be taken for another:

> `marked_err_checkWords`: the texts marked as errors are those of the errors of the report.
> `marked_out_checkWords`: and likewise for suggestions.

A text is printed as a line only if it has no line break in it. The names of definitions and variables
are printed as they are, and so is the path of the file, so a name with a line break in it makes more
lines than one, and some of them may look like findings (`renderings_differ_broken`). What is read off
the lines is then just as far from the document as the texts in the document are from being lines:

> `renderings_agree`: the marked lines and the entries of the document belong together one by one
> exactly when there is no line break in what the entries give.
-/

namespace OperatorModes.Cli

/-! ## Lines -/

/-- The lines of what has been printed: what stands before each line break. -/
def linesOf (printed : String) : List String :=
  (printed.toList.splitOn '\n').dropLast.map String.ofList

/-- There is no line break in the text. -/
def OneLine (text : String) : Prop := '\n' ∉ text.toList

instance (text : String) : Decidable (OneLine text) :=
  inferInstanceAs (Decidable (¬ _))

@[simp] theorem oneLine_append {a b : String} : OneLine (a ++ b) ↔ OneLine a ∧ OneLine b := by
  rw [OneLine, String.toList_append, List.mem_append, not_or]
  exact Iff.rfl

theorem unlines_cons (text : String) (texts : List String) :
    (unlines (text :: texts)).toList = text.toList ++ '\n' :: (unlines texts).toList := by
  simp [unlines, String.join_cons]

/-- Texts without line breaks are the lines of what is printed. -/
theorem linesOf_unlines {texts : List String} (h : ∀ text ∈ texts, OneLine text) :
    linesOf (unlines texts) = texts := by
  induction texts with
  | nil => rfl
  | cons text texts ih =>
    obtain ⟨htext, htexts⟩ := List.forall_mem_cons.mp h
    rw [linesOf, unlines_cons, List.splitOn_append_cons_self_of_not_mem htext,
      List.dropLast_cons_of_ne_nil (List.splitOn_ne_nil _ _), List.map_cons, String.ofList_toList]
    exact congrArg (text :: ·) (ih htexts)

/-- No piece of a list has the separator in it. -/
theorem not_mem_of_mem_splitOn {piece : List Char} :
    ∀ {text : List Char}, piece ∈ text.splitOn '\n' → '\n' ∉ piece
  | [], h => by
    rw [List.splitOn_nil, List.mem_singleton] at h
    rw [h]
    exact List.not_mem_nil
  | c :: text, h => by
    rw [List.splitOn_cons_eq_if_modifyHead] at h
    split at h
    · rcases List.mem_cons.mp h with rfl | h
      · exact List.not_mem_nil
      · exact not_mem_of_mem_splitOn h
    · next hc =>
      obtain ⟨first, rest, hsplit⟩ := List.exists_cons_of_ne_nil (List.splitOn_ne_nil '\n' text)
      rw [hsplit, List.modifyHead_cons] at h
      rcases List.mem_cons.mp h with rfl | h
      · have hfirst : first ∈ text.splitOn '\n' := hsplit ▸ List.mem_cons_self
        exact List.not_mem_cons_of_ne_of_not_mem (fun heq => hc (beq_iff_eq.mpr heq.symm))
          (not_mem_of_mem_splitOn hfirst)
      · have hpiece : piece ∈ text.splitOn '\n' := hsplit ▸ List.mem_cons_of_mem _ h
        exact not_mem_of_mem_splitOn hpiece

/-- A line has no line break in it. -/
theorem oneLine_of_mem_linesOf {line printed : String} (h : line ∈ linesOf printed) :
    OneLine line := by
  obtain ⟨piece, hpiece, rfl⟩ := List.mem_map.mp h
  rw [OneLine, String.toList_ofList]
  exact not_mem_of_mem_splitOn (List.dropLast_subset _ hpiece)

/-! ## Marks -/

/-- What a line with a suggestion begins with. -/
def suggestionMark (colour : Bool) : String :=
  paint colour .boldYellow "suggestion:"

/-- The line that says that a file passes. -/
def validLine (colour : Bool) (file : String) : String :=
  paint colour .green "✓" ++ " " ++ file ++ ": modes valid"

/-- The lines that begin with a mark. -/
def marked (mark : String) (lines : List String) : List String :=
  lines.filter fun line => mark.toList.isPrefixOf line.toList

theorem isPrefixOf_append (mark rest : String) :
    mark.toList.isPrefixOf (mark ++ rest).toList = true := by
  rw [List.isPrefixOf_iff_prefix, String.toList_append]
  exact List.prefix_append _ _

theorem isPrefixOf_errorMark_cross (colour : Bool) (rest : String) :
    (errorMark colour).toList.isPrefixOf (paint colour .red "✗" ++ rest).toList = false := by
  rw [String.toList_append]
  cases colour with
  | false => rfl
  | true => rfl

theorem isPrefixOf_suggestionMark_validLine (colour : Bool) (file : String) :
    (suggestionMark colour).toList.isPrefixOf (validLine colour file).toList = false := by
  rw [validLine, String.append_assoc, String.append_assoc, String.toList_append]
  cases colour with
  | false => rfl
  | true => rfl

/-- Of lines that all begin with a mark, all are marked. -/
theorem marked_map {α : Type} (mark : String) (text : α → String) (xs : List α) :
    marked mark (xs.map fun x => mark ++ text x) = xs.map fun x => mark ++ text x := by
  refine List.filter_eq_self.mpr fun line hline => ?_
  obtain ⟨x, -, rfl⟩ := List.mem_map.mp hline
  exact isPrefixOf_append mark (text x)

theorem marked_concat {mark last : String} (lines : List String)
    (h : mark.toList.isPrefixOf last.toList = false) :
    marked mark (lines ++ [last]) = marked mark lines := by
  rw [marked, List.filter_append, List.filter_singleton, h]
  exact List.append_nil _

theorem mem_of_mem_marked {mark line : String} {lines : List String} (h : line ∈ marked mark lines) :
    line ∈ lines :=
  (List.mem_filter.mp h).1

/-! ## What is printed in words -/

section

variable (colour : Bool) (file : String) (definitions : List Definition) (report : CheckReport)

/-- The texts marked as errors are those of the errors of the report. -/
theorem marked_err_checkWords :
    marked (errorMark colour) (checkWords colour file definitions report).err
      = (errorsOf definitions report.result).map fun e =>
          errorMark colour ++ (" " ++ e.2.render) := by
  obtain ⟨result, passed⟩ := report
  cases result with
  | failure errors =>
    have hlines : (checkWords colour file definitions ⟨.failure errors, passed⟩).err
        = ((findingsOf definitions errors).map fun e => errorMark colour ++ (" " ++ e.2.render)) ++
          [countLine colour file errors.size] := by
      rw [err_checkWords_failure]
      simp only [errorLine, errorMark, String.append_assoc]
    rw [hlines, countLine, String.append_assoc, String.append_assoc, String.append_assoc,
      String.append_assoc, marked_concat _ (isPrefixOf_errorMark_cross colour _), marked_map]
    rfl
  | success suggestions =>
    rw [err_checkWords_success]
    cases passed with
    | true => rfl
    | false =>
      show marked (errorMark colour) ([] ++ [deniedLine colour file]) = []
      rw [deniedLine, String.append_assoc, String.append_assoc,
        marked_concat [] (isPrefixOf_errorMark_cross colour _)]
      rfl

/-- After the suggestions there is only the line that says that the file passes, if it does. -/
theorem out_checkWords {suggestions : SuggestionMap} (h : report.result = .success suggestions) :
    (checkWords colour file definitions report).out
      = ((suggestionsOf definitions report.result).map fun e =>
          suggestionMark colour ++ (" " ++ suggestionMessage e.1 e.2)) ++
        if report.passed then [validLine colour file] else [] := by
  obtain ⟨result, passed⟩ := report
  subst h
  simp only [suggestionMark, ← String.append_assoc]
  cases passed with
  | true => rfl
  | false => exact (List.append_nil _).symm

/-- The texts marked as suggestions are those of the suggestions of the report. -/
theorem marked_out_checkWords :
    marked (suggestionMark colour) (checkWords colour file definitions report).out
      = (suggestionsOf definitions report.result).map fun e =>
          suggestionMark colour ++ (" " ++ suggestionMessage e.1 e.2) := by
  cases hresult : report.result with
  | failure errors =>
    rw [checkWords, hresult]
    rfl
  | success suggestions =>
    rw [out_checkWords colour file definitions report hresult, hresult]
    split
    · rw [marked_concat _ (isPrefixOf_suggestionMark_validLine colour file), marked_map]
    · rw [List.append_nil, marked_map]

/-- The file is said to pass exactly when it does. -/
theorem validLine_mem_out_iff (h : report.passed = true → report.result.isSuccess = true) :
    validLine colour file ∈ (checkWords colour file definitions report).out ↔
      report.passed = true := by
  cases hresult : report.result with
  | failure errors =>
    have hout : (checkWords colour file definitions report).out = [] := by
      rw [checkWords, hresult]
    rw [hout]
    refine iff_of_false List.not_mem_nil fun hpassed => ?_
    have hsuccess := h hpassed
    rw [hresult] at hsuccess
    cases hsuccess
  | success suggestions =>
    -- It is none of the suggestions, which begin with their mark.
    have hnone : validLine colour file ∉ (suggestionsOf definitions report.result).map fun e =>
        suggestionMark colour ++ (" " ++ suggestionMessage e.1 e.2) := by
      intro hmem
      obtain ⟨e, -, he⟩ := List.mem_map.mp hmem
      have hprefix := isPrefixOf_append (suggestionMark colour) (" " ++ suggestionMessage e.1 e.2)
      rw [he, isPrefixOf_suggestionMark_validLine] at hprefix
      cases hprefix
    rw [out_checkWords colour file definitions report hresult, List.mem_append, or_iff_right hnone]
    cases report.passed <;> simp

end

/-! ## What is printed on one line -/

section

variable {colour : Bool} {file : String} {definitions : List Definition} {report : CheckReport}

theorem oneLine_paint {p : Paint} {text : String} (h : OneLine text) :
    OneLine (paint colour p text) := by
  cases colour with
  | false => exact h
  | true =>
    have hcolour : OneLine (escape ++ "[" ++ p.code ++ "m") := by cases p <;> decide
    show OneLine (escape ++ "[" ++ p.code ++ "m" ++ text ++ escape ++ "[0m")
    exact oneLine_append.mpr ⟨oneLine_append.mpr ⟨oneLine_append.mpr ⟨hcolour, h⟩, by decide⟩,
      by decide⟩

theorem oneLine_keyword (q : Qualifier) : OneLine q.keyword := by
  cases q <;> decide

theorem oneLine_toString (n : Nat) : OneLine (toString n) := by
  intro hbreak
  have hdigit := Json.isDigit_of_mem_toDigits '\n' (Nat.toList_repr ▸ hbreak)
  exact absurd hdigit (by decide)

/-- If there is no line break in the path and in the errors, there is none in the texts on the error
output. -/
theorem oneLine_of_mem_err (hfile : OneLine file)
    (h : ∀ e ∈ errorsOf definitions report.result, OneLine e.2.location ∧ OneLine e.2.message) :
    ∀ text ∈ (checkWords colour file definitions report).err, OneLine text := by
  have hcross : OneLine (paint colour .red "✗") := oneLine_paint (by decide)
  obtain ⟨result, passed⟩ := report
  cases result with
  | failure errors =>
    rw [err_checkWords_failure]
    refine List.forall_mem_append.mpr ⟨fun text htext => ?_, List.forall_mem_singleton.mpr ?_⟩
    · obtain ⟨e, he, rfl⟩ := List.mem_map.mp htext
      have hmark : OneLine (errorMark colour) := oneLine_paint (by decide)
      simp only [errorLine, Diagnostic.render, oneLine_append]
      exact ⟨⟨hmark, by decide⟩, ⟨(h e he).1, by decide⟩, (h e he).2⟩
    · simp only [countLine, oneLine_append]
      exact ⟨⟨⟨⟨⟨hcross, by decide⟩, hfile⟩, by decide⟩, oneLine_toString _⟩, by decide⟩
  | success suggestions =>
    rw [err_checkWords_success]
    split
    · exact List.forall_mem_nil _
    · refine List.forall_mem_singleton.mpr ?_
      simp only [deniedLine, oneLine_append]
      exact ⟨⟨⟨hcross, by decide⟩, hfile⟩, by decide⟩

/-- If there is no line break in the path and in the names with suggestions, there is none in the texts
on the output. -/
theorem oneLine_of_mem_out (hfile : OneLine file)
    (h : ∀ e ∈ suggestionsOf definitions report.result, OneLine e.1.name) :
    ∀ text ∈ (checkWords colour file definitions report).out, OneLine text := by
  cases hresult : report.result with
  | failure errors =>
    have hout : (checkWords colour file definitions report).out = [] := by
      rw [checkWords, hresult]
    rw [hout]
    exact List.forall_mem_nil _
  | success suggestions =>
    rw [out_checkWords colour file definitions report hresult]
    refine List.forall_mem_append.mpr ⟨fun text htext => ?_, ?_⟩
    · obtain ⟨e, he, rfl⟩ := List.mem_map.mp htext
      have hmark : OneLine (suggestionMark colour) := oneLine_paint (by decide)
      simp only [suggestionMessage, oneLine_append]
      exact ⟨hmark, by decide, ⟨⟨⟨⟨by decide, h e he⟩, by decide⟩, oneLine_keyword _⟩, by decide⟩,
        oneLine_keyword _⟩
    · split
      · refine List.forall_mem_singleton.mpr ?_
        have hcheck : OneLine (paint colour .green "✓") := oneLine_paint (by decide)
        simp only [validLine, oneLine_append]
        exact ⟨⟨⟨hcheck, by decide⟩, hfile⟩, by decide⟩
      · exact List.forall_mem_nil _

end

/-! ## Lines and entries -/

/-- An entry gives a place and a message. -/
def IsErrorEntry (entry : Json) (location message : String) : Prop :=
  ∃ members, entry = .obj members ∧ Json.find? members "location" = some (.str location) ∧
    Json.find? members "message" = some (.str message)

/-- An entry gives a name and the keyword of what is suggested. -/
def IsSuggestionEntry (entry : Json) (name keyword : String) : Prop :=
  ∃ members, entry = .obj members ∧ Json.find? members "name" = some (.str name) ∧
    Json.find? members "keyword" = some (.str keyword)

/-- The line shows an error as an entry gives it. -/
def ShowsError (colour : Bool) (line : String) (entry : Json) : Prop :=
  ∃ location message, IsErrorEntry entry location message ∧
    line = errorMark colour ++ " " ++ (location ++ ": " ++ message)

/-- The line shows a suggestion as an entry gives it. -/
def ShowsSuggestion (colour : Bool) (line : String) (entry : Json) : Prop :=
  ∃ name keyword, IsSuggestionEntry entry name keyword ∧
    ∃ declared : Qualifier, line = suggestionMark colour ++ " " ++ ("'" ++ name
      ++ "' is declared as " ++ declared.keyword ++ " but can be declared as " ++ keyword)

/-- No entry gives a place or a message with a line break in it. -/
def ErrorsUnbroken (entries : List Json) : Prop :=
  ∀ entry ∈ entries, ∀ location message, IsErrorEntry entry location message →
    OneLine location ∧ OneLine message

/-- No entry gives a name with a line break in it. -/
def SuggestionsUnbroken (entries : List Json) : Prop :=
  ∀ entry ∈ entries, ∀ name keyword, IsSuggestionEntry entry name keyword → OneLine name

theorem isErrorEntry_errorDocument {e : Definition × Diagnostic} {location message : String} :
    IsErrorEntry (errorDocument e) location message ↔
      e.2.location = location ∧ e.2.message = message := by
  constructor
  · intro h
    obtain ⟨members, hmembers, hlocation, hmessage⟩ := h
    cases hmembers
    cases hlocation
    cases hmessage
    exact ⟨rfl, rfl⟩
  · intro h
    obtain ⟨rfl, rfl⟩ := h
    exact ⟨_, rfl, rfl, rfl⟩

theorem isSuggestionEntry_suggestionDocument {e : Definition × Qualifier} {name keyword : String} :
    IsSuggestionEntry (suggestionDocument e) name keyword ↔
      e.1.name = name ∧ e.2.keyword = keyword := by
  constructor
  · intro h
    obtain ⟨members, hmembers, hname, hkeyword⟩ := h
    cases hmembers
    cases hname
    cases hkeyword
    exact ⟨rfl, rfl⟩
  · intro h
    obtain ⟨rfl, rfl⟩ := h
    exact ⟨_, rfl, rfl, rfl⟩

theorem errorsUnbroken_map_iff {es : List (Definition × Diagnostic)} :
    ErrorsUnbroken (es.map errorDocument) ↔
      ∀ e ∈ es, OneLine e.2.location ∧ OneLine e.2.message := by
  simp only [ErrorsUnbroken, List.forall_mem_map, isErrorEntry_errorDocument]
  exact forall_congr' fun e => forall_congr' fun _ =>
    ⟨fun h => h _ _ ⟨rfl, rfl⟩, fun h _ _ hgives => hgives.1 ▸ hgives.2 ▸ h⟩

theorem suggestionsUnbroken_map_iff {es : List (Definition × Qualifier)} :
    SuggestionsUnbroken (es.map suggestionDocument) ↔ ∀ e ∈ es, OneLine e.1.name := by
  simp only [SuggestionsUnbroken, List.forall_mem_map, isSuggestionEntry_suggestionDocument]
  exact forall_congr' fun e => forall_congr' fun _ =>
    ⟨fun h => h _ _ ⟨rfl, rfl⟩, fun h _ _ hgives => hgives.1 ▸ h⟩

section

variable {colour : Bool} {file : String} {definitions : List Definition} {report : CheckReport}

/-- The lines marked as errors show the entries one by one exactly when there is no line break in what
the entries give. -/
theorem forall₂_showsError_iff (hfile : OneLine file) :
    List.Forall₂ (ShowsError colour)
        (marked (errorMark colour)
          (linesOf (unlines (checkWords colour file definitions report).err)))
        ((errorsOf definitions report.result).map errorDocument) ↔
      ErrorsUnbroken ((errorsOf definitions report.result).map errorDocument) := by
  rw [errorsUnbroken_map_iff]
  constructor
  · intro h e he
    obtain ⟨line, hline, location, message, hshown, rfl⟩ :=
      exists_mem_of_forall₂ h.flip _ (List.mem_map_of_mem he)
    obtain ⟨rfl, rfl⟩ := isErrorEntry_errorDocument.mp hshown
    have hone := oneLine_of_mem_linesOf (mem_of_mem_marked hline)
    simp only [oneLine_append] at hone
    exact ⟨hone.2.1.1, hone.2.2⟩
  · intro h
    rw [linesOf_unlines (oneLine_of_mem_err hfile h), marked_err_checkWords, forall₂_map_map_iff]
    intro e _
    exact ⟨_, _, isErrorEntry_errorDocument.mpr ⟨rfl, rfl⟩, String.append_assoc.symm⟩

/-- The lines marked as suggestions show the entries one by one exactly when there is no line break in
the names that the entries give. -/
theorem forall₂_showsSuggestion_iff (hfile : OneLine file) :
    List.Forall₂ (ShowsSuggestion colour)
        (marked (suggestionMark colour)
          (linesOf (unlines (checkWords colour file definitions report).out)))
        ((suggestionsOf definitions report.result).map suggestionDocument) ↔
      SuggestionsUnbroken ((suggestionsOf definitions report.result).map suggestionDocument) := by
  rw [suggestionsUnbroken_map_iff]
  constructor
  · intro h e he
    obtain ⟨line, hline, name, keyword, hshown, declared, rfl⟩ :=
      exists_mem_of_forall₂ h.flip _ (List.mem_map_of_mem he)
    obtain ⟨rfl, rfl⟩ := isSuggestionEntry_suggestionDocument.mp hshown
    have hone := oneLine_of_mem_linesOf (mem_of_mem_marked hline)
    simp only [oneLine_append] at hone
    exact hone.2.1.1.1.1.2
  · intro h
    rw [linesOf_unlines (oneLine_of_mem_out hfile h), marked_out_checkWords, forall₂_map_map_iff]
    intro e _
    exact ⟨_, _, isSuggestionEntry_suggestionDocument.mpr ⟨rfl, rfl⟩, e.1.qualifier,
      String.append_assoc.symm⟩

end

/-! ## Both reports -/

/-- **Both renderings report the same findings.** Unless a check ends with exit code 2, it ends with
the same exit code whether it reports in words or as a document. The document is all that is printed of
it, and in words nothing is printed on the output when the result is a failure. If there is no line
break in the path of the file, the lines marked as errors show the errors of the document one by one
exactly when there is none in the place and the message of any, and the lines marked as suggestions show
its suggestions exactly when there is none in the name of any; the file is then said to pass exactly
when the document is marked valid. -/
theorem renderings_agree {files : Files} {colour : Bool} {options : CheckOptions}
    (h : (run files colour (.check options)).exit ≠ 2) :
    let words := run files colour (.check { options with json := false })
    let document := run files colour (.check { options with json := true })
    ∃ input report text errors suggestions valid,
      options.report files = .ok (input, report) ∧
      document.exit = words.exit ∧ document.err = [] ∧ document.out = [text] ∧
      Json.readAll Json.tree text = .ok (.obj [("errors", .arr errors),
        ("suggestions", .arr suggestions), ("valid", .bool valid)]) ∧
      (report.result.isSuccess = false → words.out = []) ∧
      (OneLine options.file →
        (List.Forall₂ (ShowsError colour)
            (marked (errorMark colour) (linesOf (unlines words.err))) errors ↔
          ErrorsUnbroken errors) ∧
        (List.Forall₂ (ShowsSuggestion colour)
            (marked (suggestionMark colour) (linesOf (unlines words.out))) suggestions ↔
          SuggestionsUnbroken suggestions) ∧
        (SuggestionsUnbroken suggestions →
          (validLine colour options.file ∈ linesOf (unlines words.out) ↔ valid = true))) := by
  intro words document
  -- The report is that of the same run, whether or not it is printed as a document.
  rcases report_cases files options with
    ⟨-, fault, hfault⟩ | ⟨-, c, input, found, -, -, hrec, hreport⟩
  · exact absurd (exit_runCheck_of_fault hfault) h
  let report := (options.settings c.checker).report found.result
  have hwords : words = checkWords colour options.file input.module.definitions report := by
    show runCheck files colour { options with json := false } = _
    rw [runCheck, show CheckOptions.report files { options with json := false } = _ from hreport]
    rfl
  have hdocument : document = checkJson input.module.definitions report := by
    show runCheck files colour { options with json := true } = _
    rw [runCheck, show CheckOptions.report files { options with json := true } = _ from hreport]
    rfl
  rw [hwords, hdocument]
  refine ⟨input, report, _, _, _, _, hreport, ?_, rfl, rfl,
    readAll_pretty_checkDocument hrec _, fun hfails => ?_, fun hfile =>
      ⟨forall₂_showsError_iff hfile, forall₂_showsSuggestion_iff hfile, fun hunbroken => ?_⟩⟩
  · exact (exit_checkWords colour options.file input.module.definitions report).symm
  · cases hresult : report.result with
    | failure errors => rw [checkWords, hresult]
    | success suggestions =>
      rw [hresult] at hfails
      cases hfails
  · rw [linesOf_unlines (oneLine_of_mem_out hfile (suggestionsUnbroken_map_iff.mp hunbroken))]
    exact validLine_mem_out_iff colour options.file _ report CheckerConfig.isSuccess_of_passed

/-- Three definitions of one identifier. Each is listed with the error that is stored there, on a line
of its own and in the document. -/
theorem renderings_agree_shared :
    let a : Definition := { id := 1, name := "a", qualifier := .pureVal }
    let b : Definition := { id := 1, name := "b", qualifier := .val }
    let c : Definition := { id := 1, name := "c", qualifier := .action }
    let updating : Effect := .leaf (.updating .empty (.of ["x"]))
    let input : CheckInput :=
      { module := { name := "m", definitions := [a, b, c] }, effects := .ofList [(1, updating)] }
    let files : Files := fun _ => .ok input.toJson.compact
    let options : CheckOptions := { file := "m.json" }
    (run files true (.check options)).exit ≠ 2 ∧
      (run files true (.check { options with json := true })).exit = 1 ∧ OneLine options.file ∧
      ∃ text errors, (run files true (.check { options with json := true })).out = [text] ∧
        Json.readAll Json.tree text = .ok (.obj [("errors", .arr errors), ("suggestions", .arr []),
          ("valid", .bool false)]) ∧
        errors.length = 3 ∧ ErrorsUnbroken errors ∧
        List.Forall₂ (ShowsError true) (marked (errorMark true)
          (linesOf (unlines (run files true (.check options)).err))) errors := by
  intro a b c updating input files options
  have hcheck : ({} : CheckerConfig).check input.module input.effects
      = .ok { result := .failure (.ofList [(1, b.complaint updating)]), passed := false } := by rfl
  have hholds : Holds files CheckInput.ofDocument "m.json" input :=
    holds_of_written rfl (by decide)
  have hwords := run_of_supplies true
    (show Supplies files options input {} from ⟨hholds, {}, rfl, rfl⟩) hcheck
  have hexit : (run files true (.check options)).exit ≠ 2 := by
    rw [hwords]
    decide
  have hfile : OneLine options.file := by decide
  let errors := (errorsOf input.module.definitions
    (.failure (.ofList [(1, b.complaint updating)]))).map errorDocument
  have hunbroken : ErrorsUnbroken errors := errorsUnbroken_map_iff.mpr (by decide +kernel)
  obtain ⟨text, hout, hread⟩ := out_run_of_supplies true
    (show Supplies files { options with json := true } input {} from ⟨hholds, {}, rfl, rfl⟩)
    hcheck rfl
  obtain ⟨_, _, text', _, _, _, -, hsame, -, hout', hread', -, hlines⟩ := renderings_agree hexit
  -- What is read of the document are the errors of the three definitions.
  rw [hout'] at hout
  cases hout
  rw [hread'] at hread
  cases hread
  refine ⟨hexit, hsame.trans ?_, hfile, text, errors, hout', hread', rfl, hunbroken,
    (hlines hfile).1.mpr hunbroken⟩
  rw [hwords]
  rfl

/-- The name of a definition that is too weak goes on after a line break, as if with another error:
there are three lines that begin as errors for the one error in the document. The name of a definition
that is too strong has the line in it that says that the file passes: it is printed although the
document is marked invalid. The path of a file without definitions goes on as if with a suggestion. -/
theorem renderings_differ_broken :
    let f : Definition := { id := 1, name := "a\nerror: b", qualifier := .pureVal }
    let g : Definition := { id := 2, name := "c\n✓ g.json: modes valid\n", qualifier := .val }
    let updating : Effect := .leaf (.updating .empty (.of ["x"]))
    let effects : EffectMap := .ofList [(1, updating), (2, .leaf .pure)]
    let files : Files := fun path => .ok (CheckInput.toJson
      { module := { definitions :=
          if path = "f.json" then [f] else if path = "g.json" then [g] else [] }, effects }).compact
    let forF : CheckOptions := { file := "f.json" }
    let forG : CheckOptions := { file := "g.json", denySuggestions := true }
    let forNone : CheckOptions := { file := "h\nsuggestion: h.json" }
    (run files false (.check forF)).exit = 1 ∧
      marked "error:" (linesOf (unlines (run files false (.check forF)).err))
        = ["error: a", "error: b: 'a", "error: b' is declared as pure val but its effect "
          ++ "Update[x] requires action (expected: action, found: staticval)"] ∧
      (∃ text entry, (run files false (.check { forF with json := true })).out = [text] ∧
        Json.readAll Json.tree text = .ok (.obj [("errors", .arr [entry]),
          ("suggestions", .arr []), ("valid", .bool false)])) ∧
      "✓ g.json: modes valid" ∈ linesOf (unlines (run files false (.check forG)).out) ∧
      (∃ text entry, (run files false (.check { forG with json := true })).out = [text] ∧
        Json.readAll Json.tree text = .ok (.obj [("errors", .arr []),
          ("suggestions", .arr [entry]), ("valid", .bool false)])) ∧
      marked "suggestion:" (linesOf (unlines (run files false (.check forNone)).out))
        = ["suggestion: h.json: modes valid"] ∧
      ∃ text, (run files false (.check { forNone with json := true })).out = [text] ∧
        Json.readAll Json.tree text = .ok (.obj [("errors", .arr []), ("suggestions", .arr []),
          ("valid", .bool true)]) := by
  intro f g updating effects files forF forG forNone
  have hf : Holds files CheckInput.ofDocument "f.json" { module := { definitions := [f] }, effects } :=
    holds_of_written rfl (by decide)
  have hg : Holds files CheckInput.ofDocument "g.json" { module := { definitions := [g] }, effects } :=
    holds_of_written rfl (by decide)
  have hnone : Holds files CheckInput.ofDocument forNone.file { module := {}, effects } :=
    holds_of_written rfl (by decide)
  have hfails : ({} : CheckerConfig).check { definitions := [f] } effects
      = .ok { result := .failure (.ofList [(1, f.complaint updating)]), passed := false } := by rfl
  have hdenied : ({ denySuggestions := true } : CheckerConfig).check { definitions := [g] } effects
      = .ok { result := .success (.ofList [(2, .pureVal)]), passed := false } := by rfl
  have hpasses : ({} : CheckerConfig).check {} effects
      = .ok { result := .success .empty, passed := true } := by rfl
  have hfwords := run_of_supplies false
    (show Supplies files forF _ {} from ⟨hf, {}, rfl, rfl⟩) hfails
  have hgwords := run_of_supplies false
    (show Supplies files forG _ { denySuggestions := true } from ⟨hg, {}, rfl, rfl⟩) hdenied
  have hwords := run_of_supplies false
    (show Supplies files forNone _ {} from ⟨hnone, {}, rfl, rfl⟩) hpasses
  obtain ⟨ftext, hfout, hfread⟩ := out_run_of_supplies false
    (show Supplies files { forF with json := true } _ {} from ⟨hf, {}, rfl, rfl⟩) hfails rfl
  obtain ⟨gtext, hgout, hgread⟩ := out_run_of_supplies false
    (show Supplies files { forG with json := true } _ { denySuggestions := true } from
      ⟨hg, {}, rfl, rfl⟩) hdenied rfl
  obtain ⟨text, hout, hread⟩ := out_run_of_supplies false
    (show Supplies files { forNone with json := true } _ {} from ⟨hnone, {}, rfl, rfl⟩) hpasses rfl
  refine ⟨?_, ?_, ⟨ftext, _, hfout, hfread⟩, ?_, ⟨gtext, _, hgout, hgread⟩, ?_, text, hout, hread⟩
  · rw [hfwords]
    rfl
  · rw [hfwords]
    decide +kernel
  · rw [hgwords]
    decide +kernel
  · rw [hwords]
    decide +kernel

end OperatorModes.Cli
