import OperatorModes.Check
import OperatorModes.Cli.Paint
import OperatorModes.Document.CheckResult

/-!
# Reports

What a run prints, as lines for the two outputs. Findings are kept by identifier and printed in
document order: for each definition the finding that is stored at its identifier.
-/

namespace OperatorModes.Cli

/-- What a run leaves behind: its exit code and the texts it prints on its two outputs, each of which
is ended by a line break. -/
structure Output where
  exit : Nat
  out : List String := []
  err : List String := []
  deriving DecidableEq, Repr

/-- Texts as they are printed, each ended by a line break. -/
def unlines (texts : List String) : String :=
  String.join (texts.map fun text => text ++ "\n")

/-- A line that reports why a run cannot go on, or an error in a definition. -/
def errorLine (colour : Bool) (text : String) : String :=
  paint colour .boldRed "error:" ++ " " ++ text

/-- The definitions for which something is stored, with what is stored, in document order. -/
def findingsOf {α : Type} (definitions : List Definition) (stored : SortedMap DefinitionId α) :
    List (Definition × α) :=
  definitions.filterMap fun d => (stored.find? d.id).map fun x => (d, x)

/-- The errors of a result, in document order. -/
def errorsOf (definitions : List Definition) (result : CheckResult) :
    List (Definition × Diagnostic) :=
  match result.errors with
  | some errors => findingsOf definitions errors
  | none => []

/-- The suggestions of a result, in document order. -/
def suggestionsOf (definitions : List Definition) (result : CheckResult) :
    List (Definition × Qualifier) :=
  match result.suggestions with
  | some suggestions => findingsOf definitions suggestions
  | none => []

/-! ## Checks -/

/-- An error as an entry of the report. -/
def errorEntry (d : Definition) (diagnostic : Diagnostic) : Json :=
  .obj [("id", .word d.id), ("name", .str d.name), ("location", .str diagnostic.location),
    ("message", .str diagnostic.message),
    ("children", .arr (Diagnostic.toJsonAll diagnostic.children))]

/-- A suggestion as an entry of the report. -/
def suggestionEntry (d : Definition) (q : Qualifier) : Json :=
  .obj [("id", .word d.id), ("name", .str d.name), ("suggested", .str q.name),
    ("keyword", .str q.keyword)]

/-- The report of a check as a document. -/
def checkDocument (definitions : List Definition) (report : CheckReport) : Json :=
  .obj [("valid", .bool report.passed),
    ("errors",
      .arr ((errorsOf definitions report.result).map fun e => errorEntry e.1 e.2)),
    ("suggestions",
      .arr ((suggestionsOf definitions report.result).map fun e => suggestionEntry e.1 e.2))]

/-- The exit code of a verdict. -/
def exitOf (passed : Bool) : Nat := if passed then 0 else 1

/-- The report of a check as one document. -/
def checkJson (definitions : List Definition) (report : CheckReport) : Output :=
  { exit := exitOf report.passed, out := [(checkDocument definitions report).pretty] }

/-- The report of a check in words. -/
def checkWords (colour : Bool) (file : String) (definitions : List Definition)
    (report : CheckReport) : Output :=
  match report.result with
  | .failure errors =>
    let lines := (findingsOf definitions errors).map fun e => errorLine colour e.2.render
    { exit := exitOf report.passed
      err := lines ++
        [paint colour .red "✗" ++ " " ++ file ++ ": " ++ toString errors.size
          ++ " mode error(s)"] }
  | .success suggestions =>
    let lines := (findingsOf definitions suggestions).map fun e =>
      paint colour .boldYellow "suggestion:" ++ " " ++ suggestionMessage e.1 e.2
    if report.passed then
      { exit := exitOf report.passed
        out := lines ++ [paint colour .green "✓" ++ " " ++ file ++ ": modes valid"] }
    else
      { exit := exitOf report.passed
        out := lines
        err := [paint colour .red "✗" ++ " " ++ file ++ ": suggestions denied"] }

/-! ## Inference -/

/-- The definitions with their inferred qualifiers, or the first that has no effect. -/
def inferRows (effects : EffectMap) :
    List Definition → Except MissingEffect (List (Definition × Qualifier))
  | [] => .ok []
  | d :: rest =>
    match effects.find? d.id with
    | none => .error { id := d.id, name := d.name }
    | some effect =>
      match inferRows effects rest with
      | .ok rows => .ok ((d, effect.inferMode) :: rows)
      | .error cause => .error cause

/-- A row as an entry of the report. -/
def rowEntry (row : Definition × Qualifier) : Json :=
  .obj [("id", .word row.1.id), ("name", .str row.1.name),
    ("declared", .str row.1.qualifier.name), ("inferred", .str row.2.name)]

/-- The text with spaces after it, up to a width counted in characters. -/
def padRight (width : Nat) (text : String) : String :=
  text ++ String.ofList (List.replicate (width - text.length) ' ')

/-- A row in words; a sign says whether declared and inferred qualifier are the same. -/
def rowLine (colour : Bool) (row : Definition × Qualifier) : String :=
  let sign :=
    if row.2 = row.1.qualifier then paint colour .green "=" else paint colour .yellow "≠"
  padRight 24 row.1.name ++ " declared " ++ padRight 10 row.1.qualifier.keyword ++ " " ++ sign
    ++ " inferred " ++ row.2.keyword

/-- The report of an inference. -/
def inferReport (colour json : Bool) (rows : List (Definition × Qualifier)) : Output :=
  if json then { exit := 0, out := [(Json.arr (rows.map rowEntry)).pretty] }
  else { exit := 0, out := rows.map (rowLine colour) }

end OperatorModes.Cli
