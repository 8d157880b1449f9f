/-!
# Command-line arguments

What a command line asks for. Arguments are taken from left to right, and the first that cannot be
taken, or asks for help, decides; what is missing or does not go together is noticed at the end.
-/

namespace OperatorModes.Cli

/-- What `check` is given. -/
structure CheckOptions where
  file : String
  json : Bool := false
  denySuggestions : Bool := false
  noSuggestions : Bool := false
  config : Option String := none
  deriving DecidableEq, Repr

/-- What `infer` is given. -/
structure InferOptions where
  file : String
  json : Bool := false
  deriving DecidableEq, Repr

/-- What a command line asks for. -/
inductive Invocation where
  | check (options : CheckOptions)
  | infer (options : InferOptions)
  | version
  | help
  /-- The command line is none of those that are understood. -/
  | misuse
  deriving DecidableEq, Repr

/-- An option that is given or not. -/
inductive Switch where
  | json
  | denySuggestions
  | noSuggestions
  deriving DecidableEq, Repr

/-- What a command takes. -/
structure Grammar where
  switches : List (String × Switch) := []
  takesConfig : Bool := false
  takesFile : Bool := false

/-- What `check` takes. -/
def Grammar.check : Grammar where
  switches :=
    [("json", .json), ("deny-suggestions", .denySuggestions), ("no-suggestions", .noSuggestions)]
  takesConfig := true
  takesFile := true

/-- What `infer` takes. -/
def Grammar.infer : Grammar where
  switches := [("json", .json)]
  takesFile := true

/-- What `version` takes. -/
def Grammar.version : Grammar := {}

/-- What has been taken from a command line. -/
structure Taken where
  file : Option String := none
  config : Option String := none
  switches : List Switch := []

/-- Why no more is taken from a command line. -/
inductive Stop where
  | help
  | misuse
  deriving DecidableEq, Repr

/-- The kinds of argument, by their look. -/
inductive Argument where
  /-- Two dashes alone: no options follow. -/
  | endOfOptions
  /-- Two dashes, a name, and a value if there is an equals sign. -/
  | long (name : String) (value : Option String)
  /-- One dash and at least one letter. -/
  | short (letters : List Char)
  | plain (text : String)
  deriving DecidableEq, Repr

/-- An option's name and the value after its first equals sign. -/
def splitValue (letters : List Char) : String × Option String :=
  let name := letters.takeWhile (· != '=')
  match letters.dropWhile (· != '=') with
  | [] => (String.ofList name, none)
  | _ :: value => (String.ofList name, some (String.ofList value))

/-- The kind of an argument. -/
def Argument.of (text : String) : Argument :=
  match text.toList with
  | ['-', '-'] => .endOfOptions
  | '-' :: '-' :: letters =>
    let (name, value) := splitValue letters
    .long name value
  | '-' :: c :: letters => .short (c :: letters)
  | _ => .plain text

namespace Taken

/-- Takes a file, of which there is at most one and whose name is not empty. -/
def addFile (taken : Taken) (grammar : Grammar) (text : String) : Except Stop Taken :=
  if !grammar.takesFile || taken.file.isSome || text.isEmpty then .error .misuse
  else .ok { taken with file := some text }

/-- Takes the configuration file, of which there is at most one and whose name is not empty. -/
def addConfig (taken : Taken) (text : String) : Except Stop Taken :=
  if taken.config.isSome || text.isEmpty then .error .misuse
  else .ok { taken with config := some text }

/-- Takes a switch, once. -/
def addSwitch (taken : Taken) (switch : Switch) : Except Stop Taken :=
  if taken.switches.contains switch then .error .misuse
  else .ok { taken with switches := switch :: taken.switches }

/-- Whether a switch has been taken. -/
def has (taken : Taken) (switch : Switch) : Bool :=
  taken.switches.contains switch

end Taken

/-- Takes arguments that are all files. -/
def takeFiles (grammar : Grammar) : Taken → List String → Except Stop Taken
  | taken, [] => .ok taken
  | taken, text :: rest => do
    let taken ← taken.addFile grammar text
    takeFiles grammar taken rest

/-- Takes the arguments after a command. The configuration file is in the option itself or is the
next argument, which must not look like an option. -/
def take (grammar : Grammar) : Taken → List String → Except Stop Taken
  | taken, [] => .ok taken
  | taken, text :: rest =>
    match Argument.of text with
    | .endOfOptions => takeFiles grammar taken rest
    | .plain text => do
      let taken ← taken.addFile grammar text
      take grammar taken rest
    | .short letters => .error (if letters.head? = some 'h' then .help else .misuse)
    | .long name value =>
      if name = "help" then .error (if value.isNone then .help else .misuse)
      else if name = "config" && grammar.takesConfig then
        match value with
        | some value => do
          let taken ← taken.addConfig value
          take grammar taken rest
        | none =>
          match rest with
          | [] => .error .misuse
          | next :: rest =>
            match Argument.of next with
            | .plain value => do
              let taken ← taken.addConfig value
              take grammar taken rest
            | _ => .error .misuse
      else
        match grammar.switches.lookup name, value with
        | some switch, none => do
          let taken ← taken.addSwitch switch
          take grammar taken rest
        | _, _ => .error .misuse

/-- The invocation of `check`: it needs a file, and suggestions are not both denied and hidden. -/
def Taken.toCheck (taken : Taken) : Invocation :=
  match taken.file with
  | none => .misuse
  | some file =>
    if taken.has .denySuggestions && taken.has .noSuggestions then .misuse
    else
      .check
        { file
          json := taken.has .json
          denySuggestions := taken.has .denySuggestions
          noSuggestions := taken.has .noSuggestions
          config := taken.config }

/-- The invocation of `infer`: it needs a file. -/
def Taken.toInfer (taken : Taken) : Invocation :=
  match taken.file with
  | none => .misuse
  | some file => .infer { file, json := taken.has .json }

/-- The invocation after a command's arguments have been taken. -/
def finish (taken : Except Stop Taken) (invocation : Taken → Invocation) : Invocation :=
  match taken with
  | .ok taken => invocation taken
  | .error .help => .help
  | .error .misuse => .misuse

/-- The commands. -/
def commandNames : List String := ["check", "infer", "version", "help"]

/-- What is asked for with the command `help`: help on at most one command. -/
def helpOn : List String → Invocation
  | [] => .help
  | [name] => if commandNames.contains name then .help else .misuse
  | _ => .misuse

/-- What a command line asks for. -/
def Invocation.parse : List String → Invocation
  | [] => .misuse
  | text :: rest =>
    match Argument.of text with
    | .endOfOptions => .misuse
    | .long name value =>
      if value.isSome then .misuse
      else if name = "help" then .help
      else if name = "version" then .version
      else .misuse
    | .short letters =>
      match letters.head? with
      | some 'h' => .help
      | some 'V' => .version
      | _ => .misuse
    | .plain name =>
      if name = "check" then finish (take .check {} rest) Taken.toCheck
      else if name = "infer" then finish (take .infer {} rest) Taken.toInfer
      else if name = "version" then finish (take .version {} rest) fun _ => .version
      else if name = "help" then helpOn rest
      else .misuse

end OperatorModes.Cli
