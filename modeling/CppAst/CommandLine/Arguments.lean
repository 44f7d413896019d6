import CppAst.Path

namespace CppAst.CommandLine

structure GenerateArguments where
  schema : Path
  outputDirectory : Path
  formatter : Path
  formatterConfig : Option Path
  headerName : String
  sourceName : String
  indentWidth : Nat
  dryRun : Bool
deriving Repr, DecidableEq

inductive Request where
  | version
  | help
  | check (schema : Path)
  | generate (arguments : GenerateArguments)
deriving Repr, DecidableEq

inductive UsageError where
  | missingCommand
  | unknownCommand (name : String)
  | unexpected (argument : String)
  | missingValue (option : String)
  | invalidValue (option value : String)
  | repeated (option : String)
  | missing (option : String)
deriving Repr, DecidableEq

def UsageError.message : UsageError → String
  | missingCommand => "a command is required: generate or check"
  | unknownCommand name => s!"there is no command '{name}'"
  | unexpected argument => s!"unexpected argument '{argument}'"
  | missingValue option => s!"a value is required for '{option}'"
  | invalidValue option value => s!"'{value}' is no value for '{option}'"
  | repeated option => s!"'{option}' cannot be used more than once"
  | missing option => s!"'{option}' is required"

inductive ValueKind where
  | path
  | text
  /-- A number from 1 to 8. -/
  | width
deriving Repr, DecidableEq

inductive OptionKind where
  | value (kind : ValueKind)
  | once
  | repeatable
  /-- An option that ends the reading with a request of its own. -/
  | request (request : Request)
deriving Repr, DecidableEq

/-- An option, with its long names, of which the first identifies it. -/
structure OptionRule where
  names : List String
  letter : Option Char
  kind : OptionKind
deriving Repr, DecidableEq

def OptionRule.name (rule : OptionRule) : String := rule.names.headD ""

def verboseRule : OptionRule := ⟨["verbose"], some 'v', .repeatable⟩

def helpRule : OptionRule := ⟨["help"], some 'h', .request .help⟩

def commonRules : List OptionRule :=
  [verboseRule, helpRule, ⟨["version"], some 'V', .request .version⟩]

def checkRules : List OptionRule := [verboseRule, helpRule, ⟨["schema"], some 's', .value .path⟩]

def generateRules : List OptionRule :=
  [verboseRule, helpRule,
   ⟨["schema", "schema-file", "schema_file"], some 's', .value .path⟩,
   ⟨["output-dir"], some 'o', .value .path⟩,
   ⟨["clang-format-path"], none, .value .path⟩,
   ⟨["clang-format-config"], some 'c', .value .path⟩,
   ⟨["header-name"], none, .value .text⟩,
   ⟨["source-name"], none, .value .text⟩,
   ⟨["indent-width"], none, .value .width⟩,
   ⟨["dry-run"], none, .once⟩]

def width? (text : String) : Option Nat :=
  let digits := match text.toList with
    | '+' :: rest => rest
    | chars => chars
  if digits.isEmpty || !digits.all Char.isDigit then none
  else
    let n := digits.foldl (fun n c ↦ n * 10 + (c.toNat - 48)) 0
    if 1 ≤ n && n ≤ 8 then some n else none

def ValueKind.accepts (kind : ValueKind) (value : String) : Bool :=
  match kind with
  | .path => !value.isEmpty
  | .text => true
  | .width => (width? value).isSome

abbrev Given := List (String × String)

/-- What the reading of arguments comes to: a request of its own, or the options with what is
left. -/
inductive Reading where
  | request (request : Request)
  | options (given : Given) (rest : List String)
deriving Repr, DecidableEq

def record (rule : OptionRule) (value : String) (given : Given) : Except UsageError Given :=
  match rule.kind with
  | .repeatable | .request _ => .ok given
  | .once =>
    if (given.lookup rule.name).isSome then .error (.repeated rule.name)
    else .ok ((rule.name, value) :: given)
  | .value kind =>
    if (given.lookup rule.name).isSome then .error (.repeated rule.name)
    else if kind.accepts value then .ok ((rule.name, value) :: given)
    else .error (.invalidValue rule.name value)

def isOption (argument : String) : Bool :=
  argument.toList.head? = some '-' && argument.length ≠ 1

/-- What a group of letters comes to: all of them options without a value, or an option that takes
the rest of the group as its value, or else the next argument. -/
inductive Letters where
  | done (given : Given)
  | request (request : Request)
  | awaits (rule : OptionRule) (given : Given)
deriving Repr, DecidableEq

def readLetters (rules : List OptionRule) : List Char → Given → Except UsageError Letters
  | [], given => .ok (.done given)
  | letter :: rest, given =>
    match rules.find? (·.letter = some letter) with
    | none => .error (.unexpected (.ofList ['-', letter]))
    | some rule =>
      match rule.kind with
      | .request request => .ok (.request request)
      | .value _ =>
        match rest with
        | [] => .ok (.awaits rule given)
        | '=' :: value => do return .done (← record rule (.ofList value) given)
        | value => do return .done (← record rule (.ofList value) given)
      | _ => do readLetters rules rest (← record rule "" given)

def long? (argument : String) : Option (String × Option String) :=
  match argument.toList with
  | '-' :: '-' :: rest =>
    let name := rest.takeWhile (· ≠ '=')
    some (.ofList name, if name.length < rest.length then
      some (.ofList (rest.drop (name.length + 1))) else none)
  | _ => none

def readOptions (rules : List OptionRule) : List String → Given → Except UsageError Reading
  | [], given => .ok (.options given [])
  | argument :: rest, given =>
    if !isOption argument then .ok (.options given (argument :: rest))
    else if argument = "--" then
      if rest.isEmpty then .ok (.options given []) else .error (.unexpected (rest.headD ""))
    else
      let awaiting (rule : OptionRule) (given : Given) : Except UsageError Reading :=
        match rest with
        | [] => .error (.missingValue rule.name)
        | value :: rest =>
          if isOption value then .error (.missingValue rule.name)
          else do readOptions rules rest (← record rule value given)
      match long? argument with
      | none =>
        match readLetters rules argument.toList.tail given with
        | .error e => .error e
        | .ok (.done given) => readOptions rules rest given
        | .ok (.request request) => .ok (.request request)
        | .ok (.awaits rule given) => awaiting rule given
      | some (name, value?) =>
        match rules.find? (·.names.contains name) with
        | none => .error (.unexpected argument)
        | some rule =>
          match rule.kind, value? with
          | .value _, some value => do readOptions rules rest (← record rule value given)
          | .value _, none => awaiting rule given
          | _, some value => .error (.invalidValue name value)
          | .request request, none => .ok (.request request)
          | _, none => do readOptions rules rest (← record rule "" given)

def required (name : String) (given : Given) : Except UsageError String :=
  match given.lookup name with
  | some value => .ok value
  | none => .error (.missing name)

def checkRequest (given : Given) : Except UsageError Request :=
  return .check ⟨← required "schema" given⟩

def generateRequest (given : Given) : Except UsageError Request := do
  let schema ← required "schema" given
  let outputDirectory ← required "output-dir" given
  return .generate {
    schema := ⟨schema⟩
    outputDirectory := ⟨outputDirectory⟩
    formatter := ⟨(given.lookup "clang-format-path").getD "clang-format"⟩
    formatterConfig := (given.lookup "clang-format-config").map Path.mk
    headerName := (given.lookup "header-name").getD "ast.h"
    sourceName := (given.lookup "source-name").getD "ast.cpp"
    indentWidth := ((given.lookup "indent-width").bind width?).getD 4
    dryRun := (given.lookup "dry-run").isSome }

def readCommand (rules : List OptionRule) (request : Given → Except UsageError Request)
    (arguments : List String) : Except UsageError Request := do
  match ← readOptions rules arguments [] with
  | .request request => return request
  | .options given [] => request given
  | .options _ (argument :: _) => throw (.unexpected argument)

def request (arguments : List String) : Except UsageError Request := do
  match ← readOptions commonRules arguments [] with
  | .request request => return request
  | .options _ [] => throw .missingCommand
  | .options _ (command :: rest) =>
    match command with
    | "check" => readCommand checkRules checkRequest rest
    | "generate" => readCommand generateRules generateRequest rest
    | "help" =>
      match rest with
      | [] | ["check"] | ["generate"] | ["help"] => return .help
      | topic :: _ => throw (.unknownCommand topic)
    | name => throw (.unknownCommand name)

end CppAst.CommandLine
