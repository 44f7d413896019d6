import CppAst.CommandLine.Arguments
import CppAst.CommandLine.Report

namespace CppAst.CommandLine

/-- What the program is given by the machine that it runs on, and by the libraries that it uses. -/
structure Environment where
  readers : Readers
  system : System
  launch : Launcher

structure Result where
  status : Nat
  output : String
  errors : String
deriving Repr, DecidableEq

def Result.success (lines : List String) (warnings : List String := []) : Result :=
  ⟨0, unlines lines, unlines warnings⟩

def Result.failure (message : String) : Result := ⟨1, "", unlines [message]⟩

def version : String := "astgen 0.3.0"

def help : List String :=
  ["Generate C++ AST declarations, equality operators and printers from a schema", "",
   "Usage: astgen [-v] <generate|check|help>", "",
   "  generate -s <schema> -o <directory>   write the declarations and the definitions",
   "  check -s <schema>                     validate a schema without generating code"]

def formatAll (launch : Launcher) (formatter : ClangFormat) :
    List Path → FileSystem → List String × FileSystem
  | [], fs => ([], fs)
  | path :: rest, fs =>
    let (result, fs) := formatter.format launch path fs
    let (warnings, fs) := formatAll launch formatter rest fs
    match result with
    | .ok () => (warnings, fs)
    | .error e => (warning path e :: warnings, fs)

variable (env : Environment)

def check (schema : Path) (fs : FileSystem) : Result :=
  match SchemaFile.read env.readers env.system schema fs with
  | .error e => .failure e.message
  | .ok file => .success (checkReport file)

def generate (arguments : GenerateArguments) (fs : FileSystem) : Result × FileSystem :=
  match SchemaFile.read env.readers env.system arguments.schema fs with
  | .error e => (.failure e.message, fs)
  | .ok file =>
    let options : GeneratorOptions :=
      ⟨.spaces arguments.indentWidth, arguments.headerName, arguments.sourceName⟩
    if arguments.dryRun then
      (.success (generateReport file (.shown (Generator.preview file.schema options))), fs)
    else
      let formatter := arguments.formatterConfig.map (ClangFormat.mk arguments.formatter)
      -- A formatter changes what was written, so that an unchanged file cannot be told.
      let rule := if formatter.isSome then WriteRule.always else .ifChanged
      match Generator.generate file.schema options env.system arguments.outputDirectory rule fs with
      | (.error e, fs) => (.failure e.message, fs)
      | (.ok report, fs) =>
        let (warnings, fs) := match formatter with
          | some formatter => formatAll env.launch formatter report.written fs
          | none => ([], fs)
        let generated := Generated.written arguments.outputDirectory report.files
          (formatter.map fun _ ↦ ClangFormat.name)
        (.success (generateReport file generated) warnings, fs)

def run (arguments : List String) (fs : FileSystem) : Result × FileSystem :=
  match request arguments with
  | .error e => (⟨2, "", unlines [s!"error: {e.message}"]⟩, fs)
  | .ok .version => (.success [version], fs)
  | .ok .help => (.success help, fs)
  | .ok (.check schema) => (check env schema fs, fs)
  | .ok (.generate arguments) => generate env arguments fs

end CppAst.CommandLine
