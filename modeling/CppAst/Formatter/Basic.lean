import CppAst.FileSystem.System
import CppAst.Utf8

namespace CppAst

inductive ExitStatus where
  | code (n : Nat)
  | signal (n : Nat) (coreDumped : Bool)
deriving Repr, DecidableEq

namespace ExitStatus

def signalNames : List (Nat × String) :=
  [(1, "SIGHUP"), (2, "SIGINT"), (3, "SIGQUIT"), (4, "SIGILL"), (5, "SIGTRAP"), (6, "SIGABRT"),
   (7, "SIGBUS"), (8, "SIGFPE"), (9, "SIGKILL"), (10, "SIGUSR1"), (11, "SIGSEGV"), (12, "SIGUSR2"),
   (13, "SIGPIPE"), (14, "SIGALRM"), (15, "SIGTERM"), (16, "SIGSTKFLT"), (17, "SIGCHLD"),
   (18, "SIGCONT"), (19, "SIGSTOP"), (20, "SIGTSTP"), (21, "SIGTTIN"), (22, "SIGTTOU"),
   (23, "SIGURG"), (24, "SIGXCPU"), (25, "SIGXFSZ"), (26, "SIGVTALRM"), (27, "SIGPROF"),
   (28, "SIGWINCH"), (29, "SIGIO"), (30, "SIGPWR"), (31, "SIGSYS")]

def text : ExitStatus → String
  | code n => s!"exit status: {n}"
  | signal n coreDumped =>
    let name := match signalNames.lookup n with
      | some name => s!" ({name})"
      | none => ""
    s!"signal: {n}{name}" ++ if coreDumped then " (core dumped)" else ""

end ExitStatus

structure Process where
  status : ExitStatus
  output : List UInt8
  errors : List UInt8
deriving Repr, DecidableEq

/-- How the programs of a machine run, with what they do to the files. -/
abbrev Launcher := (executable : Path) → (arguments : List String) → FileSystem →
  Except FileFailure Process × FileSystem

structure FormatError where
  message : String
  output : String
deriving Repr, DecidableEq

def FormatError.text (e : FormatError) : String :=
  if e.output.isEmpty then e.message else s!"{e.message}\n\nOutput:\n{e.output}"

/-- The formatter for C++, with the file that describes its style. -/
structure ClangFormat where
  executable : Path
  config : Path
deriving Repr, DecidableEq

namespace ClangFormat

def name : String := "clang-format"

def arguments (f : ClangFormat) (path : Path) : List String :=
  ["--style=file:" ++ f.config.text, "-i", path.text]

def format (launch : Launcher) (f : ClangFormat) (path : Path) (fs : FileSystem) :
    Except FormatError Unit × FileSystem :=
  match launch f.executable (f.arguments path) fs with
  | (.error failure, fs) =>
    (.error ⟨s!"failed to run {f.executable.text}: {failure.message}", ""⟩, fs)
  | (.ok process, fs) =>
    if process.status = .code 0 then (.ok (), fs)
    else
      let errors := Utf8.readLossy process.errors
      let output := Utf8.readLossy process.output
      (.error ⟨s!"{name} exited with {process.status.text} while formatting '{path.text}'",
        s!"stderr:\n{errors}\n\nstdout:\n{output}"⟩, fs)

end ClangFormat
end CppAst
