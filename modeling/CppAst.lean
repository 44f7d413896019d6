import CppAst.CommandLine.Run
import CppAst.FileSystem.Standard
import CppAst.Output.Outcome
import CppAst.Proofs.Output.FailedBatch
import CppAst.Proofs.Output.Agreement
import CppAst.Proofs.Generator.Delivery
import CppAst.Proofs.Schema.RoundTrip
import CppAst.Proofs.Schema.FirstFault
import CppAst.Proofs.Comparison.Meaning
import CppAst.Proofs.Printer.TypeNames
import CppAst.Proofs.Declarations.Reading
import CppAst.Proofs.Printer.Expansion
import CppAst.Proofs.Schema.Statistics
import CppAst.Proofs.Schema.Arrangement
import CppAst.Proofs.Json.Keys
import CppAst.Proofs.Toml.Acceptance
import CppAst.Proofs.Code.Steps
import CppAst.Proofs.Generator.Nesting
import CppAst.Proofs.Schema.KeyLabel
import CppAst.Proofs.Schema.ShapeLabel
import CppAst.Proofs.Schema.SyntaxLabel
import CppAst.Proofs.Printer.Simultaneous
import CppAst.Proofs.Schema.Agreement
import CppAst.Proofs.Source.Lines
