import CppAst.Generator.Basic
import CppAst.Proofs.Code.Rendering
import CppAst.Proofs.Output.WrittenBatch

namespace CppAst

open FileSystem

namespace CodeUnit

variable (schema : Schema) (options : GeneratorOptions)

end CodeUnit

namespace Generator

open CodeUnit

variable {schema : Schema} {options : GeneratorOptions} {base : Path} {rule : WriteRule}
  {sys : System} {fs fs' : FileSystem} {report : Report}

end Generator
end CppAst
