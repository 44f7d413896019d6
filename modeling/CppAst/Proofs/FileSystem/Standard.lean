import CppAst.FileSystem.Standard
import CppAst.Output.Outcome
import CppAst.Proofs.FileSystem.Basic

namespace CppAst

open FileSystem

namespace System

end System

end CppAst
