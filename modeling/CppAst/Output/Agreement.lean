import CppAst.FileSystem.Change
import CppAst.Output.Batch

namespace CppAst

inductive Seen where
  | file (content : ByteArray)
  | directory
  | link (target : Path)
  | device (content : ByteArray)

namespace FileSystem

end FileSystem

namespace OutputFile

variable (sys : System) (file : OutputFile) (fs : FileSystem)

end OutputFile
end CppAst
