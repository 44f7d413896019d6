import CppAst.Proofs.FileSystem.Parent
import CppAst.Proofs.Output.Temporary

namespace CppAst

open FileSystem Outcome

variable {sys : System} {fs fs' : FileSystem} {p : Path} {place : Place} {inode : Inode}
  {file : OutputFile} {content : ByteArray}

namespace FileSystem

end FileSystem

namespace System

end System

namespace OutputFile

end OutputFile

end CppAst
