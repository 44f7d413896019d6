import Mathlib.Data.List.Basic
import CppAst.Source.Position

namespace CppAst.Source

def bytes (text : String) : List UInt8 := text.toUTF8.data.toList

def lineFeed : UInt8 := 10

def lineStart (bytes : List UInt8) : (n : Nat) → Nat
  | 0 => 0
  | n + 1 => bytes.idxOfNth lineFeed n + 1

/-- The line feeds that were read count the lines, and the column counts the bytes behind the last
one. -/
def Position.ofBytes (read : List UInt8) : Position :=
  ⟨1 + read.count lineFeed, read.length - lineStart read (read.count lineFeed)⟩

def Position.next (p : Position) (byte : UInt8) : Position :=
  if byte = lineFeed then ⟨p.line + 1, 0⟩ else ⟨p.line, p.column + 1⟩

end CppAst.Source
