import CppAst.Source.Position
import CppAst.Toml.Outline

namespace CppAst.Toml

structure Reading where
  state : Outline
  lexeme : Lexeme

namespace Reading

def run (s : Outline) : List Lexeme → List Reading
  | [] => []
  | lexeme :: rest =>
    ⟨s, lexeme⟩ :: match s.step lexeme.token with
      | some next => run next rest
      | none => []

def ofText (text : List Char) : List Reading :=
  match Lexeme.ofText (afterMark text) with
  | some lexemes => run .initial lexemes
  | none => []

def expectsKey (r : Reading) : Bool :=
  match r.state.mode with
  | .line | .bracket | .key .. | .field => true
  | _ => false

def isKey (r : Reading) : Bool := r.expectsKey && r.lexeme.token.isKey

/-- The name of a key: all of it, or what its quotes enclose. -/
def nameSpan (whole : List Char) (r : Reading) : Source.Span :=
  let span := r.lexeme.span whole
  match r.lexeme.token with
  | .string _ => ⟨span.offset + 1, span.length - 2⟩
  | _ => span

/-- A string, a comment or a value without quotes. Text in them that looks like a key is none. -/
def isContent (r : Reading) : Bool :=
  match r.lexeme.token with
  | .string _ | .multilineString _ | .comment => true
  | .bare _ => !r.expectsKey
  | _ => false

def covers (whole : List Char) (r : Reading) (offset : Nat) : Bool :=
  let span := r.lexeme.span whole
  span.offset ≤ offset && offset < span.offset + span.length

end Reading

def keySpans (text : List Char) : List Source.Span :=
  ((Reading.ofText text).filter Reading.isKey).map (Reading.nameSpan text)

def isBareName (name : List Char) : Bool := !name.isEmpty && name.all isKeyChar

end CppAst.Toml
