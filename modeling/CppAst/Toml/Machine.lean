import CppAst.Toml.Outline
import CppAst.Toml.Meaning
import CppAst.Toml.Table

namespace CppAst.Toml

inductive Frame where
  | assignment (path : List String)
  | array (items : List Literal)
  /-- The entries of a table in braces, and the path whose value comes next. -/
  | braces (entries : Item.Entries) (path : List String)

inductive Mode where
  | line
  | endOfLine
  /-- After an opening bracket at the start of a line, and after the first closing one of two. -/
  | bracket
  | closing
  /-- In a path, with its keys so far, the last one first. A key or a dot comes next. -/
  | key (owner : Owner) (path : List String)
  | afterKey (owner : Owner) (path : List String)
  /-- After a path in braces and a line end. Only the sign between key and value can come next. -/
  | equals (path : List String)
  | value
  /-- In a value without quotes, and after blanks behind a part of it. -/
  | scalar (chars : List Char)
  | gap (chars blanks : List Char)
  | item
  | afterItem
  | field
  | afterField

structure State where
  mode : Mode
  frames : List Frame
  statements : List Statement

namespace State

def initial : State := ⟨.line, [], []⟩

def maxDepth : Nat := 80

def maxPath : Nat := 80

def inBrackets (s : State) : Bool :=
  match s.frames with
  | .array _ :: _ | .braces .. :: _ => true
  | _ => false

def complete (s : State) (value : Literal) : Option State :=
  match s.frames with
  | .assignment path :: outer =>
    some ⟨.endOfLine, outer, .assign ⟨path, value⟩ :: s.statements⟩
  | .array items :: outer =>
    some { s with mode := .afterItem, frames := .array (value :: items) :: outer }
  | .braces entries path :: outer => do
    let entries ← Item.assign value none path entries
    return { s with mode := .afterField, frames := .braces entries [] :: outer }
  | [] => none

def close (s : State) : Option State :=
  match s.frames with
  | .array items :: outer => complete { s with frames := outer } (.array items.reverse)
  | .braces entries _ :: outer =>
    complete { s with frames := outer } (.table (Item.toEntries entries))
  | _ => none

def openFrame (s : State) (mode : Mode) (frame : Frame) : Option State :=
  if s.frames.length ≤ maxDepth then some { s with mode, frames := frame :: s.frames } else none

def key? : Token → Option String
  | .bare chars =>
    if chars.all isKeyChar then some (.ofList chars) else none
  | .string chars => some (.ofList chars)
  | _ => none

def endPath (s : State) (owner : Owner) (path : List String) : Token → Option State
  | .equals =>
    match owner, s.frames with
    | .line, frames => some { s with mode := .value, frames := .assignment path :: frames }
    | .braces, .braces entries _ :: outer =>
      some { s with mode := .value, frames := .braces entries path :: outer }
    | _, _ => none
  | .closeBracket =>
    match owner with
    | .header =>
      some { s with mode := .endOfLine, statements := .header ⟨path, false⟩ :: s.statements }
    | .arrayHeader =>
      some { s with mode := .closing, statements := .header ⟨path, true⟩ :: s.statements }
    | _ => none
  | _ => none

def startValue (s : State) : Token → Option State
  | .string chars | .multilineString chars => s.complete (.string (.ofList chars))
  | .openBracket => s.openFrame .item (.array [])
  | .openBrace => s.openFrame .field (.braces [] [])
  | .bare chars => some { s with mode := .scalar chars }
  | .dot => some { s with mode := .scalar ['.'] }
  | _ => none

def afterValue (s : State) (token : Token) : Option State :=
  match s.mode, token with
  | .endOfLine, .newline => some { s with mode := .line }
  | .afterItem, .comma => some { s with mode := .item }
  | .afterItem, .closeBracket => s.close
  | .afterField, .comma => some { s with mode := .field }
  | .afterField, .closeBrace => s.close
  | _, .blank _ | _, .comment => some s
  | _, .newline => if s.inBrackets then some s else none
  | _, _ => none

def endScalar (s : State) (chars : List Char) (token : Token) : Option State := do
  afterValue (← s.complete (← Scalar.literal? chars)) token

def step (s : State) (token : Token) : Option State :=
  match s.mode, token with
  | .line, .newline | .line, .blank _ | .line, .comment => some s
  | .line, .openBracket => some { s with mode := .bracket }
  | .line, token => do return { s with mode := .afterKey .line [← key? token] }
  | .bracket, .openBracket => some { s with mode := .key .arrayHeader [] }
  | .bracket, .blank _ => some { s with mode := .key .header [] }
  | .bracket, token => do return { s with mode := .afterKey .header [← key? token] }
  | .closing, token => if token = .closeBracket then some { s with mode := .endOfLine } else none
  | .key .., .blank _ => some s
  | .key owner path, token => do return { s with mode := .afterKey owner ((← key? token) :: path) }
  | .afterKey .., .blank _ => some s
  | .afterKey owner path, .dot =>
    if path.length < maxPath then some { s with mode := .key owner path } else none
  | .afterKey owner path, token =>
    if owner = .braces && (token = .newline || token = .comment) then
      some { s with mode := .equals path.reverse }
    else s.endPath owner path.reverse token
  | .equals _, .blank _ | .equals _, .newline | .equals _, .comment => some s
  | .equals path, token => s.endPath .braces path token
  | .value, .blank _ => some s
  | .value, token =>
    if s.inBrackets && (token = .newline || token = .comment) then some s else s.startValue token
  | .scalar chars, .bare more => some { s with mode := .scalar (chars ++ more) }
  | .scalar chars, .dot => some { s with mode := .scalar (chars ++ ['.']) }
  | .scalar chars, .blank blanks => some { s with mode := .gap chars blanks }
  | .scalar chars, token => s.endScalar chars token
  | .gap chars blanks, .bare more => some { s with mode := .scalar (chars ++ blanks ++ more) }
  | .gap chars _, token => s.endScalar chars token
  | .item, .blank _ | .item, .newline | .item, .comment => some s
  | .item, .closeBracket => s.close
  | .item, token => s.startValue token
  | .field, .blank _ | .field, .newline | .field, .comment => some s
  | .field, .closeBrace => s.close
  | .field, token => do return { s with mode := .afterKey .braces [← key? token] }
  | .endOfLine, token | .afterItem, token | .afterField, token =>
    afterValue s token

def finish (s : State) : Option (List Statement) :=
  match s.mode with
  | .line | .endOfLine => some s.statements.reverse
  | .scalar chars | .gap chars _ => do
    let last ← s.complete (← Scalar.literal? chars)
    match last.mode with
    | .endOfLine => return last.statements.reverse
    | _ => none
  | _ => none

end State

/-- The table that the text denotes, if it is TOML. -/
def parse (text : List Char) : Option (List (String × Value)) := do
  let lexemes ← Lexeme.ofText (afterMark text)
  let last ← (lexemes.map Lexeme.token).foldlM State.step State.initial
  Meaning.entries? (← Item.ofStatements (← last.finish))

end CppAst.Toml
