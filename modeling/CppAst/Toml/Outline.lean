import CppAst.Toml.Lexeme

namespace CppAst.Toml

inductive Owner where
  | line
  | header
  | arrayHeader
  | braces
deriving Repr, DecidableEq

def isKeyChar (c : Char) : Bool := c.isAlphanum || c = '-' || c = '_'

def Token.isKey : Token → Bool
  | .bare chars => chars.all isKeyChar
  | .string _ => true
  | _ => false

inductive Outline.Frame where
  | assignment
  | array
  | braces
deriving Repr, DecidableEq

inductive Outline.Mode where
  | line
  | endOfLine
  /-- After an opening bracket at the start of a line, and after the first closing one of two. -/
  | bracket
  | closing
  | key (owner : Owner)
  | afterKey (owner : Owner)
  | equals
  | value
  | scalar
  | gap
  | item
  | afterItem
  | field
  | afterField
deriving Repr, DecidableEq

/-- The grammar of TOML as a machine that reads tokens. It tells keys from values, but neither what
a value is nor whether a key comes twice. The innermost open construct comes first. -/
structure Outline where
  mode : Outline.Mode
  frames : List Outline.Frame
deriving Repr, DecidableEq

namespace Outline

def initial : Outline := ⟨.line, []⟩

def inBrackets (o : Outline) : Bool :=
  match o.frames with
  | .array :: _ | .braces :: _ => true
  | _ => false

def complete (o : Outline) : Option Outline :=
  match o.frames with
  | .assignment :: outer => some ⟨.endOfLine, outer⟩
  | .array :: outer => some ⟨.afterItem, .array :: outer⟩
  | .braces :: outer => some ⟨.afterField, .braces :: outer⟩
  | [] => none

def close (o : Outline) : Option Outline :=
  match o.frames with
  | .array :: outer | .braces :: outer => complete { o with frames := outer }
  | _ => none

def endPath (o : Outline) (owner : Owner) (token : Token) : Option Outline :=
  match token, owner, o.frames with
  | .equals, .line, frames => some ⟨.value, .assignment :: frames⟩
  | .equals, .braces, .braces :: outer => some ⟨.value, .braces :: outer⟩
  | .closeBracket, .header, frames => some ⟨.endOfLine, frames⟩
  | .closeBracket, .arrayHeader, frames => some ⟨.closing, frames⟩
  | _, _, _ => none

def startValue (o : Outline) : Token → Option Outline
  | .string _ | .multilineString _ => o.complete
  | .openBracket => some ⟨.item, .array :: o.frames⟩
  | .openBrace => some ⟨.field, .braces :: o.frames⟩
  | .bare _ | .dot => some { o with mode := .scalar }
  | _ => none

def afterValue (o : Outline) (token : Token) : Option Outline :=
  match o.mode, token with
  | .endOfLine, .newline => some { o with mode := .line }
  | .afterItem, .comma => some { o with mode := .item }
  | .afterItem, .closeBracket => o.close
  | .afterField, .comma => some { o with mode := .field }
  | .afterField, .closeBrace => o.close
  | _, .blank _ | _, .comment => some o
  | _, .newline => if o.inBrackets then some o else none
  | _, _ => none

def endScalar (o : Outline) (token : Token) : Option Outline := o.complete.bind (afterValue · token)

def readKey (o : Outline) (owner : Owner) (token : Token) : Option Outline :=
  if token.isKey then some { o with mode := .afterKey owner } else none

def step (o : Outline) (token : Token) : Option Outline :=
  match o.mode, token with
  | .line, .newline | .line, .blank _ | .line, .comment => some o
  | .line, .openBracket => some { o with mode := .bracket }
  | .line, token => o.readKey .line token
  | .bracket, .openBracket => some { o with mode := .key .arrayHeader }
  | .bracket, .blank _ => some { o with mode := .key .header }
  | .bracket, token => o.readKey .header token
  | .closing, token => if token = .closeBracket then some { o with mode := .endOfLine } else none
  | .key _, .blank _ => some o
  | .key owner, token => o.readKey owner token
  | .afterKey _, .blank _ => some o
  | .afterKey owner, .dot => some { o with mode := .key owner }
  | .afterKey owner, token =>
    if owner = .braces && (token = .newline || token = .comment) then some { o with mode := .equals }
    else o.endPath owner token
  | .equals, .blank _ | .equals, .newline | .equals, .comment => some o
  | .equals, token => o.endPath .braces token
  | .value, .blank _ => some o
  | .value, token =>
    if o.inBrackets && (token = .newline || token = .comment) then some o else o.startValue token
  | .scalar, .bare _ | .scalar, .dot => some o
  | .scalar, .blank _ => some { o with mode := .gap }
  | .scalar, token => o.endScalar token
  | .gap, .bare _ => some { o with mode := .scalar }
  | .gap, token => o.endScalar token
  | .item, .blank _ | .item, .newline | .item, .comment => some o
  | .item, .closeBracket => o.close
  | .item, token => o.startValue token
  | .field, .blank _ | .field, .newline | .field, .comment => some o
  | .field, .closeBrace => o.close
  | .field, token => o.readKey .braces token
  | .endOfLine, token | .afterItem, token | .afterField, token => o.afterValue token

def isFinal (o : Outline) : Bool :=
  match o.mode with
  | .line | .endOfLine => true
  | .scalar | .gap => o.complete.any (·.mode = .endOfLine)
  | _ => false

end Outline

/-- The text can be read as TOML from beginning to end. -/
def IsDocumentText (text : List Char) : Prop :=
  ∃ lexemes last, Lexeme.ofText (afterMark text) = some lexemes ∧
    (lexemes.map Lexeme.token).foldlM Outline.step .initial = some last ∧ last.isFinal

end CppAst.Toml
