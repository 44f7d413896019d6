import CppAst.Code.Basic

namespace CppAst

structure CodeBuilder where
  indent : Indent
  level : Nat := 0
  text : String := ""
deriving Repr, DecidableEq

namespace CodeBuilder

def margin (b : CodeBuilder) : String := String.join (List.replicate b.level b.indent.text)

def line (b : CodeBuilder) (text : String) : CodeBuilder :=
  { b with text := b.text ++ b.margin ++ text ++ "\n" }

def lines (b : CodeBuilder) (texts : List String) : CodeBuilder := texts.foldl line b

def blank (b : CodeBuilder) : CodeBuilder := { b with text := b.text ++ "\n" }

def deeper (b : CodeBuilder) : CodeBuilder := { b with level := b.level + 1 }

/-- The text of `inner` at the level of this builder. -/
def resume (b inner : CodeBuilder) : CodeBuilder := { inner with level := b.level }

mutual

def write (b : CodeBuilder) : Code → CodeBuilder
  | .line text => b.line text
  | .lines texts => b.lines texts
  | .blank => b.blank
  | .indented body => b.resume (writeAll b.deeper body)
  | .block header close body =>
    (b.resume (writeAll (b.line header).deeper body)).line close

def writeAll (b : CodeBuilder) : List Code → CodeBuilder
  | [] => b
  | code :: rest => writeAll (write b code) rest

end

mutual

/-- The builder after each piece of code, where a piece follows those in its body. -/
def history (b : CodeBuilder) : Code → List CodeBuilder
  | .indented body => historyAll b.deeper body ++ [b.write (.indented body)]
  | .block header close body =>
    historyAll (b.line header).deeper body ++ [b.write (.block header close body)]
  | code => [b.write code]

def historyAll (b : CodeBuilder) : List Code → List CodeBuilder
  | [] => []
  | code :: rest => history b code ++ historyAll (b.write code) rest

end

end CodeBuilder

def Code.render (indent : Indent) (level : Nat) (code : List Code) : String :=
  (CodeBuilder.writeAll { indent, level } code).text

end CppAst
