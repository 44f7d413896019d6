import CppAst.Code.Layout
import CppAst.Declarations.Reading
import CppAst.Text

namespace CppAst

def braceDepth (text : List Char) : Int := text.count '\x7b' - text.count '\x7d'

/-- A line that is not empty starts with the margin of the depth, or of one less if it goes on with
a closing brace, and then comes no blank. -/
def FitsDepth (indent : Indent) (depth : Int) (line : List Char) : Prop :=
  line ≠ [] → ∃ (k : Nat) (c : Char) (rest : List Char),
    line = (indent.margin k).toList ++ c :: rest ∧ ¬ Text.isBlank c ∧
      (k : Int) = depth - if c = '\x7d' then 1 else 0

/-- Every line stands as deep as the braces on the lines before it say, and no brace is closed that
has not been opened. -/
structure Nested (indent : Indent) (text : List Char) : Prop where
  lines : ∀ before line after, text.splitOn '\n' = before ++ line :: after →
    FitsDepth indent (braceDepth before.flatten) line
  opened : ∀ start, start <+: text → 0 ≤ braceDepth start

def Bare (text : String) : Prop :=
  ∀ c ∈ text.toList, c ≠ '\x7b' ∧ c ≠ '\x7d' ∧ c ≠ '\n'

instance (text : String) : Decidable (Bare text) := List.decidableBAll _ _

def Visible (text : String) : Prop := ∃ c ∈ text.toList.head?, ¬ Text.isBlank c

instance (text : String) : Decidable (Visible text) :=
  decidable_of_iff (text.toList.head?.any (!Text.isBlank ·) = true) (by
    cases h : text.toList.head? <;> simp [Visible, h])

namespace CodeRow

inductive Steps : Nat → CodeRow → Nat → Prop
  | blank (depth : Nat) : Steps depth .blank depth
  | text {depth : Nat} {content : String} : Bare content → Visible content →
      Steps depth (.text depth content) depth
  | opening {depth : Nat} {header : String} : Bare header → Visible header →
      Steps depth (.text depth (header ++ "\x7b")) (depth + 1)
  | closing {depth : Nat} {rest : String} : Bare rest →
      Steps (depth + 1) (.text depth ("\x7d" ++ rest)) depth

inductive Leads : Nat → List CodeRow → Nat → Prop
  | nil {depth : Nat} : Leads depth [] depth
  | cons {depth next last : Nat} {row : CodeRow} {rows : List CodeRow} :
      Steps depth row next → Leads next rows last → Leads depth (row :: rows) last

end CodeRow

namespace Node

mutual

/-- All texts of the node are bare, and types and elements start with something else than a
blank. -/
def Bare : Node → Prop
  | struct name subnodes fields =>
    CppAst.Bare name ∧ BareIn subnodes ∧
      ∀ f ∈ fields, (CppAst.Bare f.type ∧ Visible f.type) ∧ CppAst.Bare f.name
  | enum name elements => CppAst.Bare name ∧ ∀ e ∈ elements, CppAst.Bare e ∧ Visible e

def BareIn : List Node → Prop
  | [] => True
  | node :: rest => Bare node ∧ BareIn rest

end

mutual

def decideBare : (n : Node) → Decidable n.Bare
  | struct _ subnodes _ =>
    have := decideBareIn subnodes
    inferInstanceAs (Decidable (_ ∧ _ ∧ _))
  | enum .. => inferInstanceAs (Decidable (_ ∧ _))

def decideBareIn : (nodes : List Node) → Decidable (BareIn nodes)
  | [] => .isTrue trivial
  | node :: rest =>
    have := decideBare node
    have := decideBareIn rest
    inferInstanceAs (Decidable (_ ∧ _))

end

instance (nodes : List Node) : Decidable (BareIn nodes) := decideBareIn nodes

end Node

structure Schema.Bare (s : Schema) : Prop where
  sysIncludes : ∀ name ∈ s.sysIncludes, CppAst.Bare name
  projectIncludes : ∀ name ∈ s.projectIncludes, CppAst.Bare name
  scope : CppAst.Bare s.scope
  ast : Node.BareIn s.ast

end CppAst
