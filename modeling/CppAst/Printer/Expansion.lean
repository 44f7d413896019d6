import CppAst.Printer.Basic
import CppAst.Schema.Lookup

namespace CppAst

namespace Text

/-- Replaces tokens from left to right, after dropping `skip` characters. Where one of the tokens
begins, its value is put, and the text goes on behind the token. -/
def replaceAllFrom (substitutions : List (List Char × List Char)) :
    (skip : Nat) → List Char → List Char
  | _, [] => []
  | skip + 1, _ :: rest => replaceAllFrom substitutions skip rest
  | 0, c :: rest =>
    match substitutions.find? fun s ↦ s.1.isPrefixOf (c :: rest) with
    | some (token, value) => value ++ replaceAllFrom substitutions (token.length - 1) rest
    | none => c :: replaceAllFrom substitutions 0 rest

/-- No `$` that begins none of these tokens is followed, up to a next `$`, by what is only the start
of a token. -/
def Unbroken (tokens : List (List Char)) : List Char → Prop
  | [] => True
  | c :: rest =>
    (c = '$' → (∀ token ∈ tokens, ¬ token <+: c :: rest) → '$' ∈ rest →
      let part := rest.takeWhile (· ≠ '$')
      ∀ token ∈ tokens, ¬ (c :: part <+: token ∧ c :: part ≠ token)) ∧
    Unbroken tokens rest

def decideUnbroken (tokens : List (List Char)) :
    (text : List Char) → Decidable (Unbroken tokens text)
  | [] => .isTrue trivial
  | _ :: rest =>
    have := decideUnbroken tokens rest
    inferInstanceAs (Decidable (_ ∧ _))

instance (tokens : List (List Char)) (text : List Char) : Decidable (Unbroken tokens text) :=
  decideUnbroken tokens text

end Text

namespace Template

/-- A name in which nothing is looked for: every identifier is one. -/
def Inert (name : String) : Prop :=
  name ≠ "" ∧ ∀ c ∈ name.toList, ¬ Text.isBlank c ∧ c ≠ '$' ∧ c ≠ '#'

instance (name : String) : Decidable (Inert name) :=
  @instDecidableAnd _ _ _ (List.decidableBAll _ _)

def Clear (tokens lines : List String) : Prop :=
  ∀ line ∈ lines, Text.Unbroken (tokens.map String.toList) line.toList ∧
    ((Text.trim line.toList).head? = some '#' → '$' ∉ line.toList)

instance (tokens lines : List String) : Decidable (Clear tokens lines) :=
  inferInstanceAs (Decidable (∀ line ∈ lines, _))

def fillLine (substitutions : List (String × String)) (line : String) : String :=
  .ofList (Text.replaceAllFrom (substitutions.map fun s ↦ (s.1.toList, s.2.toList)) 0 line.toList)

def fill (substitutions : List (String × String)) (lines : List String) : List String :=
  lines.map (fillLine substitutions)

/-- The lines in which those that are the marker give way to `content`, and in all others the tokens
are replaced at once. -/
def fillAround (marker : String) (content : List String) (substitutions : List (String × String))
    (lines : List String) : List String :=
  lines.flatMap fun line ↦
    if Text.trim line.toList = marker.toList then content else [fillLine substitutions line]

end Template

def NodeParts.names : NodeParts → List String
  | struct fields => fields
  | enum elements => elements

namespace Node

def preorder (nodes : List Node) : List (TypePath × Node) :=
  (walkFrom 0 nodes).filterMap fun (_, chain) ↦
    chain.getLast?.map fun node ↦ (⟨chain.map name⟩, node)

def Inert (node : Node) : Prop := ∀ name ∈ node.name :: node.parts.names, Template.Inert name

end Node

namespace PrinterSections

/-- The sections keep tokens and markers apart. Nothing is replaced in the template. -/
structure Clear (sections : PrinterSections) : Prop where
  declaration : Template.Clear ["$type"] sections.declaration
  definition : Template.Clear ["$type", "$name"] sections.definition
  definitionEnum : Template.Clear ["$type", "$name"] sections.definitionEnum
  definitionEnumCase : Template.Clear ["$type", "$name", "$variant"] sections.definitionEnumCase
  definitionEmpty : Template.Clear ["$type", "$name"] sections.definitionEmpty
  field : Template.Clear ["$field_name"] sections.field

variable (sections : PrinterSections)

open Template

def declarationFragment (type : String) : List String :=
  fill [("$type", type)] sections.declaration

def definitionFragment (type : String) : Node → List String
  | .enum name elements =>
    fillAround "#definition_enum_cases"
      (elements.flatMap fun element ↦
        fill [("$type", type), ("$name", name), ("$variant", element)] sections.definitionEnumCase)
      [("$type", type), ("$name", name)] sections.definitionEnum
  | .struct name _ [] => fill [("$type", type), ("$name", name)] sections.definitionEmpty
  | .struct name _ fields =>
    fillAround "#fields" (fields.flatMap fun f ↦ fill [("$field_name", f.name)] sections.field)
      [("$type", type), ("$name", name)] sections.definition

/-- The template with all fragments in the places of their markers. -/
def expansion (nodes : List Node) : List String :=
  sections.template.flatMap fun line ↦
    if Text.trim line.toList = "#declarations".toList then
      (Node.preorder nodes).flatMap fun (path, _) ↦ sections.declarationFragment path.qualified
    else if Text.trim line.toList = "#definitions".toList then
      (Node.preorder nodes).flatMap fun (path, node) ↦
        sections.definitionFragment path.qualified node
    else [line]

end PrinterSections
end CppAst
