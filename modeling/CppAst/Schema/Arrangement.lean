import CppAst.Document
import Mathlib.Data.List.Forall2

namespace CppAst

def Document.isText : String × Document → Bool
  | (_, .string _) => true
  | _ => false

namespace Schema

open Document

mutual

/-- Struct bodies with the same fields in the same order and the same nodes in the same order. How
the ones stand between the others may differ, also in the bodies of the nodes. -/
inductive SameBody : List (String × Document) → List (String × Document) → Prop
  | intro {body body' : List (String × Document)} :
      body.filter isText = body'.filter isText →
      SameNodes (body.filter (!isText ·)) (body'.filter (!isText ·)) → SameBody body body'

inductive SameNodes : List (String × Document) → List (String × Document) → Prop
  | nil : SameNodes [] []
  | struct (name : String) {body body' rest rest' : List (String × Document)} :
      SameBody body body' → SameNodes rest rest' →
      SameNodes ((name, .mapping body) :: rest) ((name, .mapping body') :: rest')
  | same (entry : String × Document) {rest rest' : List (String × Document)} :
      SameNodes rest rest' → SameNodes (entry :: rest) (entry :: rest')

end

inductive SameEntry : String × Document → String × Document → Prop
  | ast {nodes nodes' : List (String × Document)} :
      SameNodes nodes nodes' → SameEntry ("ast", .mapping nodes) ("ast", .mapping nodes')
  | printer {sections sections' : List (String × Document)} :
      sections.Perm sections' →
      SameEntry ("printer", .mapping sections) ("printer", .mapping sections')
  | same (entry : String × Document) : SameEntry entry entry

/-- The keys of the root, too, may stand in any order. -/
def Rearranged (d d' : Document) : Prop :=
  ∃ root moved root', d = .mapping root ∧ d' = .mapping root' ∧ root.Perm moved ∧
    List.Forall₂ SameEntry moved root'

end Schema
end CppAst
