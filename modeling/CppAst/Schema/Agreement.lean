import CppAst.Schema.Check

namespace CppAst

def Document.AgreeAt (keys : List String) (entries entries' : List (String × Document)) : Prop :=
  ∀ key ∈ keys, entries.lookup key = entries'.lookup key

/-- Roots that agree at all keys of a schema, where the printers need only agree at the keys of the
sections. The tree is the same, with its order. -/
structure Schema.Agree (root root' : List (String × Document)) : Prop where
  plain : Document.AgreeAt ["sys_includes", "project_includes", "namespace", "ast"] root root'
  printer : Document.AgreeAt ["printer"] root root' ∨
    ∃ sections sections', root.lookup "printer" = some (.mapping sections) ∧
      root'.lookup "printer" = some (.mapping sections') ∧
      Document.AgreeAt Check.sections sections sections'

end CppAst
