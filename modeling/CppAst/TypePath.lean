namespace CppAst

/-- The names of the types around a type and its own, the outermost first. -/
structure TypePath where
  segments : List String
deriving Repr, DecidableEq

namespace TypePath

def root : TypePath := ⟨[]⟩

def child (p : TypePath) (name : String) : TypePath := ⟨p.segments ++ [name]⟩

def qualified (p : TypePath) : String := "::".intercalate p.segments

end TypePath
end CppAst
