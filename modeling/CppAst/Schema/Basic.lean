namespace CppAst

/-- A member of a struct. The type is a C++ type expression and is never looked into. -/
structure Field where
  name : String
  type : String
deriving Repr, DecidableEq

inductive Node where
  | struct (name : String) (subnodes : List Node) (fields : List Field)
  | enum (name : String) (elements : List String)

def Node.name : Node → String
  | struct name _ _ => name
  | enum name _ => name

/-- Lines of C++ text with placeholders, from which the printer of a tree is put together. -/
structure PrinterSections where
  /-- The whole printer, with markers where declarations and definitions go. -/
  template : List String
  declaration : List String
  definition : List String
  definitionEnum : List String
  definitionEnumCase : List String
  definitionEmpty : List String
  field : List String
deriving Repr, DecidableEq

structure Schema where
  sysIncludes : List String
  projectIncludes : List String
  scope : String
  ast : List Node
  printer : PrinterSections

end CppAst
