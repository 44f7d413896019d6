import CppAst.Toml.Value

namespace CppAst.Toml

inductive Literal where
  | string (text : String)
  /-- An integer in a base, perhaps with a sign. Its text need not denote a number. -/
  | integer (base : Nat) (text : List Char)
  /-- A number, or none of them. It need not be in range. -/
  | float (value : Option Decimal)
  | boolean (value : Bool)
  | dateTime (value : DateTime)
  | array (items : List Literal)
  | table (entries : List (String × Literal))

end CppAst.Toml
