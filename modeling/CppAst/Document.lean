namespace CppAst

structure Decimal where
  digits : Int
  exponent : Int
deriving Repr, DecidableEq

inductive Document where
  | null
  | bool (value : Bool)
  | number (value : Decimal)
  | string (text : String)
  | list (items : List Document)
  | mapping (entries : List (String × Document))

namespace Document

def shape : Document → String
  | null => "null"
  | bool _ => "boolean"
  | number _ => "number"
  | string _ => "string"
  | list _ => "list"
  | mapping _ => "mapping"

/-- The texts of a list of strings, or the shape of its first item that is none. -/
def texts : List Document → Except String (List String)
  | [] => .ok []
  | string text :: rest => (texts rest).map (text :: ·)
  | item :: _ => .error item.shape

/-- Entries with `key` bound to `value`. A key that is already there keeps its place. -/
def insert (key : String) (value : Document) : List (String × Document) → List (String × Document)
  | [] => [(key, value)]
  | (k, v) :: rest => if k = key then (key, value) :: rest else (k, v) :: insert key value rest

end Document
end CppAst
