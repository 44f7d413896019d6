import CppAst.Binary64
import CppAst.Toml.Scalar

namespace CppAst.Toml.Meaning

/-- The first key of a table that stands for a date or a time. -/
def dateTimeKey : String := "$__toml_private_datetime"

def minInteger : Int := -0x8000000000000000

def maxInteger : Int := 0x7FFFFFFFFFFFFFFF

def integer? (base : Nat) (text : List Char) : Option Int := do
  let (negative, rest) := Scalar.sign text
  let n := Scalar.signed negative (← Scalar.digits? base rest)
  if minInteger ≤ n && n ≤ maxInteger then some n else none

mutual

/-- The value that is meant. Entries behind the text of a date or a time mean nothing. -/
def value? : Literal → Option Value
  | .string text => some (.string text)
  | .integer base text => .integer <$> integer? base text
  | .float none => some (.float none)
  | .float (some number) =>
    if Binary64.isInfinite number then none else some (.float (some number))
  | .boolean value => some (.boolean value)
  | .dateTime value => some (.dateTime value)
  | .array items => .array <$> items? items
  | .table entries =>
    match entries.head? with
    | none => some (.table [])
    | some (key, first) =>
      if key ≠ dateTimeKey then .table <$> entries? entries
      else match first with
        | .string text => .dateTime <$> Scalar.dateTime? text.toList
        | _ => none

def items? : List Literal → Option (List Value)
  | [] => some []
  | item :: rest => do return (← value? item) :: (← items? rest)

def entries? : List (String × Literal) → Option (List (String × Value))
  | [] => some []
  | (key, value) :: rest => do return (key, ← value? value) :: (← entries? rest)

end

end CppAst.Toml.Meaning
