import CppAst.Toml.Meaning

namespace CppAst.Toml

open Meaning

mutual

/-- TOML has no null, and its integers have 64 bits. -/
def Value.ofDocument? : Document → Option Value
  | .null => none
  | .bool value => some (.boolean value)
  | .number ⟨digits, exponent⟩ =>
    if exponent = 0 ∧ minInteger ≤ digits ∧ digits ≤ maxInteger then some (.integer digits)
    else none
  | .string text => some (.string text)
  | .list items => .array <$> arrayOf? items
  | .mapping entries => .table <$> tableOf? entries

def arrayOf? : List Document → Option (List Value)
  | [] => some []
  | item :: rest => do return (← Value.ofDocument? item) :: (← arrayOf? rest)

def tableOf? : List (String × Document) → Option (List (String × Value))
  | [] => some []
  | (key, value) :: rest => do return (key, ← Value.ofDocument? value) :: (← tableOf? rest)

end

end CppAst.Toml
