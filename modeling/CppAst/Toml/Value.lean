import CppAst.Document

namespace CppAst.Toml

structure Date where
  year : Nat
  month : Nat
  day : Nat
deriving Repr, DecidableEq

structure Time where
  hour : Nat
  minute : Nat
  second : Nat
  nanosecond : Nat
deriving Repr, DecidableEq

inductive Offset where
  | zulu
  | minutes (value : Int)
deriving Repr, DecidableEq

inductive DateTime where
  | date (date : Date)
  | time (time : Time)
  | dateTime (date : Date) (time : Time) (offset : Option Offset)
deriving Repr, DecidableEq

inductive Value where
  | string (text : String)
  | integer (value : Int)
  /-- A number, or none of them: infinity and what is not a number have no decimal. -/
  | float (value : Option Decimal)
  | boolean (value : Bool)
  | dateTime (value : DateTime)
  | array (items : List Value)
  | table (entries : List (String × Value))

def padded (width n : Nat) : String :=
  let digits := Nat.toDigits 10 n
  .ofList (List.replicate (width - digits.length) '0' ++ digits)

def Date.text (d : Date) : String :=
  s!"{padded 4 d.year}-{padded 2 d.month}-{padded 2 d.day}"

/-- The seconds are always written, the fraction without the zeros it ends in. -/
def Time.text (t : Time) : String :=
  let whole := s!"{padded 2 t.hour}:{padded 2 t.minute}:{padded 2 t.second}"
  if t.nanosecond = 0 then whole
  else whole ++ "." ++
    .ofList ((padded 9 t.nanosecond).toList.reverse.dropWhile (· = '0')).reverse

def Offset.text : Offset → String
  | zulu => "Z"
  | minutes m =>
    let sign := if m < 0 then "-" else "+"
    s!"{sign}{padded 2 (m.natAbs / 60)}:{padded 2 (m.natAbs % 60)}"

def DateTime.text : DateTime → String
  | date d => d.text
  | time t => t.text
  | dateTime d t offset => d.text ++ "T" ++ t.text ++ (offset.map Offset.text).getD ""

mutual

/-- Dates and times become strings, and what is no finite number becomes null. -/
def Value.toDocument : Value → Document
  | .string text => .string text
  | .integer value => .number ⟨value, 0⟩
  | .float (some value) => .number value
  | .float none => .null
  | .boolean value => .bool value
  | .dateTime value => .string value.text
  | .array items => .list (listToDocument items)
  | .table entries => .mapping (entriesToDocument entries)

def listToDocument : List Value → List Document
  | [] => []
  | item :: rest => item.toDocument :: listToDocument rest

def entriesToDocument : List (String × Value) → List (String × Document)
  | [] => []
  | (key, value) :: rest => (key, value.toDocument) :: entriesToDocument rest

end

end CppAst.Toml
