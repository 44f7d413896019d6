import CppAst.Source.KeySearch

namespace CppAst

def Text.from? : List Char → Nat → Option (List Char)
  | [], n => if n = 0 then some [] else none
  | c :: rest, n =>
    if n = 0 then some (c :: rest)
    else if n < c.utf8Size then none
    else from? rest (n - c.utf8Size)

namespace Source

inductive Turn where
  | found (offset : Nat)
  | absent
  | onwards (start : Nat)
deriving Repr, DecidableEq

/-- Looks for the next occurrence of `quoted` from a byte on. It is found if blanks and a colon
follow, and otherwise the search goes on behind it. There is no result if the text cannot be cut. -/
def turn? (text quoted : List Char) (start : Nat) : Option Turn := do
  let rest ← Text.from? text start
  match Text.find? quoted rest with
  | none => return .absent
  | some distance =>
    let stop := start + distance + Text.width quoted
    let after ← Text.from? text stop
    if (Text.trimStart after).head? = some ':' then return .found (start + distance + 1)
    else return .onwards stop

inductive Scans (text quoted : List Char) : (start : Nat) → Option Nat → Prop
  | found {start offset : Nat} :
      turn? text quoted start = some (.found offset) → Scans text quoted start (some offset)
  | absent {start : Nat} :
      turn? text quoted start = some .absent → Scans text quoted start none
  | onwards {start next : Nat} {result : Option Nat} :
      turn? text quoted start = some (.onwards next) → Scans text quoted next result →
      Scans text quoted start result

/-- The turns come first, and the keys without quotes are tried only if there is none in quotes. -/
def Finds (text name : List Char) (span? : Option Span) : Prop :=
  ∃ offset?, Scans text ('"' :: name ++ ['"']) 0 offset? ∧
    span? = ((offset?.or (findBare? text name)).or
      (if startsWithKey text name then some 0 else none)).map (⟨·, Text.width name⟩)

end Source
end CppAst
