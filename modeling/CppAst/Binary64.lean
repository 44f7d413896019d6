import CppAst.Document

namespace CppAst.Binary64

def round (n : Nat) : Nat :=
  if n < Nat.pow 2 53 then n
  else
    let shift := n.log2 - 52
    let unit := Nat.pow 2 shift
    let (quotient, rest) := (n / unit, n % unit)
    if unit < 2 * rest || (unit = 2 * rest && quotient % 2 = 1) then (quotient + 1) * unit
    else quotient * unit

/-- Whether `significand * 10 ^ exponent` is too large, when the significand and the power of ten
are each rounded and then their product is. -/
def overflows (significand : Nat) (exponent : Int) : Bool :=
  if significand = 0 then false
  else match exponent with
    | .negSucc _ => false
    | .ofNat e => 308 < e || Nat.pow 2 1024 ≤ round (round significand * round (Nat.pow 10 e))

/-- Whether the nearest double is infinite. Of the gap above the largest double the first half is
nearest to that double, and the middle is not. -/
def isInfinite (number : Decimal) : Bool :=
  let digits := number.digits.natAbs
  let bound := Nat.pow 2 1024 - Nat.pow 2 970
  if digits = 0 then false
  else match number.exponent with
    | .ofNat e => 308 < e || bound ≤ digits * Nat.pow 10 e
    | .negSucc e => e < digits.log2 && bound ≤ digits / Nat.pow 10 (e + 1)

end CppAst.Binary64
