import CppAst.Document
import CppAst.Binary64
import CppAst.Json.Error

namespace CppAst.Json

def maxSignificand : Nat := 0xFFFFFFFFFFFFFFFF

def maxExponent : Nat := 0x7FFFFFFF

inductive NumeralPart where
  | sign
  | zero
  | whole
  | point
  | fraction
  | letter
  | exponentSign
  | exponent
deriving Repr, DecidableEq

/-- The part of a numeral that has been read. The significand holds the digits that fit in 64 bits;
once one does not, the later ones of the same part only count for the exponent. -/
structure Numeral where
  part : NumeralPart
  negative : Bool
  significand : Nat := 0
  scale : Int := 0
  full : Bool := false
  exponentNegative : Bool := false
  exponent : Nat := 0
deriving Repr, DecidableEq

namespace Numeral

def start? (c : Char) : Option Numeral :=
  if c = '-' then some ⟨.sign, true, 0, 0, false, false, 0⟩
  else if c = '0' then some ⟨.zero, false, 0, 0, false, false, 0⟩
  else if c.isDigit then some ⟨.whole, false, c.toNat - 48, 0, false, false, 0⟩
  else none

def complete (n : Numeral) : Bool :=
  match n.part with
  | .zero | .whole | .fraction | .exponent => true
  | .sign | .point | .letter | .exponentSign => false

/-- One more digit of the significand, which stands `step` places further right. -/
def pushDigit (n : Numeral) (digit : Nat) (fraction : Bool) : Numeral :=
  let next := n.significand * 10 + digit
  if n.full || maxSignificand < next then
    { n with full := true, scale := if fraction then n.scale else n.scale + 1 }
  else { n with significand := next, scale := if fraction then n.scale - 1 else n.scale }

def pushExponent (n : Numeral) (digit : Nat) : Except Reason Numeral :=
  let exponent := n.exponent * 10 + digit
  if maxExponent < exponent && n.exponent ≤ maxExponent && !n.exponentNegative &&
      n.significand ≠ 0 then
    .error .numberOutOfRange
  else .ok { n with part := .exponent, exponent }

def push? (n : Numeral) (c : Char) : Option (Except Reason Numeral) :=
  let digit := c.toNat - 48
  match n.part with
  | .sign =>
    if c = '0' then some (.ok { n with part := .zero })
    else if c.isDigit then some (.ok (pushDigit { n with part := .whole } digit false))
    else some (.error .invalidNumber)
  | .zero =>
    if c.isDigit then some (.error .invalidNumber) else afterDigits true
  | .whole =>
    if c.isDigit then some (.ok (n.pushDigit digit false)) else afterDigits true
  | .point =>
    if c.isDigit then some (.ok (pushDigit { n with part := .fraction, full := false } digit true))
    else some (.error .invalidNumber)
  | .fraction =>
    if c.isDigit then some (.ok (n.pushDigit digit true)) else afterDigits false
  | .letter =>
    if c = '+' then some (.ok { n with part := .exponentSign })
    else if c = '-' then some (.ok { n with part := .exponentSign, exponentNegative := true })
    else if c.isDigit then some (n.pushExponent digit)
    else some (.error .invalidNumber)
  | .exponentSign =>
    if c.isDigit then some (n.pushExponent digit) else some (.error .invalidNumber)
  | .exponent => if c.isDigit then some (n.pushExponent digit) else none
where
  afterDigits (point : Bool) : Option (Except Reason Numeral) :=
    if c = '.' && point then some (.ok { n with part := .point })
    else if c = 'e' || c = 'E' then some (.ok { n with part := .letter })
    else none

def value (n : Numeral) : Except Reason Decimal :=
  let exponent := if n.exponentNegative then n.scale - n.exponent else n.scale + n.exponent
  if Binary64.overflows n.significand exponent then .error .numberOutOfRange
  else .ok ⟨if n.negative then -n.significand else n.significand, exponent⟩

end Numeral
end CppAst.Json
