import CppAst.Json.Machine

namespace CppAst.Json

inductive Lexeme where
  | blank (chars : List Char)
  | mark (char : Char)
  | scalar (chars : List Char)
  | string (chars : List Char)
  | key (chars : List Char)
deriving Repr, DecidableEq

namespace Lexeme

def text : Lexeme → List Char
  | blank chars | scalar chars => chars
  | mark char => [char]
  | string chars | key chars => '"' :: (chars ++ ['"'])

def texts (lexemes : List Lexeme) : List Char := lexemes.flatMap text

end Lexeme

def IsBlank (chars : List Char) : Prop := ∀ c ∈ chars, State.isSpace c

def IsPlain (chars : List Char) : Prop := ∀ c ∈ chars, c ≠ '"' ∧ c ≠ '\\' ∧ 0x20 ≤ c.toNat

inductive NumberEnd : NumeralPart → List Char → Prop
  | signZero {more : List Char} : NumberEnd .zero more → NumberEnd .sign ('0' :: more)
  | signDigit {c : Char} {more : List Char} :
      c.isDigit → c ≠ '0' → NumberEnd .whole more → NumberEnd .sign (c :: more)
  | zero : NumberEnd .zero []
  | whole : NumberEnd .whole []
  | wholeDigit {c : Char} {more : List Char} :
      c.isDigit → NumberEnd .whole more → NumberEnd .whole (c :: more)
  | zeroPoint {more : List Char} : NumberEnd .point more → NumberEnd .zero ('.' :: more)
  | wholePoint {more : List Char} : NumberEnd .point more → NumberEnd .whole ('.' :: more)
  | pointDigit {c : Char} {more : List Char} :
      c.isDigit → NumberEnd .fraction more → NumberEnd .point (c :: more)
  | fraction : NumberEnd .fraction []
  | fractionDigit {c : Char} {more : List Char} :
      c.isDigit → NumberEnd .fraction more → NumberEnd .fraction (c :: more)
  | exponentLetter {part : NumeralPart} {c : Char} {more : List Char} :
      part = .zero ∨ part = .whole ∨ part = .fraction → c = 'e' ∨ c = 'E' →
      NumberEnd .letter more → NumberEnd part (c :: more)
  | letterSign {c : Char} {more : List Char} :
      c = '+' ∨ c = '-' → NumberEnd .exponentSign more → NumberEnd .letter (c :: more)
  | exponentDigit {part : NumeralPart} {c : Char} {more : List Char} :
      part = .letter ∨ part = .exponentSign ∨ part = .exponent → c.isDigit →
      NumberEnd .exponent more → NumberEnd part (c :: more)
  | exponent : NumberEnd .exponent []

inductive IsScalar : List Char → Prop
  | null : IsScalar ['n', 'u', 'l', 'l']
  | true : IsScalar ['t', 'r', 'u', 'e']
  | false : IsScalar ['f', 'a', 'l', 's', 'e']
  | number {chars : List Char} : NumberEnd .sign chars → IsScalar chars
  | negative {chars : List Char} : NumberEnd .sign chars → IsScalar ('-' :: chars)

inductive Phrase where
  | value
  | member
  /-- What follows an item of a list, up to the bracket that closes the list. -/
  | listEnd
  /-- What follows a member of an object, up to the brace that closes the object. -/
  | objectEnd

open Lexeme in
inductive Derives : Phrase → List Lexeme → Prop
  | scalar {chars : List Char} : IsScalar chars → Derives .value [scalar chars]
  | string {chars : List Char} : IsPlain chars → Derives .value [string chars]
  | emptyList {b : List Char} : IsBlank b → Derives .value [mark '[', blank b, mark ']']
  | list {b : List Char} {item tail : List Lexeme} :
      IsBlank b → Derives .value item → Derives .listEnd tail →
      Derives .value (mark '[' :: blank b :: (item ++ tail))
  | emptyObject {b : List Char} : IsBlank b → Derives .value [mark '\x7b', blank b, mark '\x7d']
  | object {b : List Char} {member tail : List Lexeme} :
      IsBlank b → Derives .member member → Derives .objectEnd tail →
      Derives .value (mark '\x7b' :: blank b :: (member ++ tail))
  | member {chars b b' : List Char} {value : List Lexeme} :
      IsPlain chars → IsBlank b → IsBlank b' → Derives .value value →
      Derives .member (key chars :: blank b :: mark ':' :: blank b' :: value)
  | lastItem {b : List Char} : IsBlank b → Derives .listEnd [blank b, mark ']']
  | nextItem {b b' : List Char} {item tail : List Lexeme} :
      IsBlank b → IsBlank b' → Derives .value item → Derives .listEnd tail →
      Derives .listEnd (blank b :: mark ',' :: blank b' :: (item ++ tail))
  | lastMember {b : List Char} : IsBlank b → Derives .objectEnd [blank b, mark '\x7d']
  | nextMember {b b' : List Char} {member tail : List Lexeme} :
      IsBlank b → IsBlank b' → Derives .member member → Derives .objectEnd tail →
      Derives .objectEnd (blank b :: mark ',' :: blank b' :: (member ++ tail))

/-- The lexemes of a JSON text: one value between blanks. -/
def IsText (lexemes : List Lexeme) : Prop :=
  ∃ b value b', IsBlank b ∧ Derives .value value ∧ IsBlank b' ∧
    lexemes = .blank b :: (value ++ [.blank b'])

end CppAst.Json
