import CppAst.Source.Position

namespace CppAst.Json

inductive Unfinished where
  | value
  | list
  | object
  | string
deriving Repr, DecidableEq

inductive Reason where
  | endOfText (inside : Unfinished)
  | expectedValue
  | expectedLiteral
  | expectedColon
  | expectedListSeparator
  | expectedObjectSeparator
  | expectedKey
  | trailingComma
  | trailingCharacters
  | invalidNumber
  | numberOutOfRange
  | controlCharacter
  | invalidEscape
  | loneSurrogate
  | unfinishedSurrogate
  | nestedTooDeep
deriving Repr, DecidableEq

def Reason.message : Reason → String
  | endOfText .value => "EOF while parsing a value"
  | endOfText .list => "EOF while parsing a list"
  | endOfText .object => "EOF while parsing an object"
  | endOfText .string => "EOF while parsing a string"
  | expectedValue => "expected value"
  | expectedLiteral => "expected ident"
  | expectedColon => "expected `:`"
  | expectedListSeparator => "expected `,` or `]`"
  | expectedObjectSeparator => "expected `,` or `\x7d`"
  | expectedKey => "key must be a string"
  | trailingComma => "trailing comma"
  | trailingCharacters => "trailing characters"
  | invalidNumber => "invalid number"
  | numberOutOfRange => "number out of range"
  | controlCharacter => "control character (\\u0000-\\u001F) found while parsing a string"
  | invalidEscape => "invalid escape"
  | loneSurrogate => "lone leading surrogate in hex escape"
  | unfinishedSurrogate => "unexpected end of hex escape"
  | nestedTooDeep => "recursion limit exceeded"

structure SyntaxError where
  reason : Reason
  /-- The bytes read when the error showed. -/
  read : Nat
  position : Source.Position
deriving Repr, DecidableEq

def SyntaxError.message (e : SyntaxError) : String :=
  s!"{e.reason.message} at line {e.position.line} column {e.position.column}"

end CppAst.Json
