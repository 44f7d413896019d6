import CppAst.Comparison
import CppAst.Text
import Mathlib.Logic.Function.Basic

namespace CppAst

/-- C++ expressions over two values `l` and `r`, as far as the operators of structs need them. -/
inductive Expression where
  | literal (value : Bool)
  | name (identifier : String)
  | member (object : Expression) (field : String)
  | compare (op : Comparison) (left right : Expression)
  | and (left right : Expression)
  | or (left right : Expression)
deriving Repr, DecidableEq

namespace Expression

section Reading

inductive Token where
  | word (text : List Char)
  | dot
  | compare (op : Comparison)
  | and
  | or
deriving Repr, DecidableEq

def keywords : List String := [
  "alignas", "alignof", "asm", "auto", "bool", "break", "case", "catch", "char", "char8_t",
  "char16_t", "char32_t", "class", "concept", "const", "consteval", "constexpr", "constinit",
  "const_cast", "continue", "co_await", "co_return", "co_yield", "decltype", "default", "delete",
  "do", "double", "dynamic_cast", "else", "enum", "explicit", "export", "extern", "false", "float",
  "for", "friend", "goto", "if", "inline", "int", "long", "mutable", "namespace", "new", "noexcept",
  "nullptr", "operator", "private", "protected", "public", "register", "reinterpret_cast",
  "requires", "return", "short", "signed", "sizeof", "static", "static_assert", "static_cast",
  "struct", "switch", "template", "this", "thread_local", "throw", "true", "try", "typedef",
  "typeid", "typename", "union", "unsigned", "using", "virtual", "void", "volatile", "wchar_t",
  "while"]

def operatorWords : List String := [
  "and", "and_eq", "bitand", "bitor", "compl", "not", "not_eq", "or", "or_eq", "xor", "xor_eq"]

def isWordChar (c : Char) : Bool := c.isAlphanum || c = '_'

def isIdentifier (text : List Char) : Bool :=
  text.all isWordChar && text.head?.any (!·.isDigit) && !keywords.contains (.ofList text) &&
    !operatorWords.contains (.ofList text)

def Token.ofWord (text : List Char) : Token :=
  if text = "and".toList then and
  else if text = "or".toList then or
  else if text = "not_eq".toList then compare .notEqual
  else word text

/-- The token that starts with a character that belongs to no word, and whether it takes the next
character too. -/
def symbol? (c : Char) (next : Option Char) : Option (Token × Bool) :=
  if c = '.' then some (.dot, false)
  else if c = '=' && next = some '=' then some (.compare .equal, true)
  else if c = '!' && next = some '=' then some (.compare .notEqual, true)
  else if c = '&' && next = some '&' then some (.and, true)
  else if c = '|' && next = some '|' then some (.or, true)
  else none

def endWord (word : List Char) (tokens : List Token) : List Token :=
  if word.isEmpty then tokens else .ofWord word :: tokens

/-- The tokens of a text that begins after some characters of a word, of which there may be none.
Its first character can be skipped. -/
def lexFrom? (word : List Char) : (skip : Bool) → List Char → Option (List Token)
  | _, [] => some (endWord word [])
  | true, _ :: rest => lexFrom? word false rest
  | false, c :: rest =>
    if isWordChar c then lexFrom? (word ++ [c]) false rest
    else if Text.isBlank c then (lexFrom? [] false rest).map (endWord word)
    else match symbol? c rest.head? with
      | some (token, long) =>
        (lexFrom? [] long rest).map fun tokens ↦ endWord word (token :: tokens)
      | none => none

def primary? (word : List Char) : Option Expression :=
  if word = "true".toList then some (literal true)
  else if word = "false".toList then some (literal false)
  else if isIdentifier word then some (name (.ofList word))
  else none

def members? (e : Expression) : List Token → Option Expression
  | [] => some e
  | .dot :: .word field :: rest =>
    if isIdentifier field then members? (e.member (.ofList field)) rest else none
  | _ => none

def operand? : List Token → Option Expression
  | .word word :: rest => (primary? word).bind (members? · rest)
  | _ => none

def operands : List Token → List Token × List (Comparison × List Token)
  | [] => ([], [])
  | .compare op :: rest => ([], (op, (operands rest).1) :: (operands rest).2)
  | token :: rest => (token :: (operands rest).1, (operands rest).2)

def equality? (tokens : List Token) : Option Expression := do
  let e ← operand? (operands tokens).1
  (operands tokens).2.foldlM (fun e (op, right) ↦ (operand? right).map (compare op e)) e

def chain? (join : Expression → Expression → Expression) : List Expression → Option Expression
  | [] => none
  | e :: rest => some (rest.foldl join e)

def conjunction? (tokens : List Token) : Option Expression :=
  ((tokens.splitOn .and).mapM equality?).bind (chain? and)

/-- Conjunctions with `||` between them, which binds weaker. -/
def disjunction? (tokens : List Token) : Option Expression :=
  ((tokens.splitOn .or).mapM conjunction?).bind (chain? or)

/-- Reads a C++ expression without parentheses. -/
def read? (text : String) : Option Expression := (lexFrom? [] false text.toList).bind disjunction?

end Reading

def terms : Expression → List Expression
  | and left right | or left right => terms left ++ terms right
  | e => [e]

def compareField (op : Comparison) (f : Field) : Expression :=
  compare op ((name "l").member f.name) ((name "r").member f.name)

end Expression

structure Equality (α : Type u) where
  equal : α → α → Bool
  notEqual : α → α → Bool
  equal_iff : ∀ a b, equal a b = true ↔ a = b
  notEqual_eq : ∀ a b, notEqual a b = !equal a b

def Equality.compare {α : Type u} (ops : Equality α) : Comparison → α → α → Bool
  | .equal => ops.equal
  | .notEqual => ops.notEqual

namespace Expression

/-- What an expression can stand for, where `V` gives the types of the fields. -/
inductive Value (V : String → Type u) where
  | bool (b : Bool)
  | object (fields : ∀ field, V field)
  | field (name : String) (value : V name)

variable {V : String → Type u} (ops : ∀ field, Equality (V field))

def Value.bool? : Value V → Option Bool
  | bool b => some b
  | object _ | field .. => none

def Value.compare? (op : Comparison) : Value V → Value V → Option (Value V)
  | field f v, field g w => if h : f = g then some (bool ((ops g).compare op (h ▸ v) w)) else none
  | _, _ => none

/-- The value of an expression for two values `l` and `r` of a struct. -/
def eval (l r : ∀ field, V field) : Expression → Option (Value V)
  | literal value => some (.bool value)
  | name "l" => some (.object l)
  | name "r" => some (.object r)
  | name _ => none
  | member object field =>
    match eval l r object with
    | some (.object fields) => some (.field field (fields field))
    | _ => none
  | compare op left right =>
    (eval l r left).bind fun v ↦ (eval l r right).bind fun w ↦ v.compare? ops op w
  | and left right =>
    match (eval l r left).bind Value.bool? with
    | some true => eval l r right
    | some false => some (.bool false)
    | none => none
  | or left right =>
    match (eval l r left).bind Value.bool? with
    | some true => some (.bool true)
    | some false => eval l r right
    | none => none

end Expression

/-- The operators that are written for a struct mean the expressions `e`: these are read from what
the operators return, they have one comparison for each field in order or, without fields, a
literal, and for all values the first is true if and only if the fields are equal one by one and the
second is its negation. -/
structure Comparison.Means (nodes : List Node) (path : TypePath) (fields : List Field)
    (e : Comparison → Expression) : Prop where
  /-- Of the blocks of a tree, one is that of the struct. -/
  written : ∃ i : Nat, ∀ op : Comparison,
    (op.signatures nodes)[i]? = some (op.signature path fields) ∧
    (op.bodies nodes)[i]? = some s!"return {op.expression fields};" ∧
    ∀ (indent : Indent) (level : Nat), Code.render indent level (op.definitions nodes) =
      String.join (List.zipWith (definitionText indent level) (op.signatures nodes)
        (op.bodies nodes))
  read : ∀ op : Comparison, Expression.read? (op.expression fields) = some (e op)
  terms : ∀ op : Comparison, (e op).terms =
    if fields = [] then [.literal (op = .equal)] else fields.map (Expression.compareField op)
  values : ∀ {V : String → Type u} (ops : ∀ field, Equality (V field)) (l r : ∀ field, V field),
    ∃ b : Bool, (e .equal).eval ops l r = some (.bool b) ∧
      (e .notEqual).eval ops l r = some (.bool !b) ∧
      (b = true ↔ ∀ f ∈ fields, l f.name = r f.name)
  /-- Changing a single field of values that agree changes both results. -/
  flips : ∀ {V : String → Type u} (ops : ∀ field, Equality (V field)) (l r : ∀ field, V field),
    (∀ f ∈ fields, l f.name = r f.name) → ∀ f ∈ fields, ∀ v ≠ r f.name,
      (e .equal).eval ops l r = some (.bool true) ∧
      (e .notEqual).eval ops l r = some (.bool false) ∧
      (e .equal).eval ops l (Function.update r f.name v) = some (.bool false) ∧
      (e .notEqual).eval ops l (Function.update r f.name v) = some (.bool true)

end CppAst
