import CppAst.Json.Numeral

namespace CppAst.Json

inductive Frame where
  | list (items : List Document)
  | object (members : List (String × Document))
  /-- The members of an object and the key of the one whose value comes next. -/
  | member (members : List (String × Document)) (key : String)

inductive StringPart where
  | plain
  | escape
  /-- Among the four bytes of a code unit of which `left` are to come. The code is missing once one
  of them was no digit; `high` is the surrogate before it. -/
  | unit (left : Nat) (code : Option Nat) (high : Option Nat)
  /-- After a high surrogate, and then after the backslash that must follow. -/
  | surrogate (high : Nat)
  | surrogateEscape (high : Nat)
deriving Repr, DecidableEq

inductive Mode where
  | document
  | done (value : Document)
  | firstItem
  | nextItem
  | afterItem
  | firstKey
  | nextKey
  | colon (key : String)
  | memberValue
  | afterMember
  | string (isKey : Bool) (part : StringPart) (chars : List Char)
  | literal (rest : List Char) (value : Document)
  | number (numeral : Numeral)

structure State where
  mode : Mode
  frames : List Frame

/-- A fault found at a character, of which `read` bytes had been read. -/
structure Fault where
  reason : Reason
  read : Nat
deriving Repr, DecidableEq

namespace State

def initial : State := ⟨.document, []⟩

def maxDepth : Nat := 127

def isSpace (c : Char) : Bool := c = ' ' || c = '\t' || c = '\n' || c = '\r'

def complete (value : Document) : List Frame → State
  | [] => ⟨.done value, []⟩
  | .list items :: outer => ⟨.afterItem, .list (value :: items) :: outer⟩
  | .object members :: outer => ⟨.afterMember, .object members :: outer⟩
  | .member members key :: outer =>
    ⟨.afterMember, .object (Document.insert key value members) :: outer⟩

def close : List Frame → State
  | [] => complete .null []
  | .list items :: outer => complete (.list items.reverse) outer
  | .object members :: outer => complete (.mapping members) outer
  | .member members _ :: outer => complete (.mapping members) outer

def openBracket (frames : List Frame) (mode : Mode) (frame : Frame) : Except Reason State :=
  if frames.length < maxDepth then .ok ⟨mode, frame :: frames⟩ else .error .nestedTooDeep

def startValue (frames : List Frame) (c : Char) : Except Reason State :=
  match c with
  | '"' => .ok ⟨.string false .plain [], frames⟩
  | '[' => openBracket frames .firstItem (.list [])
  | '\x7b' => openBracket frames .firstKey (.object [])
  | 't' => .ok ⟨.literal ['r', 'u', 'e'] (.bool true), frames⟩
  | 'f' => .ok ⟨.literal ['a', 'l', 's', 'e'] (.bool false), frames⟩
  | 'n' => .ok ⟨.literal ['u', 'l', 'l'] .null, frames⟩
  | c =>
    match Numeral.start? c with
    | some numeral => .ok ⟨.number numeral, frames⟩
    | none => .error .expectedValue

def afterValue (s : State) (c : Char) : Except Reason State :=
  if isSpace c then .ok s
  else match s.mode with
    | .afterItem =>
      if c = ',' then .ok ⟨.nextItem, s.frames⟩
      else if c = ']' then .ok (close s.frames)
      else .error .expectedListSeparator
    | .afterMember =>
      if c = ',' then .ok ⟨.nextKey, s.frames⟩
      else if c = '\x7d' then .ok (close s.frames)
      else .error .expectedObjectSeparator
    | _ => .error .trailingCharacters

def betweenTokens (s : State) (c : Char) : Except Reason State :=
  if isSpace c then .ok s
  else match s.mode with
    | .firstItem => if c = ']' then .ok (close s.frames) else startValue s.frames c
    | .nextItem => if c = ']' then .error .trailingComma else startValue s.frames c
    | .firstKey =>
      if c = '\x7d' then .ok (close s.frames)
      else if c = '"' then .ok ⟨.string true .plain [], s.frames⟩
      else .error .expectedKey
    | .nextKey =>
      if c = '\x7d' then .error .trailingComma
      else if c = '"' then .ok ⟨.string true .plain [], s.frames⟩
      else .error .expectedKey
    | .colon key =>
      if c = ':' then
        match s.frames with
        | .object members :: outer => .ok ⟨.memberValue, .member members key :: outer⟩
        | frames => .ok ⟨.memberValue, frames⟩
      else .error .expectedColon
    | _ => startValue s.frames c

def escaped? : Char → Option Char
  | '"' => some '"'
  | '\\' => some '\\'
  | '/' => some '/'
  | 'b' => some '\x08'
  | 'f' => some '\x0c'
  | 'n' => some '\n'
  | 'r' => some '\r'
  | 't' => some '\t'
  | _ => none

def isHighSurrogate (code : Nat) : Bool := 0xD800 ≤ code && code ≤ 0xDBFF

def isLowSurrogate (code : Nat) : Bool := 0xDC00 ≤ code && code ≤ 0xDFFF

def endUnit (chars : List Char) : (code high : Option Nat) → Except Reason (StringPart × List Char)
  | none, _ => .error .invalidEscape
  | some code, none =>
    if isLowSurrogate code then .error .loneSurrogate
    else if isHighSurrogate code then .ok (.surrogate code, chars)
    else .ok (.plain, .ofNat code :: chars)
  | some code, some high =>
    if isLowSurrogate code then
      .ok (.plain, .ofNat ((high - 0xD800) * 0x400 + (code - 0xDC00) + 0x10000) :: chars)
    else .error .loneSurrogate

def inString (s : State) (isKey : Bool) (chars : List Char) (c : Char) :
    StringPart → Except Fault State
  | .plain =>
    if c = '"' then
      let text := String.ofList chars.reverse
      .ok (if isKey then ⟨.colon text, s.frames⟩ else complete (.string text) s.frames)
    else if c = '\\' then .ok ⟨.string isKey .escape chars, s.frames⟩
    else if c.toNat < 0x20 then .error ⟨.controlCharacter, 1⟩
    else .ok ⟨.string isKey .plain (c :: chars), s.frames⟩
  | .escape =>
    if c = 'u' then .ok ⟨.string isKey (.unit 4 (some 0) none) chars, s.frames⟩
    else match escaped? c with
      | some e => .ok ⟨.string isKey .plain (e :: chars), s.frames⟩
      | none => .error ⟨.invalidEscape, 1⟩
  | .unit left code high =>
    let code := do return (← code) * 16 + (← Text.hexDigit? c)
    if c.utf8Size < left then
      .ok ⟨.string isKey (.unit (left - c.utf8Size) code high) chars, s.frames⟩
    else match endUnit chars code high with
      | .ok (part, chars) => .ok ⟨.string isKey part chars, s.frames⟩
      | .error reason => .error ⟨reason, left⟩
  | .surrogate high =>
    if c = '\\' then .ok ⟨.string isKey (.surrogateEscape high) chars, s.frames⟩
    else .error ⟨.unfinishedSurrogate, 1⟩
  | .surrogateEscape high =>
    if c = 'u' then .ok ⟨.string isKey (.unit 4 (some 0) (some high)) chars, s.frames⟩
    else .error ⟨.unfinishedSurrogate, 1⟩

def endNumber (s : State) (numeral : Numeral) (c : Char) : Except Fault State :=
  match numeral.value with
  | .ok value => (afterValue (complete (.number value) s.frames) c).mapError (⟨·, 1⟩)
  | .error reason => .error ⟨reason, 0⟩

def step (s : State) (c : Char) : Except Fault State :=
  match s.mode with
  | .string isKey part chars => s.inString isKey chars c part
  | .literal [] value => (afterValue (complete value s.frames) c).mapError (⟨·, 1⟩)
  | .literal (expected :: rest) value =>
    if c ≠ expected then .error ⟨.expectedLiteral, 1⟩
    else if rest.isEmpty then .ok (complete value s.frames)
    else .ok ⟨.literal rest value, s.frames⟩
  | .number numeral =>
    match numeral.push? c with
    | some (.ok numeral) => .ok ⟨.number numeral, s.frames⟩
    | some (.error reason) => .error ⟨reason, 1⟩
    | none => s.endNumber numeral c
  | .done _ | .afterItem | .afterMember => (s.afterValue c).mapError (⟨·, 1⟩)
  | _ => (s.betweenTokens c).mapError (⟨·, 1⟩)

def unfinished : Mode → Unfinished
  | .firstItem | .afterItem => .list
  | .firstKey | .colon _ | .afterMember => .object
  | .string .. => .string
  | .document | .done _ | .nextItem | .nextKey | .memberValue | .literal .. | .number _ => .value

def finish (s : State) : Except Reason Document :=
  match s.mode with
  | .done value => .ok value
  | .number numeral =>
    if !numeral.complete then .error (.endOfText .value)
    else match numeral.value with
      | .error reason => .error reason
      | .ok value =>
        match complete (.number value) s.frames with
        | ⟨.done value, _⟩ => .ok value
        | ⟨mode, _⟩ => .error (.endOfText (unfinished mode))
  | mode => .error (.endOfText (unfinished mode))

def run (s : State) (read : Nat) : List Char → Except Fault Document
  | [] => s.finish.mapError (⟨·, read⟩)
  | c :: rest =>
    match s.step c with
    | .ok next => next.run (read + c.utf8Size) rest
    | .error fault => .error ⟨fault.reason, read + fault.read⟩

end State

def parse (text : List Char) : Except SyntaxError Document :=
  (State.initial.run 0 text).mapError fun fault ↦
    ⟨fault.reason, fault.read, Source.positionAfter fault.read text⟩

end CppAst.Json
