import CppAst.Text
import CppAst.Toml.Literal

namespace CppAst.Toml.Scalar

def digits? (base : Nat) (text : List Char) : Option Nat :=
  if text.isEmpty then none
  else text.foldlM (fun n c ↦ do
    let digit ← Text.hexDigit? c
    if digit < base then some (n * base + digit) else none) 0

/-- The text of a number without its underscores, which stand between two digits. -/
def ungrouped? (isDigit : Char → Bool) (text : List Char) : Option (List Char) :=
  match Text.splitOn '_' text with
  | first :: second :: rest =>
    let groups := first :: second :: rest
    let starts := groups.tail.all (·.head?.any isDigit)
    let ends := groups.dropLast.all (·.getLast?.any isDigit)
    if starts && ends then some groups.flatten else none
  | _ => some text

def sign : List Char → Bool × List Char
  | '-' :: rest => (true, rest)
  | '+' :: rest => (false, rest)
  | text => (false, text)

def signed (negative : Bool) (n : Nat) : Int := if negative then -n else n

def run (text : List Char) : List Char × List Char :=
  let start := text.takeWhile fun c ↦ c.isDigit || c = '_'
  (start.filter Char.isDigit, text.drop start.length)

def float? (negative : Bool) (text : List Char) : Option Decimal := do
  let (whole, rest) := run text
  if text.head? = some '0' && 1 < whole.length then none
  let (fraction, rest) ← match rest with
    | '.' :: rest => if (run rest).1.isEmpty then none else some (run rest)
    | rest => some ([], rest)
  let exponent : Int ← match rest with
    | [] => some 0
    | letter :: rest =>
      if letter = 'e' || letter = 'E' then
        let (negative, rest) := sign rest
        let (exponent, rest) := run rest
        if rest.isEmpty then (digits? 10 exponent).map (signed negative) else none
      else none
  if whole.isEmpty then none
  return ⟨signed negative (← digits? 10 (whole ++ fraction)), exponent - fraction.length⟩

def isLeapYear (year : Nat) : Bool := year % 4 = 0 && (year % 100 ≠ 0 || year % 400 = 0)

def daysIn (year month : Nat) : Nat :=
  match month with
  | 2 => if isLeapYear year then 29 else 28
  | 4 | 6 | 9 | 11 => 30
  | _ => 31

def date? (text : List Char) : Option Date :=
  match text with
  | [y₁, y₂, y₃, y₄, '-', m₁, m₂, '-', d₁, d₂] => do
    let year ← digits? 10 [y₁, y₂, y₃, y₄]
    let month ← digits? 10 [m₁, m₂]
    let day ← digits? 10 [d₁, d₂]
    if 1 ≤ month && month ≤ 12 && 1 ≤ day && day ≤ daysIn year month then
      some ⟨year, month, day⟩
    else none
  | _ => none

def clock? (text : List Char) : Option (Nat × Nat) :=
  match text with
  | [h₁, h₂, ':', m₁, m₂] => do
    let hour ← digits? 10 [h₁, h₂]
    let minute ← digits? 10 [m₁, m₂]
    if hour ≤ 23 && minute ≤ 59 then some (hour, minute) else none
  | _ => none

/-- The fraction of a second in nanoseconds. Later digits are dropped. -/
def nanoseconds? (text : List Char) : Option Nat :=
  if text.all Char.isDigit then
    digits? 10 (text.take 9) |>.map (· * Nat.pow 10 (9 - text.length))
  else none

/-- The seconds may be left out. -/
def time? (text : List Char) : Option Time := do
  let (hour, minute) ← clock? (text.take 5)
  match text.drop 5 with
  | [] => return ⟨hour, minute, 0, 0⟩
  | ':' :: s₁ :: s₂ :: fraction =>
    let second ← digits? 10 [s₁, s₂]
    if 60 < second then none
    match fraction with
    | [] => return ⟨hour, minute, second, 0⟩
    | '.' :: digits => return ⟨hour, minute, second, ← nanoseconds? digits⟩
    | _ => none
  | _ => none

def offsetTime? (text : List Char) : Option (Time × Option Offset) :=
  let (time, rest) := text.span (fun c ↦ c.isDigit || c = ':' || c = '.')
  do
    let time ← time? time
    match rest with
    | [] => return (time, none)
    | ['Z'] | ['z'] => return (time, some .zulu)
    | '-' :: clock =>
      let (hour, minute) ← clock? clock
      return (time, some (.minutes (-(hour * 60 + minute : Nat))))
    | '+' :: clock =>
      let (hour, minute) ← clock? clock
      return (time, some (.minutes (hour * 60 + minute : Nat)))
    | _ => none

def dateTime? (text : List Char) : Option DateTime :=
  match text.drop 10 with
  | [] => (DateTime.date <$> date? text) <|> (DateTime.time <$> time? text)
  | separator :: rest =>
    if separator = 'T' || separator = 't' || separator = ' ' then do
      let (time, offset) ← offsetTime? rest
      return .dateTime (← date? (text.take 10)) time offset
    else DateTime.time <$> time? text

def base? : Char → Option Nat
  | 'x' => some 16
  | 'o' => some 8
  | 'b' => some 2
  | _ => none

def isHexDigit (c : Char) : Bool := (Text.hexDigit? c).isSome

/-- A number, a date or a time. What follows the first digits decides which; `body` is the text
after its sign. -/
def number? (text body : List Char) : Option Literal :=
  let rest := body.dropWhile Char.isDigit
  if rest.head? = some '-' || rest.head? = some ':' then .dateTime <$> dateTime? text
  else if rest.contains ' ' then none
  else if rest.any fun c ↦ c = '.' || c = 'e' || c = 'E' then do
    let _ ← ungrouped? Char.isDigit text
    return .float (some (← float? (sign text).1 body))
  else if body.head? = some '0' && 1 < body.length then none
  else if rest.isEmpty || rest.head? = some '_' then .integer 10 <$> ungrouped? isHexDigit text
  else none

def literal? (text : List Char) : Option Literal :=
  let body := (sign text).2
  if text = ['t', 'r', 'u', 'e'] then some (.boolean true)
  else if text = ['f', 'a', 'l', 's', 'e'] then some (.boolean false)
  else if body = ['i', 'n', 'f'] || body = ['n', 'a', 'n'] then some (.float none)
  else match body with
    | [] => none
    | c :: rest =>
      match if c = '0' then rest.head?.bind base? else none with
      | some base =>
        let digits := rest.tail
        let isDigit (c : Char) : Bool := (Text.hexDigit? c).any (· < base)
        if body ≠ text || !digits.all (fun c ↦ isDigit c || c = '_') then none
        else .integer base <$> ungrouped? isHexDigit digits
      | none => if c.isDigit || c = '_' then number? text body else none

end CppAst.Toml.Scalar
