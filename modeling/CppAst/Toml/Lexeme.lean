import CppAst.Source.Position

namespace CppAst.Toml

inductive Token where
  | dot
  | equals
  | comma
  | openBracket
  | closeBracket
  | openBrace
  | closeBrace
  | blank (chars : List Char)
  | comment
  | newline
  | string (chars : List Char)
  | multilineString (chars : List Char)
  | bare (chars : List Char)
deriving Repr, DecidableEq

structure Lexeme where
  token : Token
  text : List Char
  rest : List Char
deriving Repr, DecidableEq

namespace Lexeme

def span (whole : List Char) (l : Lexeme) : Source.Span :=
  ⟨Text.width whole - Text.width l.text, Text.width l.text - Text.width l.rest⟩

def isBlank (c : Char) : Bool := c = ' ' || c = '\t'

def isPrintable (c : Char) : Bool := c = '\t' || 0x20 ≤ c.toNat && c.toNat ≠ 0x7F

def isDelimiter (c : Char) : Bool :=
  isBlank c || c = '\n' || c = '\r' || c = '.' || c = '=' || c = ',' || c = '[' || c = ']' ||
    c = '\x7b' || c = '\x7d' || c = '#'

def afterNewline? : List Char → Option (List Char)
  | '\n' :: rest => some rest
  | '\r' :: '\n' :: rest => some rest
  | _ => none

def prepend (chars : List Char) :
    Option (List Char × List Char) → Option (List Char × List Char) :=
  Option.map fun (text, rest) ↦ (chars ++ text, rest)

def readLine (quote : Char) (escapes : Bool) : List Char → Option (List Char × List Char)
  | [] => none
  | c :: rest =>
    if c = quote then some ([], rest)
    else if c = '\n' then none
    else if c = '\\' && escapes then
      match rest with
      | [] => none
      | e :: rest => prepend [c, e] (readLine quote escapes rest)
    else prepend [c] (readLine quote escapes rest)

/-- The raw text of a string on several lines, up to its three closing quotes, and the text after
those. It may end with one or two quotes of its own. -/
def readLines (quote : Char) (escapes : Bool) : List Char → Option (List Char × List Char)
  | [] => none
  | c :: rest =>
    if c = quote && rest.take 2 = [quote, quote] then
      let own := (((rest.drop 2).take 2).takeWhile (· = quote)).length
      some (List.replicate own quote, rest.drop (2 + own))
    else if c = '\\' && escapes then
      match rest with
      | [] => none
      | e :: rest => prepend [c, e] (readLines quote escapes rest)
    else prepend [c] (readLines quote escapes rest)

def scalar? (digits : List Char) : Option Char := do
  let code ← digits.foldlM (fun n c ↦ return n * 16 + (← Text.hexDigit? c)) 0
  if code.isValidChar then some (.ofNat code) else none

def escaped? : Char → Option Char
  | 'b' => some '\x08'
  | 't' => some '\t'
  | 'n' => some '\n'
  | 'f' => some '\x0c'
  | 'r' => some '\r'
  | 'e' => some '\x1b'
  | '"' => some '"'
  | '\\' => some '\\'
  | _ => none

def endsLine (text : List Char) : Bool := (afterNewline? (text.dropWhile isBlank)).isSome

/-- The characters that the raw text of a string stands for. A backslash at the end of a line of a
string on several lines removes all white space up to the next character. -/
def unescape? (escapes multiline : Bool) : (trimming : Bool) → List Char → Option (List Char)
  | _, [] => some []
  | trimming, '\r' :: '\n' :: rest =>
    if !multiline then none
    else if trimming then unescape? escapes multiline true rest
    else ('\r' :: '\n' :: ·) <$> unescape? escapes multiline false rest
  | trimming, c :: rest =>
    if trimming && (isBlank c || c = '\n') then unescape? escapes multiline true rest
    else if c = '\n' then
      if multiline then (c :: ·) <$> unescape? escapes multiline false rest else none
    else if c = '\\' && escapes then
      if multiline && endsLine rest then unescape? escapes multiline true rest
      else match rest with
        | 'x' :: d₁ :: d₂ :: rest =>
          (· :: ·) <$> scalar? [d₁, d₂] <*> unescape? escapes multiline false rest
        | 'u' :: d₁ :: d₂ :: d₃ :: d₄ :: rest =>
          (· :: ·) <$> scalar? [d₁, d₂, d₃, d₄] <*> unescape? escapes multiline false rest
        | 'U' :: d₁ :: d₂ :: d₃ :: d₄ :: d₅ :: d₆ :: d₇ :: d₈ :: rest =>
          (· :: ·) <$> scalar? [d₁, d₂, d₃, d₄, d₅, d₆, d₇, d₈] <*>
            unescape? escapes multiline false rest
        | e :: rest => (· :: ·) <$> escaped? e <*> unescape? escapes multiline false rest
        | [] => none
    else if isPrintable c then (c :: ·) <$> unescape? escapes multiline false rest
    else none

def readString (quote : Char) (text : List Char) : Option (Token × List Char) :=
  let escapes := quote = '"'
  if text.take 2 = [quote, quote] then do
    let body := text.drop 2
    let (raw, rest) ← readLines quote escapes ((afterNewline? body).getD body)
    return (.multilineString (← unescape? escapes true false raw), rest)
  else do
    let (raw, rest) ← readLine quote escapes text
    return (.string (← unescape? escapes false false raw), rest)

def read : List Char → Option (Token × List Char)
  | [] => none
  | c :: rest =>
    match c with
    | '.' => some (.dot, rest)
    | '=' => some (.equals, rest)
    | ',' => some (.comma, rest)
    | '[' => some (.openBracket, rest)
    | ']' => some (.closeBracket, rest)
    | '\x7b' => some (.openBrace, rest)
    | '\x7d' => some (.closeBrace, rest)
    | '\n' => some (.newline, rest)
    | '\r' => (afterNewline? (c :: rest)).map (.newline, ·)
    | '#' => some (.comment, rest.dropWhile isPrintable)
    | '"' | '\'' => readString c rest
    | c =>
      if isBlank c then
        some (.blank (c :: rest.takeWhile isBlank), rest.dropWhile isBlank)
      else some (.bare (c :: rest.takeWhile (!isDelimiter ·)), rest.dropWhile (!isDelimiter ·))

theorem length_afterNewline?_lt {text rest : List Char} (h : afterNewline? text = some rest) :
    rest.length < text.length := by
  unfold afterNewline? at h
  split at h
  · cases h
    exact Nat.lt_succ_self _
  · cases h
    simp only [List.length_cons]
    omega
  · cases h

theorem length_readLine_lt {quote : Char} {escapes : Bool} {text : List Char}
    {result : List Char × List Char} (h : readLine quote escapes text = some result) :
    result.2.length < text.length := by
  fun_induction readLine quote escapes text generalizing result with
  | case1 => simp at h
  | case2 => simp at h; subst h; simp
  | case3 => simp at h
  | case4 => simp at h
  | case5 _ _ _ _ _ _ ih | case6 _ _ _ _ _ ih =>
    obtain ⟨inner, hi, rfl⟩ := Option.map_eq_some_iff.1 h
    have := ih hi
    simp only [List.length_cons] at *
    omega

theorem length_readLines_lt {quote : Char} {escapes : Bool} {text : List Char}
    {result : List Char × List Char} (h : readLines quote escapes text = some result) :
    result.2.length < text.length := by
  fun_induction readLines quote escapes text generalizing result with
  | case1 => simp at h
  | case2 =>
    simp only [Option.some.injEq] at h
    subst h
    simp only [List.length_drop, List.length_cons]
    omega
  | case3 => simp at h
  | case4 _ _ _ _ _ ih | case5 _ _ _ _ ih =>
    obtain ⟨inner, hi, rfl⟩ := Option.map_eq_some_iff.1 h
    have := ih hi
    simp only [List.length_cons] at *
    omega

theorem length_readString_lt {quote : Char} {text : List Char} {result : Token × List Char}
    (h : readString quote text = some result) : result.2.length < text.length := by
  unfold readString at h
  simp only [Option.pure_def, Option.bind_eq_bind] at h
  split at h
  · obtain ⟨raw, hr, hu⟩ := Option.bind_eq_some_iff.1 h
    obtain ⟨_, _, hs⟩ := Option.bind_eq_some_iff.1 hu
    cases hs
    have hd : (text.drop 2).length ≤ text.length := by simp
    cases hn : afterNewline? (text.drop 2) with
    | none =>
      rw [hn, Option.getD_none] at hr
      exact Nat.lt_of_lt_of_le (length_readLines_lt hr) hd
    | some body =>
      rw [hn, Option.getD_some] at hr
      have := length_readLines_lt hr
      have := length_afterNewline?_lt hn
      simp only at *
      omega
  · obtain ⟨raw, hr, hu⟩ := Option.bind_eq_some_iff.1 h
    obtain ⟨_, _, hs⟩ := Option.bind_eq_some_iff.1 hu
    cases hs
    exact length_readLine_lt hr

theorem length_dropWhile_le (p : Char → Bool) (text : List Char) :
    (text.dropWhile p).length ≤ text.length :=
  (List.dropWhile_sublist p).length_le

theorem length_read_lt {text : List Char} {result : Token × List Char}
    (h : read text = some result) : result.2.length < text.length := by
  unfold read at h
  split at h
  · cases h
  · rename_i c rest
    simp only [List.length_cons]
    split at h
    all_goals try (cases h; exact Nat.lt_succ_self _)
    · obtain ⟨_, hn, rfl⟩ := Option.map_eq_some_iff.1 h
      exact length_afterNewline?_lt hn
    · cases h
      exact Nat.lt_succ_of_le (length_dropWhile_le _ _)
    · exact Nat.lt_succ_of_lt (length_readString_lt h)
    · exact Nat.lt_succ_of_lt (length_readString_lt h)
    · split at h <;> cases h <;> exact Nat.lt_succ_of_le (length_dropWhile_le _ _)

def ofText (text : List Char) : Option (List Lexeme) :=
  match _h : read text with
  | none => if text.isEmpty then some [] else none
  | some (token, rest) => (⟨token, text, rest⟩ :: ·) <$> ofText rest
termination_by text.length
decreasing_by exact length_read_lt _h

end Lexeme

/-- A mark of the byte order at the start of a text says nothing. -/
def afterMark : List Char → List Char
  | '\uFEFF' :: rest => rest
  | text => text

end CppAst.Toml
