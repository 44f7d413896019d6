import CppAst.Toml.Machine

namespace CppAst.Toml

def Frame.outline : Frame → Outline.Frame
  | .assignment _ => .assignment
  | .array _ => .array
  | .braces .. => .braces

def Mode.outline : Mode → Outline.Mode
  | .line => .line
  | .endOfLine => .endOfLine
  | .bracket => .bracket
  | .closing => .closing
  | .key owner _ => .key owner
  | .afterKey owner _ => .afterKey owner
  | .equals _ => .equals
  | .value => .value
  | .scalar _ => .scalar
  | .gap .. => .gap
  | .item => .item
  | .afterItem => .afterItem
  | .field => .field
  | .afterField => .afterField

namespace State

def outline (s : State) : Outline := ⟨s.mode.outline, s.frames.map Frame.outline⟩

variable {s next : State} {token : Token} {value : Literal} {owner : Owner} {path : List String}
  {chars : List Char}

theorem inBrackets_outline (s : State) : s.outline.inBrackets = s.inBrackets := by
  obtain ⟨mode, _ | ⟨_ | _ | _, outer⟩, statements⟩ := s <;> rfl

theorem complete_outline (h : s.complete value = some next) :
    s.outline.complete = some next.outline := by
  obtain ⟨mode, frames, statements⟩ := s
  cases frames with
  | nil => cases h
  | cons frame outer =>
    cases frame with
    | assignment path => cases h; rfl
    | array items => cases h; rfl
    | braces entries path =>
      obtain ⟨entries, -, h⟩ := Option.bind_eq_some_iff.mp h
      cases h
      rfl

theorem close_outline (h : s.close = some next) : s.outline.close = some next.outline := by
  obtain ⟨mode, frames, statements⟩ := s
  cases frames with
  | nil => cases h
  | cons frame outer =>
    cases frame with
    | assignment path => cases h
    | array items => exact complete_outline (s := ⟨mode, outer, statements⟩) h
    | braces entries path => exact complete_outline (s := ⟨mode, outer, statements⟩) h

theorem isKey_of_key? {key : String} (h : key? token = some key) : token.isKey := by
  cases token with
  | bare chars => exact (Option.ite_none_right_eq_some.mp h).1
  | string chars => rfl
  | _ => cases h

theorem readKey_outline {extend : String → List String}
    (h : (do return { s with mode := .afterKey owner (extend (← key? token)) }) = some next) :
    s.outline.readKey owner token = some next.outline := by
  obtain ⟨key, hk, h⟩ := Option.bind_eq_some_iff.mp h
  cases h
  exact if_pos (isKey_of_key? hk)

theorem endPath_outline (h : s.endPath owner path token = some next) :
    s.outline.endPath owner token = some next.outline := by
  obtain ⟨mode, frames, statements⟩ := s
  cases token with
  | equals =>
    cases owner with
    | line => cases h; rfl
    | braces =>
      obtain _ | ⟨_ | _ | _, outer⟩ := frames
      case cons.braces => cases h; rfl
      all_goals cases h
    | header | arrayHeader => cases h
  | closeBracket => cases owner <;> cases h <;> rfl
  | _ => cases h

theorem openFrame_outline {mode : Mode} {frame : Frame} (h : s.openFrame mode frame = some next) :
    next.outline = ⟨mode.outline, frame.outline :: s.outline.frames⟩ := by
  obtain ⟨-, h⟩ := Option.ite_none_right_eq_some.mp h
  cases h
  rfl

theorem startValue_outline (h : s.startValue token = some next) :
    s.outline.startValue token = some next.outline := by
  cases token with
  | string chars | multilineString chars => exact complete_outline h
  | openBracket | openBrace => rw [openFrame_outline h]; rfl
  | bare chars | dot => cases h; rfl
  | _ => cases h

theorem afterValue_outline (h : s.afterValue token = some next) :
    s.outline.afterValue token = some next.outline := by
  cases token with
  | newline =>
    have hstay (h : (if s.inBrackets then some s else none) = some next) :
        (if s.outline.inBrackets then some s.outline else none) = some next.outline := by
      obtain ⟨hin, h⟩ := Option.ite_none_right_eq_some.mp h
      cases h
      exact if_pos ((inBrackets_outline s).trans hin)
    obtain ⟨mode, frames, statements⟩ := s
    cases mode with
    | endOfLine => cases h; rfl
    | _ => exact hstay h
  | blank _ | comment =>
    obtain ⟨mode, frames, statements⟩ := s
    cases mode <;> cases h <;> rfl
  | comma =>
    obtain ⟨mode, frames, statements⟩ := s
    cases mode with
    | afterItem | afterField => cases h; rfl
    | _ => cases h
  | closeBracket =>
    obtain ⟨mode, frames, statements⟩ := s
    cases mode with
    | afterItem => exact close_outline h
    | _ => cases h
  | closeBrace =>
    obtain ⟨mode, frames, statements⟩ := s
    cases mode with
    | afterField => exact close_outline h
    | _ => cases h
  | _ =>
    obtain ⟨mode, frames, statements⟩ := s
    cases mode <;> cases h

theorem endScalar_outline (h : s.endScalar chars token = some next) :
    s.outline.endScalar token = some next.outline := by
  obtain ⟨value, -, h⟩ := Option.bind_eq_some_iff.mp h
  obtain ⟨complete, hc, h⟩ := Option.bind_eq_some_iff.mp h
  exact Option.bind_eq_some_iff.mpr ⟨_, complete_outline hc, afterValue_outline h⟩

theorem step_outline (h : s.step token = some next) :
    s.outline.step token = some next.outline := by
  have hkey {owner : Owner} (extend : String → List String) :=
    @readKey_outline s next token owner extend
  have hpath (owner : Owner) (path : List String) := @endPath_outline s next token owner path
  have hvalue := @startValue_outline s next token
  have hscalar (chars : List Char) := @endScalar_outline s next token chars
  obtain ⟨mode, frames, statements⟩ := s
  cases mode with
  | line =>
    cases token with
    | newline | blank _ | comment | openBracket => cases h; rfl
    | _ => exact hkey ([·]) h
  | bracket =>
    cases token with
    | blank _ | openBracket => cases h; rfl
    | _ => exact hkey ([·]) h
  | closing =>
    obtain ⟨rfl, h⟩ := Option.ite_none_right_eq_some.mp h
    cases h
    rfl
  | key owner path =>
    cases token with
    | blank _ => cases h; rfl
    | _ => exact hkey (· :: path) h
  | afterKey owner path =>
    cases token with
    | blank _ => cases h; rfl
    | dot =>
      obtain ⟨-, h⟩ := Option.ite_none_right_eq_some.mp h
      cases h
      rfl
    | newline | comment =>
      cases owner with
      | braces => cases h; rfl
      | _ => cases h
    | equals | closeBracket =>
      cases owner with
      | line => exact hpath .line path.reverse h
      | header => exact hpath .header path.reverse h
      | arrayHeader => exact hpath .arrayHeader path.reverse h
      | braces => exact hpath .braces path.reverse h
    | _ => cases owner <;> cases h
  | equals path =>
    cases token with
    | blank _ | newline | comment => cases h; rfl
    | _ => exact hpath .braces path h
  | value =>
    cases token with
    | blank _ => cases h; rfl
    | newline | comment => obtain _ | ⟨_ | _ | _, outer⟩ := frames <;> cases h <;> rfl
    | _ => obtain _ | ⟨_ | _ | _, outer⟩ := frames <;> exact hvalue h
  | scalar chars =>
    cases token with
    | bare _ | dot | blank _ => cases h; rfl
    | _ => exact hscalar chars h
  | gap chars blanks =>
    cases token with
    | bare _ => cases h; rfl
    | _ => exact hscalar chars h
  | item =>
    cases token with
    | blank _ | newline | comment => cases h; rfl
    | closeBracket => exact close_outline h
    | _ => exact hvalue h
  | field =>
    cases token with
    | blank _ | newline | comment => cases h; rfl
    | closeBrace => exact close_outline h
    | _ => exact hkey ([·]) h
  | endOfLine | afterItem | afterField => exact afterValue_outline h

theorem run_outline {tokens : List Token} (h : tokens.foldlM step s = some next) :
    tokens.foldlM Outline.step s.outline = some next.outline := by
  induction tokens generalizing s with
  | nil => cases h; rfl
  | cons token tokens ih =>
    obtain ⟨middle, hs, h⟩ := Option.bind_eq_some_iff.mp h
    exact Option.bind_eq_some_iff.mpr ⟨_, step_outline hs, ih h⟩

theorem isFinal_outline {statements : List Statement} (h : s.finish = some statements) :
    s.outline.isFinal := by
  obtain ⟨mode, frames, read⟩ := s
  cases mode with
  | line | endOfLine => rfl
  | scalar chars | gap chars blanks =>
    obtain ⟨value, -, h⟩ := Option.bind_eq_some_iff.mp h
    obtain ⟨⟨last, _, _⟩, hc, h⟩ := Option.bind_eq_some_iff.mp h
    have hcomplete := complete_outline hc
    simp only [State.outline, Mode.outline, Outline.isFinal] at hcomplete ⊢
    rw [hcomplete]
    cases last with
    | endOfLine => rfl
    | _ => cases h
  | _ => cases h

end State

theorem isDocumentText_of_parse {text : List Char} {table : List (String × Value)}
    (h : parse text = some table) : IsDocumentText text := by
  obtain ⟨lexemes, hl, h⟩ := Option.bind_eq_some_iff.mp h
  obtain ⟨last, hlast, h⟩ := Option.bind_eq_some_iff.mp h
  obtain ⟨statements, hfinish, -⟩ := Option.bind_eq_some_iff.mp h
  exact ⟨lexemes, _, hl, State.run_outline hlast, State.isFinal_outline hfinish⟩

end CppAst.Toml
