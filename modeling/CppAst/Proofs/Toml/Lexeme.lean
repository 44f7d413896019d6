import CppAst.Toml.Lexeme

namespace CppAst.Toml

namespace Token

def IsQuote (c : Char) : Prop := c = '"' ∨ c = '\''

def Spells : Token → List Char → Prop
  | .dot, text => text = ['.']
  | .equals, text => text = ['=']
  | .comma, text => text = [',']
  | .openBracket, text => text = ['[']
  | .closeBracket, text => text = [']']
  | .openBrace, text => text = ['\x7b']
  | .closeBrace, text => text = ['\x7d']
  | .blank chars, text => text = chars ∧ chars ≠ [] ∧ ∀ c ∈ chars, Lexeme.isBlank c
  | .comment, text => ∃ chars, text = '#' :: chars
  | .newline, text => text = ['\n'] ∨ text = ['\r', '\n']
  | .string _, text => ∃ quote raw, IsQuote quote ∧ text = quote :: (raw ++ [quote])
  | .multilineString _, text => ∃ quote more, IsQuote quote ∧ text = quote :: more
  | .bare chars, text => text = chars ∧ chars ≠ [] ∧ ∀ c ∈ chars, ¬ Lexeme.isDelimiter c

/-- What may follow a token: text without quotes goes on up to a delimiter. -/
def Ends (rest : List Char) : Token → Prop
  | .bare _ => ∀ c ∈ rest.head?, Lexeme.isDelimiter c
  | _ => True

end Token

namespace Lexeme

variable {text rest : List Char} {token : Token} {quote c : Char} {escapes : Bool}

theorem readLine_spelling {raw : List Char} (h : readLine quote escapes text = some (raw, rest)) :
    text = raw ++ quote :: rest := by
  fun_induction readLine quote escapes text generalizing raw with
  | case1 | case3 | case4 => cases h
  | case2 => cases h; rfl
  | case5 _ _ _ _ _ _ ih | case6 _ _ _ _ _ ih =>
    obtain ⟨⟨raw, rest⟩, hi, he⟩ := Option.map_eq_some_iff.mp h
    cases he
    rw [ih hi]
    rfl

theorem readLines_suffix {raw : List Char} (h : readLines quote escapes text = some (raw, rest)) :
    rest <:+ text := by
  fun_induction readLines quote escapes text generalizing raw with
  | case1 | case3 => cases h
  | case2 c text =>
    cases h
    exact (List.drop_suffix _ _).trans (List.suffix_cons c text)
  | case4 c _ e text _ ih =>
    obtain ⟨⟨raw, rest⟩, hi, he⟩ := Option.map_eq_some_iff.mp h
    cases he
    exact (ih hi).trans ((List.suffix_cons e text).trans (List.suffix_cons c _))
  | case5 c text _ _ ih =>
    obtain ⟨⟨raw, rest⟩, hi, he⟩ := Option.map_eq_some_iff.mp h
    cases he
    exact (ih hi).trans (List.suffix_cons c text)

theorem afterNewline?_spelling (h : afterNewline? text = some rest) :
    text = '\n' :: rest ∨ text = '\r' :: '\n' :: rest := by
  unfold afterNewline? at h
  split at h
  · cases h
    exact .inl rfl
  · cases h
    exact .inr rfl
  · cases h

theorem afterNewline?_getD_suffix (text : List Char) : (afterNewline? text).getD text <:+ text := by
  cases h : afterNewline? text with
  | none => exact List.suffix_rfl
  | some rest =>
    rcases afterNewline?_spelling h with rfl | rfl
    · exact List.suffix_cons _ _
    · exact (List.suffix_cons _ _).trans (List.suffix_cons _ _)

theorem readString_spelling (hq : Token.IsQuote quote)
    (h : readString quote text = some (token, rest)) :
    ∃ consumed, quote :: text = consumed ++ rest ∧ token.Spells consumed ∧ token.Ends rest := by
  unfold readString at h
  dsimp only at h
  split at h
  · obtain ⟨⟨raw, rest⟩, hr, h⟩ := Option.bind_eq_some_iff.mp h
    obtain ⟨chars, -, h⟩ := Option.bind_eq_some_iff.mp h
    cases h
    obtain ⟨consumed, hc⟩ : rest <:+ text :=
      (readLines_suffix hr).trans ((afterNewline?_getD_suffix _).trans (List.drop_suffix 2 text))
    exact ⟨quote :: consumed, by rw [← hc]; rfl, ⟨quote, consumed, hq, rfl⟩, trivial⟩
  · obtain ⟨⟨raw, rest⟩, hr, h⟩ := Option.bind_eq_some_iff.mp h
    obtain ⟨chars, -, h⟩ := Option.bind_eq_some_iff.mp h
    cases h
    rw [readLine_spelling hr]
    exact ⟨quote :: (raw ++ [quote]), by simp, ⟨quote, raw, hq, rfl⟩, trivial⟩

theorem bare_spells (hc : ¬ isDelimiter c) (text : List Char) :
    (Token.bare (c :: text.takeWhile (!isDelimiter ·))).Spells
      (c :: text.takeWhile (!isDelimiter ·)) := by
  refine ⟨rfl, List.cons_ne_nil _ _, List.forall_mem_cons.mpr ⟨hc, fun d hd ↦ ?_⟩⟩
  simpa using List.all_eq_true.mp List.all_takeWhile d hd

theorem bare_ends {chars : List Char} (text : List Char) :
    (Token.bare chars).Ends (text.dropWhile (!isDelimiter ·)) := by
  intro d hd
  have hnot := List.head?_dropWhile_not (!isDelimiter ·) text
  rw [Option.mem_def.mp hd] at hnot
  simpa using hnot

theorem read_spelling (h : read text = some (token, rest)) :
    ∃ consumed, text = consumed ++ rest ∧ token.Spells consumed ∧ token.Ends rest := by
  unfold read at h
  split at h
  · cases h
  · next c text =>
    split at h
    all_goals try (cases h; exact ⟨_, rfl, rfl, trivial⟩)
    · cases h
      exact ⟨['\n'], rfl, .inl rfl, trivial⟩
    · obtain ⟨rest, hn, he⟩ := Option.map_eq_some_iff.mp h
      cases he
      rcases afterNewline?_spelling hn with hn | hn <;> cases hn
      exact ⟨['\r', '\n'], rfl, .inr rfl, trivial⟩
    · cases h
      exact ⟨'#' :: text.takeWhile isPrintable,
        by rw [List.cons_append, List.takeWhile_append_dropWhile], ⟨_, rfl⟩, trivial⟩
    · exact readString_spelling (.inl rfl) h
    · exact readString_spelling (.inr rfl) h
    · split at h
      · next hblank =>
        cases h
        refine ⟨c :: text.takeWhile isBlank, ?_, ⟨rfl, List.cons_ne_nil _ _, ?_⟩, trivial⟩
        · rw [List.cons_append, List.takeWhile_append_dropWhile]
        · exact List.forall_mem_cons.mpr ⟨hblank, List.all_eq_true.mp List.all_takeWhile⟩
      · next hblank =>
        cases h
        have hc : ¬ isDelimiter c := by simp_all [isDelimiter]
        refine ⟨_, ?_, bare_spells hc text, bare_ends text⟩
        rw [List.cons_append, List.takeWhile_append_dropWhile]

theorem ofText_cases {lexemes : List Lexeme} (h : ofText text = some lexemes) :
    text = [] ∧ lexemes = [] ∨ ∃ token consumed rest later, text = consumed ++ rest ∧
      token.Spells consumed ∧ token.Ends rest ∧ ofText rest = some later ∧
      lexemes = ⟨token, text, rest⟩ :: later := by
  rw [ofText] at h
  split at h
  · split at h
    · next he =>
      cases h
      exact .inl ⟨List.isEmpty_iff.mp he, rfl⟩
    · cases h
  · next token rest hread =>
    obtain ⟨later, hl, rfl⟩ := Option.map_eq_some_iff.mp h
    obtain ⟨consumed, ht, hs, he⟩ := read_spelling hread
    exact .inr ⟨token, consumed, rest, later, ht, hs, he, hl, rfl⟩

end Lexeme
end CppAst.Toml
