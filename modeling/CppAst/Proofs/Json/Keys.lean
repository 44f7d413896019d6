import CppAst.Proofs.Json.Soundness
import CppAst.Proofs.Source.KeySearch

namespace CppAst.Json

open Lexeme Source Text

theorem isBlank_of_isSpace {c : Char} (h : State.isSpace c) : Text.isBlank c := by
  simp only [State.isSpace, Bool.or_eq_true, decide_eq_true_eq] at h
  rcases h with ((rfl | rfl) | rfl) | rfl <;> decide

theorem IsBlank.trimStart {b : List Char} (h : IsBlank b) (rest : List Char) :
    trimStart (b ++ rest) = trimStart rest :=
  trimStart_blanks_append (fun c hc ↦ isBlank_of_isSpace (h c hc)) rest

theorem IsBlank.not_mem_quote {b : List Char} (h : IsBlank b) : '"' ∉ b := fun hq ↦
  absurd (h '"' hq) (by decide)

theorem IsBlank.fenced {b rest : List Char} (h : IsBlank b) (hf : Fenced rest) :
    Fenced (b ++ rest) := by
  have hq := h.not_mem_quote
  clear h
  induction b with
  | nil => exact hf
  | cons c b ih =>
    rw [List.mem_cons, not_or] at hq
    exact .inr (.inr ⟨Ne.symm hq.1, ih hq.2⟩)

theorem IsPlain.not_mem_quote {chars : List Char} (h : IsPlain chars) : '"' ∉ chars := fun hq ↦
  (h '"' hq).1 rfl

theorem NumberEnd.not_mem_quote {part : NumeralPart} {more : List Char} (h : NumberEnd part more) :
    '"' ∉ more := by
  have hdigit {c : Char} (hc : c.isDigit) : '"' ≠ c := by
    rintro rfl
    exact absurd hc (by decide)
  induction h with
  | zero | whole | fraction | exponent => exact List.not_mem_nil
  | signZero _ ih | zeroPoint _ ih | wholePoint _ ih =>
    exact List.not_mem_cons_of_ne_of_not_mem (by decide) ih
  | signDigit hc _ _ ih | wholeDigit hc _ ih | pointDigit hc _ ih | fractionDigit hc _ ih
  | exponentDigit _ hc _ ih =>
    exact List.not_mem_cons_of_ne_of_not_mem (hdigit hc) ih
  | exponentLetter _ hc _ ih =>
    refine List.not_mem_cons_of_ne_of_not_mem ?_ ih
    rcases hc with rfl | rfl <;> decide
  | letterSign hc _ ih =>
    refine List.not_mem_cons_of_ne_of_not_mem ?_ ih
    rcases hc with rfl | rfl <;> decide

theorem IsScalar.not_mem_quote {chars : List Char} (h : IsScalar chars) : '"' ∉ chars := by
  cases h with
  | null | true | false => decide
  | number h => exact h.not_mem_quote
  | negative h => exact List.not_mem_cons_of_ne_of_not_mem (by decide) h.not_mem_quote

/-- A text that may follow a value: no other string comes before a comma or a colon, and the colon
is not the first of what comes. -/
structure FollowsValue (text : List Char) : Prop where
  fenced : Fenced text
  noColon : (trimStart text).head? ≠ some ':'

theorem FollowsValue.blank {b rest : List Char} (hb : IsBlank b) (h : FollowsValue rest) :
    FollowsValue (b ++ rest) where
  fenced := hb.fenced h.fenced
  noColon := by
    rw [hb.trimStart]
    exact h.noColon

theorem FollowsValue.comma (rest : List Char) : FollowsValue (',' :: rest) where
  fenced := .inl rfl
  noColon := by
    rw [head?_trimStart (by decide)]
    exact fun h ↦ absurd (Option.some_inj.mp h) (by decide)

theorem FollowsValue.close {c : Char} {rest : List Char} (hc : c = ']' ∨ c = '\x7d')
    (h : FollowsValue rest) : FollowsValue (c :: rest) := by
  have hq : c ≠ '"' ∧ c ≠ ':' ∧ ¬ Text.isBlank c = true := by
    rcases hc with rfl | rfl <;> decide
  refine ⟨.inr (.inr ⟨hq.1, h.fenced⟩), ?_⟩
  rw [head?_trimStart hq.2.2]
  exact fun he ↦ hq.2.1 (Option.some_inj.mp he)

theorem FollowsValue.listEnd {tail : List Lexeme} (h : Derives .listEnd tail) {rest : List Lexeme}
    (hr : FollowsValue (texts rest)) : FollowsValue (texts (tail ++ rest)) := by
  cases h with
  | lastItem hb => exact .blank hb (.close (.inl rfl) hr)
  | nextItem hb _ _ _ => exact .blank hb (.comma _)

theorem FollowsValue.objectEnd {tail : List Lexeme} (h : Derives .objectEnd tail)
    {rest : List Lexeme} (hr : FollowsValue (texts rest)) :
    FollowsValue (texts (tail ++ rest)) := by
  cases h with
  | lastMember hb => exact .blank hb (.close (.inr rfl) hr)
  | nextMember hb _ _ _ => exact .blank hb (.comma _)

def Lexeme.Fits (rest : List Char) : Lexeme → Prop
  | string chars => '"' ∉ chars ∧ FollowsValue rest
  | key chars => '"' ∉ chars ∧ Fenced rest ∧ (trimStart rest).head? = some ':'
  | lexeme => '"' ∉ lexeme.text

def Orderly : List Lexeme → Prop
  | [] => True
  | lexeme :: rest => lexeme.Fits (texts rest) ∧ Orderly rest

theorem Derives.orderly {phrase : Phrase} {lexemes : List Lexeme} (h : Derives phrase lexemes) :
    ∀ {rest : List Lexeme}, Orderly rest → FollowsValue (texts rest) →
      Orderly (lexemes ++ rest) := by
  have hmark {c : Char} (hc : c ≠ '"') : '"' ∉ (mark c).text := by simpa [text] using Ne.symm hc
  -- An item or a member, with what follows it in its brackets and behind them.
  have hinner {first tail rest : List Lexeme}
      (hfirst : ∀ {rest}, Orderly rest → FollowsValue (texts rest) → Orderly (first ++ rest))
      (ht : Orderly (tail ++ rest)) (hf : FollowsValue (texts (tail ++ rest))) :
      Orderly (first ++ tail ++ rest) := by
    rw [List.append_assoc]
    exact hfirst ht hf
  induction h with
  | scalar hs => exact fun hr _ ↦ ⟨hs.not_mem_quote, hr⟩
  | string hp => exact fun hr hf ↦ ⟨⟨hp.not_mem_quote, hf⟩, hr⟩
  | emptyList hb | emptyObject hb =>
    exact fun hr _ ↦ ⟨hmark (by decide), hb.not_mem_quote, hmark (by decide), hr⟩
  | lastItem hb | lastMember hb => exact fun hr _ ↦ ⟨hb.not_mem_quote, hmark (by decide), hr⟩
  | list hb _ ht ihi iht =>
    exact fun hr hf ↦
      ⟨hmark (by decide), hb.not_mem_quote, hinner ihi (iht hr hf) (.listEnd ht hf)⟩
  | object hb _ ht ihm iht =>
    exact fun hr hf ↦
      ⟨hmark (by decide), hb.not_mem_quote, hinner ihm (iht hr hf) (.objectEnd ht hf)⟩
  | nextItem hb hb' _ ht ihi iht =>
    exact fun hr hf ↦ ⟨hb.not_mem_quote, hmark (by decide), hb'.not_mem_quote,
      hinner ihi (iht hr hf) (.listEnd ht hf)⟩
  | nextMember hb hb' _ ht ihm iht =>
    exact fun hr hf ↦ ⟨hb.not_mem_quote, hmark (by decide), hb'.not_mem_quote,
      hinner ihm (iht hr hf) (.objectEnd ht hf)⟩
  | @member chars b b' value hp hb hb' hv ih =>
    intro rest hr hf
    refine ⟨⟨hp.not_mem_quote, hb.fenced (.inr (.inl rfl)), ?_⟩, hb.not_mem_quote,
      hmark (by decide), hb'.not_mem_quote, ih hr hf⟩
    have ht : trimStart (b ++ texts (mark ':' :: blank b' :: (value ++ rest))) = _ :=
      hb.trimStart _
    exact (congrArg List.head? ht).trans rfl

theorem IsText.orderly {lexemes : List Lexeme} (h : IsText lexemes) : Orderly lexemes := by
  obtain ⟨b, value, b', hb, hv, hb', rfl⟩ := h
  have hend : FollowsValue (texts [blank b']) := by
    have hnil : FollowsValue [] := ⟨trivial, nofun⟩
    exact .blank hb' hnil
  exact ⟨hb.not_mem_quote, hv.orderly ⟨hb'.not_mem_quote, trivial⟩ hend⟩

variable {name : List Char} {lexemes rest : List Lexeme}

theorem findQuoted?_lexeme {lexeme : Lexeme} (hn : ∀ c ∈ name, c ≠ '"' ∧ c ≠ ',' ∧ c ≠ ':')
    (h : lexeme.Fits (texts rest)) (hne : lexeme ≠ .key name) :
    findQuoted? (inQuotes name) 0 (lexeme.text ++ texts rest) =
      (findQuoted? (inQuotes name) 0 (texts rest)).map (width lexeme.text + ·) := by
  cases lexeme with
  | blank chars | mark c | scalar chars => exact findQuoted?_unquoted h (texts rest)
  | string chars =>
    by_cases he : chars = name
    · subst he
      exact (findQuoted?_occurrence _).trans (if_neg h.2.noColon)
    · exact findQuoted?_other hn h.1 he h.2.fenced
  | key chars => exact findQuoted?_other hn h.1 (fun he ↦ hne (he ▸ rfl)) h.2.1

/-- The search passes over what is not the key it looks for. -/
theorem findQuoted?_texts {before after : List Lexeme}
    (hn : ∀ c ∈ name, c ≠ '"' ∧ c ≠ ',' ∧ c ≠ ':')
    (h : Orderly (before ++ .key name :: after)) (hb : .key name ∉ before) :
    findQuoted? (inQuotes name) 0 (texts (before ++ .key name :: after)) =
      some (width (texts before)) := by
  induction before with
  | nil => exact (findQuoted?_occurrence _).trans (if_pos h.1.2.2)
  | cons lexeme before ih =>
    rw [List.mem_cons, not_or] at hb
    have hl : findQuoted? (inQuotes name) 0 (texts (lexeme :: (before ++ .key name :: after))) =
        (findQuoted? (inQuotes name) 0 (texts (before ++ .key name :: after))).map
          (width lexeme.text + ·) := findQuoted?_lexeme hn h.1 (Ne.symm hb.1)
    have ht : texts (lexeme :: before) = lexeme.text ++ texts before := rfl
    rw [List.cons_append, hl, ih h.2 hb.2, Option.map_some, ht, width_append]

/-- In a JSON text without a backslash, by the grammar and by what the machine reads, a name that is
a key is found at the first such key. -/
theorem first_key_found :
    (∀ lexemes name, IsText lexemes → (∀ c ∈ name, c ≠ '"' ∧ c ≠ ',' ∧ c ≠ ':') →
      .key name ∈ lexemes → ∃ before after, lexemes = before ++ .key name :: after ∧
        .key name ∉ before ∧
        findKey? (texts lexemes) name = some ⟨width (texts before) + 1, width name⟩) ∧
    ∀ text document, '\\' ∉ text → parse text = .ok document →
      ∃ lexemes, IsText lexemes ∧ texts lexemes = text := by
  refine ⟨?_, fun _ _ hb h ↦ isText_of_parse hb h⟩
  intro lexemes name h hn hm
  obtain ⟨before, after, rfl, hb⟩ := List.eq_append_cons_of_mem hm
  have hf := findQuoted?_texts hn h.orderly hb
  refine ⟨before, after, rfl, hb, ?_⟩
  unfold inQuotes at hf
  rw [findKey?, List.cons_append, hf]
  rfl

def nameAsValue : List Lexeme :=
  [blank [], mark '\x7b', blank [], key "kind".toList, blank [], mark ':', blank [' '],
    string "Expr".toList, blank [], mark ',', blank [' '], key "Expr".toList, blank [], mark ':',
    blank [' '], mark '\x7b', blank [], key "lit".toList, blank [], mark ':', blank [' '],
    scalar ['n', 'u', 'l', 'l'], blank [], mark '\x7d', blank [], mark '\x7d', blank []]

theorem nameAsValue_isText : IsText nameAsValue := by
  have hnil : IsBlank [] := isBlank_nil
  have hspace : IsBlank [' '] := hnil.cons rfl
  have hplain : IsPlain "Expr".toList := by simp [IsPlain]
  have hlit : IsPlain "lit".toList := by simp [IsPlain]
  have hkind : IsPlain "kind".toList := by simp [IsPlain]
  have hinner := Derives.object hnil (.member hlit hnil hspace (.scalar .null)) (.lastMember hnil)
  have hvalue := Derives.object hnil (.member hkind hnil hspace (.string hplain))
    (.nextMember hnil hspace (.member hplain hnil hspace hinner) (.lastMember hnil))
  exact ⟨[], _, [], hnil, hvalue, hnil, rfl⟩

theorem first_key_found_in_nameAsValue :
    (∃ before after, nameAsValue = before ++ .key "Expr".toList :: after ∧
      .key "Expr".toList ∉ before ∧ findKey? (texts nameAsValue) "Expr".toList =
        some ⟨width (texts before) + 1, width "Expr".toList⟩) ∧
    ∃ lexemes, IsText lexemes ∧ texts lexemes = texts nameAsValue :=
  ⟨first_key_found.1 nameAsValue "Expr".toList nameAsValue_isText (by simp) (by decide),
    first_key_found.2 (texts nameAsValue) _ (by decide) rfl⟩

example : findKey? (texts nameAsValue) "Expr".toList = some ⟨18, 4⟩ := by decide

end CppAst.Json
