import CppAst.Proofs.Source.KeySearch
import CppAst.Proofs.Toml.Lexeme
import CppAst.Toml.Occurrence

namespace CppAst.Toml

open Text

variable {s : Outline} {text : List Char} {readings : List Reading}

inductive Reads : Outline → List Char → List Reading → Prop
  | nil (s : Outline) : Reads s [] []
  | cons {s next : Outline} {token : Token} {consumed rest : List Char} {later : List Reading} :
      token.Spells consumed → token.Ends rest → s.step token = some next →
      Reads next rest later →
      Reads s (consumed ++ rest) (⟨s, token, consumed ++ rest, rest⟩ :: later)

theorem reads_of_accepted {lexemes : List Lexeme} {last : Outline}
    (hl : Lexeme.ofText text = some lexemes)
    (h : (lexemes.map Lexeme.token).foldlM Outline.step s = some last) :
    Reads s text (Reading.run s lexemes) := by
  induction lexemes generalizing s text with
  | nil =>
    obtain ⟨rfl, -⟩ | ⟨_, _, _, _, _, _, _, _, he⟩ := Lexeme.ofText_cases hl
    · exact .nil s
    · cases he
  | cons lexeme lexemes ih =>
    obtain ⟨-, he⟩ | ⟨token, consumed, rest, later, rfl, hs, hend, hrest, he⟩ :=
      Lexeme.ofText_cases hl
    · cases he
    · cases he
      obtain ⟨next, hstep, h⟩ := Option.bind_eq_some_iff.mp h
      have hr := Reads.cons hs hend hstep (ih hrest h)
      rw [Reading.run]
      simpa only [hstep] using hr

theorem reads_of_isDocumentText (h : IsDocumentText text) :
    Reads .initial (afterMark text) (Reading.ofText text) := by
  obtain ⟨lexemes, last, hl, hlast, -⟩ := h
  rw [Reading.ofText]
  simpa only [hl] using reads_of_accepted hl hlast

namespace Reads

theorem stands {r : Reading} (h : Reads s text readings) (hr : r ∈ readings) :
    ∃ before consumed next later, text = before ++ r.lexeme.text ∧
      r.lexeme.text = consumed ++ r.lexeme.rest ∧ r.lexeme.token.Spells consumed ∧
      r.lexeme.token.Ends r.lexeme.rest ∧ r.state.step r.lexeme.token = some next ∧
      Reads next r.lexeme.rest later := by
  induction h with
  | nil => cases hr
  | @cons s next token consumed rest later hs hend hstep hrest ih =>
    rcases List.mem_cons.mp hr with rfl | hr
    · exact ⟨[], consumed, next, later, rfl, rfl, hs, hend, hstep, hrest⟩
    · obtain ⟨before, consumed', next', later', rfl, hplace⟩ := ih hr
      exact ⟨consumed ++ before, consumed', next', later', (List.append_assoc ..).symm, hplace⟩

theorem locate {before after : List Char} (h : Reads s text readings)
    (ht : text = before ++ after) (ha : after ≠ []) :
    ∃ r ∈ readings, ∃ outer left right, before = outer ++ left ∧ right ≠ [] ∧
      after = right ++ r.lexeme.rest ∧ r.lexeme.text = left ++ after := by
  induction h generalizing before with
  | nil => exact absurd (List.append_eq_nil_iff.mp ht.symm).2 ha
  | @cons s next token consumed rest later hs hend hstep hrest ih =>
    have hlater {before' : List Char} (hb : before = consumed ++ before')
        (ht : rest = before' ++ after) : ∃ r ∈ ⟨s, token, consumed ++ rest, rest⟩ :: later,
          ∃ outer left right, before = outer ++ left ∧ right ≠ [] ∧
            after = right ++ r.lexeme.rest ∧ r.lexeme.text = left ++ after := by
      obtain ⟨r, hr, outer, left, right, rfl, hplace⟩ := ih ht
      exact ⟨r, List.mem_cons_of_mem _ hr, consumed ++ outer, left, right,
        by rw [hb, List.append_assoc], hplace⟩
    rcases List.append_eq_append_iff.mp ht with ⟨before', hb, ht⟩ | ⟨right, hc, rfl⟩
    · exact hlater hb ht
    · by_cases hright : right = []
      · subst hright
        rw [List.append_nil] at hc
        exact @hlater [] (by rw [hc, List.append_nil]) rfl
      · exact ⟨_, List.mem_cons_self, [], before, right, rfl, hright, rfl, ht⟩

end Reads

theorem Lexeme.span_eq {whole before consumed : List Char} {l : Lexeme}
    (hw : whole = before ++ l.text) (hl : l.text = consumed ++ l.rest) :
    l.span whole = ⟨width before, width consumed⟩ := by
  rw [Lexeme.span, hw, hl, width_append, width_append, Nat.add_sub_cancel, Nat.add_sub_cancel]

namespace Reading

variable {r r' : Reading} {whole outer : List Char} {offset : Nat}

theorem covers_iff {before consumed : List Char} (hw : whole = before ++ r.lexeme.text)
    (hl : r.lexeme.text = consumed ++ r.lexeme.rest) :
    r.covers whole offset ↔ width before ≤ offset ∧ offset < width before + width consumed := by
  rw [covers, Lexeme.span_eq hw hl]
  simp

theorem le_of_covers (h : Reads s text readings) (hw : whole = outer ++ text) (hr : r ∈ readings)
    (hc : r.covers whole offset) : width outer ≤ offset := by
  obtain ⟨before, consumed, _, _, rfl, hl, -⟩ := h.stands hr
  rw [← List.append_assoc] at hw
  have hb := ((covers_iff hw hl).mp hc).1
  rw [width_append] at hb
  omega

theorem eq_of_covers (h : Reads s text readings) (hw : whole = outer ++ text) (hr : r ∈ readings)
    (hr' : r' ∈ readings) (hc : r.covers whole offset) (hc' : r'.covers whole offset) : r = r' := by
  induction h generalizing outer with
  | nil => cases hr
  | @cons s next token consumed rest later hs hend hstep hrest ih =>
    have hlater : whole = (outer ++ consumed) ++ rest := by rw [hw, List.append_assoc]
    -- The first lexeme ends where the later ones start.
    have hapart {r' : Reading} (hr' : r' ∈ later) (hc' : r'.covers whole offset)
        (hc : covers whole ⟨s, token, consumed ++ rest, rest⟩ offset) : False := by
      have hlt := ((covers_iff hw rfl).mp hc).2
      have hle := le_of_covers hrest hlater hr' hc'
      rw [width_append] at hle
      omega
    rcases List.mem_cons.mp hr with rfl | hr <;> rcases List.mem_cons.mp hr' with rfl | hr'
    · rfl
    · exact (hapart hr' hc' hc).elim
    · exact (hapart hr hc hc').elim
    · exact ih hlater hr hr'

end Reading

def AwaitsSign : Outline.Mode → Prop
  | .afterKey _ | .equals => True
  | _ => False

theorem isBlank_of_lexeme {c : Char} (h : Lexeme.isBlank c) : Text.isBlank c := by
  simp only [Lexeme.isBlank, Bool.or_eq_true, decide_eq_true_eq] at h
  rcases h with rfl | rfl <;> decide

theorem AwaitsSign.step_blank {next : Outline} {token : Token} (hm : AwaitsSign s.mode)
    (ht : token = .newline ∨ ∃ chars, token = .blank chars) (h : s.step token = some next) :
    AwaitsSign next.mode := by
  obtain ⟨mode, frames⟩ := s
  cases mode with
  | afterKey owner =>
    rcases ht with rfl | ⟨chars, rfl⟩
    · unfold Outline.step at h
      dsimp only at h
      split at h
      · cases h
        trivial
      · cases owner <;> cases frames <;> cases h
    · cases h
      trivial
  | equals => rcases ht with rfl | ⟨chars, rfl⟩ <;> cases h <;> trivial
  | _ => exact hm.elim

theorem AwaitsSign.step_bare {chars : List Char} (hm : AwaitsSign s.mode) :
    s.step (.bare chars) = none := by
  obtain ⟨mode, frames⟩ := s
  cases mode with
  | afterKey owner => cases owner <;> rfl
  | equals => rfl
  | _ => exact hm.elim

theorem Reads.no_colon (h : Reads s text readings) (hm : AwaitsSign s.mode) :
    (trimStart text).head? ≠ some ':' := by
  induction h with
  | nil => simp [trimStart]
  | @cons s next token consumed rest later hs hend hstep hrest ih =>
    have hsign {c : Char} {more : List Char} (hc : c ≠ ':' ∧ ¬ Text.isBlank c)
        (ht : consumed = c :: more) : (trimStart (consumed ++ rest)).head? ≠ some ':' := by
      rw [ht, List.cons_append, head?_trimStart hc.2]
      exact fun he ↦ hc.1 (Option.some_inj.mp he)
    have hquote {c : Char} {more : List Char} (hc : Token.IsQuote c) (ht : consumed = c :: more) :
        (trimStart (consumed ++ rest)).head? ≠ some ':' := by
      refine hsign ?_ ht
      rcases hc with rfl | rfl <;> decide
    cases token with
    | dot | equals | comma | openBracket | closeBracket | openBrace | closeBrace =>
      exact hsign (by decide) hs
    | comment =>
      obtain ⟨more, ht⟩ := hs
      exact hsign (by decide) ht
    | string chars =>
      obtain ⟨quote, raw, hq, ht⟩ := hs
      exact hquote hq ht
    | multilineString chars =>
      obtain ⟨quote, more, hq, ht⟩ := hs
      exact hquote hq ht
    | bare chars => rw [hm.step_bare] at hstep; cases hstep
    | blank chars =>
      obtain ⟨rfl, -, hb⟩ := hs
      rw [trimStart_blanks_append fun c hc ↦ isBlank_of_lexeme (hb c hc)]
      exact ih (hm.step_blank (.inr ⟨_, rfl⟩) hstep)
    | newline =>
      have hb : ∀ c ∈ consumed, Text.isBlank c := by
        rcases hs with rfl | rfl <;> exact List.all_eq_true.mp rfl
      rw [trimStart_blanks_append hb]
      exact ih (hm.step_blank (.inl rfl) hstep)

end CppAst.Toml
