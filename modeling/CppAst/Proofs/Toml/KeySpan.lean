import CppAst.Proofs.Source.KeyMatch
import CppAst.Proofs.Toml.Reading

namespace CppAst.Toml

open Source Text

variable {text name before after : List Char} {r : Reading} {next : Outline}

theorem isKeyChar_ne {c d : Char} (hc : isKeyChar c) (hd : isKeyChar d = false) : c ≠ d := by
  rintro rfl
  rw [hd] at hc
  cases hc

theorem not_isDelimiter {c : Char} (h : isKeyChar c) : ¬ Lexeme.isDelimiter c := by
  have hne {d : Char} (hd : isKeyChar d = false) : c ≠ d := isKeyChar_ne h hd
  have hs : c ≠ ' ' ∧ c ≠ '\t' ∧ c ≠ '\n' ∧ c ≠ '\r' ∧ c ≠ '.' ∧ c ≠ '=' :=
    ⟨hne rfl, hne rfl, hne rfl, hne rfl, hne rfl, hne rfl⟩
  have hb : c ≠ ',' ∧ c ≠ '[' ∧ c ≠ ']' ∧ c ≠ '\x7b' ∧ c ≠ '\x7d' ∧ c ≠ '#' :=
    ⟨hne rfl, hne rfl, hne rfl, hne rfl, hne rfl, hne rfl⟩
  simp [Lexeme.isDelimiter, Lexeme.isBlank, hs, hb]

theorem isBareName_iff : isBareName name ↔ name ≠ [] ∧ ∀ c ∈ name, isKeyChar c := by
  simp [isBareName]

theorem fenced_before (h : LooksLikeKey before after) :
    ∀ c ∈ before.getLast?, isKeyChar c = false := by
  intro c hc
  rcases h with ⟨outer, rest, rfl, -⟩ | ⟨hb, -⟩
  · rw [List.getLast?_concat] at hc
    cases hc
    rfl
  · rcases hb c hc with rfl | rfl | rfl <;> rfl

theorem fenced_after (h : LooksLikeKey before after) :
    ∃ c rest, after = c :: rest ∧ isKeyChar c = false := by
  rcases h with ⟨outer, rest, -, rfl, -⟩ | ⟨-, c, rest, rfl, hc⟩
  · exact ⟨'"', rest, rfl, rfl⟩
  · refine ⟨c, rest, rfl, ?_⟩
    rcases hc with rfl | rfl | rfl | rfl <;> rfl

theorem afterMark_eq (text : List Char) :
    ∃ mark, (mark = [] ∨ mark = ['\uFEFF']) ∧ text = mark ++ afterMark text := by
  unfold afterMark
  split
  · exact ⟨_, .inr rfl, rfl⟩
  · exact ⟨[], .inl rfl, rfl⟩

/-- Where a key may come, nothing else without quotes can, and only a sign can come after it. -/
theorem step_of_expectsKey {token : Token} (hk : r.expectsKey)
    (ht : (∃ chars, token = .bare chars) ∨ ∃ chars, token = .string chars)
    (h : r.state.step token = some next) :
    token.isKey ∧ AwaitsSign next.mode := by
  obtain ⟨⟨mode, frames⟩, lexeme⟩ := r
  cases mode with
  | line | bracket | field | key owner =>
    rcases ht with ⟨chars, rfl⟩ | ⟨chars, rfl⟩
    · obtain ⟨hkey, h⟩ := Option.ite_none_right_eq_some.mp h
      cases h
      exact ⟨hkey, trivial⟩
    · cases h
      exact ⟨rfl, trivial⟩
  | _ => cases hk

theorem eq_of_fenced {chars outer left right rest : List Char} (hc : ∀ c ∈ chars, isKeyChar c)
    (hs : chars = left ++ right) (hend : (Token.bare chars).Ends rest)
    (hn : ∀ c ∈ name, isKeyChar c) (h : name ++ after = right ++ rest)
    (hf : LooksLikeKey (outer ++ left) after) :
    left = [] ∧ right = name := by
  subst hs
  constructor
  · rcases List.eq_nil_or_concat left with hl | ⟨start, c, rfl⟩
    · exact hl
    · have hlast : c ∈ (outer ++ start.concat c).getLast? := by simp
      have hnot := fenced_before hf c hlast
      rw [hc c (by simp)] at hnot
      cases hnot
  · obtain ⟨d, after, rfl, hd⟩ := fenced_after hf
    rcases List.append_eq_append_iff.mp h with ⟨more, rfl, he⟩ | ⟨more, rfl, rfl⟩
    · cases more with
      | nil => exact List.append_nil name
      | cons e more =>
        obtain ⟨rfl, -⟩ := List.cons.inj he
        rw [hc d (by simp)] at hd
        cases hd
    · cases more with
      | nil => exact (List.append_nil right).symm
      | cons e more => exact absurd (hend e rfl) (not_isDelimiter (hn e (by simp)))

theorem mem_keySpans {span : Span} :
    span ∈ keySpans text ↔
      ∃ r ∈ Reading.ofText text, r.isKey ∧ r.nameSpan text = span := by
  simp [keySpans, and_assoc]

theorem isKey_cases (h : r.isKey) : r.expectsKey ∧
    ((∃ chars, r.lexeme.token = .bare chars ∧ ∀ c ∈ chars, isKeyChar c) ∨
      ∃ chars, r.lexeme.token = .string chars) := by
  obtain ⟨hk, hkey⟩ := Bool.and_eq_true_iff.mp h
  refine ⟨hk, ?_⟩
  cases ht : r.lexeme.token with
  | bare chars =>
    rw [ht] at hkey
    exact .inl ⟨chars, rfl, List.all_eq_true.mp hkey⟩
  | string chars => exact .inr ⟨chars, rfl⟩
  | _ => rw [ht] at hkey; cases hkey

section Found

theorem width_quote {quote : Char} (hq : Token.IsQuote quote) : width [quote] = 1 := by
  rcases hq with rfl | rfl <;> rfl

theorem width_inQuotes {quote : Char} (hq : Token.IsQuote quote) (raw : List Char) :
    width (quote :: (raw ++ [quote])) = width raw + 2 := by
  have he : quote :: (raw ++ [quote]) = [quote] ++ (raw ++ [quote]) := rfl
  rw [he, width_append, width_append, width_quote hq]
  omega

/-- The name of a key in quotes is never found: no sign stands at a quote, and no colon comes after
the key. -/
theorem not_found_in_quotes {start rest raw : List Char} {quote : Char} {readings : List Reading}
    (hq : Token.IsQuote quote) (hm : AwaitsSign next.mode) (hr : Reads next rest readings)
    (ht : start ++ (quote :: (raw ++ [quote]) ++ rest) = before ++ (name ++ after))
    (hf : LooksLikeKey before after)
    (hb : width before = width start + 1) (hn : width name = width raw) : False := by
  have hsplit : (start ++ [quote]) ++ (raw ++ quote :: rest) = before ++ (name ++ after) := by
    rw [← ht]
    simp
  obtain ⟨rfl, hname⟩ := append_inj_of_width hsplit (by rw [width_append, width_quote hq, hb])
  obtain ⟨rfl, rfl⟩ := append_inj_of_width hname hn.symm
  rcases hf with ⟨outer, rest, -, he, hcolon⟩ | ⟨hsign, -⟩
  · obtain ⟨-, rfl⟩ := List.cons.inj he
    exact hr.no_colon hm hcolon
  · have hlast : quote ∈ (start ++ [quote]).getLast? := by simp
    rcases hq with rfl | rfl <;> simpa using hsign _ hlast

theorem bare_of_found (hp : IsDocumentText text) (ht : text = before ++ (name ++ after))
    (hf : LooksLikeKey before after)
    (h : ⟨width before, width name⟩ ∈ keySpans text) :
    isBareName name ∧
      ∀ r ∈ Reading.ofText text, r.covers text (width before) → r.isContent = false := by
  obtain ⟨r, hr, hkey, hspan⟩ := mem_keySpans.mp h
  have hreads := reads_of_isDocumentText hp
  obtain ⟨mark, -, hmark⟩ := afterMark_eq text
  obtain ⟨start, consumed, next, later, hstart, hl, hs, -, hstep, hrest⟩ := hreads.stands hr
  have hw : text = (mark ++ start) ++ r.lexeme.text := by
    rw [List.append_assoc, ← hstart]
    exact hmark
  have hlexeme := Lexeme.span_eq hw hl
  -- One text, split at the key and at what was found: their spans make the parts the same.
  have hsplit : (mark ++ start) ++ (consumed ++ r.lexeme.rest) = before ++ (name ++ after) := by
    rw [← hl, ← hw]
    exact ht
  obtain ⟨hk, ⟨chars, htoken, hc⟩ | ⟨chars, htoken⟩⟩ := isKey_cases hkey
  · rw [Reading.nameSpan, hlexeme, htoken] at hspan
    obtain ⟨hb, hn⟩ := Span.mk.inj hspan
    obtain ⟨rfl, hname⟩ := append_inj_of_width hsplit hb
    obtain ⟨rfl, -⟩ := append_inj_of_width hname hn
    rw [htoken] at hs
    obtain ⟨rfl, hne, -⟩ := hs
    refine ⟨isBareName_iff.mpr ⟨hne, hc⟩, fun r' hr' hc' ↦ ?_⟩
    have hpos : 0 < width consumed := Nat.pos_of_ne_zero (mt width_eq_zero.mp hne)
    have hcovers : r.covers text (width (mark ++ start)) :=
      (Reading.covers_iff hw hl).mpr ⟨Nat.le_refl _, Nat.lt_add_of_pos_right hpos⟩
    rw [← Reading.eq_of_covers hreads hmark hr hr' hcovers hc', Reading.isContent, htoken, hk]
    rfl
  · rw [htoken] at hs hstep
    obtain ⟨quote, raw, hq, rfl⟩ := hs
    rw [Reading.nameSpan, hlexeme, htoken] at hspan
    obtain ⟨hb, hn⟩ := Span.mk.inj hspan
    have hm := (step_of_expectsKey hk (.inr ⟨chars, rfl⟩) hstep).2
    rw [width_inQuotes hq, Nat.add_sub_cancel] at hn
    exact (not_found_in_quotes hq hm hrest hsplit hf hb.symm hn.symm).elim

theorem Token.Spells.eq_bare {token : Token} {consumed : List Char} {c : Char}
    (hs : token.Spells consumed) (hm : c ∈ consumed) (hc : isKeyChar c)
    (ht : (∃ chars, token = .string chars ∨ token = .multilineString chars) ∨ token = .comment →
      False) : token = .bare consumed := by
  have hnot (hd : ∀ d ∈ consumed, Lexeme.isDelimiter d) : False :=
    not_isDelimiter hc (hd c hm)
  cases token with
  | dot | equals | comma | openBracket | closeBracket | openBrace | closeBrace =>
    obtain rfl := hs
    exact (hnot (List.all_eq_true.mp rfl)).elim
  | newline => rcases hs with rfl | rfl <;> exact (hnot (List.all_eq_true.mp rfl)).elim
  | blank chars =>
    obtain ⟨rfl, -, hb⟩ := hs
    refine (hnot fun d hd ↦ ?_).elim
    rw [Lexeme.isDelimiter, hb d hd]
    rfl
  | comment => exact (ht (.inr rfl)).elim
  | string chars => exact (ht (.inl ⟨chars, .inl rfl⟩)).elim
  | multilineString chars => exact (ht (.inl ⟨chars, .inr rfl⟩)).elim
  | bare chars => rw [hs.1]

theorem found_after_mark (ht : text = before ++ (name ++ after)) (hn : isBareName name) :
    ∃ mark start, text = mark ++ afterMark text ∧ before = mark ++ start ∧
      afterMark text = start ++ (name ++ after) := by
  obtain ⟨hne, hc⟩ := isBareName_iff.mp hn
  obtain ⟨mark, hmark, hwhole⟩ := afterMark_eq text
  have hsplit : mark ++ afterMark text = before ++ (name ++ after) := hwhole.symm.trans ht
  rcases List.append_eq_append_iff.mp hsplit with ⟨start, hb, hs⟩ | ⟨start, hb, hs⟩
  · exact ⟨mark, start, hwhole, hb, hs⟩
  · cases start with
    | nil => exact ⟨mark, [], hwhole, by rw [hb, List.append_nil, List.append_nil], hs.symm⟩
    | cons d start =>
      obtain ⟨c, name, rfl⟩ := List.exists_cons_of_ne_nil hne
      obtain ⟨rfl, -⟩ := List.cons.inj hs
      have hm : c ∈ mark := hb ▸ List.mem_append_right before List.mem_cons_self
      have hkey := hc c List.mem_cons_self
      rcases hmark with rfl | rfl
      · cases hm
      · rw [List.mem_singleton.mp hm] at hkey
        cases hkey

theorem reading_of_found (hp : IsDocumentText text) (ht : text = before ++ (name ++ after))
    (hn : isBareName name) :
    ∃ r ∈ Reading.ofText text, ∃ outer left right next, before = outer ++ left ∧ right ≠ [] ∧
      text = outer ++ r.lexeme.text ∧ r.lexeme.text = (left ++ right) ++ r.lexeme.rest ∧
      name ++ after = right ++ r.lexeme.rest ∧ r.lexeme.token.Spells (left ++ right) ∧
      r.lexeme.token.Ends r.lexeme.rest ∧ r.state.step r.lexeme.token = some next := by
  obtain ⟨mark, start, hmark, rfl, hstart⟩ := found_after_mark ht hn
  have hne := (isBareName_iff.mp hn).1
  have hreads := reads_of_isDocumentText hp
  obtain ⟨r, hr, outer, left, right, rfl, hright, hafter, hl⟩ :=
    hreads.locate hstart (by simp [hne])
  obtain ⟨-, consumed, next, -, -, hconsumed, hs, hend, hstep, -⟩ := hreads.stands hr
  obtain rfl : consumed = left ++ right := by
    rw [hl, hafter, ← List.append_assoc] at hconsumed
    exact (List.append_cancel_right hconsumed).symm
  refine ⟨r, hr, mark ++ outer, left, right, next, by simp, hright, ?_, hconsumed, hafter, hs, hend,
    hstep⟩
  rw [hl, ht]
  simp

theorem found_of_bare (hp : IsDocumentText text) (ht : text = before ++ (name ++ after))
    (hf : LooksLikeKey before after) (hn : isBareName name)
    (hc : ∀ r ∈ Reading.ofText text, r.covers text (width before) → r.isContent = false) :
    ⟨width before, width name⟩ ∈ keySpans text := by
  obtain ⟨hne, hchars⟩ := isBareName_iff.mp hn
  obtain ⟨r, hr, outer, left, right, next, rfl, hright, hw, hl, hafter, hs, hend, hstep⟩ :=
    reading_of_found hp ht hn
  have hcovers : r.covers text (width (outer ++ left)) := by
    refine (Reading.covers_iff hw hl).mpr ?_
    have hpos : 0 < width right := Nat.pos_of_ne_zero (mt width_eq_zero.mp hright)
    simp only [width_append]
    omega
  have hcontent := hc r hr hcovers
  -- The first character of the name tells what the lexeme is.
  have htoken : r.lexeme.token = .bare (left ++ right) := by
    obtain ⟨c, right, rfl⟩ := List.exists_cons_of_ne_nil hright
    obtain ⟨d, name, rfl⟩ := List.exists_cons_of_ne_nil hne
    obtain ⟨rfl, -⟩ := List.cons.inj hafter
    refine hs.eq_bare (List.mem_append_right left List.mem_cons_self)
      (hchars d List.mem_cons_self) ?_
    rw [Reading.isContent] at hcontent
    rintro (⟨chars, h | h⟩ | h) <;> rw [h] at hcontent <;> cases hcontent
  have hk : r.expectsKey := by simpa [Reading.isContent, htoken] using hcontent
  have hkey := (step_of_expectsKey hk (.inl ⟨_, htoken⟩) hstep).1
  rw [htoken] at hkey hend
  obtain ⟨rfl, rfl⟩ := eq_of_fenced (List.all_eq_true.mp hkey) rfl hend hchars hafter hf
  refine mem_keySpans.mpr ⟨r, hr, ?_, ?_⟩
  · rw [Reading.isKey, hk, htoken, hkey]
    rfl
  · rw [Reading.nameSpan, Lexeme.span_eq hw hl, htoken, List.append_nil]
    rfl

end Found

end CppAst.Toml
