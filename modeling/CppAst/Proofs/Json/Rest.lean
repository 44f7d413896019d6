import CppAst.Json.Grammar

namespace CppAst.Json

open Lexeme State

/-- What may follow a value in the innermost of the open brackets, up to the end of the text. -/
def Closing : List Frame → List Lexeme → Prop
  | [], lexemes => ∃ b, IsBlank b ∧ lexemes = [.blank b]
  | .list _ :: outer, lexemes =>
    ∃ tail rest, Derives .listEnd tail ∧ Closing outer rest ∧ lexemes = tail ++ rest
  | .object _ :: outer, lexemes | .member _ _ :: outer, lexemes =>
    ∃ tail rest, Derives .objectEnd tail ∧ Closing outer rest ∧ lexemes = tail ++ rest

def Closes (frames : List Frame) (text : List Char) : Prop :=
  ∃ lexemes, Closing frames lexemes ∧ text = texts lexemes

def Awaits (phrase : Phrase) (frames : List Frame) (text : List Char) : Prop :=
  ∃ b lexemes rest, IsBlank b ∧ Derives phrase lexemes ∧ Closes frames rest ∧
    text = b ++ (texts lexemes ++ rest)

def AwaitsClose (c : Char) (outer : List Frame) (text : List Char) : Prop :=
  ∃ b rest, IsBlank b ∧ Closes outer rest ∧ text = b ++ c :: rest

def AwaitsColon (frames : List Frame) (text : List Char) : Prop :=
  ∃ b rest, IsBlank b ∧ Awaits .value frames rest ∧ text = b ++ ':' :: rest

/-- What the grammar allows to be left of a text. -/
def Expects (s : State) (text : List Char) : Prop :=
  match s.mode with
  | .document | .nextItem | .memberValue => Awaits .value s.frames text
  | .firstItem => AwaitsClose ']' s.frames.tail text ∨ Awaits .value s.frames text
  | .firstKey => AwaitsClose '\x7d' s.frames.tail text ∨ Awaits .member s.frames text
  | .nextKey => Awaits .member s.frames text
  | .colon _ => AwaitsColon s.frames text
  | .done _ | .afterItem | .afterMember => Closes s.frames text
  | .string isKey _ _ => ∃ chars rest, IsPlain chars ∧
    (if isKey then AwaitsColon s.frames rest else Closes s.frames rest) ∧
      text = chars ++ '"' :: rest
  | .literal chars _ => ∃ rest, Closes s.frames rest ∧ text = chars ++ rest
  | .number numeral => ∃ more rest, NumberEnd numeral.part more ∧ Closes s.frames rest ∧
    text = more ++ rest

def InList (frames : List Frame) : Prop := ∃ items outer, frames = .list items :: outer

def InObject (frames : List Frame) : Prop := ∃ members outer, frames = .object members :: outer

def Consistent (s : State) : Prop :=
  match s.mode with
  | .document | .done _ => s.frames = []
  | .firstItem | .nextItem | .afterItem => InList s.frames
  | .firstKey | .nextKey | .colon _ | .afterMember => InObject s.frames
  | .string isKey part _ => part = .plain ∧ (isKey → InObject s.frames)
  | .memberValue | .literal .. | .number _ => True

def AfterValue : Mode → Prop
  | .done _ | .afterItem | .afterMember => True
  | _ => False

def BetweenTokens : Mode → Prop
  | .string .. | .literal .. | .number _ => False
  | _ => True

/-- A step that keeps the state consistent and asks of the text no more than the grammar does. -/
structure Leads (expected : List Char → Prop) (c : Char) (next : State) : Prop where
  consistent : Consistent next
  expects : ∀ {text}, Expects next text → expected (c :: text)

section Texts

variable {phrase : Phrase} {frames outer : List Frame} {items : List Document}
  {members : List (String × Document)} {c : Char} {text : List Char}

theorem IsBlank.cons {b : List Char} (hc : isSpace c) (hb : IsBlank b) : IsBlank (c :: b) :=
  List.forall_mem_cons.mpr ⟨hc, hb⟩

theorem isBlank_nil : IsBlank [] := nofun

theorem texts_append (a b : List Lexeme) : texts (a ++ b) = texts a ++ texts b :=
  List.flatMap_append

theorem Derives.listEnd_blank (hc : isSpace c) {tail : List Lexeme} (h : Derives .listEnd tail) :
    ∃ tail', Derives .listEnd tail' ∧ texts tail' = c :: texts tail := by
  cases h with
  | lastItem hb => exact ⟨_, .lastItem (hb.cons hc), rfl⟩
  | nextItem hb hb' hi ht => exact ⟨_, .nextItem (hb.cons hc) hb' hi ht, rfl⟩

theorem Derives.objectEnd_blank (hc : isSpace c) {tail : List Lexeme}
    (h : Derives .objectEnd tail) :
    ∃ tail', Derives .objectEnd tail' ∧ texts tail' = c :: texts tail := by
  cases h with
  | lastMember hb => exact ⟨_, .lastMember (hb.cons hc), rfl⟩
  | nextMember hb hb' hm ht => exact ⟨_, .nextMember (hb.cons hc) hb' hm ht, rfl⟩

theorem Closes.nil : Closes [] [] := ⟨[.blank []], ⟨[], isBlank_nil, rfl⟩, rfl⟩

theorem closes_list : Closes (.list items :: outer) text ↔
    ∃ tail rest, Derives .listEnd tail ∧ Closes outer rest ∧ text = texts tail ++ rest := by
  constructor
  · rintro ⟨_, ⟨tail, rest, ht, hr, rfl⟩, rfl⟩
    exact ⟨tail, texts rest, ht, ⟨rest, hr, rfl⟩, texts_append tail rest⟩
  · rintro ⟨tail, _, ht, ⟨rest, hr, rfl⟩, rfl⟩
    exact ⟨_, ⟨tail, rest, ht, hr, rfl⟩, (texts_append tail rest).symm⟩

theorem closes_object : Closes (.object members :: outer) text ↔
    ∃ tail rest, Derives .objectEnd tail ∧ Closes outer rest ∧ text = texts tail ++ rest := by
  constructor
  · rintro ⟨_, ⟨tail, rest, ht, hr, rfl⟩, rfl⟩
    exact ⟨tail, texts rest, ht, ⟨rest, hr, rfl⟩, texts_append tail rest⟩
  · rintro ⟨tail, _, ht, ⟨rest, hr, rfl⟩, rfl⟩
    exact ⟨_, ⟨tail, rest, ht, hr, rfl⟩, (texts_append tail rest).symm⟩

theorem Closes.blank (hc : isSpace c) (h : Closes frames text) : Closes frames (c :: text) := by
  cases frames with
  | nil =>
    obtain ⟨_, ⟨b, hb, rfl⟩, rfl⟩ := h
    exact ⟨_, ⟨c :: b, hb.cons hc, rfl⟩, rfl⟩
  | cons frame outer =>
    cases frame with
    | list items =>
      obtain ⟨tail, rest, ht, hr, rfl⟩ := closes_list.mp h
      obtain ⟨tail', ht', he⟩ := ht.listEnd_blank hc
      exact closes_list.mpr ⟨tail', rest, ht', hr, by rw [he, List.cons_append]⟩
    | object members | member members key =>
      have h : Closes (.object members :: outer) text := h
      obtain ⟨tail, rest, ht, hr, rfl⟩ := closes_object.mp h
      obtain ⟨tail', ht', he⟩ := ht.objectEnd_blank hc
      have hb : Closes (.object members :: outer) (c :: (texts tail ++ rest)) :=
        closes_object.mpr ⟨tail', rest, ht', hr, by rw [he, List.cons_append]⟩
      exact hb

theorem Awaits.blank (hc : isSpace c) (h : Awaits phrase frames text) :
    Awaits phrase frames (c :: text) := by
  obtain ⟨b, lexemes, rest, hb, hl, hr, rfl⟩ := h
  exact ⟨c :: b, lexemes, rest, hb.cons hc, hl, hr, rfl⟩

theorem AwaitsClose.blank {close : Char} (hc : isSpace c) (h : AwaitsClose close outer text) :
    AwaitsClose close outer (c :: text) := by
  obtain ⟨b, rest, hb, hr, rfl⟩ := h
  exact ⟨c :: b, rest, hb.cons hc, hr, rfl⟩

theorem AwaitsColon.blank (hc : isSpace c) (h : AwaitsColon frames text) :
    AwaitsColon frames (c :: text) := by
  obtain ⟨b, rest, hb, hr, rfl⟩ := h
  exact ⟨c :: b, rest, hb.cons hc, hr, rfl⟩

theorem Awaits.of_derives {lexemes : List Lexeme} {rest : List Char} (hl : Derives phrase lexemes)
    (hr : Closes frames rest) : Awaits phrase frames (texts lexemes ++ rest) :=
  ⟨[], lexemes, rest, isBlank_nil, hl, hr, rfl⟩

theorem AwaitsClose.of_closes (close : Char) (h : Closes outer text) :
    AwaitsClose close outer (close :: text) := ⟨[], text, isBlank_nil, h, rfl⟩

theorem Closes.listEnd (h : Closes outer text) : Closes (.list items :: outer) (']' :: text) :=
  closes_list.mpr ⟨_, text, .lastItem isBlank_nil, h, rfl⟩

theorem Closes.objectEnd (h : Closes outer text) :
    Closes (.object members :: outer) ('\x7d' :: text) :=
  closes_object.mpr ⟨_, text, .lastMember isBlank_nil, h, rfl⟩

theorem Closes.nextItem (h : Awaits .value (.list items :: outer) text) :
    Closes (.list items :: outer) (',' :: text) := by
  obtain ⟨b, item, rest, hb, hi, hr, rfl⟩ := h
  obtain ⟨tail, rest', ht, hr', rfl⟩ := closes_list.mp hr
  refine closes_list.mpr ⟨_, rest', .nextItem isBlank_nil hb hi ht, hr', ?_⟩
  simp [texts, text]

theorem Closes.nextMember (h : Awaits .member (.object members :: outer) text) :
    Closes (.object members :: outer) (',' :: text) := by
  obtain ⟨b, member, rest, hb, hm, hr, rfl⟩ := h
  obtain ⟨tail, rest', ht, hr', rfl⟩ := closes_object.mp hr
  refine closes_object.mpr ⟨_, rest', .nextMember isBlank_nil hb hm ht, hr', ?_⟩
  simp [texts, text]

theorem Awaits.list (h : AwaitsClose ']' frames text ∨ Awaits .value (.list items :: frames) text) :
    Awaits .value frames ('[' :: text) := by
  rcases h with ⟨b, rest, hb, hr, rfl⟩ | ⟨b, item, rest, hb, hi, hr, rfl⟩
  · have h := Awaits.of_derives (.emptyList hb) hr
    simpa [texts, text] using h
  · obtain ⟨tail, rest', ht, hr', rfl⟩ := closes_list.mp hr
    have h := Awaits.of_derives (.list hb hi ht) hr'
    simpa [texts, text] using h

theorem Awaits.object
    (h : AwaitsClose '\x7d' frames text ∨ Awaits .member (.object members :: frames) text) :
    Awaits .value frames ('\x7b' :: text) := by
  rcases h with ⟨b, rest, hb, hr, rfl⟩ | ⟨b, member, rest, hb, hm, hr, rfl⟩
  · have h := Awaits.of_derives (.emptyObject hb) hr
    simpa [texts, text] using h
  · obtain ⟨tail, rest', ht, hr', rfl⟩ := closes_object.mp hr
    have h := Awaits.of_derives (.object hb hm ht) hr'
    simpa [texts, text] using h

theorem Awaits.member {chars rest : List Char} (hp : IsPlain chars)
    (h : AwaitsColon frames rest) : Awaits .member frames ('"' :: (chars ++ '"' :: rest)) := by
  obtain ⟨b, _, hb, ⟨b', value, rest, hb', hv, hr, rfl⟩, rfl⟩ := h
  have h := Awaits.of_derives (.member hp hb hb' hv) hr
  simpa [texts, text] using h

theorem Awaits.scalar {chars rest : List Char} (hs : IsScalar chars) (h : Closes frames rest) :
    Awaits .value frames (chars ++ rest) := by
  have h := Awaits.of_derives (.scalar hs) h
  simpa [texts, text] using h

theorem Awaits.string {chars rest : List Char} (hp : IsPlain chars) (h : Closes frames rest) :
    Awaits .value frames ('"' :: (chars ++ '"' :: rest)) := by
  have h := Awaits.of_derives (.string hp) h
  simpa [texts, text] using h

end Texts

end CppAst.Json
