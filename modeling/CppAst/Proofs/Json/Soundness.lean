import CppAst.Proofs.Json.Numeral
import CppAst.Proofs.Json.Rest
import CppAst.Proofs.Outcome

namespace CppAst.Json

open Lexeme State Outcome

section Steps

variable {frames outer : List Frame} {items : List Document} {members : List (String × Document)}
  {s next : State} {c : Char} {text : List Char}

theorem Leads.mono {p q : List Char → Prop} (h : Leads p c next) (hpq : ∀ {text}, p text → q text) :
    Leads q c next := ⟨h.consistent, fun ht ↦ hpq (h.expects ht)⟩

theorem complete_consistent (value : Document) : Consistent (complete value frames) :=
  match frames with
  | [] => rfl
  | .list _ :: outer => ⟨_, outer, rfl⟩
  | .object _ :: outer | .member _ _ :: outer => ⟨_, outer, rfl⟩

theorem Expects.closes_of_complete {value : Document} (h : Expects (complete value frames) text) :
    Closes (complete value frames).frames text :=
  match frames with
  | [] | .list _ :: _ | .object _ :: _ | .member _ _ :: _ => h

theorem closes_complete {value : Document} (h : Closes (complete value frames).frames text) :
    Closes frames text :=
  match frames with
  | [] | .list _ :: _ | .object _ :: _ | .member _ _ :: _ => h

theorem Expects.closes {value : Document} (h : Expects (complete value frames) text) :
    Closes frames text := closes_complete h.closes_of_complete

theorem closeList_leads : Leads (AwaitsClose ']' outer) ']' (close (.list items :: outer)) where
  consistent := complete_consistent _
  expects h := .of_closes ']' (Expects.closes h)

theorem closeObject_leads :
    Leads (AwaitsClose '\x7d' outer) '\x7d' (close (.object members :: outer)) where
  consistent := complete_consistent _
  expects h := .of_closes '\x7d' (Expects.closes h)

theorem key_leads (hf : InObject frames) :
    Leads (Awaits .member frames) '"' ⟨.string true .plain [], frames⟩ where
  consistent := ⟨rfl, fun _ ↦ hf⟩
  expects := by
    rintro text ⟨chars, rest, hp, hr, rfl⟩
    exact .member hp hr

theorem openBracket_ok {mode : Mode} {frame : Frame}
    (h : openBracket frames mode frame = .ok next) : next = ⟨mode, frame :: frames⟩ := by
  unfold openBracket at h
  split at h
  · exact (Except.ok.inj h).symm
  · cases h

theorem startValue_leads (h : startValue frames c = .ok next) :
    Leads (Awaits .value frames) c next := by
  unfold startValue at h
  split at h
  · cases h
    refine ⟨⟨rfl, nofun⟩, ?_⟩
    rintro text ⟨chars, rest, hp, hr, rfl⟩
    exact .string hp hr
  · cases openBracket_ok h
    exact ⟨⟨_, _, rfl⟩, .list⟩
  · cases openBracket_ok h
    exact ⟨⟨_, _, rfl⟩, .object⟩
  · cases h
    refine ⟨trivial, ?_⟩
    rintro text ⟨rest, hr, rfl⟩
    exact .scalar .true hr
  · cases h
    refine ⟨trivial, ?_⟩
    rintro text ⟨rest, hr, rfl⟩
    exact .scalar .false hr
  · cases h
    refine ⟨trivial, ?_⟩
    rintro text ⟨rest, hr, rfl⟩
    exact .scalar .null hr
  · split at h
    · next hs =>
      cases h
      refine ⟨trivial, ?_⟩
      rintro text ⟨more, rest, hm, hr, rfl⟩
      exact .scalar (start?_isScalar hs hm) hr
    · cases h

theorem Expects.blank (hm : BetweenTokens s.mode) (hc : isSpace c) (h : Expects s text) :
    Expects s (c :: text) := by
  obtain ⟨mode, frames⟩ := s
  cases mode with
  | document | nextItem | memberValue | nextKey => exact Awaits.blank hc h
  | firstItem | firstKey => exact Or.imp (AwaitsClose.blank hc) (Awaits.blank hc) h
  | colon key => exact AwaitsColon.blank hc h
  | done value | afterItem | afterMember => exact Closes.blank hc h
  | string | literal | number => exact hm.elim

theorem blank_leads (hs : Consistent s) (hm : BetweenTokens s.mode) (hc : isSpace c) :
    Leads (Expects s) c s := ⟨hs, .blank hm hc⟩

theorem afterItem_leads (hc : ¬ isSpace c)
    (h : afterValue ⟨.afterItem, .list items :: outer⟩ c = .ok next) :
    Leads (Closes (.list items :: outer)) c next := by
  rw [afterValue, if_neg hc] at h
  by_cases hcomma : c = ','
  · subst hcomma
    cases h
    exact ⟨⟨_, _, rfl⟩, .nextItem⟩
  · by_cases hclose : c = ']'
    · subst hclose
      cases h
      exact ⟨complete_consistent _, fun ht ↦ .listEnd (Expects.closes ht)⟩
    · simp [hcomma, hclose] at h

theorem afterMember_leads (hc : ¬ isSpace c)
    (h : afterValue ⟨.afterMember, .object members :: outer⟩ c = .ok next) :
    Leads (Closes (.object members :: outer)) c next := by
  rw [afterValue, if_neg hc] at h
  by_cases hcomma : c = ','
  · subst hcomma
    cases h
    exact ⟨⟨_, _, rfl⟩, .nextMember⟩
  · by_cases hclose : c = '\x7d'
    · subst hclose
      cases h
      exact ⟨complete_consistent _, fun ht ↦ .objectEnd (Expects.closes ht)⟩
    · simp [hcomma, hclose] at h

theorem not_afterDone {value : Document} (hc : ¬ isSpace c) :
    afterValue ⟨.done value, frames⟩ c ≠ .ok next := by
  rw [afterValue, if_neg hc]
  exact nofun

theorem AfterValue.betweenTokens {mode : Mode} (h : AfterValue mode) : BetweenTokens mode := by
  cases mode <;> first | exact h.elim | trivial

theorem afterValue_leads (hs : Consistent s) (hm : AfterValue s.mode)
    (h : s.afterValue c = .ok next) : Leads (Expects s) c next := by
  by_cases hc : isSpace c
  · rw [afterValue, if_pos hc] at h
    cases h
    exact blank_leads hs hm.betweenTokens hc
  · obtain ⟨mode, frames⟩ := s
    cases mode with
    | done value => exact absurd h (not_afterDone hc)
    | afterItem =>
      obtain ⟨items, outer, rfl⟩ := hs
      exact afterItem_leads hc h
    | afterMember =>
      obtain ⟨members, outer, rfl⟩ := hs
      exact afterMember_leads hc h
    | _ => exact hm.elim

theorem afterComplete_leads {value : Document}
    (h : (complete value frames).afterValue c = .ok next) : Leads (Closes frames) c next := by
  have hm : AfterValue (complete value frames).mode :=
    match frames with
    | [] | .list _ :: _ | .object _ :: _ | .member _ _ :: _ => trivial
  exact (afterValue_leads (complete_consistent value) hm h).mono Expects.closes

theorem firstItem_leads (hc : ¬ isSpace c)
    (h : betweenTokens ⟨.firstItem, .list items :: outer⟩ c = .ok next) :
    Leads (Expects ⟨.firstItem, .list items :: outer⟩) c next := by
  rw [betweenTokens, if_neg hc] at h
  by_cases hclose : c = ']'
  · subst hclose
    cases h
    exact closeList_leads.mono .inl
  · simp only [hclose, if_false] at h
    exact (startValue_leads h).mono .inr

theorem nextItem_leads (hc : ¬ isSpace c)
    (h : betweenTokens ⟨.nextItem, frames⟩ c = .ok next) :
    Leads (Expects ⟨.nextItem, frames⟩) c next := by
  rw [betweenTokens, if_neg hc] at h
  by_cases hclose : c = ']'
  · simp [hclose] at h
  · simp only [hclose, if_false] at h
    exact startValue_leads h

theorem firstKey_leads (hc : ¬ isSpace c)
    (h : betweenTokens ⟨.firstKey, .object members :: outer⟩ c = .ok next) :
    Leads (Expects ⟨.firstKey, .object members :: outer⟩) c next := by
  rw [betweenTokens, if_neg hc] at h
  by_cases hclose : c = '\x7d'
  · subst hclose
    cases h
    exact closeObject_leads.mono .inl
  · by_cases hquote : c = '"'
    · subst hquote
      cases h
      exact (key_leads ⟨_, _, rfl⟩).mono .inr
    · simp [hclose, hquote] at h

theorem nextKey_leads (hf : InObject frames) (hc : ¬ isSpace c)
    (h : betweenTokens ⟨.nextKey, frames⟩ c = .ok next) :
    Leads (Expects ⟨.nextKey, frames⟩) c next := by
  rw [betweenTokens, if_neg hc] at h
  by_cases hquote : c = '"'
  · subst hquote
    cases h
    exact key_leads hf
  · by_cases hclose : c = '\x7d' <;> simp [hclose, hquote] at h

theorem colon_leads {key : String} (hc : ¬ isSpace c)
    (h : betweenTokens ⟨.colon key, .object members :: outer⟩ c = .ok next) :
    Leads (Expects ⟨.colon key, .object members :: outer⟩) c next := by
  rw [betweenTokens, if_neg hc] at h
  by_cases hcolon : c = ':'
  · subst hcolon
    cases h
    exact ⟨trivial, fun {text} ht ↦ ⟨[], text, isBlank_nil, ht, rfl⟩⟩
  · simp [hcolon] at h

theorem literal_leads {expected : Char} {rest : List Char} {value : Document}
    (h : step ⟨.literal (expected :: rest) value, frames⟩ c = .ok next) :
    Leads (Expects ⟨.literal (expected :: rest) value, frames⟩) c next := by
  by_cases hc : c = expected
  · subst hc
    cases rest with
    | nil =>
      simp only [step, ne_eq, not_true_eq_false, if_false, List.isEmpty_nil, if_true] at h
      cases h
      exact ⟨complete_consistent value, fun {text} ht ↦ ⟨text, Expects.closes ht, rfl⟩⟩
    | cons d rest =>
      simp only [step, ne_eq, not_true_eq_false, if_false, List.isEmpty_cons] at h
      cases h
      refine ⟨trivial, ?_⟩
      rintro text ⟨rest, hr, rfl⟩
      exact ⟨rest, hr, rfl⟩
  · simp [step, hc] at h

theorem closeString_leads {isKey : Bool} {chars : List Char}
    (hf : isKey → InObject frames) (h : inString ⟨.string isKey .plain chars, frames⟩ isKey chars
      '"' .plain = .ok next) : Leads (Expects ⟨.string isKey .plain chars, frames⟩) '"' next := by
  cases isKey with
  | true =>
    cases h
    exact ⟨hf rfl, fun {text} ht ↦ ⟨[], text, nofun, ht, rfl⟩⟩
  | false =>
    cases h
    exact ⟨complete_consistent _, fun {text} ht ↦ ⟨[], text, nofun, Expects.closes ht, rfl⟩⟩

theorem string_leads {isKey : Bool} {chars : List Char} (hb : c ≠ '\\')
    (hf : isKey → InObject frames)
    (h : inString ⟨.string isKey .plain chars, frames⟩ isKey chars c .plain = .ok next) :
    Leads (Expects ⟨.string isKey .plain chars, frames⟩) c next := by
  by_cases hquote : c = '"'
  · subst hquote
    exact closeString_leads hf h
  · by_cases hcontrol : c.toNat < 0x20
    · simp [inString, hquote, hb, hcontrol] at h
    · simp only [inString, hquote, hb, hcontrol, if_false] at h
      cases h
      refine ⟨⟨rfl, hf⟩, ?_⟩
      rintro text ⟨more, rest, hp, hr, rfl⟩
      have hplain : IsPlain (c :: more) :=
        List.forall_mem_cons.mpr ⟨⟨hquote, hb, Nat.le_of_not_lt hcontrol⟩, hp⟩
      exact ⟨c :: more, rest, hplain, hr, rfl⟩

theorem number_leads {numeral : Numeral} (h : step ⟨.number numeral, frames⟩ c = .ok next) :
    Leads (Expects ⟨.number numeral, frames⟩) c next := by
  unfold step at h
  dsimp only at h
  split at h
  · next hpush =>
    cases h
    refine ⟨trivial, ?_⟩
    rintro text ⟨more, rest, hm, hr, rfl⟩
    exact ⟨c :: more, rest, push?_numberEnd hpush hm, hr, rfl⟩
  · cases h
  · next hpush =>
    have hend : NumberEnd numeral.part [] := .of_complete (complete_of_push?_eq_none hpush)
    unfold endNumber at h
    split at h
    · have hl := afterComplete_leads (mapError_eq_ok.mp h)
      exact hl.mono fun {text} ht ↦ ⟨[], text, hend, ht, rfl⟩
    · cases h

theorem betweenTokens_leads (hs : Consistent s) (hm : BetweenTokens s.mode)
    (ha : ¬ AfterValue s.mode) (h : s.betweenTokens c = .ok next) : Leads (Expects s) c next := by
  by_cases hc : isSpace c
  · rw [betweenTokens, if_pos hc] at h
    cases h
    exact blank_leads hs hm hc
  · obtain ⟨mode, frames⟩ := s
    cases mode with
    | document | memberValue =>
      rw [betweenTokens, if_neg hc] at h
      exact startValue_leads h
    | firstItem =>
      obtain ⟨items, outer, rfl⟩ := hs
      exact firstItem_leads hc h
    | nextItem => exact nextItem_leads hc h
    | firstKey =>
      obtain ⟨members, outer, rfl⟩ := hs
      exact firstKey_leads hc h
    | nextKey => exact nextKey_leads hs hc h
    | colon key =>
      obtain ⟨members, outer, rfl⟩ := hs
      exact colon_leads hc h
    | done | afterItem | afterMember => exact (ha trivial).elim
    | string | literal | number => exact hm.elim

theorem step_leads (hb : c ≠ '\\') (hs : Consistent s) (h : s.step c = .ok next) :
    Leads (Expects s) c next := by
  obtain ⟨mode, frames⟩ := s
  cases mode with
  | document | firstItem | nextItem | firstKey | nextKey | colon key | memberValue =>
    exact betweenTokens_leads hs trivial id (mapError_eq_ok.mp h)
  | done value | afterItem | afterMember =>
    exact afterValue_leads hs trivial (mapError_eq_ok.mp h)
  | string isKey part chars =>
    obtain ⟨rfl, hf⟩ := hs
    exact string_leads hb hf h
  | literal chars value =>
    cases chars with
    | nil =>
      have hl := afterComplete_leads (mapError_eq_ok.mp h)
      exact hl.mono fun {text} ht ↦ ⟨text, ht, rfl⟩
    | cons expected rest => exact literal_leads h
  | number numeral => exact number_leads h

end Steps

theorem expects_nil {s : State} {value : Document} (hs : Consistent s) (h : s.finish = .ok value) :
    Expects s [] := by
  obtain ⟨mode, frames⟩ := s
  cases mode with
  | done value =>
    obtain rfl : frames = [] := hs
    exact .nil
  | number numeral =>
    unfold finish at h
    dsimp only at h
    by_cases hcomplete : numeral.complete
    · have hend : NumberEnd numeral.part [] := .of_complete hcomplete
      match frames with
      | [] => exact ⟨[], [], hend, .nil, rfl⟩
      | .list _ :: _ | .object _ :: _ | .member _ _ :: _ =>
        cases hvalue : numeral.value <;> simp [hcomplete, hvalue, complete] at h
    · simp [hcomplete] at h
  | _ => cases h

/-- What is left of a text that is read without an error is what the grammar allows. -/
theorem expects_of_run {s : State} {read : Nat} {text : List Char} {value : Document}
    (hb : '\\' ∉ text) (hs : Consistent s) (h : s.run read text = .ok value) : Expects s text := by
  induction text generalizing s read with
  | nil => exact expects_nil hs (mapError_eq_ok.mp h)
  | cons c text ih =>
    rw [List.mem_cons, not_or] at hb
    rw [run] at h
    split at h
    · next hstep =>
      have hl := step_leads (Ne.symm hb.1) hs hstep
      exact hl.expects (ih hb.2 hl.consistent h)
    · cases h

theorem isText_of_parse {text : List Char} {value : Document} (hb : '\\' ∉ text)
    (h : parse text = .ok value) : ∃ lexemes, IsText lexemes ∧ texts lexemes = text := by
  have he : Expects .initial text := expects_of_run hb rfl (mapError_eq_ok.mp h)
  obtain ⟨b, value, _, hstart, hv, ⟨_, ⟨b', hend, rfl⟩, rfl⟩, rfl⟩ := he
  refine ⟨_, ⟨b, value, b', hstart, hv, hend, rfl⟩, ?_⟩
  simp [texts, Lexeme.text]

end CppAst.Json
