import CppAst.Json.Grammar

namespace CppAst.Json

variable {numeral numeral' : Numeral} {c : Char} {more : List Char}

theorem start?_isScalar (h : Numeral.start? c = some numeral)
    (hm : NumberEnd numeral.part more) : IsScalar (c :: more) := by
  by_cases hsign : c = '-'
  · subst hsign
    cases h
    exact .negative hm
  · by_cases hzero : c = '0'
    · subst hzero
      cases h
      exact .number (.signZero hm)
    · rw [Numeral.start?, if_neg hsign, if_neg hzero] at h
      split at h
      · next hdigit =>
        cases h
        exact .number (.signDigit hdigit hzero hm)
      · cases h

theorem afterDigits_numberEnd {point : Bool}
    (hp : numeral.part = .zero ∨ numeral.part = .whole ∨ numeral.part = .fraction ∧ point = false)
    (h : Numeral.push?.afterDigits numeral c point = some (.ok numeral'))
    (hm : NumberEnd numeral'.part more) : NumberEnd numeral.part (c :: more) := by
  unfold Numeral.push?.afterDigits at h
  split at h
  · next hc =>
    cases h
    obtain ⟨rfl, rfl⟩ : c = '.' ∧ point = true := by simpa using hc
    rcases hp with hp | hp | ⟨-, hp⟩
    · exact hp ▸ .zeroPoint hm
    · exact hp ▸ .wholePoint hm
    · cases hp
  · split at h
    · next hc =>
      cases h
      exact .exponentLetter (hp.imp_right (·.imp_right And.left)) (by simpa using hc) hm
    · cases h

theorem pushExponent_part {digit : Nat}
    (h : numeral.pushExponent digit = .ok numeral') : numeral'.part = .exponent := by
  unfold Numeral.pushExponent at h
  dsimp only at h
  split at h
  · cases h
  · cases h
    rfl

theorem pushDigit_part (digit : Nat) (fraction : Bool) :
    (numeral.pushDigit digit fraction).part = numeral.part := by
  unfold Numeral.pushDigit
  dsimp only
  split <;> rfl

theorem push?_numberEnd (h : numeral.push? c = some (.ok numeral'))
    (hm : NumberEnd numeral'.part more) : NumberEnd numeral.part (c :: more) := by
  have hexponent {digit : Nat} (hp : numeral.part = .letter ∨ numeral.part = .exponentSign ∨
      numeral.part = .exponent) (hd : c.isDigit)
      (h : some (numeral.pushExponent digit) = some (.ok numeral')) :
      NumberEnd numeral.part (c :: more) := by
    rw [pushExponent_part (Option.some_inj.mp h)] at hm
    exact .exponentDigit hp hd hm
  cases hpart : numeral.part with
  | sign =>
    by_cases hzero : c = '0'
    · simp only [Numeral.push?, hpart, hzero, if_true] at h
      cases h
      exact hzero ▸ .signZero hm
    · by_cases hd : c.isDigit
      · simp only [Numeral.push?, hpart, hzero, hd, if_false, if_true] at h
        cases h
        rw [pushDigit_part] at hm
        exact .signDigit hd hzero hm
      · simp [Numeral.push?, hpart, hzero, hd] at h
  | zero =>
    by_cases hd : c.isDigit
    · simp [Numeral.push?, hpart, hd] at h
    · simp only [Numeral.push?, hpart, hd] at h
      exact hpart ▸ afterDigits_numberEnd (.inl hpart) h hm
  | whole =>
    by_cases hd : c.isDigit
    · simp only [Numeral.push?, hpart, hd, if_true] at h
      cases h
      rw [pushDigit_part, hpart] at hm
      exact .wholeDigit hd hm
    · simp only [Numeral.push?, hpart, hd] at h
      exact hpart ▸ afterDigits_numberEnd (.inr (.inl hpart)) h hm
  | point =>
    by_cases hd : c.isDigit
    · simp only [Numeral.push?, hpart, hd, if_true] at h
      cases h
      rw [pushDigit_part] at hm
      exact .pointDigit hd hm
    · simp [Numeral.push?, hpart, hd] at h
  | fraction =>
    by_cases hd : c.isDigit
    · simp only [Numeral.push?, hpart, hd, if_true] at h
      cases h
      rw [pushDigit_part, hpart] at hm
      exact .fractionDigit hd hm
    · simp only [Numeral.push?, hpart, hd] at h
      exact hpart ▸ afterDigits_numberEnd (.inr (.inr ⟨hpart, rfl⟩)) h hm
  | letter =>
    by_cases hplus : c = '+'
    · simp only [Numeral.push?, hpart, hplus, if_true] at h
      cases h
      exact .letterSign (.inl hplus) hm
    · by_cases hminus : c = '-'
      · simp only [Numeral.push?, hpart, hminus, if_true] at h
        cases h
        exact .letterSign (.inr hminus) hm
      · by_cases hd : c.isDigit
        · simp only [Numeral.push?, hpart, hplus, hminus, hd, if_false, if_true] at h
          exact hpart ▸ hexponent (.inl hpart) hd h
        · simp [Numeral.push?, hpart, hplus, hminus, hd] at h
  | exponentSign =>
    by_cases hd : c.isDigit
    · simp only [Numeral.push?, hpart, hd, if_true] at h
      exact hpart ▸ hexponent (.inr (.inl hpart)) hd h
    · simp [Numeral.push?, hpart, hd] at h
  | exponent =>
    by_cases hd : c.isDigit
    · simp only [Numeral.push?, hpart, hd, if_true] at h
      exact hpart ▸ hexponent (.inr (.inr hpart)) hd h
    · simp [Numeral.push?, hpart, hd] at h

theorem complete_of_push?_eq_none (h : numeral.push? c = none) : numeral.complete = true := by
  cases hpart : numeral.part with
  | zero | whole | fraction | exponent => rw [Numeral.complete, hpart]
  | sign =>
    by_cases hzero : c = '0'
    · simp [Numeral.push?, hpart, hzero] at h
    · by_cases hd : c.isDigit <;> simp [Numeral.push?, hpart, hzero, hd] at h
  | point | exponentSign => by_cases hd : c.isDigit <;> simp [Numeral.push?, hpart, hd] at h
  | letter =>
    by_cases hplus : c = '+'
    · simp [Numeral.push?, hpart, hplus] at h
    · by_cases hminus : c = '-'
      · simp [Numeral.push?, hpart, hminus] at h
      · by_cases hd : c.isDigit <;> simp [Numeral.push?, hpart, hplus, hminus, hd] at h

theorem NumberEnd.of_complete (h : numeral.complete = true) : NumberEnd numeral.part [] := by
  cases hpart : numeral.part with
  | zero => exact .zero
  | whole => exact .whole
  | fraction => exact .fraction
  | exponent => exact .exponent
  | sign | point | letter | exponentSign => simp [Numeral.complete, hpart] at h

end CppAst.Json
