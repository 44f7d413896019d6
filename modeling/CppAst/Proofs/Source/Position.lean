import CppAst.Source.Position

namespace CppAst

namespace Text

@[simp]
theorem width_append (a b : List Char) : width (a ++ b) = width a + width b := by
  induction a with
  | nil => simp [width]
  | cons c a ih => simp [width, ih, Nat.add_assoc]

theorem width_toList (s : String) : width s.toList = s.utf8ByteSize := by
  have h (l : List Char) : width l = (String.ofList l).utf8ByteSize := by
    induction l with
    | nil => simp [width]
    | cons c rest ih =>
      have hc : String.ofList (c :: rest) = String.singleton c ++ String.ofList rest := by
        rw [String.singleton_eq_ofList, ← String.ofList_append]
        rfl
      rw [width, ih, hc, String.utf8ByteSize_append, String.utf8ByteSize_singleton]
  rw [h, String.ofList_toList]

theorem width_eq_zero {text : List Char} : width text = 0 ↔ text = [] := by
  cases text with
  | nil => simp [width]
  | cons c rest => simp [width, Nat.ne_of_gt c.utf8Size_pos]

end Text

namespace Source

open Text

def AfterLineFeed (n : Nat) (text : List Char) : Prop :=
  ∃ before after, text = before ++ '\n' :: after ∧ n = width before + 1

variable {n : Nat} {p : Position} {text : List Char}

theorem not_afterLineFeed_nil : ¬ AfterLineFeed n [] := by
  rintro ⟨before, after, h, -⟩
  simp at h

theorem afterLineFeed_cons {c : Char} :
    AfterLineFeed n (c :: text) ↔
      c = '\n' ∧ n = 1 ∨ ∃ m, n = c.utf8Size + m ∧ AfterLineFeed m text := by
  constructor
  · rintro ⟨before, after, ht, rfl⟩
    cases before with
    | nil => exact .inl ⟨(List.cons.inj ht).1, rfl⟩
    | cons d before =>
      obtain ⟨rfl, rfl⟩ := List.cons.inj ht
      exact .inr ⟨width before + 1, by rw [width, Nat.add_assoc], before, after, rfl, rfl⟩
  · rintro (⟨rfl, rfl⟩ | ⟨m, rfl, before, after, rfl, rfl⟩)
    · exact ⟨[], text, rfl, rfl⟩
    · exact ⟨c :: before, after, rfl, by rw [width, Nat.add_assoc]⟩

theorem afterLineFeed_width :
    AfterLineFeed (width text) text ↔ text.getLast? = some '\n' := by
  rw [List.getLast?_eq_some_iff]
  constructor
  · rintro ⟨before, after, rfl, h⟩
    have ha : width after = 0 := by
      simp only [width_append, width] at h
      have hn : '\n'.utf8Size = 1 := rfl
      omega
    exact ⟨before, by rw [width_eq_zero.mp ha]⟩
  · rintro ⟨before, rfl⟩
    exact ⟨before, [], rfl, by rw [width_append]; rfl⟩

theorem go_within {c : Char} (h : n < c.utf8Size) :
    positionAfter.go n p (c :: text) = ⟨p.line, p.column + n⟩ := by
  rw [positionAfter.go]
  split
  next hz => rw [hz, Nat.add_zero]
  next => rfl

theorem go_lineFeed (h : 0 < n) :
    positionAfter.go n p ('\n' :: text) = positionAfter.go (n - 1) ⟨p.line + 1, 0⟩ text := by
  have hs : '\n'.utf8Size = 1 := rfl
  rw [positionAfter.go, if_neg (by omega), if_neg (by omega), if_pos rfl, hs]

theorem go_other {c : Char} (hc : c ≠ '\n') (h : c.utf8Size ≤ n) :
    positionAfter.go n p (c :: text) =
      positionAfter.go (n - c.utf8Size) ⟨p.line, p.column + c.utf8Size⟩ text := by
  have hp := c.utf8Size_pos
  rw [positionAfter.go, if_neg (by omega), if_neg (by omega), if_neg hc]

theorem positionAfter_go (h : n ≤ width text) :
    ∃ k start, (positionAfter.go n p text).line = p.line + k ∧
      lineStart? k text = some start ∧ start ≤ n ∧ (k = 0 → start = 0) ∧
      (positionAfter.go n p text).column = (if k = 0 then p.column else 0) + (n - start) := by
  induction text generalizing n p with
  | nil =>
    obtain rfl : n = 0 := Nat.le_zero.mp h
    exact ⟨0, 0, rfl, rfl, Nat.le_refl 0, fun _ ↦ rfl, rfl⟩
  | cons c rest ih =>
    rw [width] at h
    by_cases hn : n < c.utf8Size
    · rw [go_within hn]
      exact ⟨0, 0, rfl, rfl, Nat.zero_le n, fun _ ↦ rfl, rfl⟩
    · by_cases hc : c = '\n'
      · subst hc
        have hs : '\n'.utf8Size = 1 := rfl
        rw [go_lineFeed (by omega)]
        obtain ⟨k, start, hl, hstart, hle, -, hcol⟩ :=
          ih (n := n - 1) (p := ⟨p.line + 1, 0⟩) (by omega)
        refine ⟨k + 1, 1 + start, by simp only at hl; omega, ?_, by omega, nofun, ?_⟩
        · rw [lineStart?, if_pos rfl, hstart]
          rfl
        · rw [hcol, if_neg k.succ_ne_zero]
          dsimp only
          rw [ite_self]
          omega
      · rw [go_other hc (by omega)]
        obtain ⟨k, start, hl, hstart, hle, hzero, hcol⟩ := ih (n := n - c.utf8Size)
          (p := ⟨p.line, p.column + c.utf8Size⟩) (by omega)
        cases k with
        | zero =>
          obtain rfl := hzero rfl
          refine ⟨0, 0, hl, rfl, Nat.zero_le n, fun _ ↦ rfl, ?_⟩
          rw [hcol, if_pos rfl, if_pos rfl]
          dsimp only
          omega
        | succ k =>
          refine ⟨k + 1, c.utf8Size + start, hl, ?_, by omega, nofun, ?_⟩
          · rw [lineStart?, if_neg hc, hstart]
            rfl
          · rw [hcol, if_neg k.succ_ne_zero, if_neg k.succ_ne_zero]
            omega

theorem positionAfter_go_column (h : n ≤ width text) :
    (positionAfter.go n p text).column = 0 ↔
      n = 0 ∧ p.column = 0 ∨ AfterLineFeed n text := by
  induction text generalizing n p with
  | nil =>
    obtain rfl : n = 0 := Nat.le_zero.mp h
    simp [positionAfter.go, not_afterLineFeed_nil]
  | cons c rest ih =>
    rw [width] at h
    by_cases hn : n < c.utf8Size
    · have ha : ¬ AfterLineFeed n (c :: rest) := by
        rw [afterLineFeed_cons]
        rintro (⟨rfl, rfl⟩ | ⟨m, rfl, -⟩)
        · exact absurd hn (by decide)
        · omega
      simp [go_within hn, ha, and_comm]
    · have hrest : AfterLineFeed n (c :: rest) ↔
          c = '\n' ∧ n = 1 ∨ AfterLineFeed (n - c.utf8Size) rest := by
        rw [afterLineFeed_cons]
        refine or_congr_right ⟨?_, fun ha ↦ ⟨n - c.utf8Size, by omega, ha⟩⟩
        rintro ⟨m, rfl, ha⟩
        rwa [Nat.add_sub_cancel_left]
      have hp := c.utf8Size_pos
      have hzero : n ≠ 0 := by omega
      by_cases hc : c = '\n'
      · subst hc
        have hs : '\n'.utf8Size = 1 := rfl
        have hone : n - 1 = 0 ↔ n = 1 := by omega
        rw [go_lineFeed (by omega), ih (by omega), hrest, hs]
        simp [hzero, hone]
      · rw [go_other hc (by omega), ih (by omega), hrest]
        simp [hzero, hc, Nat.ne_of_gt hp]

/-- The byte of a position is the one that was just read, or the start of a line of which nothing has
been read. -/
theorem offset?_positionAfter (h : n ≤ width text) :
    (n = 0 ∨ AfterLineFeed n text) ∧ offset? text (positionAfter n text) = some n ∨
    0 < n ∧ ¬ AfterLineFeed n text ∧ offset? text (positionAfter n text) = some (n - 1) := by
  obtain ⟨k, start, hl, hs, hle, -, hc⟩ := positionAfter_go (p := ⟨1, 0⟩) h
  have hz := positionAfter_go_column (p := ⟨1, 0⟩) h
  rw [← positionAfter] at hl hc hz
  rw [ite_self, Nat.zero_add] at hc
  have ho : offset? text (positionAfter n text) = some (start + (n - start - 1)) := by
    rw [offset?, hl, Nat.add_comm 1 k]
    simp only [hs, hc]
    rw [if_pos (by omega)]
  by_cases hn : (positionAfter n text).column = 0
  · have hn' := hz.mp hn
    refine .inl ⟨by simpa using hn', ?_⟩
    rw [ho]
    congr 1
    omega
  · have hn' := mt hz.mpr hn
    rw [not_or] at hn'
    refine .inr ⟨by simp at hn'; omega, hn'.2, ?_⟩
    rw [ho]
    congr 1
    omega

end Source
end CppAst
