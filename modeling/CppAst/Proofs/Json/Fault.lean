import CppAst.Json.Machine
import CppAst.Proofs.Source.Position

namespace CppAst.Json

namespace State

variable {s : State} {c : Char} {fault : Fault}

theorem inString_error_read {isKey : Bool} {chars : List Char} {part : StringPart}
    (h : s.inString isKey chars c part = .error fault) : fault.read ≤ c.utf8Size := by
  have hp := c.utf8Size_pos
  cases part with
  | plain =>
    simp only [inString] at h
    split at h
    next => cases h
    next =>
      split at h
      next => cases h
      next =>
        split at h
        next => cases h; exact hp
        next => cases h
  | escape =>
    simp only [inString] at h
    split at h
    next => cases h
    next =>
      split at h
      next => cases h
      next => cases h; exact hp
  | unit left code high =>
    simp only [inString] at h
    split at h
    next => cases h
    next hl =>
      split at h
      next => cases h
      next => cases h; exact Nat.le_of_not_lt hl
  | surrogate high | surrogateEscape high =>
    simp only [inString] at h
    split at h
    next => cases h
    next => cases h; exact hp

theorem mapError_read {x : Except Reason State} (h : x.mapError (⟨·, 1⟩) = .error fault) :
    fault.read = 1 := by
  cases x with
  | ok s => cases h
  | error reason => cases h; rfl

theorem step_error_read (h : s.step c = .error fault) : fault.read ≤ c.utf8Size := by
  have hp := c.utf8Size_pos
  have hone (hr : fault.read = 1) : fault.read ≤ c.utf8Size := hr ▸ hp
  unfold step at h
  split at h
  next => exact inString_error_read h
  next => exact hone (mapError_read h)
  next =>
    split at h
    next => cases h; exact hp
    next => split at h <;> cases h
  next numeral =>
    split at h
    next => cases h
    next => cases h; exact hp
    next =>
      unfold endNumber at h
      split at h
      next => exact hone (mapError_read h)
      next => cases h; exact Nat.zero_le _
  next => exact hone (mapError_read h)
  next => exact hone (mapError_read h)
  next => exact hone (mapError_read h)
  next => exact hone (mapError_read h)

theorem run_error_read {text : List Char} {read : Nat} (h : s.run read text = .error fault) :
    fault.read ≤ read + Text.width text := by
  induction text generalizing s read with
  | nil =>
    rw [run] at h
    cases hf : s.finish with
    | ok value => rw [hf] at h; cases h
    | error reason => rw [hf] at h; cases h; exact Nat.le_add_right ..
  | cons c rest ih =>
    rw [run] at h
    rw [Text.width]
    split at h
    next next hs =>
      have hr := ih h
      omega
    next hs =>
      cases h
      have hr := step_error_read hs
      dsimp only
      omega

end State

theorem parse_error {text : List Char} {e : SyntaxError} (h : parse text = .error e) :
    e.read ≤ Text.width text ∧ e.position = Source.positionAfter e.read text := by
  rw [parse] at h
  cases hr : State.initial.run 0 text with
  | ok value => rw [hr] at h; cases h
  | error fault =>
    rw [hr] at h
    cases h
    have hread := State.run_error_read hr
    exact ⟨by simpa using hread, rfl⟩

end CppAst.Json
