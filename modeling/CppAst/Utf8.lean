namespace CppAst.Utf8

/-- A character of which bytes are missing. The next one must be in a range. -/
structure Partial where
  code : Nat
  missing : Nat
  low : Nat
  high : Nat
deriving Repr, DecidableEq

inductive Lead where
  | char (c : Char)
  | sequence (p : Partial)
  | invalid
deriving Repr, DecidableEq

def lead (byte : Nat) : Lead :=
  if byte < 0x80 then .char (.ofNat byte)
  else if byte < 0xC2 then .invalid
  else if byte < 0xE0 then .sequence ⟨byte - 0xC0, 1, 0x80, 0xBF⟩
  else if byte = 0xE0 then .sequence ⟨0, 2, 0xA0, 0xBF⟩
  else if byte = 0xED then .sequence ⟨0xD, 2, 0x80, 0x9F⟩
  else if byte < 0xF0 then .sequence ⟨byte - 0xE0, 2, 0x80, 0xBF⟩
  else if byte = 0xF0 then .sequence ⟨0, 3, 0x90, 0xBF⟩
  else if byte < 0xF4 then .sequence ⟨byte - 0xF0, 3, 0x80, 0xBF⟩
  else if byte = 0xF4 then .sequence ⟨4, 3, 0x80, 0x8F⟩
  else .invalid

def replacement : Char := '\uFFFD'

def readFrom : Option Partial → List UInt8 → List Char
  | none, [] => []
  | some _, [] => [replacement]
  | pending, byte :: rest =>
    let n := byte.toNat
    let continued? := pending.filter fun p ↦ p.low ≤ n && n ≤ p.high
    match continued? with
    | some p =>
      let code := p.code * 64 + (n - 0x80)
      if p.missing = 1 then .ofNat code :: readFrom none rest
      else readFrom (some ⟨code, p.missing - 1, 0x80, 0xBF⟩) rest
    | none =>
      let broken := if pending.isSome then [replacement] else []
      match lead n with
      | .char c => broken ++ c :: readFrom none rest
      | .sequence p => broken ++ readFrom (some p) rest
      | .invalid => broken ++ replacement :: readFrom none rest

def readLossy (bytes : List UInt8) : String := .ofList (readFrom none bytes)

end CppAst.Utf8
