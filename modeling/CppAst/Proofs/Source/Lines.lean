import Mathlib.Data.List.Induction
import CppAst.Proofs.Source.Position
import CppAst.Source.Lines

namespace CppAst.Source

open Text

variable {n : Nat} {p : Position} {text : List Char} {c : Char} {read : List UInt8}

theorem bytes_eq (text : String) : bytes text = text.toList.flatMap String.utf8EncodeChar := by
  rw [bytes, ← List.toList_data_toByteArray (l := text.toList.flatMap String.utf8EncodeChar)]
  conv => lhs; rw [← String.ofList_toList (s := text)]
  rfl

theorem length_bytes (text : String) : (bytes text).length = width text.toList := by
  rw [width_toList, bytes, Array.length_toList, ← String.size_toByteArray]
  rfl

theorem toNat_of_lineFeed_mem (h : lineFeed ∈ String.utf8EncodeChar c) : c.toNat = 10 := by
  have hten : lineFeed.toNat = 10 := rfl
  have hval : c.val.toNat = c.toNat := rfl
  rw [String.utf8EncodeChar] at h
  split_ifs at h
  all_goals
    simp only [List.mem_cons, List.not_mem_nil, or_false, ← UInt8.toNat_inj, UInt8.toNat_ofNat',
      hten] at h
    omega

theorem lineFeed_mem_utf8EncodeChar : lineFeed ∈ String.utf8EncodeChar c ↔ c = '\n' := by
  constructor
  · intro h
    exact Char.toNat_inj.mp (toNat_of_lineFeed_mem h)
  · rintro rfl
    decide

theorem idxOfNth_append (l r : List UInt8) (byte : UInt8) (n : Nat) :
    (l ++ r).idxOfNth byte n = if n < l.count byte then l.idxOfNth byte n
      else l.length + r.idxOfNth byte (n - l.count byte) := by
  induction l generalizing n with
  | nil => simp
  | cons b l ih => grind

theorem lineStart_append (l r : List UInt8) (n : Nat) :
    lineStart (l ++ r) n = if n ≤ l.count lineFeed then lineStart l n
      else l.length + lineStart r (n - l.count lineFeed) := by
  cases n with
  | zero => simp [lineStart]
  | succ n =>
    rw [lineStart, idxOfNth_append]
    split_ifs with hlt hle hle
    · rfl
    · omega
    · omega
    · have hsub : n + 1 - l.count lineFeed = n - l.count lineFeed + 1 := by omega
      rw [hsub, lineStart, Nat.add_assoc]

theorem lineStart_le {bytes : List UInt8} (h : n ≤ bytes.count lineFeed) :
    lineStart bytes n ≤ bytes.length := by
  cases n with
  | zero => exact Nat.zero_le _
  | succ n =>
    have hlt : bytes.idxOfNth lineFeed n < bytes.length := by
      rw [List.idxOfNth_lt_length_iff]
      omega
    exact hlt

theorem lineStart_count_le (bytes : List UInt8) :
    lineStart bytes (bytes.count lineFeed) ≤ bytes.length := lineStart_le (Nat.le_refl _)

theorem ofBytes_append_singleton (read : List UInt8) (byte : UInt8) :
    Position.ofBytes (read ++ [byte]) = (Position.ofBytes read).next byte := by
  have hle := lineStart_count_le read
  rw [Position.ofBytes, Position.ofBytes, Position.next, List.count_append, List.length_append,
    List.length_singleton, lineStart_append]
  by_cases hb : byte = lineFeed
  · subst hb
    have hone : [lineFeed].count lineFeed = 1 := rfl
    have hstart : lineStart [lineFeed] 1 = 1 := rfl
    rw [if_pos rfl, hone, if_neg (by omega), Nat.add_sub_cancel_left, hstart, Nat.sub_self,
      Nat.add_assoc]
  · have hzero : [byte].count lineFeed = 0 := List.count_eq_zero.mpr (by simpa using Ne.symm hb)
    rw [if_neg hb, hzero, Nat.add_zero, if_pos (Nat.le_refl _), Nat.sub_add_comm hle]

theorem foldl_next (read : List UInt8) : read.foldl Position.next ⟨1, 0⟩ = .ofBytes read := by
  induction read using List.reverseRecOn with
  | nil => rfl
  | append_singleton read byte ih =>
    rw [List.foldl_append, ih, ofBytes_append_singleton]
    rfl

theorem foldl_next_of_notMem (h : lineFeed ∉ read) :
    read.foldl Position.next p = ⟨p.line, p.column + read.length⟩ := by
  induction read generalizing p with
  | nil => rfl
  | cons byte read ih =>
    rw [List.mem_cons, not_or] at h
    have hnext : p.next byte = ⟨p.line, p.column + 1⟩ := if_neg (Ne.symm h.1)
    rw [List.foldl_cons, hnext, ih h.2, List.length_cons, Nat.add_assoc, Nat.add_comm 1]

theorem column_ofBytes_take (h : n ≤ read.length) :
    (Position.ofBytes (read.take n)).column = 0 ↔ n = 0 ∨ read[n - 1]? = some lineFeed := by
  cases n with
  | zero => simp [Position.ofBytes]
  | succ n =>
    have hlt : n < read.length := h
    rw [← List.take_append_getElem hlt, ofBytes_append_singleton, Position.next,
      Nat.add_sub_cancel, List.getElem?_eq_getElem hlt, Option.some_inj]
    split_ifs with hb
    · simp [hb]
    · simp [hb]

theorem go_eq_foldl (h : n ≤ width text) :
    positionAfter.go n p text =
      ((text.flatMap String.utf8EncodeChar).take n).foldl Position.next p := by
  induction text generalizing n p with
  | nil =>
    obtain rfl : n = 0 := Nat.le_zero.mp h
    rfl
  | cons c rest ih =>
    rw [width] at h
    have hsize := String.length_utf8EncodeChar c
    rw [List.flatMap_cons]
    by_cases hn : n < c.utf8Size
    · -- The reader stands in a character, and only a character that is no line feed has an inside.
      have hfree : lineFeed ∉ (String.utf8EncodeChar c).take n := by
        intro hmem
        obtain rfl := lineFeed_mem_utf8EncodeChar.mp (List.mem_of_mem_take hmem)
        obtain rfl : n = 0 := Nat.lt_one_iff.mp hn
        simp at hmem
      rw [go_within hn, List.take_append_of_le_length (by omega), foldl_next_of_notMem hfree,
        List.length_take, hsize, Nat.min_eq_left (by omega)]
    · have hsplit : (String.utf8EncodeChar c ++ rest.flatMap String.utf8EncodeChar).take n =
          String.utf8EncodeChar c ++
            (rest.flatMap String.utf8EncodeChar).take (n - c.utf8Size) := by
        rw [List.take_append, List.take_of_length_le (by omega), hsize]
      rw [hsplit, List.foldl_append]
      by_cases hc : c = '\n'
      · subst hc
        have hone : '\n'.utf8Size = 1 := rfl
        rw [go_lineFeed (by omega), ih (by omega), hone]
        rfl
      · have hfree : lineFeed ∉ String.utf8EncodeChar c := mt lineFeed_mem_utf8EncodeChar.mp hc
        rw [go_other hc (by omega), ih (by omega), foldl_next_of_notMem hfree, hsize]

theorem positionAfter_eq (h : n ≤ width text) :
    positionAfter n text = .ofBytes ((text.flatMap String.utf8EncodeChar).take n) := by
  rw [positionAfter, go_eq_foldl h, foldl_next]

theorem lineStart?_eq (n : Nat) (text : List Char) :
    lineStart? n text =
      if n ≤ (text.flatMap String.utf8EncodeChar).count lineFeed
      then some (lineStart (text.flatMap String.utf8EncodeChar) n) else none := by
  induction text generalizing n with
  | nil => cases n <;> rfl
  | cons c rest ih =>
    cases n with
    | zero => simp [lineStart?, lineStart]
    | succ n =>
      rw [lineStart?, ih, List.flatMap_cons, List.count_append, lineStart_append,
        String.length_utf8EncodeChar]
      by_cases hc : c = '\n'
      · subst hc
        have hone : (String.utf8EncodeChar '\n').count lineFeed = 1 := rfl
        have hsize : '\n'.utf8Size = 1 := rfl
        rw [if_pos rfl, hone, hsize, Nat.add_sub_cancel]
        by_cases hn : n ≤ (rest.flatMap String.utf8EncodeChar).count lineFeed
        · rw [if_pos hn, if_pos (by omega)]
          cases n with
          | zero => rfl
          | succ n => rw [if_neg (by omega), Option.map_some]
        · rw [if_neg hn, if_neg (by omega), Option.map_none]
      · have hzero : (String.utf8EncodeChar c).count lineFeed = 0 :=
          List.count_eq_zero_of_not_mem (mt lineFeed_mem_utf8EncodeChar.mp hc)
        rw [if_neg hc, hzero, Nat.zero_add, if_neg n.not_succ_le_zero, Nat.sub_zero]
        split_ifs
        · rfl
        · rfl

theorem offset?_eq (text : String) (p : Position) :
    offset? text.toList p =
      if p.line = 0 ∨ (bytes text).count lineFeed < p.line - 1 ∨
        (bytes text).length < lineStart (bytes text) (p.line - 1) + (p.column - 1) then none
      else some (lineStart (bytes text) (p.line - 1) + (p.column - 1)) := by
  obtain ⟨line, column⟩ := p
  cases line with
  | zero => rfl
  | succ n =>
    rw [offset?]
    simp only [lineStart?_eq, ← bytes_eq, ← length_bytes, Nat.add_sub_cancel]
    by_cases hn : n ≤ (bytes text).count lineFeed
    · rw [if_pos hn]
      by_cases hle : lineStart (bytes text) n + (column - 1) ≤ (bytes text).length
      · rw [if_neg (by omega)]
        exact if_pos hle
      · rw [if_pos (by omega)]
        exact if_neg hle
    · rw [if_neg hn, if_pos (by omega)]

theorem atLineStart_iff {text : String} (h : n ≤ width text.toList) :
    n = 0 ∨ AfterLineFeed n text.toList ↔ n = 0 ∨ (bytes text)[n - 1]? = some lineFeed := by
  have hlength : n ≤ (bytes text).length := by rwa [length_bytes]
  have hcolumn := positionAfter_go_column (p := ⟨1, 0⟩) h
  rw [← positionAfter, positionAfter_eq h, ← bytes_eq, column_ofBytes_take hlength] at hcolumn
  simpa only [and_true] using hcolumn.symm

theorem positionAfter_toList {text : String} (h : n ≤ (bytes text).length) :
    positionAfter n text.toList = .ofBytes ((bytes text).take n) := by
  rw [length_bytes] at h
  rw [positionAfter_eq h, bytes_eq]

/-- The position of a reader gives the byte that it read last, or where it stands if a line starts
there. Any position gives its column, counted from the start of its line, if that is in the text.
The column is bounded so that a machine word holds the sum. -/
theorem offsets_of_positions (text : String) :
    (∀ i ≤ (bytes text).length,
      positionAfter i text.toList = .ofBytes ((bytes text).take i) ∧
      offset? text.toList (.ofBytes ((bytes text).take i)) =
        if 0 < i ∧ (bytes text)[i - 1]? ≠ some lineFeed then some (i - 1) else some i) ∧
    ∀ p : Position, text.utf8ByteSize + p.column < UInt64.size →
      (p.line - 1 ≤ (bytes text).count lineFeed →
        lineStart (bytes text) (p.line - 1) + (p.column - 1) < UInt64.size) ∧
      offset? text.toList p =
        if p.line = 0 ∨ (bytes text).count lineFeed < p.line - 1 ∨
          (bytes text).length < lineStart (bytes text) (p.line - 1) + (p.column - 1) then none
        else some (lineStart (bytes text) (p.line - 1) + (p.column - 1)) := by
  refine ⟨fun i hi ↦ ⟨positionAfter_toList hi, ?_⟩, fun p hp ↦ ⟨fun hline ↦ ?_, offset?_eq text p⟩⟩
  case refine_2 =>
    have hle := lineStart_le hline
    rw [length_bytes, width_toList] at hle
    omega
  rw [← positionAfter_toList hi]
  rw [length_bytes] at hi
  have hstart := atLineStart_iff hi
  rcases offset?_positionAfter hi with ⟨hat, ho⟩ | ⟨hpos, hnot, ho⟩
  · rw [ho, if_neg]
    rintro ⟨hpos, hbyte⟩
    rcases hstart.mp hat with hzero | hfeed
    · omega
    · exact hbyte hfeed
  · rw [ho, if_pos]
    refine ⟨hpos, fun hfeed ↦ ?_⟩
    rcases hstart.mpr (.inr hfeed) with hzero | hafter
    · omega
    · exact hnot hafter

def accentedLines : String := "\x7b\n  \"é\": 1,\n\n"

theorem offsets_of_accentedLines :
    (6 ≤ (bytes accentedLines).length ∧ positionAfter 6 accentedLines.toList = ⟨2, 4⟩ ∧
      offset? accentedLines.toList ⟨2, 4⟩ = some 5) ∧
    (14 ≤ (bytes accentedLines).length ∧ positionAfter 14 accentedLines.toList = ⟨4, 0⟩ ∧
      offset? accentedLines.toList ⟨4, 0⟩ = some 14) ∧
    offset? accentedLines.toList ⟨4, 2⟩ = none := by
  have hmiddle : Position.ofBytes ((bytes accentedLines).take 6) = ⟨2, 4⟩ := by decide
  have hend : Position.ofBytes ((bytes accentedLines).take 14) = ⟨4, 0⟩ := by decide
  obtain ⟨hread, hany⟩ := offsets_of_positions accentedLines
  refine ⟨⟨by decide, ?_⟩, ⟨by decide, ?_⟩, ?_⟩
  · rw [← hmiddle]
    exact hread 6 (by decide)
  · rw [← hend]
    exact hread 14 (by decide)
  · rw [(hany ⟨4, 2⟩ (by decide)).2, if_pos (by decide)]

end CppAst.Source
