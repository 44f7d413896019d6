import CppAst.Printer.Passes
import Mathlib.Data.List.Nodup
import Mathlib.Data.List.Flatten
import Mathlib.Data.List.TakeWhile

namespace CppAst

namespace Text

theorem filter_trimStart (text : List Char) :
    (trimStart text).filter (!isBlank ·) = text.filter (!isBlank ·) := by
  have hb : (text.takeWhile isBlank).filter (!isBlank ·) = [] := by
    rw [List.filter_eq_nil_iff]
    intro c hc
    simp [List.mem_takeWhile_imp hc]
  conv_rhs => rw [← List.takeWhile_append_dropWhile (p := isBlank) (l := text)]
  rw [List.filter_append, hb, List.nil_append, trimStart]

theorem filter_trim (text : List Char) :
    (trim text).filter (!isBlank ·) = text.filter (!isBlank ·) := by
  rw [trim, List.filter_reverse, filter_trimStart, List.filter_reverse, List.reverse_reverse,
    filter_trimStart]

end Text

namespace Template

open Text

variable {markers order : List Marker} {m : Marker} {name other line : String}
  {lines : List String}

theorem isMarker_iff : isMarker name line = true ↔ trim line.toList = ("#" ++ name).toList := by
  rw [isMarker, decide_eq_true_iff, String.toList_append]
  rfl

theorem eq_of_isMarker (h : isMarker name line = true) (h' : isMarker other line = true) :
    name = other := by
  rw [isMarker, decide_eq_true_iff] at h h'
  rw [h, List.cons.injEq] at h'
  exact String.toList_inj.mp h'.2

theorem isMarker_beside {before after : List Char} (h : ∃ c ∈ before ++ after, ¬ isBlank c)
    (hl : line.toList = before ++ '#' :: name.toList ++ after) : isMarker name line = false := by
  rw [isMarker, decide_eq_false_iff_not]
  intro he
  -- The characters of the line that are not blank are those of the marker, and so no others.
  have hkept := filter_trim line.toList
  rw [he, hl, List.append_assoc, List.filter_append, List.filter_append] at hkept
  have hlength := congrArg List.length hkept
  rw [List.length_append, List.length_append] at hlength
  obtain ⟨c, hc, hb⟩ := h
  have hpos : 0 < ((before ++ after).filter (!isBlank ·)).length :=
    List.length_pos_of_mem (List.mem_filter.mpr ⟨hc, by simpa using hb⟩)
  rw [List.filter_append, List.length_append] at hpos
  omega

theorem expandLine_cons (m : Marker) (markers : List Marker) (line : String) :
    expandLine (m :: markers) line =
      if isMarker m.name line then m.content else expandLine markers line := by
  rw [expandLine, List.find?_cons, expandLine]
  cases isMarker m.name line <;> rfl

theorem expandLine_of_none (h : ∀ m ∈ markers, isMarker m.name line = false) :
    expandLine markers line = [line] := by
  induction markers with
  | nil => rfl
  | cons m markers ih =>
    rw [List.forall_mem_cons] at h
    rw [expandLine_cons, h.1, if_neg (by simp), ih h.2]

theorem expandLine_of_isMarker (hd : (markers.map Marker.name).Nodup) (hm : m ∈ markers)
    (h : isMarker m.name line = true) : expandLine markers line = m.content := by
  induction markers with
  | nil => cases hm
  | cons first markers ih =>
    rw [List.map_cons, List.nodup_cons] at hd
    rw [expandLine_cons]
    rcases List.mem_cons.mp hm with rfl | hm
    · rw [if_pos h]
    · rw [if_neg, ih hd.2 hm]
      intro hf
      exact hd.1 (eq_of_isMarker h hf ▸ List.mem_map_of_mem hm)

theorem expandLine_perm (hd : (markers.map Marker.name).Nodup) (hp : order.Perm markers)
    (line : String) : expandLine order line = expandLine markers line := by
  by_cases h : ∃ m ∈ markers, isMarker m.name line = true
  · obtain ⟨m, hm, h⟩ := h
    rw [expandLine_of_isMarker hd hm h,
      expandLine_of_isMarker ((hp.map _).nodup_iff.mpr hd) (hp.mem_iff.mpr hm) h]
  · have hn : ∀ m ∈ markers, isMarker m.name line = false := by simpa using h
    rw [expandLine_of_none hn, expandLine_of_none fun m hm ↦ hn m (hp.mem_iff.mp hm)]

theorem expand_perm (hd : (markers.map Marker.name).Nodup) (hp : order.Perm markers)
    (lines : List String) : expand order lines = expand markers lines :=
  List.flatMap_congr fun line _ ↦ expandLine_perm hd hp line

theorem expand_eq_self (h : ∀ line ∈ lines, ∀ m ∈ markers, isMarker m.name line = false) :
    expand markers lines = lines := by
  rw [expand, List.flatMap_congr fun line hl ↦ expandLine_of_none (h line hl),
    List.flatMap_singleton']

theorem Final.of_perm (h : Final markers) (hp : order.Perm markers) : Final order :=
  fun m hm line hl other ho ↦ h m (hp.mem_iff.mp hm) line hl other (hp.mem_iff.mp ho)

theorem Final.tail (h : Final (m :: markers)) : Final markers :=
  fun _ hm line hl _ ho ↦ h _ (List.mem_cons_of_mem m hm) line hl _ (List.mem_cons_of_mem m ho)

/-- The lines that a first marker has put in are not looked at again. -/
theorem Final.expand_expand_singleton (h : Final (m :: markers)) (lines : List String) :
    expand markers (expand [m] lines) = expand (m :: markers) lines := by
  rw [expand, expand, List.flatMap_assoc]
  refine List.flatMap_congr fun line _ ↦ ?_
  rw [expandLine_cons, expandLine_cons]
  split
  · exact expand_eq_self fun line hl other ho ↦
      h m List.mem_cons_self line hl other (List.mem_cons_of_mem m ho)
  · exact List.flatMap_singleton ..

theorem Final.expandInTurn_eq (h : Final markers) (lines : List String) :
    expandInTurn markers lines = expand markers lines := by
  induction markers generalizing lines with
  | nil => exact (expand_eq_self (by simp)).symm
  | cons m markers ih =>
    have hrest : expandInTurn (m :: markers) lines = expandInTurn markers (expand [m] lines) := rfl
    rw [hrest, ih h.tail, h.expand_expand_singleton]

theorem Final.expand_expand (h : Final markers) (lines : List String) :
    expand markers (expand markers lines) = expand markers lines := by
  refine expand_eq_self fun line hl ↦ ?_
  obtain ⟨source, -, hl⟩ := List.mem_flatMap.mp hl
  rw [expandLine] at hl
  split at hl
  next m hf => exact h m (List.mem_of_find?_eq_some hf) line hl
  next hf =>
    obtain rfl := List.mem_singleton.mp hl
    simpa using List.find?_eq_none.mp hf

theorem expand_around (h : ∀ m ∈ markers, isMarker m.name line = false)
    (before after : List String) :
    expand markers (before ++ line :: after) =
      expand markers before ++ line :: expand markers after := by
  rw [expand, List.flatMap_append, List.flatMap_cons, expandLine_of_none h]
  rfl

/-- What is no marker survives, in the same order. -/
theorem filter_sublist_expand (markers : List Marker) (lines : List String) :
    (lines.filter fun line ↦ markers.all (!isMarker ·.name line)).Sublist
      (expand markers lines) := by
  induction lines with
  | nil => exact .slnil
  | cons line rest ih =>
    rw [List.filter_cons, expand, List.flatMap_cons]
    split
    next h =>
      rw [expandLine_of_none (by simpa using h)]
      exact ih.cons_cons line
    next => exact ih.trans (List.sublist_append_right _ _)

/-- Where names are distinct, the order in which markers are listed makes no difference. If none puts
in a line that is a marker, it is the same to expand them one after the other, in any order, and
nothing is left to be expanded. A line that is the marker of no name stays as it is in its place, and
a marker with other text beside it is none. -/
theorem expand_in_one_pass (hd : (markers.map Marker.name).Nodup) (lines : List String) :
    (∀ order : List Marker, order.Perm markers → expand order lines = expand markers lines) ∧
    (Final markers →
      (∀ order : List Marker, order.Perm markers →
        expandInTurn order lines = expand markers lines) ∧
      expand markers (expand markers lines) = expand markers lines) ∧
    (∀ (before after : List String) (line : String), lines = before ++ line :: after →
      (∀ m ∈ markers, isMarker m.name line = false) →
      expand markers lines = expand markers before ++ line :: expand markers after) ∧
    (lines.filter fun line ↦ markers.all (!isMarker ·.name line)).Sublist
      (expand markers lines) ∧
    ∀ (name : String) (before after : List Char), (∃ c ∈ before ++ after, ¬ isBlank c) →
      isMarker name (.ofList (before ++ '#' :: name.toList ++ after)) = false := by
  refine ⟨fun order hp ↦ expand_perm hd hp lines, fun hf ↦ ⟨fun order hp ↦ ?_, ?_⟩, ?_, ?_, ?_⟩
  · rw [(hf.of_perm hp).expandInTurn_eq, expand_perm hd hp]
  · exact hf.expand_expand lines
  · rintro before after line rfl hn
    exact expand_around hn before after
  · exact filter_sublist_expand markers lines
  · exact fun name before after ho ↦ isMarker_beside ho (String.toList_ofList ..)

def threeMarkers : List Marker :=
  [⟨"first", ["a", "b"]⟩, ⟨"second", []⟩, ⟨"third", ["// #first", " # third"]⟩]

theorem expand_threeMarkers :
    (threeMarkers.map Marker.name).Nodup ∧ Final threeMarkers ∧
    expandInTurn threeMarkers.reverse ["#third;", "\t#first", "#second ", "#third"] =
      ["#third;", "a", "b", "// #first", " # third"] := by
  have hd : (threeMarkers.map Marker.name).Nodup := by decide
  have hf : Final threeMarkers := by decide
  obtain ⟨-, hturn, -⟩ := expand_in_one_pass hd ["#third;", "\t#first", "#second ", "#third"]
  refine ⟨hd, hf, ?_⟩
  rw [(hturn hf).1 _ (List.reverse_perm _)]
  decide

end Template
end CppAst
