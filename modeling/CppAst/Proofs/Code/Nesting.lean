import CppAst.Code.Nesting
import CppAst.Proofs.Declarations.Reading

namespace CppAst

section Braces

variable {a b text : List Char} {depth : Int}

@[simp]
theorem braceDepth_nil : braceDepth [] = 0 := rfl

@[simp]
theorem braceDepth_append (a b : List Char) :
    braceDepth (a ++ b) = braceDepth a + braceDepth b := by
  simp only [braceDepth, List.count_append]
  omega

theorem braceDepth_eq_zero (h : ∀ c ∈ text, c ≠ '\x7b' ∧ c ≠ '\x7d') : braceDepth text = 0 := by
  have ho : text.count '\x7b' = 0 := List.count_eq_zero.mpr fun hm ↦ (h _ hm).1 rfl
  have hc : text.count '\x7d' = 0 := List.count_eq_zero.mpr fun hm ↦ (h _ hm).2 rfl
  rw [braceDepth, ho, hc]
  rfl

def StaysOpen (depth : Int) (text : List Char) : Prop :=
  ∀ start, start <+: text → 0 ≤ depth + braceDepth start

theorem staysOpen_append :
    StaysOpen depth (a ++ b) ↔ StaysOpen depth a ∧ StaysOpen (depth + braceDepth a) b := by
  constructor
  · intro h
    refine ⟨fun start hs ↦ h start (hs.trans (List.prefix_append a b)), fun start hs ↦ ?_⟩
    have := h (a ++ start) ((List.prefix_append_right_inj a).mpr hs)
    rwa [braceDepth_append, ← Int.add_assoc] at this
  · rintro ⟨ha, hb⟩ start ⟨rest, hs⟩
    rcases List.append_eq_append_iff.mp hs with ⟨more, rfl, -⟩ | ⟨more, rfl, rfl⟩
    · exact ha start (List.prefix_append start more)
    · have := hb more (List.prefix_append more rest)
      rwa [braceDepth_append, ← Int.add_assoc]

theorem staysOpen_flat (h : ∀ c ∈ text, c ≠ '\x7b' ∧ c ≠ '\x7d') (hd : 0 ≤ depth) :
    StaysOpen depth text := by
  intro start hs
  rw [braceDepth_eq_zero fun c hc ↦ h c (hs.subset hc)]
  omega

theorem staysOpen_singleton {c : Char} (hd : 0 ≤ depth) (h : 0 ≤ depth + braceDepth [c]) :
    StaysOpen depth [c] := by
  intro start hs
  -- A prefix takes in the whole character or nothing.
  rcases List.prefix_cons_iff.mp hs with rfl | ⟨rest, rfl, hr⟩
  · simpa using hd
  · rw [List.prefix_nil.mp hr]
    exact h

end Braces

section Texts

variable {a b : String}

theorem bare_append : Bare (a ++ b) ↔ Bare a ∧ Bare b := by
  simp only [Bare, String.toList_append, List.forall_mem_append]

theorem Bare.noBrace (h : Bare a) : ∀ c ∈ a.toList, c ≠ '\x7b' ∧ c ≠ '\x7d' :=
  fun c hc ↦ ⟨(h c hc).1, (h c hc).2.1⟩

theorem Bare.oneLine (h : Bare a) : '\n' ∉ a.toList := fun hc ↦ (h _ hc).2.2 rfl

theorem Visible.append (h : Visible a) (b : String) : Visible (a ++ b) := by
  obtain ⟨c, hc, hb⟩ := h
  refine ⟨c, ?_, hb⟩
  rw [String.toList_append, List.head?_append, Option.mem_def.mp hc]
  rfl

end Texts

theorem Indent.mem_margin {indent : Indent} {level : Nat} {c : Char}
    (h : c ∈ (indent.margin level).toList) : c = ' ' ∨ c = '\t' := by
  rw [margin, String.toList_join] at h
  obtain ⟨text, ht, hc⟩ := List.mem_flatMap.mp h
  obtain rfl := (List.mem_replicate.mp ht).2
  cases indent with
  | spaces width =>
    rw [Indent.text, String.toList_ofList] at hc
    exact .inl (List.mem_replicate.mp hc).2
  | tab =>
    rw [Indent.text] at hc
    exact .inr (by simpa using hc)

theorem Indent.noBrace_margin (indent : Indent) (level : Nat) :
    ∀ c ∈ (indent.margin level).toList, c ≠ '\x7b' ∧ c ≠ '\x7d' := by
  intro c hc
  rcases mem_margin hc with rfl | rfl <;> decide

/-- What a line does at a depth: it stands as deep, and leads to the next depth. -/
structure LineLeads (indent : Indent) (depth next : Nat) (line : List Char) : Prop where
  fits : FitsDepth indent depth line
  opened : StaysOpen depth line
  total : depth + braceDepth line = next
  oneLine : '\n' ∉ line

namespace CodeRow

variable (indent : Indent) {depth next : Nat} {row : CodeRow}

theorem line_text (depth : Nat) (content : String) :
    (text depth content).line indent 0 = (indent.margin depth).toList ++ content.toList := by
  rw [line, Nat.zero_add]

section Lines

variable (depth : Nat) {content : String}

theorem noBrace_line_text (hb : Bare content) :
    ∀ c ∈ (text depth content).line indent 0, c ≠ '\x7b' ∧ c ≠ '\x7d' := by
  rw [line_text]
  exact List.forall_mem_append.mpr ⟨indent.noBrace_margin depth, hb.noBrace⟩

theorem fitsDepth_visible (hb : Bare content) (hv : Visible content) (rest : List Char) :
    FitsDepth indent depth ((text depth content).line indent 0 ++ rest) := by
  obtain ⟨c, hc, hblank⟩ := hv
  obtain ⟨tail, ht⟩ := List.head?_eq_some_iff.mp hc
  have hclose : c ≠ '\x7d' := (hb c (by simp [ht])).2.1
  intro _
  exact ⟨depth, c, tail ++ rest, by simp [line_text, ht], hblank, by simp [hclose]⟩

theorem lineLeads_text (hb : Bare content) (hv : Visible content) :
    LineLeads indent depth depth ((text depth content).line indent 0) := by
  have hflat := noBrace_line_text indent depth hb
  refine ⟨?_, staysOpen_flat hflat (Int.natCast_nonneg depth), ?_,
    lineFeed_not_mem_line indent 0 hb.oneLine⟩
  · have hfits := fitsDepth_visible indent depth hb hv []
    rwa [List.append_nil] at hfits
  · rw [braceDepth_eq_zero hflat, Int.add_zero]

theorem lineLeads_opening (hb : Bare content) (hv : Visible content) :
    LineLeads indent depth (depth + 1) ((text depth (content ++ "\x7b")).line indent 0) := by
  have hd : (0 : Int) ≤ depth := Int.natCast_nonneg depth
  have hflat := noBrace_line_text indent depth hb
  have ht : (text depth (content ++ "\x7b")).line indent 0 =
      (text depth content).line indent 0 ++ ['\x7b'] := by
    simp [line_text]
  have hopen : braceDepth ['\x7b'] = 1 := rfl
  refine ⟨?_, ?_, ?_, lineFeed_not_mem_line indent 0 (by simp [hb.oneLine])⟩
  · rw [ht]
    exact fitsDepth_visible indent depth hb hv ['\x7b']
  · rw [ht, staysOpen_append, braceDepth_eq_zero hflat, Int.add_zero]
    exact ⟨staysOpen_flat hflat hd, staysOpen_singleton hd (by omega)⟩
  · rw [ht, braceDepth_append, braceDepth_eq_zero hflat, hopen]
    rfl

theorem lineLeads_closing (hb : Bare content) :
    LineLeads indent (depth + 1 : Nat) depth ((text depth ("\x7d" ++ content)).line indent 0) := by
  have hd : (0 : Int) ≤ depth := Int.natCast_nonneg depth
  have hmargin := indent.noBrace_margin depth
  have ht : (text depth ("\x7d" ++ content)).line indent 0 =
      (indent.margin depth).toList ++ (['\x7d'] ++ content.toList) := by
    simp [line_text]
  have hclose : braceDepth ['\x7d'] = -1 := rfl
  refine ⟨?_, ?_, ?_, lineFeed_not_mem_line indent 0 (by simp [hb.oneLine])⟩
  · intro _
    exact ⟨depth, '\x7d', content.toList, by simp [ht], by decide, by simp⟩
  · rw [ht, staysOpen_append, staysOpen_append, braceDepth_eq_zero hmargin, Int.add_zero, hclose]
    exact ⟨staysOpen_flat hmargin (by omega), staysOpen_singleton (by omega) (by omega),
      staysOpen_flat hb.noBrace (by omega)⟩
  · rw [ht, braceDepth_append, braceDepth_append, braceDepth_eq_zero hmargin, hclose,
      braceDepth_eq_zero hb.noBrace]
    omega

end Lines

theorem Steps.line (h : Steps depth row next) :
    LineLeads indent depth next (row.line indent 0) := by
  cases h with
  | blank =>
    exact ⟨fun h ↦ absurd rfl h, staysOpen_flat nofun (Int.natCast_nonneg depth), Int.add_zero _,
      List.not_mem_nil⟩
  | text hb hv => exact lineLeads_text indent depth hb hv
  | opening hb hv => exact lineLeads_opening indent depth hb hv
  | closing hb => exact lineLeads_closing indent next hb

variable {rows : List CodeRow} {last : Nat}

theorem toList_renderAll_cons (row : CodeRow) (rows : List CodeRow) :
    (renderAll indent 0 (row :: rows)).toList =
      row.line indent 0 ++ ['\n'] ++ (renderAll indent 0 rows).toList := by
  cases row <;> simp [renderAll, render, CodeRow.line]

theorem Leads.oneLine (h : Leads depth rows next) : ∀ row ∈ rows, '\n' ∉ row.line indent 0 := by
  induction h with
  | nil => exact List.forall_mem_nil _
  | cons hs _ ih => exact List.forall_mem_cons.mpr ⟨(hs.line indent).oneLine, ih⟩

theorem Leads.staysOpen (h : Leads depth rows next) :
    StaysOpen depth (renderAll indent 0 rows).toList ∧
      depth + braceDepth (renderAll indent 0 rows).toList = next := by
  induction h with
  | nil =>
    refine ⟨staysOpen_flat ?_ (Int.natCast_nonneg _), Int.add_zero _⟩
    simp [renderAll]
  | @cons depth next last row rows hs _ ih =>
    have hl := hs.line indent
    have hnext : (0 : Int) ≤ next := Int.natCast_nonneg next
    have hfeed : ∀ c ∈ ['\n'], c ≠ '\x7b' ∧ c ≠ '\x7d' := List.forall_mem_singleton.mpr (by decide)
    have htotal : depth + braceDepth (row.line indent 0 ++ ['\n']) = next := by
      rw [braceDepth_append, ← Int.add_assoc, hl.total]
      exact Int.add_zero _
    rw [toList_renderAll_cons, staysOpen_append, htotal, staysOpen_append, hl.total,
      braceDepth_append, ← Int.add_assoc, htotal]
    exact ⟨⟨⟨hl.opened, staysOpen_flat hfeed hnext⟩, ih.1⟩, ih.2⟩

theorem Leads.fitsDepth (h : Leads depth rows next) {before after : List (List Char)}
    {line : List Char} (hl : rows.map (CodeRow.line indent 0) ++ [[]] = before ++ line :: after) :
    FitsDepth indent (depth + braceDepth before.flatten) line := by
  induction h generalizing before with
  | nil =>
    rw [List.map_nil, List.nil_append, List.singleton_eq_append_iff] at hl
    rcases hl with ⟨-, hl⟩ | ⟨-, hl⟩
    · obtain ⟨rfl, -⟩ := List.cons.inj hl
      exact fun hne ↦ absurd rfl hne
    · cases hl
  | cons hs _ ih =>
    have hstep := hs.line indent
    rw [List.map_cons, List.cons_append] at hl
    cases before with
    | nil =>
      obtain ⟨rfl, -⟩ := List.cons.inj hl
      rw [List.flatten_nil, braceDepth_nil, Int.add_zero]
      exact hstep.fits
    | cons first before =>
      obtain ⟨rfl, htail⟩ := List.cons.inj hl
      rw [List.flatten_cons, braceDepth_append, ← Int.add_assoc, hstep.total]
      exact ih htail

/-- Lines that lead from the first level to a depth are a nested text, at the end of which so many
braces are open. -/
theorem Leads.nested (h : Leads 0 rows last) :
    Nested indent (renderAll indent 0 rows).toList ∧
      braceDepth (renderAll indent 0 rows).toList = last := by
  obtain ⟨hopen, htotal⟩ := h.staysOpen indent
  rw [Int.natCast_zero, Int.zero_add] at htotal
  refine ⟨⟨fun before line after hl ↦ ?_, fun start hs ↦ ?_⟩, htotal⟩
  · rw [splitOn_renderAll indent 0 (h.oneLine indent)] at hl
    have hfits := h.fitsDepth indent hl
    rwa [Int.natCast_zero, Int.zero_add] at hfits
  · have hstart := hopen start hs
    rwa [Int.natCast_zero, Int.zero_add] at hstart

end CodeRow

section Code

open CodeRow

variable {depth next last : Nat}

theorem CodeRow.Leads.append {rows rest : List CodeRow} (h : Leads depth rows next)
    (h' : Leads next rest last) : Leads depth (rows ++ rest) last := by
  induction h with
  | nil => exact h'
  | cons hs _ ih => exact .cons hs (ih h')

theorem CodeRow.Leads.one {row : CodeRow} (h : Steps depth row next) : Leads depth [row] next :=
  .cons h .nil

namespace Code

theorem leads_line {text : String} (hb : Bare text) (hv : Visible text) :
    Leads depth ((Code.line text).rows depth) depth := .one (.text hb hv)

theorem leads_lines {texts : List String} (h : ∀ text ∈ texts, Bare text ∧ Visible text) :
    Leads depth ((Code.lines texts).rows depth) depth := by
  rw [rows]
  induction texts with
  | nil => exact .nil
  | cons text texts ih =>
    rw [List.forall_mem_cons] at h
    exact .cons (.text h.1.1 h.1.2) (ih h.2)

theorem leads_map {α : Type} {f : α → Code} {l : List α}
    (h : ∀ a ∈ l, Leads depth ((f a).rows depth) depth) :
    Leads depth (rowsIn depth (l.map f)) depth := by
  induction l with
  | nil => exact .nil
  | cons a l ih =>
    rw [List.forall_mem_cons] at h
    exact h.1.append (ih h.2)

theorem leads_opening (start : String) (hb : Bare start) (hv : Visible start) :
    Leads depth ((Code.line (start ++ " \x7b")).rows depth) (depth + 1) := by
  have ht : start ++ " \x7b" = start ++ " " ++ "\x7b" := by
    rw [String.append_assoc]
    rfl
  rw [rows, ht]
  exact .one (.opening (bare_append.mpr ⟨hb, by decide⟩) (hv.append " "))

theorem leads_block (start rest : String) {body : List Code} (hb : Bare start)
    (hv : Visible start) (hr : Bare rest)
    (h : Leads (depth + 1) (rowsIn (depth + 1) body) (depth + 1)) :
    Leads depth ((Code.block (start ++ " \x7b") ("\x7d" ++ rest) body).rows depth) depth :=
  (leads_opening start hb hv).append (h.append (.one (.closing hr)))

end Code

end Code

end CppAst
