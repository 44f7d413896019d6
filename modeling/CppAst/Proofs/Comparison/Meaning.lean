import CppAst.Expression
import CppAst.Proofs.Comparison.Operators

namespace CppAst

namespace Expression

def comparisonTokens (op : Comparison) (f : Field) : List Token :=
  [.word ['l'], .dot, .word f.name.toList, .compare op, .word ['r'], .dot, .word f.name.toList]

def connectiveToken : Comparison → Token
  | .equal => .and
  | .notEqual => .or

def join : Comparison → Expression → Expression → Expression
  | .equal => and
  | .notEqual => or

def ofFields (op : Comparison) : List Field → Expression
  | [] => literal (op = .equal)
  | f :: rest => (rest.map (compareField op)).foldl (join op) (compareField op f)

section Tokens

theorem lexFrom?_wordChars {word : List Char} (h : ∀ c ∈ word, isWordChar c = true)
    (before rest : List Char) :
    lexFrom? before false (word ++ rest) = lexFrom? (before ++ word) false rest := by
  induction word generalizing before with
  | nil => simp
  | cons c word ih =>
    rw [List.forall_mem_cons] at h
    rw [List.cons_append, lexFrom?, if_pos h.1, ih h.2, List.append_assoc, List.singleton_append]

theorem lexFrom?_endWord (word : List Char) {c : Char} (hc : isWordChar c = false)
    (rest : List Char) :
    lexFrom? word false (c :: rest) = (lexFrom? [] false (c :: rest)).map (endWord word) := by
  have hn : endWord [] = id := rfl
  unfold lexFrom?
  simp only [hc, Bool.false_eq_true, if_false, hn]
  split
  · simp
  · split <;> simp [Function.comp_def]

theorem ofWord_identifier {word : List Char} (h : isIdentifier word = true) :
    Token.ofWord word = .word word := by
  simp only [isIdentifier, operatorWords, Bool.and_eq_true, Bool.not_eq_true'] at h
  have hne (operator : String) (ho : operator ∈ operatorWords) : word ≠ operator.toList := by
    rintro rfl
    simp [operatorWords] at ho h
    rcases ho with rfl | rfl | rfl | rfl | rfl | rfl | rfl | rfl | rfl | rfl | rfl <;> simp at h
  rw [Token.ofWord, if_neg (hne _ (by simp [operatorWords])), if_neg (hne _ (by simp [operatorWords])),
    if_neg (hne _ (by simp [operatorWords]))]

theorem lexFrom?_identifier {word rest : List Char} (h : isIdentifier word = true)
    (hr : ∀ c ∈ rest.head?, isWordChar c = false) :
    lexFrom? [] false (word ++ rest) = (lexFrom? [] false rest).map (.word word :: ·) := by
  have hw : word.all isWordChar = true ∧ word ≠ [] := by
    simp only [isIdentifier, Bool.and_eq_true] at h
    refine ⟨h.1.1.1, ?_⟩
    rintro rfl
    simp at h
  have he : endWord word = (.word word :: ·) := by
    funext tokens
    rw [endWord, if_neg (by simpa using hw.2), ofWord_identifier h]
  rw [lexFrom?_wordChars (List.all_eq_true.mp hw.1), List.nil_append]
  cases rest with
  | nil =>
    rw [lexFrom?, he]
    rfl
  | cons c rest => rw [lexFrom?_endWord word (hr c rfl), he]

theorem isIdentifier_operand : isIdentifier ['l'] = true ∧ isIdentifier ['r'] = true := by
  simp [isIdentifier, keywords, operatorWords, isWordChar]

theorem lexFrom?_member {v : Char} (hv : isIdentifier [v] = true) {f rest : List Char}
    (hf : isIdentifier f = true) (hr : ∀ c ∈ rest.head?, isWordChar c = false) :
    lexFrom? [] false (v :: '.' :: f ++ rest) =
      (lexFrom? [] false rest).map ([.word [v], .dot, .word f] ++ ·) := by
  have hdot : lexFrom? [] false ('.' :: (f ++ rest)) =
      (lexFrom? [] false (f ++ rest)).map (.dot :: ·) := by
    simp [lexFrom?, isWordChar, endWord, Text.isBlank, symbol?]
  have hhead : ∀ c ∈ ('.' :: (f ++ rest)).head?, isWordChar c = false := by simp [isWordChar]
  have h := lexFrom?_identifier hv hhead
  rw [List.singleton_append] at h
  rw [List.cons_append, List.cons_append, h, hdot, lexFrom?_identifier hf hr]
  simp [Function.comp_def]

theorem lexFrom?_between (op : Comparison) (rest : List Char) :
    lexFrom? [] false (' ' :: op.operator.toList ++ ' ' :: rest) =
      (lexFrom? [] false rest).map (.compare op :: ·) ∧
    lexFrom? [] false (op.connective.toList ++ rest) =
      (lexFrom? [] false rest).map (connectiveToken op :: ·) := by
  have hn : endWord [] = id := rfl
  cases op <;>
    simp [lexFrom?, isWordChar, hn, Text.isBlank, symbol?, Comparison.operator, Comparison.connective,
      connectiveToken]

theorem lexFrom?_comparison (op : Comparison) {f : Field} {rest : List Char}
    (hf : isIdentifier f.name.toList = true) (hr : ∀ c ∈ rest.head?, isWordChar c = false) :
    lexFrom? [] false (s!"l.{f.name} {op.operator} r.{f.name}".toList ++ rest) =
      (lexFrom? [] false rest).map (comparisonTokens op f ++ ·) := by
  have ht : s!"l.{f.name} {op.operator} r.{f.name}".toList ++ rest =
      'l' :: '.' :: f.name.toList ++ (' ' :: op.operator.toList ++
        ' ' :: ('r' :: '.' :: f.name.toList ++ rest)) := by
    simp [toString]
  rw [ht, lexFrom?_member isIdentifier_operand.1 hf (by simp [isWordChar]),
    (lexFrom?_between op _).1, lexFrom?_member isIdentifier_operand.2 hf hr]
  simp [comparisonTokens, Function.comp_def]

theorem expression_cons_cons (op : Comparison) (f g : Field) (rest : List Field) :
    op.expression (f :: g :: rest) =
      s!"l.{f.name} {op.operator} r.{f.name}" ++ op.connective ++ op.expression (g :: rest) := by
  simp [Comparison.expression]

theorem lexFrom?_expression (op : Comparison) (f : Field) (rest : List Field)
    (hf : ∀ g ∈ f :: rest, isIdentifier g.name.toList = true) :
    lexFrom? [] false (op.expression (f :: rest)).toList =
      some ([connectiveToken op].intercalate ((f :: rest).map (comparisonTokens op))) := by
  rw [List.forall_mem_cons] at hf
  induction rest generalizing f with
  | nil =>
    have hhead : ∀ c ∈ ([] : List Char).head?, isWordChar c = false := by simp
    have h := lexFrom?_comparison op hf.1 hhead
    simpa [Comparison.expression, lexFrom?, endWord] using h
  | cons g rest ih =>
    have hg := List.forall_mem_cons.mp hf.2
    have hr : ∀ c ∈ (op.connective.toList ++ (op.expression (g :: rest)).toList).head?,
        isWordChar c = false := by
      cases op <;> simp [Comparison.connective, isWordChar]
    rw [expression_cons_cons, String.toList_append, String.toList_append, List.append_assoc,
      lexFrom?_comparison op hf.1 hr, (lexFrom?_between op _).2, ih g hg]
    simp

end Tokens

section Terms

theorem mapM_map {α β γ : Type} (f : α → β) (g : β → Option γ) (h : α → γ) {l : List α}
    (hl : ∀ a ∈ l, g (f a) = some (h a)) : (l.map f).mapM g = some (l.map h) := by
  induction l with
  | nil => rfl
  | cons a l ih =>
    rw [List.forall_mem_cons] at hl
    simp [hl.1, ih hl.2]

theorem primary?_operand : primary? ['l'] = some (name "l") ∧ primary? ['r'] = some (name "r") := by
  simp [primary?, isIdentifier_operand]

theorem equality?_comparisonTokens (op : Comparison) {f : Field}
    (hf : isIdentifier f.name.toList = true) :
    equality? (comparisonTokens op f) = some (compareField op f) := by
  simp [comparisonTokens, equality?, operands, operand?, members?, hf, primary?_operand,
    compareField]

theorem connectiveToken_not_mem (op op' : Comparison) (f : Field) :
    connectiveToken op' ∉ comparisonTokens op f := by
  cases op' <;> simp [comparisonTokens, connectiveToken]

theorem mem_intercalate {α : Type} {a x : α} {ls : List (List α)} (h : a ∈ [x].intercalate ls) :
    a = x ∨ ∃ l ∈ ls, a ∈ l := by
  induction ls with
  | nil => simp at h
  | cons l ls ih =>
    cases ls with
    | nil => exact .inr ⟨l, by simp, by simpa using h⟩
    | cons l' ls =>
      simp only [List.intercalate_cons_cons, List.mem_append, List.mem_singleton] at h
      rcases h with (h | rfl) | h
      · exact .inr ⟨l, by simp, h⟩
      · exact .inl rfl
      · rcases ih h with rfl | ⟨m, hm, ha⟩
        · exact .inl rfl
        · exact .inr ⟨m, List.mem_cons_of_mem _ hm, ha⟩

theorem conjunction?_eq_equality? {tokens : List Token} (h : .and ∉ tokens) :
    conjunction? tokens = equality? tokens := by
  rw [conjunction?, List.splitOn_eq_singleton h]
  cases ht : equality? tokens <;> simp [ht, chain?]

theorem disjunction?_eq_conjunction? {tokens : List Token} (h : .or ∉ tokens) :
    disjunction? tokens = conjunction? tokens := by
  rw [disjunction?, List.splitOn_eq_singleton h]
  cases hc : conjunction? tokens <;> simp [hc, chain?]

theorem disjunction?_expression (op : Comparison) (f : Field) (rest : List Field)
    (hf : ∀ g ∈ f :: rest, isIdentifier g.name.toList = true) :
    disjunction? ([connectiveToken op].intercalate ((f :: rest).map (comparisonTokens op))) =
      some (ofFields op (f :: rest)) := by
  have hx : ∀ w ∈ (f :: rest).map (comparisonTokens op), ∀ op', connectiveToken op' ∉ w := by
    intro w hw op'
    obtain ⟨g, -, rfl⟩ := List.mem_map.mp hw
    exact connectiveToken_not_mem op op' g
  have hs := List.splitOn_intercalate (connectiveToken op) (fun w hw ↦ hx w hw op)
    (List.cons_ne_nil _ _)
  cases op with
  | equal =>
    -- No token is `||`, so the whole expression is one conjunction.
    have ho : Token.or ∉
        [connectiveToken .equal].intercalate ((f :: rest).map (comparisonTokens .equal)) := by
      intro h
      rcases mem_intercalate h with h | ⟨w, hw, h⟩
      · cases h
      · exact hx w hw .notEqual h
    rw [disjunction?_eq_conjunction? ho, conjunction?]
    rw [connectiveToken] at hs ⊢
    rw [hs, mapM_map _ _ _ fun g hg ↦ equality?_comparisonTokens .equal (hf g hg)]
    rfl
  | notEqual =>
    -- Each comparison is a conjunction of its own.
    have hc : ∀ g ∈ f :: rest,
        conjunction? (comparisonTokens .notEqual g) = some (compareField .notEqual g) := by
      intro g hg
      rw [conjunction?_eq_equality? (connectiveToken_not_mem .notEqual .equal g),
        equality?_comparisonTokens .notEqual (hf g hg)]
    rw [disjunction?]
    rw [connectiveToken] at hs ⊢
    rw [hs, mapM_map _ _ _ hc]
    rfl

/-- What is written for an operator reads as the expression that compares all fields. -/
theorem read?_expression (op : Comparison) {fields : List Field}
    (hf : ∀ f ∈ fields, isIdentifier f.name.toList = true) :
    read? (op.expression fields) = some (ofFields op fields) := by
  cases fields with
  | nil => cases op <;> decide
  | cons f rest =>
    rw [read?, lexFrom?_expression op f rest hf, Option.bind_some,
      disjunction?_expression op f rest hf]

end Terms

section Values

theorem terms_foldl (op : Comparison) (e : Expression) (rest : List Expression) :
    (rest.foldl (join op) e).terms = e.terms ++ rest.flatMap terms := by
  induction rest generalizing e with
  | nil => simp
  | cons e' rest ih =>
    have hj : (join op e e').terms = e.terms ++ e'.terms := by cases op <;> rfl
    simp [ih, hj]

theorem terms_ofFields (op : Comparison) (fields : List Field) :
    (ofFields op fields).terms =
      if fields = [] then [literal (op = .equal)] else fields.map (compareField op) := by
  cases fields with
  | nil => rfl
  | cons f rest =>
    rw [ofFields, terms_foldl, List.flatMap_map]
    simp [terms, compareField, ← List.map_eq_flatMap]

variable {V : String → Type u} (ops : ∀ field, Equality (V field)) (l r : ∀ field, V field)

theorem eval_compareField (op : Comparison) (f : Field) :
    (compareField op f).eval ops l r =
      some (.bool ((ops f.name).compare op (l f.name) (r f.name))) := by
  simp [compareField, eval, Value.compare?]

theorem eval_foldl_and {e : Expression} {b : Bool} (he : e.eval ops l r = some (.bool b))
    (rest : List Field) :
    ((rest.map (compareField .equal)).foldl and e).eval ops l r =
      some (.bool (b && rest.all fun f ↦ (ops f.name).equal (l f.name) (r f.name))) := by
  induction rest generalizing e b with
  | nil => simpa using he
  | cons f rest ih =>
    have hf := eval_compareField ops l r .equal f
    have ha : (and e (compareField .equal f)).eval ops l r =
        some (.bool (b && (ops f.name).equal (l f.name) (r f.name))) := by
      cases b <;> simp [eval, he, hf, Value.bool?, Equality.compare]
    rw [List.map_cons, List.foldl_cons, ih ha, List.all_cons, Bool.and_assoc]

theorem eval_foldl_or {e : Expression} {b : Bool} (he : e.eval ops l r = some (.bool b))
    (rest : List Field) :
    ((rest.map (compareField .notEqual)).foldl or e).eval ops l r =
      some (.bool (b || rest.any fun f ↦ (ops f.name).notEqual (l f.name) (r f.name))) := by
  induction rest generalizing e b with
  | nil => simpa using he
  | cons f rest ih =>
    have hf := eval_compareField ops l r .notEqual f
    have ho : (or e (compareField .notEqual f)).eval ops l r =
        some (.bool (b || (ops f.name).notEqual (l f.name) (r f.name))) := by
      cases b <;> simp [eval, he, hf, Value.bool?, Equality.compare]
    rw [List.map_cons, List.foldl_cons, ih ho, List.any_cons, Bool.or_assoc]

def agree (fields : List Field) : Bool :=
  fields.all fun f ↦ (ops f.name).equal (l f.name) (r f.name)

theorem agree_iff (fields : List Field) :
    agree ops l r fields = true ↔ ∀ f ∈ fields, l f.name = r f.name := by
  simp [agree, Equality.equal_iff]

theorem eval_equal (fields : List Field) :
    (ofFields .equal fields).eval ops l r = some (.bool (agree ops l r fields)) := by
  cases fields with
  | nil => rfl
  | cons f rest => exact eval_foldl_and ops l r (eval_compareField ops l r .equal f) rest

theorem eval_notEqual (fields : List Field) :
    (ofFields .notEqual fields).eval ops l r = some (.bool !agree ops l r fields) := by
  cases fields with
  | nil => rfl
  | cons f rest =>
    have h := eval_foldl_or ops l r (eval_compareField ops l r .notEqual f) rest
    rw [ofFields]
    rw [Equality.compare] at h
    simpa [join, agree, Equality.notEqual_eq, List.not_all_eq_any_not, Function.comp_def] using h

theorem agree_update {fields : List Field} (h : ∀ f ∈ fields, l f.name = r f.name) {f : Field}
    (hf : f ∈ fields) {v : V f.name} (hv : v ≠ r f.name) :
    agree ops l (Function.update r f.name v) fields = false := by
  rw [← Bool.not_eq_true, agree_iff]
  intro hall
  have hu := hall f hf
  rw [Function.update_self, h f hf] at hu
  exact hv hu.symm

end Values

end Expression

/-- The operators of each struct whose fields are named by identifiers compare it field by field. -/
theorem operators_compare_fields {nodes : List Node} {position : List Nat} {path : TypePath}
    {fields : List Field} (hs : Node.structAt? nodes position = some (path, fields))
    (hf : ∀ f ∈ fields, Expression.isIdentifier f.name.toList = true) :
    ∃ e : Comparison → Expression, Comparison.Means.{u} nodes path fields e := by
  refine ⟨fun op ↦ Expression.ofFields op fields, ⟨?_, ?_, ?_, ?_, ?_⟩⟩
  · obtain ⟨i, hi⟩ := List.mem_iff_getElem?.mp (Comparison.mem_structsIn_root hs)
    refine ⟨i, fun op ↦ ⟨?_, ?_, fun indent level ↦ op.render_definitions nodes indent level⟩⟩
    · rw [Comparison.signatures, List.getElem?_map, hi, Option.map_some]
    · rw [Comparison.bodies, List.getElem?_map, hi, Option.map_some]
  · exact fun op ↦ Expression.read?_expression op hf
  · exact fun op ↦ Expression.terms_ofFields op fields
  · exact fun ops l r ↦ ⟨_, Expression.eval_equal ops l r fields,
      Expression.eval_notEqual ops l r fields, Expression.agree_iff ops l r fields⟩
  · intro V ops l r h f hf v hv
    have ht := (Expression.agree_iff ops l r fields).mpr h
    have hu := Expression.agree_update ops l r h hf hv
    simp [Expression.eval_equal, Expression.eval_notEqual, ht, hu]

theorem operators_compare_fields_pair :
    let nodes : List Node := [.enum "Kind" [], .struct "Pair" [.struct "Unit" [] []]
      [⟨"first", "int"⟩, ⟨"and_then", "Unit"⟩]]
    let fields : List Field := [⟨"first", "int"⟩, ⟨"and_then", "Unit"⟩]
    Node.structAt? nodes [1] = some (⟨["Pair"]⟩, fields) ∧
    (∀ f ∈ fields, Expression.isIdentifier f.name.toList = true) ∧
    ∃ e : Comparison → Expression, Comparison.Means.{0} nodes ⟨["Pair"]⟩ fields e := by
  intro nodes fields
  have hs : Node.structAt? nodes [1] = some (⟨["Pair"]⟩, fields) := rfl
  have hf : ∀ f ∈ fields, Expression.isIdentifier f.name.toList = true := by
    simp [fields, Expression.isIdentifier, Expression.keywords, Expression.operatorWords,
      Expression.isWordChar]
  exact ⟨hs, hf, operators_compare_fields hs hf⟩

/-- A field that is named by no identifier can fall apart into the parts of another expression. -/
theorem operators_of_disjunction :
    let nodes : List Node := [.struct "S" [] [⟨"x||true", "int"⟩]]
    let fields : List Field := [⟨"x||true", "int"⟩]
    Node.structAt? nodes [0] = some (⟨["S"]⟩, fields) ∧
    (∀ f ∈ fields, ∀ c ∈ f.name.toList, ¬ Text.isBlank c) ∧
    ¬ ∃ e : Comparison → Expression, Comparison.Means.{0} nodes ⟨["S"]⟩ fields e := by
  intro nodes fields
  refine ⟨rfl, ?_, ?_⟩
  · simp [fields, Text.isBlank]
  · rintro ⟨e, h⟩
    have hr : Expression.read? (Comparison.expression .equal fields) =
        some (.or (.or (.member (.name "l") "x")
          (.compare .equal (.literal true) (.member (.name "r") "x"))) (.literal true)) := by
      decide
    have he := (h.read .equal).symm.trans hr
    have ht := h.terms .equal
    rw [Option.some_inj.mp he] at ht
    simp [Expression.terms, fields] at ht

end CppAst
