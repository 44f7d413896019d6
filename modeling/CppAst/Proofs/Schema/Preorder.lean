import CppAst.Schema.Position
import Mathlib.Data.List.Basic

namespace CppAst.Node

theorem chain?_cons_eq_some {i : Nat} {p : List Nat} {nodes chain : List Node} :
    chain? (i :: p) nodes = some chain ↔ ∃ node inner, nodes[i]? = some node ∧
      chain? p node.subnodes = some inner ∧ chain = node :: inner := by
  rw [chain?]
  cases nodes[i]? with
  | none => simp
  | some node =>
    simp only [Option.map_eq_some_iff, Option.some.injEq]
    constructor
    · rintro ⟨inner, hi, rfl⟩
      exact ⟨node, inner, rfl, hi, rfl⟩
    · rintro ⟨_, inner, rfl, hi, rfl⟩
      exact ⟨inner, hi, rfl⟩

theorem chain?_zero (p : List Nat) (node : Node) (rest : List Node) :
    chain? (0 :: p) (node :: rest) = (chain? p node.subnodes).map (node :: ·) := by
  simp [chain?]

theorem chain?_succ (j : Nat) (p : List Nat) (node : Node) (rest : List Node) :
    chain? ((j + 1) :: p) (node :: rest) = chain? (j :: p) rest := by
  simp [chain?]

mutual

theorem mem_walk {p : List Nat} {chain : List Node} : ∀ {node : Node},
    (p, chain) ∈ node.walk ↔ chain? p node.subnodes = some chain
  | .struct name nodes fields => by
    rw [walk, List.mem_cons, mem_walkFrom, subnodes]
    constructor
    · rintro (h | ⟨j, p', rfl, h⟩)
      · obtain ⟨rfl, rfl⟩ := Prod.mk.inj h
        rfl
      · rwa [Nat.zero_add]
    · intro h
      cases p with
      | nil => exact .inl (by rw [← Option.some_inj.mp h])
      | cons j p' => exact .inr ⟨j, p', by rw [Nat.zero_add], h⟩
  | .enum name elements => by
    cases p <;> simp [walk, chain?, subnodes, eq_comm]

theorem mem_walkFrom {i : Nat} {p : List Nat} {chain : List Node} : ∀ {nodes : List Node},
    (p, chain) ∈ walkFrom i nodes ↔
      ∃ j p', p = (i + j) :: p' ∧ chain? (j :: p') nodes = some chain
  | [] => by simp [walkFrom, chain?]
  | node :: rest => by
    simp only [walkFrom, List.mem_append, List.mem_map, Prod.exists, Prod.mk.injEq]
    constructor
    · rintro (⟨p', chain', h, rfl, rfl⟩ | h)
      · exact ⟨0, p', rfl, by rw [chain?_zero, mem_walk.mp h, Option.map_some]⟩
      · obtain ⟨j, p', rfl, hc⟩ := mem_walkFrom.mp h
        exact ⟨j + 1, p', by rw [Nat.add_right_comm, Nat.add_assoc], by rw [chain?_succ, hc]⟩
    · rintro ⟨j, p', rfl, h⟩
      cases j with
      | zero =>
        rw [chain?_zero, Option.map_eq_some_iff] at h
        obtain ⟨chain', h, rfl⟩ := h
        exact .inl ⟨p', chain', mem_walk.mpr h, rfl, rfl⟩
      | succ j =>
        rw [chain?_succ] at h
        exact .inr (mem_walkFrom.mpr ⟨j, p', by rw [Nat.add_right_comm, Nat.add_assoc], h⟩)

end

mutual

theorem walk_sorted : ∀ node : Node, node.walk.Pairwise fun v w ↦ v.1 < w.1
  | .struct name subnodes fields => by
    rw [walk, List.pairwise_cons]
    refine ⟨?_, walkFrom_sorted 0 subnodes⟩
    rintro ⟨p, chain⟩ hp
    obtain ⟨j, p', rfl, -⟩ := mem_walkFrom.mp hp
    exact List.nil_lt_cons _ _
  | .enum name elements => by simp [walk]

theorem walkFrom_sorted (i : Nat) : ∀ nodes : List Node,
    (walkFrom i nodes).Pairwise fun v w ↦ v.1 < w.1
  | [] => by simp [walkFrom]
  | node :: rest => by
    rw [walkFrom, List.pairwise_append, List.pairwise_map]
    refine ⟨(walk_sorted node).imp fun h ↦ List.cons_lt_cons_self.mpr h,
      walkFrom_sorted (i + 1) rest, ?_⟩
    rintro v hv ⟨q, chain⟩ hq
    obtain ⟨w, -, rfl⟩ := List.mem_map.mp hv
    obtain ⟨j, q', rfl, -⟩ := mem_walkFrom.mp hq
    exact List.cons_lt_cons_iff.mpr (.inl (by omega))

end

theorem mem_walkFrom_zero {p : List Nat} {chain : List Node} {nodes : List Node} :
    (p, chain) ∈ walkFrom 0 nodes ↔ p ≠ [] ∧ chain? p nodes = some chain := by
  rw [mem_walkFrom]
  cases p with
  | nil => simp
  | cons i p =>
    constructor
    · rintro ⟨j, p', hp, h⟩
      obtain ⟨rfl, rfl⟩ := List.cons.inj hp
      exact ⟨List.cons_ne_nil _ _, by rwa [Nat.zero_add]⟩
    · intro h
      exact ⟨i, p, by rw [Nat.zero_add], h.2⟩

theorem chain_ne_nil {i : Nat} {nodes : List Node} {w : List Nat × List Node}
    (h : w ∈ walkFrom i nodes) : w.2 ≠ [] := by
  obtain ⟨p, chain⟩ := w
  obtain ⟨j, p', -, hc⟩ := mem_walkFrom.mp h
  obtain ⟨node, inner, -, -, rfl⟩ := chain?_cons_eq_some.mp hc
  exact List.cons_ne_nil _ _

theorem map_some_filterMap {α β : Type} (f : α → Option β) (l : List α) :
    (l.filterMap f).map some = (l.filter fun a ↦ (f a).isSome).map f := by
  induction l with
  | nil => rfl
  | cons a l ih => cases h : f a <;> simp [h, ih]

/-- `ofNodes` lists in pre-order what `found?` finds at the end of the chains of nodes below a path. -/
structure Collects {α : Type} (found? : TypePath → List Node → Option α)
    (ofNode : TypePath → Node → List α) (ofNodes : TypePath → List Node → List α) : Prop where
  inner : ∀ (parent : TypePath) (node : Node) {chain : List Node}, chain ≠ [] →
    found? parent (node :: chain) = found? (parent.child node.name) chain
  node : ∀ parent node, ofNode parent node =
    (found? parent [node]).toList ++ ofNodes (parent.child node.name) node.subnodes
  nil : ∀ parent, ofNodes parent [] = []
  cons : ∀ parent node rest, ofNodes parent (node :: rest) = ofNode parent node ++ ofNodes parent rest

namespace Collects

variable {α : Type} {found? : TypePath → List Node → Option α} {ofNode : TypePath → Node → List α}
  {ofNodes : TypePath → List Node → List α} (h : Collects found? ofNode ofNodes)
include h

mutual

theorem eq_filterMap_walk (parent : TypePath) : ∀ node : Node,
    ofNode parent node = node.walk.filterMap fun w ↦ found? parent (node :: w.2)
  | .struct name nodes fields => by
    have hr : (walkFrom 0 nodes).filterMap (fun w ↦ found? (parent.child name) w.2) =
        (walkFrom 0 nodes).filterMap fun w ↦ found? parent (.struct name nodes fields :: w.2) :=
      List.filterMap_congr fun w hw ↦
        (h.inner parent (.struct name nodes fields) (chain_ne_nil hw)).symm
    rw [h.node, walk, List.filterMap_cons, ← hr]
    change _ ++ ofNodes (parent.child name) nodes = _
    rw [eq_filterMap_walkFrom (parent.child name) 0 nodes]
    cases found? parent [.struct name nodes fields] <;> rfl
  | .enum name elements => by
    rw [h.node, walk, List.filterMap_cons]
    change _ ++ ofNodes (parent.child name) [] = _
    rw [h.nil, List.append_nil]
    cases found? parent [.enum name elements] <;> rfl

theorem eq_filterMap_walkFrom (parent : TypePath) (i : Nat) : ∀ nodes : List Node,
    ofNodes parent nodes = (walkFrom i nodes).filterMap fun w ↦ found? parent w.2
  | [] => by rw [h.nil, walkFrom, List.filterMap_nil]
  | node :: rest => by
    rw [h.cons, eq_filterMap_walk parent node, eq_filterMap_walkFrom parent (i + 1) rest, walkFrom,
      List.filterMap_append, List.filterMap_map]
    rfl

end

theorem exists_positions {parent : TypePath} (hf : found? parent [] = none) (nodes : List Node) :
    ∃ positions : List (List Nat), positions.Pairwise (· < ·) ∧
      (∀ p, p ∈ positions ↔ ((chain? p nodes).bind (found? parent)).isSome) ∧
      (ofNodes parent nodes).map some =
        positions.map fun p ↦ (chain? p nodes).bind (found? parent) := by
  let visits := (walkFrom 0 nodes).filter fun w ↦ (found? parent w.2).isSome
  have hv : ∀ w ∈ visits, (chain? w.1 nodes).bind (found? parent) = found? parent w.2 := fun w hw ↦ by
    rw [(mem_walkFrom_zero.mp (List.mem_filter.mp hw).1).2, Option.bind_some]
  refine ⟨visits.map Prod.fst, ?_, fun p ↦ ⟨?_, ?_⟩, ?_⟩
  · rw [List.pairwise_map]
    exact (walkFrom_sorted 0 nodes).filter _
  · intro hp
    obtain ⟨w, hw, rfl⟩ := List.mem_map.mp hp
    rw [hv w hw]
    exact (List.mem_filter.mp hw).2
  · intro hp
    obtain ⟨a, ha⟩ := Option.isSome_iff_exists.mp hp
    obtain ⟨chain, hc, ha⟩ := Option.bind_eq_some_iff.mp ha
    have hne : p ≠ [] := by
      rintro rfl
      cases hc
      rw [hf] at ha
      cases ha
    have hw : (p, chain) ∈ walkFrom 0 nodes := mem_walkFrom_zero.mpr ⟨hne, hc⟩
    exact List.mem_map.mpr ⟨(p, chain), List.mem_filter.mpr ⟨hw, by simp [ha]⟩, rfl⟩
  · rw [h.eq_filterMap_walkFrom parent 0 nodes, map_some_filterMap, List.map_map]
    exact List.map_congr_left fun w hw ↦ (hv w hw).symm

end Collects

end CppAst.Node
