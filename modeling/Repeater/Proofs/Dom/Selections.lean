/-
  Repeater/Proofs/Dom/Selections.lean
  ===================================
  **What a selector finds, and in which order.**

  A walk that is given enough steps meets the same nodes whatever their number (`Meets`), so that
  the nodes below a node are those of its children, one after the other (`descendants_eq_flatMap`).
  Nodes with one inside have corresponding nodes below them in one order, and a selector finds the
  corresponding ones (`Isomorphism.selectFrom_eq`).
-/
import Repeater.Proofs.Dom.Isomorphisms

namespace Repeater.Dom.Tree

variable {t t' : Tree} {r s c x y : NodeId}

/-! ## Walks that are not cut short -/

/-- The walk from the pending nodes meets these nodes and then comes to an end. -/
def Meets (t : Tree) (pending ids : List NodeId) : Prop :=
  ∃ steps, t.walk steps pending = ids ∧ ids.length < steps

theorem Meets.unique {pending ids ids' : List NodeId} (h : t.Meets pending ids)
    (h' : t.Meets pending ids') : ids = ids' := by
  obtain ⟨steps, rfl, hlength⟩ := h
  obtain ⟨steps', rfl, hlength'⟩ := h'
  rcases Nat.le_total steps steps' with hle | hle
  · exact (walk_of_length_lt hlength hle).symm
  · exact walk_of_length_lt hlength' hle

theorem Meets.cons {rest ids : List NodeId} (h : t.Meets (t.children x ++ rest) ids) :
    t.Meets (x :: rest) (x :: ids) := by
  obtain ⟨steps, rfl, hlength⟩ := h
  exact ⟨steps + 1, rfl, by simpa using hlength⟩

theorem Meets.append {first rest ids ids' : List NodeId} (h : t.Meets first ids)
    (h' : t.Meets rest ids') : t.Meets (first ++ rest) (ids ++ ids') := by
  obtain ⟨steps, rfl, hlength⟩ := h
  induction steps generalizing first with
  | zero => omega
  | succ steps ih =>
    cases first with
    | nil => exact h'
    | cons x pending =>
      rw [walk] at hlength ⊢
      have hless : (t.walk steps (t.children x ++ pending)).length < steps := by
        simpa using hlength
      have hmore := ih hless
      rw [List.append_assoc] at hmore
      exact hmore.cons

theorem meets_descendants (h : t.WellFormed) (hr : t.Has r) :
    t.Meets (t.children r) (t.descendants r) :=
  ⟨t.size, rfl, length_descendants_lt h hr⟩

/-- The nodes at and below some nodes are listed node by node. -/
theorem meets_flatMap (h : t.WellFormed) {ids : List NodeId} (hhas : ∀ x ∈ ids, t.Has x) :
    t.Meets ids (ids.flatMap fun x => x :: t.descendants x) := by
  induction ids with
  | nil => exact ⟨1, rfl, Nat.one_pos⟩
  | cons x rest ih =>
    have hone : t.Meets [x] (x :: t.descendants x) := by
      apply Meets.cons
      rw [List.append_nil]
      exact meets_descendants h (hhas x (by simp))
    exact hone.append (ih fun y hy => hhas y (by simp [hy]))

theorem descendants_eq_flatMap (h : t.WellFormed) (r : NodeId) :
    t.descendants r = (t.children r).flatMap fun x => x :: t.descendants x := by
  by_cases hr : t.Has r
  · exact (meets_descendants h hr).unique (meets_flatMap h fun x hx => h.has_of_child hx)
  · have hnone : t.children r = [] := children_of_not_has hr
    rw [hnone, List.flatMap_nil, descendants_eq_nil hnone]

theorem length_descendants_child (h : t.WellFormed) (hx : x ∈ t.children r) :
    (t.descendants x).length < (t.descendants r).length := by
  have hsub := List.sublist_flatten_of_mem
    (List.mem_map.2 ⟨x, hx, rfl⟩ : (x :: t.descendants x) ∈
      (t.children r).map fun x => x :: t.descendants x)
  rw [← List.flatMap_def, ← descendants_eq_flatMap h] at hsub
  have := hsub.length_le
  rw [List.length_cons] at this
  omega

theorem selectFrom_eq (t : Tree) (r : NodeId) (selector : Selector) :
    t.selectFrom r selector =
      (r :: t.descendants r).filter fun x => t.satisfies x selector := by
  unfold selectFrom select
  rw [List.filter_cons]

/-! ## Nodes with one inside -/

namespace Isomorphism

variable {φ : NodeId → NodeId}

theorem enclosed_child (hx : t.AtOrEncloses s x) (ht : t.WellFormed) (hy : y ∈ t.children x) :
    t.AtOrEncloses s y := hx.trans (encloses_of_parent (ht.parent_of_child hy)).atOrEncloses

theorem walk_eq (h : t.Isomorphism s t' c φ) (ht : t.WellFormed) (steps : Nat)
    {pending : List NodeId} (hpending : ∀ x ∈ pending, t.AtOrEncloses s x) :
    t'.walk steps (pending.map φ) = (t.walk steps pending).map φ := by
  induction steps generalizing pending with
  | zero => cases pending <;> rfl
  | succ steps ih =>
    cases pending with
    | nil => rfl
    | cons x rest =>
      have hx := hpending x (by simp)
      rw [List.map_cons, walk, walk, h.children hx, ← List.map_append, ih, List.map_cons]
      intro y hy
      rcases List.mem_append.1 hy with hy | hy
      · exact enclosed_child hx ht hy
      · exact hpending y (by simp [hy])

theorem descendants_eq (h : t.Isomorphism s t' c φ) (ht : t.WellFormed) (ht' : t'.WellFormed)
    (hx : t.AtOrEncloses s x) (hhas : t.Has x) (hhas' : t'.Has (φ x)) :
    t'.descendants (φ x) = (t.descendants x).map φ := by
  refine (meets_descendants ht' hhas').unique ?_
  obtain ⟨steps, hwalk, hlength⟩ := meets_descendants ht hhas
  refine ⟨steps, ?_, by rwa [List.length_map]⟩
  rw [h.children hx, h.walk_eq ht steps fun y hy => enclosed_child hx ht hy, hwalk]

theorem has (h : t.Isomorphism s t' c φ) (hx : t.AtOrEncloses s x) (hhas : t.Has x) :
    t'.Has (φ x) := by
  obtain ⟨content, hcontent⟩ := has_iff_content.1 hhas
  have hbare := h.bare hx
  rw [hcontent] at hbare
  obtain ⟨content', hcontent', -⟩ := Option.map_eq_some_iff.1 hbare
  exact has_of_content hcontent'

theorem accepts_congr {e e' : Element} (htag : e'.tag = e.tag)
    (hattributes : e'.attributes = e.attributes) (selector : Selector) :
    selector.accepts e' = selector.accepts e := by
  have hget : ∀ name, e'.get? name = e.get? name := by
    intro name
    unfold Element.get?
    rw [hattributes]
  cases selector <;> simp [Selector.accepts, Element.classes, htag, hget]

theorem satisfies_eq (h : t.Isomorphism s t' c φ) (hx : t.AtOrEncloses s x)
    (selector : Selector) : t'.satisfies (φ x) selector = t.satisfies x selector := by
  unfold satisfies
  rcases he : t.element? x with _ | e
  · rw [element?, h.content_of_plain hx he, ← element?, he]
  · obtain ⟨e', he', htag, hattributes, -⟩ := h.element_of_element hx he
    rw [he', Option.any_some, Option.any_some, accepts_congr htag hattributes]

theorem attribute?_eq (h : t.Isomorphism s t' c φ) (hx : t.AtOrEncloses s x) (name : String) :
    t'.attribute? (φ x) name = t.attribute? x name := by
  unfold attribute?
  rcases he : t.element? x with _ | e
  · rw [element?, h.content_of_plain hx he, ← element?, he]
  · obtain ⟨e', he', -, hattributes, -⟩ := h.element_of_element hx he
    rw [he', Option.bind_some, Option.bind_some, Element.get?, hattributes, ← Element.get?]

theorem selectFrom_eq (h : t.Isomorphism s t' c φ) (ht : t.WellFormed) (ht' : t'.WellFormed)
    (hx : t.AtOrEncloses s x) (hhas : t.Has x) (selector : Selector) :
    t'.selectFrom (φ x) selector = (t.selectFrom x selector).map φ := by
  rw [Tree.selectFrom_eq, Tree.selectFrom_eq, h.descendants_eq ht ht' hx hhas (h.has hx hhas),
    ← List.map_cons, List.filter_map]
  congr 1
  refine List.filter_congr fun y hy => h.satisfies_eq ?_ selector
  rcases List.mem_cons.1 hy with rfl | hy
  · exact hx
  · exact hx.trans ((mem_descendants ht).1 hy).encloses.atOrEncloses

/-- What is above and what is below correspond as well. -/
theorem above_iff (h : t.Isomorphism s t' c φ) (ht : t.WellFormed) (ht' : t'.WellFormed)
    (hx : t.AtOrEncloses s x) (hy : t.AtOrEncloses s y) (hhas : t.Has x) :
    t'.Above (φ x) (φ y) ↔ t.Above x y := by
  rw [← mem_descendants ht', ← mem_descendants ht,
    h.descendants_eq ht ht' hx hhas (h.has hx hhas), List.mem_map]
  constructor
  · rintro ⟨z, hz, hzy⟩
    have hsz := hx.trans ((mem_descendants ht).1 hz).encloses.atOrEncloses
    exact h.injective hsz hy hzy ▸ hz
  · exact fun hmem => ⟨y, hmem, rfl⟩

end Isomorphism

end Repeater.Dom.Tree
