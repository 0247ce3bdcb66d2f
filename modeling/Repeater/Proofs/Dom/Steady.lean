/-
  Repeater/Proofs/Dom/Steady.lean
  ===============================
  **Trees that only change where they were before.**

  The flows of a page add new nodes below nodes that were there when the page was made ready, and
  take nodes out. No node ever gets another parent, and what is new stays as it was made: `Steady`
  says so relative to a tree `base`. Copies that were made since then read the same for ever after
  (`Steady.closed_new`).
-/
import Repeater.Proofs.Dom.Shapes

namespace Repeater.Dom.Tree

variable {base t t' u : Tree} {item x y p f : NodeId} {reference : Option NodeId}

theorem elementChildren_congr (hchildren : t'.children x = t.children x)
    (helement : ∀ y ∈ t.children x, t'.isElement y = t.isElement y) :
    t'.elementChildren x = t.elementChildren x := by
  unfold elementChildren
  rw [hchildren]
  exact List.filter_congr helement

/-- From `t` to `t'`, nodes that are not in `base` have stayed as they were, and no node has got a
    parent. -/
structure Steady (base t t' : Tree) : Prop where
  wellFormed : t'.WellFormed
  size_le : t.size ≤ t'.size
  parent : ∀ x p, t.Has x → t'.parent? x = some p → t.parent? x = some p
  isElement : ∀ x, t.Has x → t'.isElement x = t.isElement x
  contents : ∀ x, t.Has x → t'.contents? x = t.contents? x
  contents_old : ∀ x f, t'.contents? x = some f → t.Has f → t.Has x
  content : ∀ x, ¬ base.Has x → t.Has x → t'.content? x = t.content? x
  children : ∀ x, ¬ base.Has x → t.Has x → t'.children x = t.children x

namespace Steady

theorem refl (h : t.WellFormed) (base : Tree) : Steady base t t where
  wellFormed := h
  size_le := Nat.le_refl _
  parent _ _ _ hp := hp
  isElement _ _ := rfl
  contents _ _ := rfl
  contents_old _ _ hx _ := has_of_contents hx
  content _ _ _ := rfl
  children _ _ _ := rfl

theorem has (h : Steady base t t') (hx : t.Has x) : t'.Has x := by
  obtain ⟨i, hi, rfl⟩ := has_iff_slot.1 hx
  exact has_slot.2 (Nat.lt_of_lt_of_le hi h.size_le)

theorem trans (h : Steady base t t') (h' : Steady base t' u) : Steady base t u where
  wellFormed := h'.wellFormed
  size_le := Nat.le_trans h.size_le h'.size_le
  parent x p hx hp := h.parent x p hx (h'.parent x p (h.has hx) hp)
  isElement x hx := (h'.isElement x (h.has hx)).trans (h.isElement x hx)
  contents x hx := (h'.contents x (h.has hx)).trans (h.contents x hx)
  contents_old x f hf hhas := by
    have hx' := h'.contents_old x f hf (h.has hhas)
    rw [h'.contents x hx'] at hf
    exact h.contents_old x f hf hhas
  content x hnew hx := (h'.content x hnew (h.has hx)).trans (h.content x hnew hx)
  children x hnew hx := (h'.children x hnew (h.has hx)).trans (h.children x hnew hx)

/-- What is new holds nothing but what is new. -/
theorem closed_new (h : Steady base base t) (hbase : base.WellFormed) :
    t.Closed fun x => t.Has x ∧ ¬ base.Has x where
  children hx hy := by
    refine ⟨h.wellFormed.has_of_child hy, fun hold => hx.2 ?_⟩
    exact hbase.has_parent (h.parent _ _ hold (h.wellFormed.parent_of_child hy))
  contents hx hf := ⟨h.wellFormed.has_contents hf, fun hold => hx.2 (h.contents_old _ _ hf hold)⟩

end Steady

/-- Whether the node is there, and its parent, if it has one, was there from the start. -/
def Shallow (base t : Tree) (x : NodeId) : Prop := t.Has x ∧ ∀ p, t.parent? x = some p → base.Has p

theorem Steady.shallow (h : Steady base t t') (hx : Shallow base t x) : Shallow base t' x :=
  ⟨h.has hx.1, fun p hp => hx.2 p (h.parent x p hx.1 hp)⟩

/-! ## Edits that are steady -/

theorem Extends.steady (h : t.Extends t') (ht' : t'.WellFormed) (base : Tree) :
    Steady base t t' where
  wellFormed := ht'
  size_le := h.size_le
  parent _ _ hx hp := (h.parent? hx).symm.trans hp
  isElement _ hx := isElement_congr (h.content? hx)
  contents _ hx := h.contents? hx
  contents_old _ _ := h.contents_old
  content _ _ hx := h.content? hx
  children _ _ hx := h.children hx

theorem Extends.elementChildren (h : t.Extends t') (ht : t.WellFormed) (hx : t.Has x) :
    t'.elementChildren x = t.elementChildren x :=
  elementChildren_congr (h.children hx) fun _ hy =>
    isElement_congr (h.content? (ht.has_of_child hy))

section splice

variable (ht : t.WellFormed) (h : t.Extends u) (hu : u.WellFormed) (hf : ¬ t.Has f)
  (hspliced : u.Spliced p f reference t')
include ht h hu hf hspliced

theorem Extends.parent_of_spliced (hx : t.Has x) : t'.parent? x = t.parent? x := by
  rw [hspliced.parent, if_neg, h.parent? hx]
  intro hkid
  exact h.new_child ht (hu.parent_of_child hkid) hf hx

/-- The children of something new go below a node that was there from the start. -/
theorem Extends.steady_spliced (hp : base.Has p) : Steady base t t' where
  wellFormed := hspliced.wellFormed
  size_le := by
    rw [hspliced.size]
    exact h.size_le
  parent x q hx hq := by
    rwa [h.parent_of_spliced ht hu hf hspliced hx] at hq
  isElement x hx := isElement_congr ((hspliced.content x).trans (h.content? hx))
  contents x hx := contents?_congr ((hspliced.content x).trans (h.content? hx))
  contents_old x g hg hhas := by
    rw [contents?_congr (hspliced.content x)] at hg
    exact h.contents_old hg hhas
  content x _ hx := (hspliced.content x).trans (h.content? hx)
  children x hnew hx := by
    rw [hspliced.children_other x, h.children hx]
    · rintro rfl
      exact hnew hp
    · rintro rfl
      exact hf hx

omit hu in
/-- Elsewhere the children stay as they were. -/
theorem Extends.elementChildren_spliced (hx : t.Has x) (hxp : x ≠ p) :
    t'.elementChildren x = t.elementChildren x := by
  have hchildren : t'.children x = u.children x := by
    apply hspliced.children_other x hxp
    rintro rfl
    exact hf hx
  rw [elementChildren_congr hchildren fun y _ => isElement_congr (hspliced.content y)]
  exact h.elementChildren ht hx

end splice

theorem Detached.steady {ids : List NodeId} (h : t.Detached ids t')
    (hids : ∀ x ∈ ids, Shallow base t x) (ht : t.WellFormed) : Steady base t t' where
  wellFormed := h.wellFormed
  size_le := Nat.le_of_eq h.size.symm
  parent x p _ hp := by
    rw [h.parent] at hp
    split at hp
    · cases hp
    · exact hp
  isElement x _ := isElement_congr (h.content x)
  contents x _ := contents?_congr (h.content x)
  contents_old x f hf _ := by
    rw [contents?_congr (h.content x)] at hf
    exact has_of_contents hf
  content x _ _ := h.content x
  children x hnew _ := by
    rw [h.children, List.filter_eq_self]
    intro y hy
    rw [decide_eq_true_eq]
    intro hmem
    exact hnew ((hids y hmem).2 x (ht.parent_of_child hy))

theorem Detached.elementChildren {ids : List NodeId} (h : t.Detached ids t') (x : NodeId) :
    t'.elementChildren x = (t.elementChildren x).filter (· ∉ ids) := by
  unfold Tree.elementChildren
  rw [h.children, List.filter_filter, List.filter_filter]
  apply List.filter_congr
  intro y _
  rw [isElement_congr (h.content y), Bool.and_comm]

/-- An attribute of a node that was there from the start may change. -/
theorem steady_setElement (ht : t.WellFormed) {e e' : Element} (hx : t.element? x = some e)
    (htag : e'.tag = e.tag) (hcontents : e'.contents = e.contents) (hnames : e'.NamesDiffer)
    (hold : base.Has x) : Steady base t (t.setContent x (.element e')) := by
  have hself : (t.setContent x (.element e')).content? x = some (.element e') := by
    rw [content?_setContent, if_pos ⟨rfl, has_of_element hx⟩]
  have hother : ∀ y, y ≠ x → (t.setContent x (.element e')).content? y = t.content? y := by
    intro y hy
    rw [content?_setContent, if_neg fun hyx => hy hyx.1]
  have hsame : ∀ y, (t.setContent x (.element e')).contents? y = t.contents? y := by
    intro y
    by_cases hy : y = x
    · subst hy
      unfold contents?
      rw [element?_eq_some.2 hself, hx]
      exact hcontents
    · exact contents?_congr (hother y hy)
  constructor
  case wellFormed => exact wellFormed_setElement ht hx htag hcontents hnames
  case size_le => exact Nat.le_of_eq (size_setContent ..).symm
  case parent =>
    intro y p _ hp
    rwa [parent?_setContent] at hp
  case isElement =>
    intro y _
    by_cases hy : y = x
    · subst hy
      unfold isElement
      rw [element?_eq_some.2 hself, hx]
      rfl
    · exact isElement_congr (hother y hy)
  case contents => exact fun y _ => hsame y
  case contents_old =>
    intro y f hf _
    rw [hsame] at hf
    exact has_of_contents hf
  case content =>
    intro y hnew _
    apply hother
    rintro rfl
    exact hnew hold
  case children => exact fun y _ _ => children_setContent ..

end Repeater.Dom.Tree
