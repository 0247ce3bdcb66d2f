/-
  Repeater/Proofs/Dom/Lasting.lean
  ================================
  **What lasts when new nodes come and some nodes go.**

  A page adds nodes, takes nodes out of where they are, and puts a mark on the roots of its scopes.
  `Lasting` says what this leaves of the nodes that were there before: they say what they said, but
  for the mark; the nodes struck out have lost their parent and all others have kept it; the
  children of a node are the ones it had, in their order, less those struck out, with new nodes
  among them. Some nodes lie `apart`; nothing new comes among their children.
-/
import Repeater.Proofs.Dom.Steady

namespace Repeater.Dom

theorem Element.set_set (e : Element) (name first second : String) :
    (e.set name first).set name second = e.set name second := by
  obtain ⟨tag, attributes, contents⟩ := e
  unfold set
  congr 1
  induction attributes with
  | nil => simp [setIn]
  | cons a rest ih => by_cases ha : a.name = name <;> simp [setIn, ha, ih]

namespace Tree

variable {t t' u : Tree} {mark : Attribute} {roots apart : NodeId → Prop}
  {struck struck' : List NodeId} {x y p f : NodeId} {reference : Option NodeId}

/-- From `t` to `t'`, the nodes of `t` have lasted: `roots` may have got the mark, and the nodes
    `struck` have been taken out. New nodes may have come in, though not below the nodes `apart`. -/
structure Lasting (mark : Attribute) (roots apart : NodeId → Prop) (struck : List NodeId)
    (t t' : Tree) : Prop where
  wellFormed : t'.WellFormed
  size_le : t.size ≤ t'.size
  content : ∀ x, t.Has x → t'.content? x = t.content? x ∨
    roots x ∧ ∃ e, t.element? x = some e ∧ t'.element? x = some (e.set mark.name mark.value)
  parent : ∀ x, t.Has x → t'.parent? x = if x ∈ struck then none else t.parent? x
  children : ∀ x, t.Has x →
    (t'.children x).filter (t.Has ·) = (t.children x).filter (· ∉ struck)
  apart : ∀ x, t.Has x → apart x → t'.children x = (t.children x).filter (· ∉ struck)

theorem filter_not_mem_append (ids struck struck' : List NodeId) :
    ids.filter (· ∉ struck ++ struck') = (ids.filter (· ∉ struck)).filter (· ∉ struck') := by
  rw [List.filter_filter]
  apply List.filter_congr
  intro x _
  simp [Bool.and_comm]

theorem WellFormed.filter_has (h : t.WellFormed) (x : NodeId) :
    (t.children x).filter (t.Has ·) = t.children x := by
  apply List.filter_eq_self.2
  intro y hy
  simpa using h.has_of_child hy

namespace Lasting

theorem refl (h : t.WellFormed) : Lasting mark roots apart [] t t where
  wellFormed := h
  size_le := Nat.le_refl _
  content _ _ := .inl rfl
  parent _ _ := rfl
  children x _ := by simpa using h.filter_has x
  apart _ _ _ := by simp

theorem has (h : Lasting mark roots apart struck t t') (hx : t.Has x) : t'.Has x := by
  obtain ⟨i, hi, rfl⟩ := has_iff_slot.1 hx
  exact has_slot.2 (Nat.lt_of_lt_of_le hi h.size_le)

theorem content_trans (h : Lasting mark roots apart struck t t')
    (h' : Lasting mark roots apart struck' t' u) (hx : t.Has x) :
    u.content? x = t.content? x ∨ roots x ∧ ∃ e, t.element? x = some e ∧
      u.element? x = some (e.set mark.name mark.value) := by
  rcases h'.content x (h.has hx) with hsame' | ⟨hroot, e', he', hset'⟩
  · rcases h.content x hx with hsame | ⟨hroot, e, he, hset⟩
    · exact .inl (hsame'.trans hsame)
    · exact .inr ⟨hroot, e, he, (element?_congr hsame').trans hset⟩
  · rcases h.content x hx with hsame | ⟨-, e, he, hset⟩
    · exact .inr ⟨hroot, e', (element?_congr hsame).symm.trans he', hset'⟩
    · -- marking a second time with the same mark changes nothing
      rw [hset, Option.some.injEq] at he'
      rw [← he', Element.set_set] at hset'
      exact .inr ⟨hroot, e, he, hset'⟩

theorem trans (h : Lasting mark roots apart struck t t')
    (h' : Lasting mark roots apart struck' t' u) :
    Lasting mark roots apart (struck ++ struck') t u where
  wellFormed := h'.wellFormed
  size_le := Nat.le_trans h.size_le h'.size_le
  content _ hx := h.content_trans h' hx
  parent x hx := by
    rw [h'.parent x (h.has hx), h.parent x hx]
    grind
  children x hx := by
    have hold : (u.children x).filter (t.Has ·) =
        ((u.children x).filter (t'.Has ·)).filter (t.Has ·) := by
      rw [List.filter_filter]
      apply List.filter_congr
      intro y _
      by_cases hy : t.Has y
      · simp [hy, h.has hy]
      · simp [hy]
    rw [hold, h'.children x (h.has hx), List.filter_comm, h.children x hx, filter_not_mem_append]
  apart x hx hapart := by
    rw [h'.apart x (h.has hx) hapart, h.apart x hx hapart, filter_not_mem_append]

/-- Striking out what has no parent does nothing. -/
theorem drop (h : Lasting mark roots apart struck t t') (ht : t.WellFormed)
    (hnone : ∀ x ∈ struck, t.parent? x = none) : Lasting mark roots apart [] t t' := by
  have hkids : ∀ x, (t.children x).filter (· ∉ struck) = t.children x := by
    intro x
    apply List.filter_eq_self.2
    intro y hy
    rw [decide_eq_true_eq]
    intro hmem
    have hparent := ht.parent_of_child hy
    rw [hnone y hmem] at hparent
    cases hparent
  refine ⟨h.wellFormed, h.size_le, h.content, ?_, ?_, ?_⟩
  · intro x hx
    rw [h.parent x hx]
    split
    · next hmem => simp [hnone x hmem]
    · simp
  · intro x hx
    rw [h.children x hx, hkids]
    simp
  · intro x hx hapart
    rw [h.apart x hx hapart, hkids]
    simp

/-- A template keeps its contents. -/
theorem contents (h : Lasting mark roots apart struck t t') (hx : t.Has x) :
    t'.contents? x = t.contents? x := by
  rcases h.content x hx with hsame | ⟨-, e, he, hset⟩
  · exact contents?_congr hsame
  · unfold contents?
    rw [he, hset]
    rfl

theorem parent_of_some (h : Lasting mark roots apart struck t t') (hx : t.Has x)
    (hp : t'.parent? x = some p) : t.parent? x = some p := by
  rw [h.parent x hx] at hp
  split at hp
  · cases hp
  · exact hp

/-- If the parents of what lies apart lie apart as well, so does all that is above it later. -/
theorem apart_of_above (h : Lasting mark roots apart struck t t')
    (hhas : ∀ x, apart x → t.Has x) (hup : ∀ x p, apart x → t.parent? x = some p → apart p)
    (hxy : t'.AtOrAbove x y) (hy : apart y) : apart x := by
  induction hxy with
  | refl => exact hy
  | tail _ hstep ih => exact ih (hup _ _ hy (h.parent_of_some (hhas _ hy) hstep))

/-- A region that lies apart is as it was, if nothing in it has been marked or struck out. -/
theorem region (h : Lasting mark roots apart struck t t') {S : NodeId → Prop}
    (hclosed : t.Closed S) (hhas : ∀ x, S x → t.Has x) (hapart : ∀ x, S x → apart x)
    (hroots : ∀ x, S x → ¬ roots x) (hstruck : ∀ x ∈ struck, ¬ S x) :
    ∀ x, S x → t'.get? x = t.get? x := by
  intro x hx
  have hcontent := (h.content x (hhas x hx)).resolve_right fun hmarked => hroots x hx hmarked.1
  apply get?_eq_of_shown (iff_of_true (hhas x hx) (h.has (hhas x hx))) hcontent
  · rw [h.parent x (hhas x hx), if_neg fun hmem => hstruck x hmem hx]
  · rw [h.apart x (hhas x hx) (hapart x hx)]
    apply List.filter_eq_self.2
    intro y hy
    rw [decide_eq_true_eq]
    exact fun hmem => hstruck y hmem (hclosed.children hx hy)

end Lasting

/-! ## Changes that let all nodes last -/

theorem Extends.lasting (h : t.Extends t') (ht : t.WellFormed) (ht' : t'.WellFormed) :
    Lasting mark roots apart [] t t' where
  wellFormed := ht'
  size_le := h.size_le
  content _ hx := .inl (h.content? hx)
  parent _ hx := h.parent? hx
  children x hx := by
    rw [h.children hx, ht.filter_has]
    simp
  apart _ hx _ := by
    rw [h.children hx]
    simp

theorem filter_listWithRun {q : NodeId → Bool} {run : List NodeId} (hrun : ∀ k ∈ run, q k = false)
    (reference : Option NodeId) (ids : List NodeId) :
    (listWithRun run reference ids).filter q = ids.filter q := by
  have hnone : run.filter q = [] := by
    apply List.filter_eq_nil_iff.2
    intro k hk
    simp [hrun k hk]
  cases reference with
  | none => simp [listWithRun, hnone]
  | some r =>
    rw [listWithRun, List.filter_append, List.filter_append, hnone, List.append_nil,
      ← List.filter_append, List.takeWhile_append_dropWhile]

/-- The children of something new go below a node that does not lie apart. -/
theorem Extends.lasting_spliced (h : t.Extends u) (ht : t.WellFormed) (hu : u.WellFormed)
    (hf : ¬ t.Has f) (hspliced : u.Spliced p f reference t') (hp : ¬ apart p) :
    Lasting mark roots apart [] t t' := by
  have hother : ∀ x, t.Has x → x ≠ p → t'.children x = t.children x := by
    intro x hx hxp
    rw [hspliced.children_other x hxp, h.children hx]
    rintro rfl
    exact hf hx
  constructor
  case wellFormed => exact hspliced.wellFormed
  case size_le =>
    rw [hspliced.size]
    exact h.size_le
  case content => exact fun x hx => .inl ((hspliced.content x).trans (h.content? hx))
  case parent => exact fun x hx => h.parent_of_spliced ht hu hf hspliced hx
  case children =>
    intro x hx
    suffices (t'.children x).filter (t.Has ·) = t.children x by simpa
    by_cases hxp : x = p
    · subst hxp
      rw [hspliced.children_place, filter_listWithRun, h.children hx, ht.filter_has]
      intro k hk
      simpa using h.new_child ht (hu.parent_of_child hk) hf
    · rw [hother x hx hxp, ht.filter_has]
  case apart =>
    intro x hx hapart
    rw [hother x hx (by rintro rfl; exact hp hapart)]
    simp

theorem Detached.lasting {ids : List NodeId} (h : t.Detached ids t') (ht : t.WellFormed) :
    Lasting mark roots apart ids t t' where
  wellFormed := h.wellFormed
  size_le := Nat.le_of_eq h.size.symm
  content x _ := .inl (h.content x)
  parent x _ := h.parent x
  children x _ := by rw [h.children, List.filter_comm, ht.filter_has]
  apart x _ _ := h.children x

theorem lasting_marked (ht : t.WellFormed) {e : Element} (hx : t.element? x = some e)
    (hroot : roots x) : Lasting mark roots apart [] t
      (t.setContent x (.element (e.set mark.name mark.value))) where
  wellFormed := wellFormed_setElement ht hx rfl rfl ((ht.names_differ hx).set _ _)
  size_le := Nat.le_of_eq (size_setContent ..).symm
  content y _ := by
    by_cases hy : y = x
    · subst hy
      refine .inr ⟨hroot, e, hx, element?_eq_some.2 ?_⟩
      rw [content?_setContent, if_pos ⟨rfl, has_of_element hx⟩]
    · rw [content?_setContent, if_neg fun hyx => hy hyx.1]
      exact .inl rfl
  parent y _ := parent?_setContent ..
  children y _ := by
    rw [children_setContent, ht.filter_has]
    simp
  apart y _ _ := by simp

end Tree

end Repeater.Dom
