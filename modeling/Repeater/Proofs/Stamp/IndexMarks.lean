/-
  Repeater/Proofs/Stamp/IndexMarks.lean
  =====================================
  **Which elements are marked for index tokens.**

  The search for the marks goes through a subtree and through the contents of the templates in it,
  nested at most as deep as the arena has nodes. Where no template holds itself that is deep enough:
  the marks are all marked elements that are the root or enclosed by it (`mem_indexMarks`), and the
  search meets none twice (`nodup_indexMarks`).
-/
import Repeater.Proofs.Dom.Nesting
import Repeater.Stamp.Marks

namespace Repeater.Stamp

open Dom Tree

variable {t : Tree} {root x : NodeId} {depth : Nat}

/-- Whether a node is an element marked for index tokens. -/
def IndexMarked (t : Tree) (x : NodeId) : Prop :=
  (t.attribute? x Directive.index.name).isSome = true

theorem IndexMarked.element (hx : IndexMarked t x) : ∃ e, t.element? x = some e := by
  unfold IndexMarked attribute? at hx
  cases he : t.element? x <;> simp_all

theorem IndexMarked.has (hx : IndexMarked t x) : t.Has x := by
  obtain ⟨e, he⟩ := hx.element
  exact has_of_element he

/-- The contents of the templates at and below `root`. -/
def innerContents (t : Tree) (root : NodeId) : List NodeId :=
  (t.selectFrom root (.tag "template")).filterMap t.contents?

theorem mem_innerContents (h : t.WellFormed) {f : NodeId} :
    f ∈ innerContents t root ↔ ∃ z, t.AtOrAbove root z ∧ t.contents? z = some f := by
  unfold innerContents
  simp only [List.mem_filterMap, mem_selectFrom h]
  constructor
  · rintro ⟨z, ⟨hz, -⟩, hf⟩
    exact ⟨z, hz, hf⟩
  · rintro ⟨z, hz, hf⟩
    exact ⟨z, ⟨hz, satisfies_template_of_contents h hf⟩, hf⟩

theorem indexMarksWithin_succ (t : Tree) (depth : Nat) (root : NodeId) :
    indexMarksWithin t (depth + 1) root = t.selectFrom root (.hasAttribute Directive.index.name) ++
      (innerContents t root).flatMap (indexMarksWithin t depth) := rfl

theorem mem_indexMarksWithin (h : t.WellFormed) (hx : x ∈ indexMarksWithin t depth root) :
    t.AtOrEncloses root x ∧ IndexMarked t x := by
  induction depth generalizing root with
  | zero => simp [indexMarksWithin] at hx
  | succ depth ih =>
    rw [indexMarksWithin_succ, List.mem_append, List.mem_flatMap, mem_selectFrom h,
      satisfies_hasAttribute] at hx
    rcases hx with ⟨hroot, hmarked⟩ | ⟨f, hf, hx⟩
    · exact ⟨hroot.atOrEncloses, hmarked⟩
    · obtain ⟨z, hz, hf⟩ := (mem_innerContents h).1 hf
      obtain ⟨hfx, hmarked⟩ := ih hx
      exact ⟨(hz.atOrEncloses.trans (encloses_of_contents hf).atOrEncloses).trans hfx, hmarked⟩

theorem mem_indexMarksWithin_of_spread (h : t.WellFormed) (hg : t.GroundedFrom root)
    (hdepth : t.spread root ≤ depth) (hroot : t.AtOrEncloses root x) (hx : IndexMarked t x) :
    x ∈ indexMarksWithin t depth root := by
  induction depth generalizing root with
  | zero =>
    have := spread_pos (h.has_atOrEncloses hroot (IndexMarked.has hx))
    omega
  | succ depth ih =>
    rw [indexMarksWithin_succ, List.mem_append, List.mem_flatMap, mem_selectFrom h,
      satisfies_hasAttribute]
    rcases atOrEncloses_cases hroot with hroot | ⟨z, f, hz, hf, hfx⟩
    · exact .inl ⟨hroot, hx⟩
    · have hrootf := hz.atOrEncloses.trans_encloses (encloses_of_contents hf)
      refine .inr ⟨f, (mem_innerContents h).2 ⟨z, hz, hf⟩,
        ih (hg.enclosed hrootf.atOrEncloses) ?_ hfx⟩
      have := spread_lt h hg hrootf
      omega

theorem mem_indexMarks (h : t.WellFormed) (hg : t.GroundedFrom root) :
    x ∈ indexMarks t root ↔ t.AtOrEncloses root x ∧ IndexMarked t x :=
  ⟨mem_indexMarksWithin h, fun hx =>
    mem_indexMarksWithin_of_spread h hg (spread_le_size t root) hx.1 hx.2⟩

/-- Two different contents within one subtree enclose no common node. -/
theorem contents_apart (h : t.WellFormed) (hg : t.GroundedFrom root) {f g : NodeId}
    (hf : f ∈ innerContents t root) (hgm : g ∈ innerContents t root) (hfx : t.AtOrEncloses f x)
    (hgx : t.AtOrEncloses g x) : f = g := by
  have key : ∀ {f g}, f ∈ innerContents t root → g ∈ innerContents t root →
      t.AtOrEncloses f g → f = g := by
    intro f g hf hgm hfg
    obtain ⟨z, hz, hzf⟩ := (mem_innerContents h).1 hf
    obtain ⟨w, hw, hwg⟩ := (mem_innerContents h).1 hgm
    rcases atOrEncloses_iff.1 hfg with rfl | hfg
    · rfl
    · -- then `f` encloses the other template, hence the root, and with it itself
      obtain ⟨p, hp, hfp⟩ := encloses_iff_holder.1 hfg
      rw [h.holder_unique hp (.inr hwg)] at hfp
      have hfroot := h.atOrEncloses_of_detached (h.fragment_parent (h.contents_fragment hzf)) hw hfp
      exact absurd ((hz.atOrEncloses.trans_encloses (encloses_of_contents hzf)).trans_atOrEncloses
        hfroot) (hg.not_encloses (.refl t _))
  rcases h.total_atOrEncloses hfx hgx with hfg | hgf
  · exact key hf hgm hfg
  · exact (key hgm hf hgf).symm

theorem nodup_innerContents (h : t.WellFormed) (root : NodeId) : (innerContents t root).Nodup := by
  refine (nodup_selectFrom h root _).filterMap ?_
  intro x y f hx hy
  exact h.contents_injective hx hy

theorem nodup_indexMarksWithin (h : t.WellFormed) (hg : t.GroundedFrom root) (depth : Nat) :
    (indexMarksWithin t depth root).Nodup := by
  induction depth generalizing root with
  | zero => exact List.nodup_nil
  | succ depth ih =>
    rw [indexMarksWithin_succ, List.nodup_append]
    refine ⟨nodup_selectFrom h root _, List.nodup_flatMap.2 ⟨?_, ?_⟩, ?_⟩
    · intro f hf
      obtain ⟨z, hz, hzf⟩ := (mem_innerContents h).1 hf
      exact ih (hg.enclosed
        (hz.atOrEncloses.trans_encloses (encloses_of_contents hzf)).atOrEncloses)
    · refine (nodup_innerContents h root).imp_of_mem ?_
      intro f g hf hgm hne x hxf hxg
      exact hne (contents_apart h hg hf hgm (mem_indexMarksWithin h hxf).1
        (mem_indexMarksWithin h hxg).1)
    · rintro x hx y hy rfl
      obtain ⟨f, hf, hy⟩ := List.mem_flatMap.1 hy
      obtain ⟨z, hz, hzf⟩ := (mem_innerContents h).1 hf
      have hroot := h.atOrEncloses_of_detached (h.fragment_parent (h.contents_fragment hzf))
        ((mem_selectFrom h).1 hx).1 (mem_indexMarksWithin h hy).1
      exact hg.not_encloses (.refl t _)
        ((hz.atOrEncloses.trans_encloses (encloses_of_contents hzf)).trans_atOrEncloses hroot)

theorem nodup_indexMarks (h : t.WellFormed) (hg : t.GroundedFrom root) :
    (indexMarks t root).Nodup := nodup_indexMarksWithin h hg t.size

end Repeater.Stamp
