/-
  Repeater/Proofs/Stamp/Exposure.lean
  ===================================
  **What taking in items does to the contents of a template.**

  Stamping the index tokens of an item goes through the contents of the templates in it. So when a
  template lies in an item that is taken in, its contents are stamped with the item
  (`Seeded.exposed`), unless the text of a sequence has taken the template out before
  (`Seeded.unexposed`). Nothing else in the contents changes.
-/
import Repeater.Proofs.Stamp.Seeding

namespace Repeater.Stamp

open Dom Tree Relation

variable {t t' t₁ u : Tree} {item other template f m x y z : NodeId} {identifier : String}
  {counter : Nat} {items rest : List NodeId} {change change' : Content → Content}

/-! ## Contents that keep their shape -/

/-- Whether a fragment and all it encloses are where they were and only say something else. -/
structure Recast (t : Tree) (f : NodeId) (change : Content → Content) (t' : Tree) : Prop where
  encloses : ∀ y, t.AtOrEncloses f y → t'.AtOrEncloses f y
  parent : ∀ y, t.AtOrEncloses f y → t'.parent? y = t.parent? y
  children : ∀ y, t.AtOrEncloses f y → t'.children y = t.children y
  content : ∀ y, t.AtOrEncloses f y → t'.content? y = (t.content? y).map change

namespace Recast

theorem refl (t : Tree) (f : NodeId) : Recast t f id t :=
  ⟨fun _ hy => hy, fun _ _ => rfl, fun _ _ => rfl, fun y _ => by simp⟩

theorem trans (h : Recast t f change t') (h' : Recast t' f change' u) :
    Recast t f (change' ∘ change) u where
  encloses y hy := h'.encloses y (h.encloses y hy)
  parent y hy := (h'.parent y (h.encloses y hy)).trans (h.parent y hy)
  children y hy := (h'.children y (h.encloses y hy)).trans (h.children y hy)
  content y hy := by
    rw [h'.content y (h.encloses y hy), h.content y hy, Option.map_map]

/-- Where nodes keep their parents and their contents, what is enclosed stays so. -/
theorem of_kept (hparent : ∀ y, t.AtOrEncloses f y → t'.parent? y = t.parent? y)
    (hcontents : ∀ y, t'.contents? y = t.contents? y)
    (hchildren : ∀ y, t.AtOrEncloses f y → t'.children y = t.children y)
    (hcontent : ∀ y, t.AtOrEncloses f y → t'.content? y = (t.content? y).map change) :
    Recast t f change t' := by
  refine ⟨?_, hparent, hchildren, hcontent⟩
  intro y hy
  induction hy with
  | refl => exact .refl t' f
  | tail hfx hstep ih =>
    refine ReflTransGen.tail ih ?_
    rcases hstep with hstep | hstep
    · exact .inl ((hparent _ (ReflTransGen.tail hfx (.inl hstep))).trans hstep)
    · exact .inr ((hcontents _).trans hstep)

end Recast

/-! ## What an item exposes -/

/-- Whether the contents of a template are stamped with an item: the template lies in the item, and
    no mark for a sequence stands between the two, whose text would take the template out. -/
def Exposes (t : Tree) (item template : NodeId) : Prop :=
  t.AtOrAbove item template ∧ ∀ m, t.AtOrAbove item m → t.AtOrAbove m template → m ≠ template →
    t.attribute? m Directive.sequence.name = none

/-- A template among the items is exposed by itself. -/
theorem exposes_self (ht : t.WellFormed) (item : NodeId) : Exposes t item item := by
  refine ⟨.refl t item, fun m hitem hm hne => ?_⟩
  rcases atOrAbove_iff.1 hm with hsame | hm
  · exact absurd hsame hne
  · exact absurd hm (ht.not_above_of_atOrAbove hitem)

/-- A template, its contents, and items that are neither in the contents nor reach the template
    through the contents of others. -/
structure Clear (t : Tree) (template f : NodeId) (items : List NodeId) : Prop where
  contents : t.contents? template = some f
  has : ∀ item ∈ items, t.Has item
  outside : ∀ item ∈ items, ¬ t.AtOrEncloses f item
  direct : ∀ item ∈ items, ∀ z g, t.AtOrAbove item z → t.contents? z = some g →
    ¬ t.AtOrEncloses g template
  apart : items.Pairwise t.Apart

theorem Clear.head (h : Clear t template f (item :: rest)) : Clear t template f [item] where
  contents := h.contents
  has := by simpa using h.has item (by simp)
  outside := by simpa using h.outside item (by simp)
  direct := by simpa using h.direct item (by simp)
  apart := List.pairwise_singleton ..

/-! ## Writing the sequences of an item -/

theorem TextsSet.atOrEncloses {stamps : List (NodeId × String)} (h : TextsSet t stamps t')
    (ht : t.WellFormed) (hy : t.Has y) (hxy : t'.AtOrEncloses x y) : t.AtOrEncloses x y := by
  rcases atOrEncloses_iff.1 hxy with rfl | hxy
  · exact .refl t x
  · exact (h.encloses ht hy hxy).atOrEncloses

namespace SequencesSet

/-- A node whose parent is no mark of the item keeps it. -/
theorem parent_of_unmarked (h : SequencesSet t item counter t') (hx : t.Has x)
    (hm : ∀ m ∈ sequenceMarks t item, t.parent? x ≠ some m) : t'.parent? x = t.parent? x := by
  rw [h.parent x hx, if_neg]
  rintro ⟨m, hmem, hparent⟩
  exact hm m (by simpa using hmem) hparent

/-- The subtrees of nodes apart from the item stay together. -/
theorem atOrAbove_apart (h : SequencesSet t item counter t') (ht : t.WellFormed)
    (hapart : t.Apart item other) (hx : t.AtOrAbove other x) (hxy : t.AtOrAbove x y) :
    t'.AtOrAbove x y := by
  induction hxy with
  | refl => exact .refl t' x
  | @tail p y hxp hstep ih =>
    have hkeep : t'.parent? y = t.parent? y := by
      apply h.parent_of_unmarked (has_of_parent hstep)
      intro m hm hparent
      rw [hstep, Option.some.injEq] at hparent
      subst hparent
      rcases ((mem_sequenceMarks ht).1 hm).1.total (hx.trans hxp) with hab | hba
      · exact hapart.1 hab
      · exact hapart.2 hba
    exact ih.trans (above_of_parent (hkeep.trans hstep)).atOrAbove

/-- What was below the item is still below it unless a mark stands between. -/
theorem atOrAbove_iff (h : SequencesSet t item counter t') (ht : t.WellFormed)
    (hx : t.AtOrAbove item x) : t'.AtOrAbove item x ↔ ∀ m, t.AtOrAbove item m →
      t.AtOrAbove m x → m ≠ x → t.attribute? m Directive.sequence.name = none := by
  induction hx with
  | refl =>
    refine ⟨fun _ m hitem hm hne => ?_, fun _ => .refl t' item⟩
    rcases Tree.atOrAbove_iff.1 hm with hsame | hm
    · exact absurd hsame hne
    · exact absurd hm (ht.not_above_of_atOrAbove hitem)
  | @tail p x hp hstep ih =>
    have hp : t.AtOrAbove item p := hp
    have hne : item ≠ x := ht.ne_of_above (hp.trans_above (above_of_parent hstep))
    have hbetween : ∀ m, t.AtOrAbove m x ∧ m ≠ x ↔ t.AtOrAbove m p := by
      intro m
      constructor
      · rintro ⟨hm, hmx⟩
        rcases Tree.atOrAbove_iff.1 hm with hsame | hm
        · exact absurd hsame hmx
        · obtain ⟨q, hq, hmq⟩ := above_iff_parent.1 hm
          rw [hstep, Option.some.injEq] at hq
          exact hq ▸ hmq
      · intro hm
        have habove := hm.trans_above (above_of_parent hstep)
        exact ⟨habove.atOrAbove, ht.ne_of_above habove⟩
    by_cases hmark : p ∈ sequenceMarks t item
    · -- the text of the mark is all that is left below it
      have hout : t'.parent? x = none := by
        rw [h.parent x (has_of_parent hstep), if_pos]
        exact ⟨p, by simpa using hmark, hstep⟩
      constructor
      · intro hitem
        rcases Tree.atOrAbove_iff.1 hitem with hsame | hitem
        · exact absurd hsame hne
        · exact absurd hitem (not_above_of_parent_none hout)
      · intro hnone
        obtain ⟨hpx, hpne⟩ := (hbetween p).2 (.refl t p)
        have hsome := ((mem_sequenceMarks ht).1 hmark).2
        rw [hnone p hp hpx hpne] at hsome
        cases hsome
    · have hkeep : t'.parent? x = some p := by
        rw [h.parent_of_unmarked (has_of_parent hstep), hstep]
        rintro m hm hparent
        rw [hstep, Option.some.injEq] at hparent
        exact hmark (hparent ▸ hm)
      have hunmarked : t.attribute? p Directive.sequence.name = none := by
        by_contra hsome
        exact hmark ((mem_sequenceMarks ht).2 ⟨hp, Option.isSome_iff_ne_none.2 hsome⟩)
      constructor
      · intro hitem m hm hmx hmne
        rcases Tree.atOrAbove_iff.1 hitem with hsame | hitem
        · exact absurd hsame hne
        obtain ⟨q, hq, hitemq⟩ := above_iff_parent.1 hitem
        rw [hkeep, Option.some.injEq] at hq
        subst hq
        by_cases hmp : m = p
        · rw [hmp, hunmarked]
        · exact ih.1 hitemq m hm ((hbetween m).1 ⟨hmx, hmne⟩) hmp
      · intro hnone
        refine (ih.2 fun m hm hmp _ => ?_).trans (above_of_parent hkeep).atOrAbove
        obtain ⟨hmx, hmne⟩ := (hbetween m).2 hmp
        exact hnone m hm hmx hmne

/-- No mark of an item outside a fragment is in the fragment. -/
theorem not_mark (ht : t.WellFormed) (hf : t.content? f = some .fragment)
    (hout : ¬ t.AtOrEncloses f item) (hy : t.AtOrEncloses f y) : y ∉ sequenceMarks t item :=
  fun hm => hout (ht.atOrEncloses_of_detached (ht.fragment_parent hf)
    ((mem_sequenceMarks ht).1 hm).1 hy)

/-- A fragment that the item is not in is not changed. -/
theorem recast (h : SequencesSet t item counter t') (ht : t.WellFormed)
    (hf : t.content? f = some .fragment) (hout : ¬ t.AtOrEncloses f item) :
    Recast t f id t' := by
  have hhas : ∀ y, t.AtOrEncloses f y → t.Has y :=
    fun y hy => ht.has_atOrEnclosed hy (has_of_content hf)
  apply Recast.of_kept
  · intro y hy
    apply h.parent_of_unmarked (hhas y hy)
    intro m hm hparent
    rcases atOrEncloses_iff.1 hy with rfl | hfy
    · simp [ht.fragment_parent hf] at hparent
    · exact not_mark ht hf hout (ht.atOrEncloses_parent hfy hparent) hm
  · exact h.contents?
  · intro y hy
    apply h.children_other y _ (hhas y hy)
    simpa using not_mark ht hf hout hy
  · intro y hy
    rw [h.content y (hhas y hy), Option.map_id]
    rfl

end SequencesSet

/-! ## Taking in one item -/

/-- Once its sequences have been written, the item encloses the contents of the template if it
    exposes them. -/
theorem Clear.atOrEncloses_iff (hclear : Clear t template f [item]) (ht : t.WellFormed)
    (h : SequencesSet t item counter t') (hy : t.AtOrEncloses f y) :
    t'.AtOrEncloses item y ↔ Exposes t item template := by
  have hf : t.content? f = some .fragment := ht.contents_fragment hclear.contents
  have hcontents : t'.contents? template = some f := by rw [h.contents?, hclear.contents]
  have hhas : t.Has template := has_of_contents hclear.contents
  have hfy : t'.AtOrEncloses f y := (h.recast ht hf (hclear.outside item (by simp))).encloses y hy
  constructor
  · intro hitem
    rcases h.wellFormed.total_atOrEncloses hfy hitem with hfitem | hitemf
    · exact absurd (h.atOrEncloses ht (hclear.has item (by simp)) hfitem)
        (hclear.outside item (by simp))
    rcases Tree.atOrEncloses_iff.1 hitemf with hsame | hitemf
    · exact absurd (hsame ▸ .refl t item) (hclear.outside item (by simp))
    -- what holds the contents is the template, so the item encloses the template
    obtain ⟨p, hp, hitemp⟩ := encloses_iff_holder.1 hitemf
    rw [h.wellFormed.holder_unique hp (.inr hcontents)] at hitemp
    have hbelow : t'.AtOrAbove item template := by
      rcases atOrEncloses_cases hitemp with hbelow | ⟨z, g, hz, hg, hgt⟩
      · exact hbelow
      · rw [h.contents?] at hg
        have hzhas := has_of_contents hg
        exact absurd (h.atOrEncloses ht hhas hgt)
          (hclear.direct item (by simp) z g (h.atOrAbove ht hzhas hz) hg)
    have hbefore := h.atOrAbove ht hhas hbelow
    exact ⟨hbefore, (h.atOrAbove_iff ht hbefore).1 hbelow⟩
  · rintro ⟨hbelow, hnone⟩
    have hbelow' : t'.AtOrAbove item template := (h.atOrAbove_iff ht hbelow).2 hnone
    exact (hbelow'.atOrEncloses.trans (encloses_of_contents hcontents).atOrEncloses).trans hfy

theorem stampedContent_of_unmarked (hy : ¬ IndexMarked t y) :
    (t.content? y).map (stampedContent identifier counter) = t.content? y := by
  unfold IndexMarked Tree.attribute? Tree.element? at hy
  rcases hcontent : t.content? y with _ | content
  · rfl
  cases content with
  | element e =>
    have hnone : e.get? Directive.index.name = none := by
      simpa [hcontent, Content.element?] using hy
    simp [stampedContent, stampedElement, hnone]
  | _ => rfl

namespace TakenIn

theorem contents? (h : TakenIn identifier counter t item t') (x : NodeId) :
    t'.contents? x = t.contents? x := by
  obtain ⟨t₁, hset, hreworded, -⟩ := h
  rw [hreworded.contents, hset.contents?]

theorem isSome_attribute (h : TakenIn identifier counter t item t') (x : NodeId) (name : String) :
    (t'.attribute? x name).isSome = (t.attribute? x name).isSome := by
  obtain ⟨t₁, hset, hreworded, -⟩ := h
  rw [hreworded.isSome_attribute, hset.attribute?]

theorem atOrAbove (h : TakenIn identifier counter t item t') (ht : t.WellFormed) (hy : t.Has y)
    (hxy : t'.AtOrAbove x y) : t.AtOrAbove x y := by
  obtain ⟨t₁, hset, hreworded, -⟩ := h
  exact hset.atOrAbove ht hy (hreworded.atOrAbove.1 hxy)

theorem atOrEncloses (h : TakenIn identifier counter t item t') (ht : t.WellFormed) (hy : t.Has y)
    (hxy : t'.AtOrEncloses x y) : t.AtOrEncloses x y := by
  obtain ⟨t₁, hset, hreworded, -⟩ := h
  exact hset.atOrEncloses ht hy (hxy.mono fun a b => (hreworded.holds a b).1)

theorem atOrAbove_apart (h : TakenIn identifier counter t item t') (ht : t.WellFormed)
    (hapart : t.Apart item other) (hx : t.AtOrAbove other x) (hxy : t.AtOrAbove x y) :
    t'.AtOrAbove x y := by
  obtain ⟨t₁, hset, hreworded, -⟩ := h
  exact hreworded.atOrAbove.2 (hset.atOrAbove_apart ht hapart hx hxy)

theorem grounded (h : TakenIn identifier counter t item t') (ht : t.WellFormed) (hg : t.Grounded) :
    t'.Grounded := by
  obtain ⟨t₁, hset, hreworded, -⟩ := h
  exact hreworded.grounded (hset.grounded ht hg)

/-- The contents of a template that the item exposes are stamped with it, others stay. -/
theorem recast (h : TakenIn identifier counter t item t') (ht : t.WellFormed) (hg : t.Grounded)
    (hclear : Clear t template f [item]) :
    (Exposes t item template → Recast t f (stampedContent identifier counter) t') ∧
      (¬ Exposes t item template → Recast t f id t') := by
  obtain ⟨t₁, hset, hreworded, hstamped⟩ := h
  have hstamped := hstamped (hset.grounded ht hg)
  have hfirst := hset.recast ht (ht.contents_fragment hclear.contents)
    (hclear.outside item (by simp))
  have hsecond : ∀ change, (∀ y, t.AtOrEncloses f y →
      t'.content? y = (t₁.content? y).map change) → Recast t f change t' := by
    intro change hcontent
    apply Recast.of_kept
    · exact fun y hy => (hreworded.parent y).trans (hfirst.parent y hy)
    · exact fun y => (hreworded.contents y).trans (hset.contents? y)
    · exact fun y hy => (hreworded.children y).trans (hfirst.children y hy)
    · intro y hy
      rw [hcontent y hy, hfirst.content y hy, Option.map_id]
      rfl
  constructor
  · intro hexposes
    apply hsecond
    intro y hy
    by_cases hmarked : IndexMarked t₁ y
    · exact hstamped.content_mark y ⟨(hclear.atOrEncloses_iff ht hset hy).2 hexposes, hmarked⟩
    · rw [stampedContent_of_unmarked hmarked]
      exact hstamped.content_other y fun hmark => hmarked hmark.2
  · intro hnot
    apply hsecond
    intro y hy
    rw [Option.map_id]
    exact hstamped.content_other y fun hmark =>
      hnot ((hclear.atOrEncloses_iff ht hset hy).1 hmark.1)

/-- Items apart from the one taken in expose what they did before. -/
theorem exposes_iff (h : TakenIn identifier counter t item t') (ht : t.WellFormed)
    (hapart : t.Apart item other) (hhas : t.Has template) :
    Exposes t' other template ↔ Exposes t other template := by
  have hnone : ∀ m, t'.attribute? m Directive.sequence.name = none ↔
      t.attribute? m Directive.sequence.name = none := by
    intro m
    rw [← Option.not_isSome_iff_eq_none, ← Option.not_isSome_iff_eq_none, h.isSome_attribute]
  constructor
  · rintro ⟨hbelow, hbetween⟩
    refine ⟨h.atOrAbove ht hhas hbelow, fun m hm hmt hne => ?_⟩
    exact (hnone m).1 (hbetween m (h.atOrAbove_apart ht hapart (.refl t other) hm)
      (h.atOrAbove_apart ht hapart hm hmt) hne)
  · rintro ⟨hbelow, hbetween⟩
    refine ⟨h.atOrAbove_apart ht hapart (.refl t other) hbelow, fun m hm hmt hne => ?_⟩
    have hmt := h.atOrAbove ht hhas hmt
    have hmhas : t.Has m := ht.has_atOrEncloses hmt.atOrEncloses hhas
    exact (hnone m).2 (hbetween m (h.atOrAbove ht hmhas hm) hmt hne)

theorem clear (h : TakenIn identifier counter t item t') (ht : t.WellFormed)
    (hclear : Clear t template f (item :: rest)) : Clear t' template f rest where
  contents := (h.contents? template).trans hclear.contents
  has other hother := (h.grown.has ht) (hclear.has other (by simp [hother]))
  outside other hother hin := hclear.outside other (by simp [hother])
    (h.atOrEncloses ht (hclear.has other (by simp [hother])) hin)
  direct other hother z g hz hg hin := by
    rw [h.contents?] at hg
    exact hclear.direct other (by simp [hother]) z g (h.atOrAbove ht (has_of_contents hg) hz) hg
      (h.atOrEncloses ht (has_of_contents hclear.contents) hin)
  apart := by
    refine (List.pairwise_cons.1 hclear.apart).2.imp_of_mem ?_
    intro a b ha hb hapart
    have hahas := hclear.has a (by simp [ha])
    have hbhas := hclear.has b (by simp [hb])
    exact ⟨fun hab => hapart.1 (h.atOrAbove ht hbhas hab),
      fun hba => hapart.2 (h.atOrAbove ht hahas hba)⟩

end TakenIn

/-! ## Taking in all items -/

namespace Seeded

/-- Where no item exposes the template, its contents stay. -/
theorem unexposed (h : Seeded identifier counter t items t') (ht : t.WellFormed) (hg : t.Grounded)
    (hclear : Clear t template f items) (hnot : ∀ item ∈ items, ¬ Exposes t item template) :
    Recast t f id t' := by
  induction h with
  | nil => exact .refl _ f
  | cons htaken _ ih =>
    have hfirst := (htaken.recast ht hg hclear.head).2 (hnot _ (by simp))
    refine hfirst.trans (ih htaken.wellFormed (htaken.grounded ht hg) (htaken.clear ht hclear) ?_)
    intro other hother hexposes
    have hapart := (List.pairwise_cons.1 hclear.apart).1 other hother
    rw [htaken.exposes_iff ht hapart (has_of_contents hclear.contents)] at hexposes
    exact hnot other (by simp [hother]) hexposes

/-- The contents of a template that an item exposes are stamped with the item, and with no other. -/
theorem exposed (h : Seeded identifier counter t items t') (ht : t.WellFormed) (hg : t.Grounded)
    (hclear : Clear t template f items) {k : Nat} (hitem : items[k]? = some item)
    (hexposes : Exposes t item template) :
    Recast t f (stampedContent identifier (counter + k)) t' := by
  induction h generalizing k with
  | nil => simp at hitem
  | @cons counter t t₁ t' first rest htaken hrest ih =>
    have hhas : t.Has template := has_of_contents hclear.contents
    have hclear' := htaken.clear ht hclear
    have hg' := htaken.grounded ht hg
    obtain ⟨hapart, -⟩ := List.pairwise_cons.1 hclear.apart
    cases k with
    | zero =>
      rw [List.getElem?_cons_zero, Option.some.injEq] at hitem
      subst hitem
      have hfirst := (htaken.recast ht hg hclear.head).1 hexposes
      refine hfirst.trans (hrest.unexposed htaken.wellFormed hg' hclear' ?_)
      -- the template lies in no item but the first
      intro other hother hexposes'
      rw [htaken.exposes_iff ht (hapart other hother) hhas] at hexposes'
      rcases hexposes.1.total hexposes'.1 with hab | hba
      · exact (hapart other hother).1 hab
      · exact (hapart other hother).2 hba
    | succ k =>
      rw [List.getElem?_cons_succ] at hitem
      have hmem : item ∈ rest := List.mem_of_getElem? hitem
      have hfirst : Recast t f id t₁ := by
        refine (htaken.recast ht hg hclear.head).2 fun hexposes' => ?_
        rcases hexposes.1.total hexposes'.1 with hab | hba
        · exact (hapart item hmem).2 hab
        · exact (hapart item hmem).1 hba
      have hmore := ih htaken.wellFormed hg' hclear' hitem
        ((htaken.exposes_iff ht (hapart item hmem) hhas).2 hexposes)
      rw [Nat.add_assoc, Nat.add_comm 1 k] at hmore
      exact hfirst.trans hmore

end Seeded

end Repeater.Stamp
