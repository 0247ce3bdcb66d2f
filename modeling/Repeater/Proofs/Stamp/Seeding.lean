/-
  Repeater/Proofs/Stamp/Seeding.lean
  ==================================
  **What taking in items does to the tree.**

  Items that are there before a scope is started are stamped one after the other: first the
  sequences of an item, then its index tokens. `Seeded` follows the tree through this. Patterns are
  never made empty on the way and marks never come under another item, so once all items are ready
  none of them is refused (`SequencesSet.sequencesReady`, `Reworded.sequencesReady`).
-/
import Repeater.Proofs.Dom.Operations
import Repeater.Proofs.Stamp.Index
import Repeater.Proofs.Stamp.Sequences

namespace Repeater.Stamp

open Dom Tree

variable {t t' t₁ t₂ : Tree} {root item m x y : NodeId} {identifier : String} {counter : Nat}
  {stamps : List (NodeId × String)} {items : List NodeId}

/-! ## What stays after texts have been set -/

namespace TextsSet

/-- What is not a text node has been there before. -/
theorem has_of_content (h : TextsSet t stamps t') {content : Content}
    (hx : t'.content? x = some content) (hnot : content.text? = none) : t.Has x := by
  by_contra hnew
  obtain ⟨-, _, -, -, s, hs⟩ := h.new x (Tree.has_of_content hx) hnew
  rw [hs, Option.some.injEq] at hx
  simp [← hx, Content.text?] at hnot

theorem element? (h : TextsSet t stamps t') (x : NodeId) : t'.element? x = t.element? x := by
  by_cases hx : t.Has x
  · exact element?_congr (h.content x hx)
  · rw [element?_of_not_has hx]
    by_contra hsome
    obtain ⟨e, he⟩ := Option.ne_none_iff_exists'.1 hsome
    exact hx (h.has_of_content (element?_eq_some.1 he) rfl)

theorem attribute? (h : TextsSet t stamps t') (x : NodeId) (name : String) :
    t'.attribute? x name = t.attribute? x name := by
  unfold Tree.attribute?
  rw [h.element?]

theorem contents? (h : TextsSet t stamps t') (x : NodeId) : t'.contents? x = t.contents? x := by
  unfold Tree.contents?
  rw [h.element?]

/-- A node that was there before has the parent it had, or none. -/
theorem parent_of_old (h : TextsSet t stamps t') (hx : t.Has x) {p : NodeId}
    (hp : t'.parent? x = some p) : t.parent? x = some p := by
  rw [h.parent x hx] at hp
  split at hp
  · simp at hp
  · exact hp

theorem atOrAbove (h : TextsSet t stamps t') (ht : t.WellFormed) (hx : t.Has x)
    (hroot : t'.AtOrAbove root x) : t.AtOrAbove root x :=
  ht.atOrAbove_of_old (fun _ _ hx hp => h.parent_of_old hx hp) hx hroot

/-- The new texts hold nothing, and nothing else is held by more than before. -/
theorem holds (h : TextsSet t stamps t') (hy : t.Has y) (hxy : t'.Holds x y) : t.Holds x y := by
  rcases hxy with hparent | hcontents
  · exact .inl (h.parent_of_old hy hparent)
  · exact .inr (h.contents? x ▸ hcontents)

theorem encloses (h : TextsSet t stamps t') (ht : t.WellFormed) (hy : t.Has y)
    (hxy : t'.Encloses x y) : t.Encloses x y := by
  induction hxy with
  | single hstep => exact .single (h.holds hy hstep)
  | tail _ hstep ih =>
    have hholds := h.holds hy hstep
    exact (ih (ht.has_holder hholds)).tail hholds

theorem grounded (h : TextsSet t stamps t') (ht : t.WellFormed) (hg : t.Grounded) :
    t'.Grounded := by
  intro x hx
  by_cases hold : t.Has x
  · exact hg x (h.encloses ht hold hx)
  · -- a new node is a text, so that it holds nothing
    obtain ⟨z, hz, -⟩ := hx.exists_held
    obtain ⟨hkids, _, -, -, s, hs⟩ := h.new x (h.wellFormed.has_holder hz) hold
    rcases hz with hz | hz
    · have := h.wellFormed.child_of_parent hz
      simp [hkids] at this
    · obtain ⟨e, he, -⟩ := contents?_eq_some.1 hz
      simp [hs] at he

theorem sequencesReady (h : TextsSet t stamps t') (ht : t.WellFormed)
    (hready : Stamp.sequencesReady t item = true) : Stamp.sequencesReady t' item = true := by
  refine List.all_eq_true.2 fun m hm => ?_
  obtain ⟨hitem, hmark⟩ := (mem_sequenceMarks h.wellFormed).1 hm
  rw [h.attribute?] at hmark
  have hpattern : pattern? t' m = pattern? t m := by
    unfold pattern?
    rw [h.attribute?]
  obtain ⟨e, he⟩ := Option.isSome_iff_exists.1 (isElement_of_attribute hmark)
  rw [hpattern]
  exact List.all_eq_true.1 hready m
    ((mem_sequenceMarks ht).2 ⟨h.atOrAbove ht (has_of_element he) hitem, hmark⟩)

end TextsSet

/-! ## What stays after values have been reworded -/

namespace Reworded

theorem atOrAbove (h : Reworded t t') : t'.AtOrAbove x y ↔ t.AtOrAbove x y :=
  ⟨.mono fun z _ hz => (h.parent z).symm.trans hz, .mono fun z _ hz => (h.parent z).trans hz⟩

/-- A value that is not empty stays so. -/
theorem pattern (h : Reworded t t') (hm : (pattern? t m).isSome = true) :
    (pattern? t' m).isSome = true := by
  unfold pattern? attribute? at hm ⊢
  rcases he : t.element? m with _ | e
  · simp [he] at hm
  obtain ⟨e', he', hsame⟩ := h.element he
  rw [he, Option.bind_some] at hm
  rw [he', Option.bind_some]
  rcases hvalue : e.get? Directive.sequence.name with _ | value
  · simp [hvalue] at hm
  have hempty : value.isEmpty = false := by
    rw [hvalue] at hm
    cases h : value.isEmpty <;> simp_all [Option.filter]
  obtain ⟨value', hvalue', hempty'⟩ := hsame.nonempty _ value hvalue hempty
  simp [hvalue', hempty', Option.filter]

theorem sequencesReady (h : Reworded t t') (ht : t.WellFormed)
    (hready : Stamp.sequencesReady t item = true) : Stamp.sequencesReady t' item = true := by
  refine List.all_eq_true.2 fun m hm => h.pattern ?_
  obtain ⟨hitem, hmark⟩ := (mem_sequenceMarks h.wellFormed).1 hm
  rw [h.isSome_attribute] at hmark
  exact List.all_eq_true.1 hready m ((mem_sequenceMarks ht).2 ⟨h.atOrAbove.1 hitem, hmark⟩)

end Reworded

/-! ## Items one after the other -/

/-- What one item that is taken in with a counter leaves of the tree. -/
def TakenIn (identifier : String) (counter : Nat) (t : Tree) (item : NodeId) (t' : Tree) : Prop :=
  ∃ t₁, SequencesSet t item counter t₁ ∧ Reworded t₁ t' ∧
    (t₁.Grounded → Stamped t₁ identifier counter (IndexMarksOf t₁ item) t')

/-- What items that are taken in one after the other leave of the tree. -/
inductive Seeded (identifier : String) : Nat → Tree → List NodeId → Tree → Prop
  | nil (counter : Nat) (t : Tree) : Seeded identifier counter t [] t
  | cons {counter : Nat} {t t₁ t' : Tree} {item : NodeId} {rest : List NodeId} :
      TakenIn identifier counter t item t₁ → Seeded identifier (counter + 1) t₁ rest t' →
      Seeded identifier counter t (item :: rest) t'

namespace TakenIn

theorem wellFormed (h : TakenIn identifier counter t item t') : t'.WellFormed := by
  obtain ⟨t₁, -, hreworded, -⟩ := h
  exact hreworded.wellFormed

theorem grown (h : TakenIn identifier counter t item t') : t.Grown t' := by
  obtain ⟨t₁, hset, hreworded, -⟩ := h
  exact fun _ => ⟨hreworded.wellFormed, hreworded.size ▸ hset.size_le⟩

theorem isElement (h : TakenIn identifier counter t item t') (x : NodeId) :
    t'.isElement x = t.isElement x := by
  obtain ⟨t₁, hset, hreworded, -⟩ := h
  rw [hreworded.isElement]
  unfold Tree.isElement
  rw [hset.element?]

theorem parent_of_old (h : TakenIn identifier counter t item t') (hx : t.Has x) {p : NodeId}
    (hp : t'.parent? x = some p) : t.parent? x = some p := by
  obtain ⟨t₁, hset, hreworded, -⟩ := h
  rw [hreworded.parent] at hp
  exact hset.parent_of_old hx hp

theorem sequencesReady (h : TakenIn identifier counter t item t') (ht : t.WellFormed)
    (hready : Stamp.sequencesReady t x = true) : Stamp.sequencesReady t' x = true := by
  obtain ⟨t₁, hset, hreworded, -⟩ := h
  exact hreworded.sequencesReady hset.wellFormed (hset.sequencesReady ht hready)

end TakenIn

namespace Seeded

theorem grown (h : Seeded identifier counter t items t') : t.Grown t' := by
  induction h with
  | nil => exact refl_of Grown _
  | cons htaken _ ih => exact trans_of Grown htaken.grown ih

theorem isElement (h : Seeded identifier counter t items t') (x : NodeId) :
    t'.isElement x = t.isElement x := by
  induction h with
  | nil => rfl
  | cons htaken _ ih => rw [ih, htaken.isElement]

theorem parent_of_old (h : Seeded identifier counter t items t') (ht : t.WellFormed) (hx : t.Has x)
    {p : NodeId} (hp : t'.parent? x = some p) : t.parent? x = some p := by
  induction h with
  | nil => exact hp
  | cons htaken _ ih =>
    exact htaken.parent_of_old hx (ih htaken.wellFormed (htaken.grown.has ht hx) hp)

end Seeded

end Repeater.Stamp
