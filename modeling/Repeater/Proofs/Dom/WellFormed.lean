/-
  Repeater/Proofs/Dom/WellFormed.lean
  ===================================
  **Well-formed trees.**

  In a well-formed tree the children of a node are exactly the nodes that have it as their parent,
  each listed once; no node is above itself; only documents, fragments and elements have children
  and no fragment has a parent; and the contents of templates are fragments, each of one template
  only. Adding a node, changing what an element says, detaching a node and moving one to an allowed
  place keep a tree well-formed (`wellFormed_push`, `wellFormed_setElement`, `wellFormed_detach`,
  `wellFormed_relocate`).
-/
import Mathlib.Logic.Relation
import Mathlib.Data.List.Nodup
import Repeater.Proofs.Dom.Nodes

namespace Repeater.Dom

/-- No two attributes of the element have one name. -/
def Element.NamesDiffer (e : Element) : Prop := (e.attributes.map (·.name)).Nodup

namespace Tree

open Relation

/-! ## Nodes above others -/

/-- Whether `a` is the parent of `b` or an ancestor of it further up. -/
def Above (t : Tree) : NodeId → NodeId → Prop := TransGen fun a b => t.parent? b = some a

/-- Whether `a` is `b` itself or above it. -/
def AtOrAbove (t : Tree) : NodeId → NodeId → Prop := ReflTransGen fun a b => t.parent? b = some a

variable {t t' : Tree} {a b c p x y : NodeId}

theorem above_of_parent (h : t.parent? b = some a) : t.Above a b := TransGen.single h

theorem atOrAbove_iff : t.AtOrAbove a b ↔ a = b ∨ t.Above a b := by
  unfold AtOrAbove Above
  rw [reflTransGen_iff_eq_or_transGen, eq_comm]

theorem Above.atOrAbove (h : t.Above a b) : t.AtOrAbove a b := TransGen.to_reflTransGen h

theorem AtOrAbove.refl (t : Tree) (a : NodeId) : t.AtOrAbove a a := ReflTransGen.refl

theorem Above.trans (h : t.Above a b) (h' : t.Above b c) : t.Above a c := TransGen.trans h h'

theorem AtOrAbove.trans (h : t.AtOrAbove a b) (h' : t.AtOrAbove b c) : t.AtOrAbove a c :=
  ReflTransGen.trans h h'

theorem Above.trans_atOrAbove (h : t.Above a b) (h' : t.AtOrAbove b c) : t.Above a c :=
  TransGen.trans_left h h'

theorem AtOrAbove.trans_above (h : t.AtOrAbove a b) (h' : t.Above b c) : t.Above a c :=
  TransGen.trans_right h h'

/-- What is above a node is its parent or above its parent. -/
theorem above_iff_parent : t.Above a b ↔ ∃ p, t.parent? b = some p ∧ t.AtOrAbove a p := by
  constructor
  · intro h
    obtain ⟨p, hap, hpb⟩ := TransGen.tail'_iff.1 h
    exact ⟨p, hpb, hap⟩
  · rintro ⟨p, hpb, hap⟩
    exact TransGen.tail' hap hpb

theorem not_above_of_parent_none (h : t.parent? b = none) : ¬ t.Above a b := by
  rw [above_iff_parent]
  rintro ⟨p, hp, -⟩
  simp [h] at hp

/-- What is strictly below a node is at or below one of the nodes whose parent it is. -/
theorem Above.exists_child (h : t.Above a b) : ∃ x, t.parent? x = some a ∧ t.AtOrAbove x b :=
  TransGen.head'_iff.1 h

theorem Above.has_below (h : t.Above a b) : t.Has b := by
  obtain ⟨p, hp, -⟩ := above_iff_parent.1 h
  exact has_of_parent hp

theorem Above.mono (hsub : ∀ x p, t.parent? x = some p → t'.parent? x = some p)
    (h : t.Above a b) : t'.Above a b := TransGen.mono (fun _ _ hx => hsub _ _ hx) _ _ h

theorem AtOrAbove.mono (hsub : ∀ x p, t.parent? x = some p → t'.parent? x = some p)
    (h : t.AtOrAbove a b) : t'.AtOrAbove a b := ReflTransGen.mono (fun _ _ hx => hsub _ _ hx) _ _ h

/-- Two nodes above one node are on one line. -/
theorem AtOrAbove.total (ha : t.AtOrAbove a x) (hb : t.AtOrAbove b x) :
    t.AtOrAbove a b ∨ t.AtOrAbove b a := by
  have hunique : Relator.RightUnique (Function.swap fun p x => t.parent? x = some p) :=
    fun _ _ _ hp hq => Option.some.inj (hp.symm.trans hq)
  rw [or_comm]
  exact (ReflTransGen.total_of_right_unique hunique (reflTransGen_swap.2 ha)
    (reflTransGen_swap.2 hb)).imp reflTransGen_swap.1 reflTransGen_swap.1

/-! ## Trees whose parents and children agree -/

/-- The children of a node are exactly the nodes that have it as their parent, each listed once. -/
structure Tidy (t : Tree) : Prop where
  parent_of_child : ∀ {p x}, x ∈ t.children p → t.parent? x = some p
  child_of_parent : ∀ {x p}, t.parent? x = some p → x ∈ t.children p
  nodup_children : ∀ p, (t.children p).Nodup

namespace Tidy

theorem push (h : t.Tidy) (content : Content) : (t.push content).2.Tidy where
  parent_of_child := fun hx => by simpa using h.parent_of_child (by simpa using hx)
  child_of_parent := fun hx => by simpa using h.child_of_parent (by simpa using hx)
  nodup_children := by simpa using h.nodup_children

theorem setContent (h : t.Tidy) (x : NodeId) (content : Content) :
    (t.setContent x content).Tidy where
  parent_of_child := fun hy => by simpa using h.parent_of_child (by simpa using hy)
  child_of_parent := fun hy => by simpa using h.child_of_parent (by simpa using hy)
  nodup_children := by simpa using h.nodup_children

theorem detach (h : t.Tidy) (x : NodeId) : (t.detach x).Tidy where
  parent_of_child := by
    intro p y hy
    rw [children_detach] at hy
    rw [parent?_detach]
    split at hy
    · next hp =>
      have hne : y ≠ x := ((h.nodup_children p).mem_erase_iff.1 hy).1
      rw [if_neg hne]
      exact h.parent_of_child (List.mem_of_mem_erase hy)
    · next hp =>
      have hparent := h.parent_of_child hy
      rw [if_neg, hparent]
      rintro rfl
      exact hp hparent
  child_of_parent := by
    intro y p hy
    rw [parent?_detach] at hy
    split at hy
    · simp at hy
    · next hne =>
      rw [children_detach]
      split
      · exact ((h.nodup_children p).mem_erase_iff).2 ⟨hne, h.child_of_parent hy⟩
      · exact h.child_of_parent hy
  nodup_children := by
    intro p
    rw [children_detach]
    split
    · exact (h.nodup_children p).erase x
    · exact h.nodup_children p

/-- A detached node is nobody's child. -/
theorem not_mem_children (h : t.Tidy) (hx : t.parent? x = none) (p : NodeId) :
    x ∉ t.children p := fun hmem => by
  simp [h.parent_of_child hmem] at hx

/-- Whatever holds the nodes of `p` and `c` may hold `c` among the children of `p`. -/
theorem place (h : t.Tidy) (hp : t.Has p) (hc : t.Has c) (hdetached : t.parent? c = none)
    (reference : Option NodeId) : (t.place p c reference).Tidy := by
  have hkids : ∀ y z, z ∈ (t.place p c reference).children y ↔
      (z = c ∧ y = p) ∨ z ∈ t.children y := by
    intro y z
    rw [children_place]
    by_cases hy : y = p
    · subst hy
      rw [if_pos ⟨rfl, hp⟩, (listWith_perm _ _ _).mem_iff]
      simp
    · rw [if_neg fun hyp => hy hyp.1]
      simp [hy]
  have hparent : ∀ z y, (t.place p c reference).parent? z = some y ↔
      (z = c ∧ y = p) ∨ t.parent? z = some y := by
    intro z y
    rw [parent?_place]
    by_cases hz : z = c
    · subst hz
      simp [hc, hdetached, eq_comm]
    · simp [hz]
  constructor
  case parent_of_child =>
    exact fun hz => (hparent _ _).2 ((hkids _ _).1 hz |>.imp_right h.parent_of_child)
  case child_of_parent =>
    exact fun hz => (hkids _ _).2 ((hparent _ _).1 hz |>.imp_right h.child_of_parent)
  case nodup_children =>
    intro y
    rw [children_place]
    split
    · rw [(listWith_perm _ _ _).nodup_iff, List.nodup_cons]
      exact ⟨h.not_mem_children hdetached p, h.nodup_children p⟩
    · exact h.nodup_children y

theorem relocate (h : t.Tidy) (hp : t.Has p) (hc : t.Has c) (reference : Option NodeId) :
    (t.relocate p c reference).Tidy := by
  rw [relocate_eq]
  exact (h.detach c).place (by simpa using hp) (by simpa using hc) (by simp) _

end Tidy

/-! ## Well-formed trees -/

/-- What holds of a tree that was built by the edits of a document. -/
structure WellFormed (t : Tree) : Prop where
  parent_of_child : ∀ {p x}, x ∈ t.children p → t.parent? x = some p
  child_of_parent : ∀ {x p}, t.parent? x = some p → x ∈ t.children p
  nodup_children : ∀ p, (t.children p).Nodup
  acyclic : ∀ x, ¬ t.Above x x
  holder_of_parent : ∀ {x p}, t.parent? x = some p → ∃ c, t.content? p = some c ∧ c.holdsChildren
  fragment_parent : ∀ {x}, t.content? x = some .fragment → t.parent? x = none
  contents_fragment : ∀ {x c}, t.contents? x = some c → t.content? c = some .fragment
  contents_injective : ∀ {x y c}, t.contents? x = some c → t.contents? y = some c → x = y
  contents_template : ∀ {x e}, t.element? x = some e → e.contents.isSome → e.isTemplate
  names_differ : ∀ {x e}, t.element? x = some e → e.NamesDiffer

namespace WellFormed

theorem tidy (h : t.WellFormed) : t.Tidy := ⟨h.parent_of_child, h.child_of_parent, h.nodup_children⟩

theorem has_of_child (h : t.WellFormed) (hx : x ∈ t.children p) : t.Has x :=
  has_of_parent (h.parent_of_child hx)

theorem has_parent (h : t.WellFormed) (hx : t.parent? x = some p) : t.Has p := by
  obtain ⟨c, hc, -⟩ := h.holder_of_parent hx
  exact has_of_content hc

theorem has_above (h : t.WellFormed) (hab : t.Above a b) : t.Has a := by
  obtain ⟨x, hx, -⟩ := hab.exists_child
  exact h.has_parent hx

theorem has_contents (h : t.WellFormed) (hx : t.contents? x = some c) : t.Has c :=
  has_of_content (h.contents_fragment hx)

/-- Nodes without children by their kind have none. -/
theorem children_eq_nil (h : t.WellFormed) {content : Content} (hx : t.content? x = some content)
    (hholds : content.holdsChildren = false) : t.children x = [] := by
  refine List.eq_nil_iff_forall_not_mem.2 fun y hy => ?_
  obtain ⟨c, hc, hc'⟩ := h.holder_of_parent (h.parent_of_child hy)
  rw [hx, Option.some.injEq] at hc
  simp [← hc, hholds] at hc'

theorem ne_of_above (h : t.WellFormed) (hab : t.Above a b) : a ≠ b := by
  rintro rfl
  exact h.acyclic a hab

theorem not_above_of_atOrAbove (h : t.WellFormed) (hab : t.AtOrAbove a b) : ¬ t.Above b a :=
  fun hba => h.acyclic a (hab.trans_above hba)

/-- If no node has got a parent, what is above a node now was above it before. -/
theorem atOrAbove_of_old (h : t.WellFormed)
    (hold : ∀ x p, t.Has x → t'.parent? x = some p → t.parent? x = some p) (hb : t.Has b)
    (hab : t'.AtOrAbove a b) : t.AtOrAbove a b := by
  induction hab with
  | refl => exact .refl t _
  | tail _ hstep ih =>
    have hparent := hold _ _ hb hstep
    exact (ih (h.has_parent hparent)).trans (above_of_parent hparent).atOrAbove

theorem above_of_old (h : t.WellFormed)
    (hold : ∀ x p, t.Has x → t'.parent? x = some p → t.parent? x = some p) (hb : t.Has b)
    (hab : t'.Above a b) : t.Above a b := by
  obtain ⟨p, hp, hap⟩ := above_iff_parent.1 hab
  have hparent := hold b p hb hp
  exact above_iff_parent.2 ⟨p, hparent, h.atOrAbove_of_old hold (h.has_parent hparent) hap⟩

theorem mem_elementChildren (h : t.WellFormed) :
    x ∈ t.elementChildren p ↔ t.parent? x = some p ∧ t.isElement x = true := by
  unfold elementChildren
  rw [List.mem_filter]
  exact and_congr_left fun _ => ⟨h.parent_of_child, h.child_of_parent⟩

end WellFormed

/-! ## What keeps a tree well-formed -/

theorem contents?_push (content : Content) (x : NodeId) (f : NodeId) :
    (t.push content).2.contents? x = some f ↔
      (x = .slot t.size ∧ ∃ e, content = .element e ∧ e.contents = some f) ∨
        t.contents? x = some f := by
  simp only [contents?_eq_some, content?_push]
  by_cases hx : x = .slot t.size
  · have := content?_of_not_has (hx ▸ not_has_new t)
    simp [hx, content?_of_not_has (not_has_new t)]
  · simp [hx]

/-- A new node that holds no contents keeps the tree well-formed. -/
theorem wellFormed_push (h : t.WellFormed) (content : Content)
    (hcontent : ∀ e, content = .element e → e.contents = none ∧ e.NamesDiffer) :
    (t.push content).2.WellFormed where
  parent_of_child := (h.tidy.push content).parent_of_child
  child_of_parent := (h.tidy.push content).child_of_parent
  nodup_children := (h.tidy.push content).nodup_children
  acyclic := fun x hx => h.acyclic x (hx.mono fun _ _ hp => by simpa using hp)
  holder_of_parent := by
    intro x p hx
    rw [parent?_push] at hx
    obtain ⟨c, hc, hholds⟩ := h.holder_of_parent hx
    refine ⟨c, ?_, hholds⟩
    rw [content?_push, if_neg, hc]
    rintro rfl
    exact not_has_new t (has_of_content hc)
  fragment_parent := by
    intro x hx
    rw [parent?_push]
    rw [content?_push] at hx
    split at hx
    · next hnew => exact parent?_of_not_has (hnew ▸ not_has_new t)
    · exact h.fragment_parent hx
  contents_fragment := by
    intro x c hx
    rcases (contents?_push _ _ _).1 hx with ⟨-, e, he, hc⟩ | hx
    · simp [(hcontent e he).1] at hc
    · have hc := h.contents_fragment hx
      rw [content?_push, if_neg, hc]
      rintro rfl
      exact not_has_new t (has_of_content hc)
  contents_injective := by
    intro x y c hx hy
    rcases (contents?_push _ _ _).1 hx with ⟨-, e, he, hc⟩ | hx
    · simp [(hcontent e he).1] at hc
    · rcases (contents?_push _ _ _).1 hy with ⟨-, e, he, hc⟩ | hy
      · simp [(hcontent e he).1] at hc
      · exact h.contents_injective hx hy
  contents_template := by
    intro x e hx he
    rw [element?_eq_some, content?_push] at hx
    split at hx
    · rw [(hcontent e (Option.some.inj hx)).1] at he
      simp at he
    · exact h.contents_template (element?_eq_some.2 hx) he
  names_differ := by
    intro x e hx
    rw [element?_eq_some, content?_push] at hx
    split at hx
    · exact (hcontent e (Option.some.inj hx)).2
    · exact h.names_differ (element?_eq_some.2 hx)

theorem wellFormed_detach (h : t.WellFormed) (x : NodeId) : (t.detach x).WellFormed where
  parent_of_child := (h.tidy.detach x).parent_of_child
  child_of_parent := (h.tidy.detach x).child_of_parent
  nodup_children := (h.tidy.detach x).nodup_children
  acyclic := by
    intro y hy
    refine h.acyclic y (hy.mono fun z p hz => ?_)
    rw [parent?_detach] at hz
    split at hz
    · simp at hz
    · exact hz
  holder_of_parent := by
    intro y p hy
    rw [parent?_detach] at hy
    split at hy
    · simp at hy
    · simpa using h.holder_of_parent hy
  fragment_parent := by
    intro y hy
    rw [content?_detach] at hy
    rw [parent?_detach, h.fragment_parent hy, ite_self]
  contents_fragment := fun hy => by simpa using h.contents_fragment (by simpa using hy)
  contents_injective := fun hy hz =>
    h.contents_injective (by simpa using hy) (by simpa using hz)
  contents_template := fun hy => h.contents_template (by simpa using hy)
  names_differ := fun hy => h.names_differ (by simpa using hy)

/-- A node may be given another content of the same kind; the contents of a template must be a
    fragment that belongs to no other template. -/
theorem wellFormed_setContent (h : t.WellFormed) {content new : Content}
    (hx : t.content? x = some content) (hholds : new.holdsChildren = content.holdsChildren)
    (hfragment : new = .fragment ↔ content = .fragment)
    (hnames : ∀ e, new = .element e → e.NamesDiffer)
    (htemplate : ∀ e, new = .element e → e.contents.isSome → e.isTemplate)
    (hcontents : ∀ e f, new = .element e → e.contents = some f →
      t.content? f = some .fragment ∧ ∀ y, t.contents? y = some f → y = x) :
    (t.setContent x new).WellFormed := by
  have hhas : t.Has x := has_of_content hx
  have hkind : ∀ y, (t.setContent x new).content? y = some .fragment ↔
      t.content? y = some .fragment := by
    intro y
    by_cases hy : y = x
    · subst hy
      simp [hhas, hx, hfragment]
    · simp [hy]
  have hown : ∀ y f, (t.setContent x new).contents? y = some f →
      t.content? f = some .fragment ∧ ∀ z, t.contents? z = some f → z = y := by
    intro y f hf
    obtain ⟨e, he, hef⟩ := contents?_eq_some.1 hf
    by_cases hy : y = x
    · subst hy
      simp only [content?_setContent, hhas, and_self, if_true, Option.some.injEq] at he
      exact hcontents e f he hef
    · simp only [content?_setContent, hy, false_and, if_false] at he
      have hyf : t.contents? y = some f := contents?_eq_some.2 ⟨e, he, hef⟩
      exact ⟨h.contents_fragment hyf, fun z hz => h.contents_injective hz hyf⟩
  constructor
  case parent_of_child => exact (h.tidy.setContent x new).parent_of_child
  case child_of_parent => exact (h.tidy.setContent x new).child_of_parent
  case nodup_children => exact (h.tidy.setContent x new).nodup_children
  case acyclic => exact fun y hy => h.acyclic y (hy.mono fun _ _ hp => by simpa using hp)
  case holder_of_parent =>
    intro y p hy
    obtain ⟨c, hc, hc'⟩ := h.holder_of_parent (by simpa using hy)
    by_cases hp : p = x
    · subst hp
      rw [hx, Option.some.injEq] at hc
      subst hc
      exact ⟨new, by simp [hhas], hholds ▸ hc'⟩
    · exact ⟨c, by simp [hp, hc], hc'⟩
  case fragment_parent =>
    intro y hy
    rw [parent?_setContent]
    exact h.fragment_parent ((hkind y).1 hy)
  case contents_fragment => exact fun hy => (hkind _).2 (hown _ _ hy).1
  case contents_injective =>
    intro y z f hy hz
    by_cases hyx : y = x <;> by_cases hzx : z = x
    · rw [hyx, hzx]
    · have hz' : t.contents? z = some f := by
        rw [← hz]
        exact (contents?_congr (by simp [hzx])).symm
      exact ((hown _ _ hy).2 z hz').symm
    · have hy' : t.contents? y = some f := by
        rw [← hy]
        exact (contents?_congr (by simp [hyx])).symm
      exact (hown _ _ hz).2 y hy'
    · have hz' : t.contents? z = some f := by
        rw [← hz]
        exact (contents?_congr (by simp [hzx])).symm
      exact ((hown _ _ hy).2 z hz').symm
  case contents_template =>
    intro y e hy he
    rw [element?_eq_some, content?_setContent] at hy
    split at hy
    · exact htemplate e (Option.some.inj hy) he
    · exact h.contents_template (element?_eq_some.2 hy) he
  case names_differ =>
    intro y e hy
    rw [element?_eq_some, content?_setContent] at hy
    split at hy
    · exact hnames e (Option.some.inj hy)
    · exact h.names_differ (element?_eq_some.2 hy)

/-- An element may say something else as long as its contents stay. -/
theorem wellFormed_setElement (h : t.WellFormed) {e e' : Element} (hx : t.element? x = some e)
    (htag : e'.tag = e.tag) (hcontents : e'.contents = e.contents) (hnames : e'.NamesDiffer) :
    (t.setContent x (.element e')).WellFormed := by
  refine wellFormed_setContent h (element?_eq_some.1 hx) rfl (by simp) ?_ ?_ ?_
  · rintro _ ⟨⟩
    exact hnames
  · rintro _ ⟨⟩ he
    have := h.contents_template hx (hcontents ▸ he)
    simpa [Element.isTemplate, htag] using this
  · rintro _ f ⟨⟩ hf
    have hxf : t.contents? x = some f :=
      contents?_eq_some.2 ⟨e, element?_eq_some.1 hx, hcontents ▸ hf⟩
    exact ⟨h.contents_fragment hxf, fun y hy => h.contents_injective hy hxf⟩

/-- What is above what after a move, in terms of the tree before it. -/
theorem above_relocate (hc : t.Has c) {reference : Option NodeId}
    (hab : (t.relocate p c reference).Above a b) :
    t.Above a b ∨ (t.AtOrAbove a p ∧ t.AtOrAbove c b) := by
  induction hab with
  | single hstep =>
    rw [parent?_relocate t p c reference _ hc] at hstep
    split at hstep
    · next hb =>
      rw [Option.some.injEq] at hstep
      exact .inr ⟨hstep ▸ .refl t p, hb ▸ .refl t c⟩
    · exact .inl (above_of_parent hstep)
  | tail _ hstep ih =>
    rw [parent?_relocate t p c reference _ hc] at hstep
    split at hstep
    · next hb =>
      rw [Option.some.injEq] at hstep
      subst hstep hb
      rcases ih with h | ⟨h, -⟩
      · exact .inr ⟨h.atOrAbove, .refl t _⟩
      · exact .inr ⟨h, .refl t _⟩
    · rcases ih with h | ⟨h, h'⟩
      · exact .inl (h.trans (above_of_parent hstep))
      · exact .inr ⟨h, h'.trans (above_of_parent hstep).atOrAbove⟩

/-- A node that is no fragment may be moved to any node that holds children and is not at or below
    it. -/
theorem wellFormed_relocate (h : t.WellFormed) {content holder : Content}
    (hp : t.content? p = some holder) (hholds : holder.holdsChildren)
    (hc : t.content? c = some content) (hfragment : content ≠ .fragment)
    (hcp : ¬ t.AtOrAbove c p) (reference : Option NodeId) :
    (t.relocate p c reference).WellFormed := by
  have hhasc : t.Has c := has_of_content hc
  have htidy := h.tidy.relocate (has_of_content hp) hhasc reference
  constructor
  case parent_of_child => exact htidy.parent_of_child
  case child_of_parent => exact htidy.child_of_parent
  case nodup_children => exact htidy.nodup_children
  case acyclic =>
    intro y hy
    rcases above_relocate hhasc hy with hy | ⟨hyp, hcy⟩
    · exact h.acyclic y hy
    · exact hcp (hcy.trans hyp)
  case holder_of_parent =>
    intro z y hz
    rw [content?_relocate]
    rw [parent?_relocate t p c reference z hhasc] at hz
    split at hz
    · rw [Option.some.injEq] at hz
      exact ⟨holder, hz ▸ hp, hholds⟩
    · exact h.holder_of_parent hz
  case fragment_parent =>
    intro z hz
    rw [content?_relocate] at hz
    rw [parent?_relocate t p c reference z hhasc, if_neg, h.fragment_parent hz]
    rintro rfl
    rw [hc, Option.some.injEq] at hz
    exact hfragment hz
  case contents_fragment => exact fun hz => by simpa using h.contents_fragment (by simpa using hz)
  case contents_injective =>
    exact fun hy hz => h.contents_injective (by simpa using hy) (by simpa using hz)
  case contents_template => exact fun hz => h.contents_template (by simpa using hz)
  case names_differ => exact fun hz => h.names_differ (by simpa using hz)

end Tree

end Repeater.Dom
