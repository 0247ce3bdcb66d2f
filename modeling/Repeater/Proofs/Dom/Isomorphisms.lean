/-
  Repeater/Proofs/Dom/Isomorphisms.lean
  =====================================
  **Nodes with the same inside.**

  Two nodes have one inside when what they enclose corresponds one to one: corresponding nodes say
  the same, have corresponding children in the same order, and hold corresponding contents
  (`Isomorphism`). Where no template holds itself, a node is reached from one that encloses it in
  one way only (`follow?_unique`), so that two nodes of one shape have one inside
  (`exists_isomorphism`). To see that they have one shape, it is enough to pair nodes of the two
  trees such that paired nodes say the same and hold paired nodes (`Likeness.shape_eq`).
-/
import Repeater.Proofs.Dom.Shapes

namespace Repeater.Dom.Tree

variable {t t' : Tree} {s c x y z : NodeId} {place : List Step}

/-! ## Places -/

theorem follow?_append (t : Tree) (x : NodeId) (place rest : List Step) :
    t.follow? x (place ++ rest) = (t.follow? x place).bind fun y => t.follow? y rest := by
  induction place generalizing x with
  | nil => rfl
  | cons step place ih =>
    cases step with
    | child i => simp only [List.cons_append, follow?, ih, Option.bind_assoc]
    | contents => simp only [List.cons_append, follow?, ih, Option.bind_assoc]

theorem follow?_child (t : Tree) (x : NodeId) (i : Nat) :
    t.follow? x [.child i] = (t.children x)[i]? := by simp [follow?]

theorem follow?_contents (t : Tree) (x : NodeId) : t.follow? x [.contents] = t.contents? x := by
  simp [follow?]

/-- What a node encloses stands at some place below it. -/
theorem exists_follow? (h : t.WellFormed) (hxy : t.AtOrEncloses x y) :
    ∃ place, t.follow? x place = some y := by
  induction hxy with
  | refl => exact ⟨[], rfl⟩
  | @tail y z _ hstep ih =>
    obtain ⟨place, hplace⟩ := ih
    rcases hstep with hstep | hstep
    · obtain ⟨i, hi, hget⟩ := List.mem_iff_getElem.1 (h.child_of_parent hstep)
      refine ⟨place ++ [.child i], ?_⟩
      rw [follow?_append, hplace, Option.bind_some, follow?_child, List.getElem?_eq_getElem hi,
        hget]
    · refine ⟨place ++ [.contents], ?_⟩
      rw [follow?_append, hplace, Option.bind_some, follow?_contents, hstep]

/-- Different nodes held by one node enclose nothing in common. -/
theorem eq_of_held (h : t.WellFormed) (hg : t.GroundedFrom s) {a b : NodeId} (ha : t.Holds s a)
    (hb : t.Holds s b) (hax : t.AtOrEncloses a x) (hbx : t.AtOrEncloses b x) : a = b := by
  have hdown : ∀ {a b}, t.Holds s a → t.Holds s b → t.AtOrEncloses a b → a = b := by
    intro a b ha hb hab
    rcases atOrEncloses_iff.1 hab with hab | hab
    · exact hab
    · obtain ⟨p, hp, hap⟩ := encloses_iff_holder.1 hab
      have hsa : t.Encloses s a := Relation.TransGen.single ha
      exact absurd (hsa.trans_atOrEncloses (h.holder_unique hp hb ▸ hap)) (hg s (.refl t s))
  rcases h.total_atOrEncloses hax hbx with hab | hba
  · exact hdown ha hb hab
  · exact (hdown hb ha hba).symm

theorem follow?_cons {step : Step} {rest : List Step} (hx : t.follow? s (step :: rest) = some x) :
    ∃ a, t.follow? s [step] = some a ∧ t.follow? a rest = some x := by
  rw [← List.singleton_append, follow?_append] at hx
  exact Option.bind_eq_some_iff.1 hx

theorem holds_of_step (h : t.WellFormed) {step : Step} (hy : t.follow? s [step] = some y) :
    t.Holds s y := by
  cases step with
  | child i =>
    rw [follow?_child] at hy
    exact .inl (h.parent_of_child (List.mem_of_getElem? hy))
  | contents =>
    rw [follow?_contents] at hy
    exact .inr hy

/-- A node is one child of its parent, and no child is contents. -/
theorem step_unique (h : t.WellFormed) {step step' : Step} (hy : t.follow? s [step] = some y)
    (hy' : t.follow? s [step'] = some y) : step = step' := by
  have hother : ∀ i, t.follow? s [.child i] = some y → t.follow? s [.contents] ≠ some y := by
    intro i hchild hcontents
    rw [follow?_child] at hchild
    rw [follow?_contents] at hcontents
    have hparent := h.parent_of_child (List.mem_of_getElem? hchild)
    simp [h.fragment_parent (h.contents_fragment hcontents)] at hparent
  cases step with
  | child i =>
    cases step' with
    | child j =>
      rw [follow?_child] at hy hy'
      obtain ⟨hi, hget⟩ := List.getElem?_eq_some_iff.1 hy
      obtain ⟨hj, hget'⟩ := List.getElem?_eq_some_iff.1 hy'
      rw [(h.nodup_children s).getElem_inj_iff.1 (hget.trans hget'.symm)]
    | contents => exact absurd hy' (hother i hy)
  | contents =>
    cases step' with
    | child j => exact absurd hy (hother j hy')
    | contents => rfl

/-- A node is reached by one way only. -/
theorem follow?_unique (h : t.WellFormed) (hg : t.GroundedFrom s) {place place' : List Step}
    (hplace : t.follow? s place = some x) (hplace' : t.follow? s place' = some x) :
    place = place' := by
  -- what is reached by a step leads nowhere back
  have hinside : ∀ {s a rest}, t.GroundedFrom s → t.Holds s a → t.follow? a rest = some x →
      s ≠ x := by
    rintro s a rest hg ha hax rfl
    have hsa : t.Encloses s a := Relation.TransGen.single ha
    exact hg s (.refl t s) (hsa.trans_atOrEncloses (atOrEncloses_of_follow? h hax))
  induction place generalizing s place' with
  | nil =>
    cases place' with
    | nil => rfl
    | cons step rest =>
      obtain ⟨a, ha, hax⟩ := follow?_cons hplace'
      exact absurd (Option.some.inj hplace) (hinside hg (holds_of_step h ha) hax)
  | cons step rest ih =>
    obtain ⟨a, ha, hax⟩ := follow?_cons hplace
    have hsa := holds_of_step h ha
    cases place' with
    | nil => exact absurd (Option.some.inj hplace') (hinside hg hsa hax)
    | cons step' rest' =>
      obtain ⟨b, hb, hbx⟩ := follow?_cons hplace'
      obtain rfl : a = b := eq_of_held h hg hsa (holds_of_step h hb)
        (atOrEncloses_of_follow? h hax) (atOrEncloses_of_follow? h hbx)
      rw [step_unique h ha hb, ih (hg.enclosed (Relation.ReflTransGen.single hsa)) hax hbx]

/-! ## One inside -/

/-- The function takes what `s` encloses in one tree to what `c` encloses in the other, the two
    nodes themselves included: one to one, and so that nodes say and hold the same. -/
structure Isomorphism (t : Tree) (s : NodeId) (t' : Tree) (c : NodeId) (φ : NodeId → NodeId) :
    Prop where
  root : φ s = c
  injective : ∀ {x y}, t.AtOrEncloses s x → t.AtOrEncloses s y → φ x = φ y → x = y
  onto : ∀ {y}, t'.AtOrEncloses c y → ∃ x, t.AtOrEncloses s x ∧ φ x = y
  bare : ∀ {x}, t.AtOrEncloses s x →
    (t'.content? (φ x)).map Content.bare = (t.content? x).map Content.bare
  children : ∀ {x}, t.AtOrEncloses s x → t'.children (φ x) = (t.children x).map φ
  contents : ∀ {x}, t.AtOrEncloses s x → t'.contents? (φ x) = (t.contents? x).map φ

namespace Isomorphism

variable {φ : NodeId → NodeId}

theorem content_of_plain (h : t.Isomorphism s t' c φ) (hx : t.AtOrEncloses s x)
    (hplain : t.element? x = none) : t'.content? (φ x) = t.content? x := by
  have hbare := h.bare hx
  rcases hcontent : t.content? x with _ | content
  · rw [hcontent] at hbare
    simpa using hbare
  · rw [hcontent] at hbare
    obtain ⟨content', hcontent', hsame⟩ := Option.map_eq_some_iff.1 hbare
    have hplain' : content.element? = none := by simpa [element?, hcontent] using hplain
    rw [hcontent', Content.eq_of_bare hsame hplain']

theorem element_of_element (h : t.Isomorphism s t' c φ) (hx : t.AtOrEncloses s x) {e : Element}
    (he : t.element? x = some e) : ∃ e', t'.element? (φ x) = some e' ∧ e'.tag = e.tag ∧
      e'.attributes = e.attributes ∧ e'.contents = e.contents.map φ := by
  have hcontent := element?_eq_some.1 he
  have hbare := h.bare hx
  rw [hcontent] at hbare
  obtain ⟨content', hcontent', hsame⟩ := Option.map_eq_some_iff.1 hbare
  obtain ⟨e', rfl, htag, hattributes⟩ := Content.eq_element_of_bare hsame
  have he' := element?_eq_some.2 hcontent'
  refine ⟨e', he', htag, hattributes, ?_⟩
  have hcontents := h.contents hx
  simpa [contents?, he, he'] using hcontents

theorem isElement_eq (h : t.Isomorphism s t' c φ) (hx : t.AtOrEncloses s x) :
    t'.isElement (φ x) = t.isElement x := by
  rcases he : t.element? x with _ | e
  · simp only [isElement, element?, h.content_of_plain hx he]
  · obtain ⟨e', he', -⟩ := h.element_of_element hx he
    simp only [isElement, he, he', Option.isSome_some]

theorem text?_eq (h : t.Isomorphism s t' c φ) (hx : t.AtOrEncloses s x) :
    t'.text? (φ x) = t.text? x := by
  rcases he : t.element? x with _ | e
  · simp only [text?, h.content_of_plain hx he]
  · obtain ⟨e', he', -⟩ := h.element_of_element hx he
    simp only [text?, element?_eq_some.1 he, element?_eq_some.1 he', Option.bind_some,
      Content.text?]

theorem elementChildren_eq (h : t.Isomorphism s t' c φ) (ht : t.WellFormed)
    (hx : t.AtOrEncloses s x) : t'.elementChildren (φ x) = (t.elementChildren x).map φ := by
  unfold elementChildren
  rw [h.children hx, List.filter_map]
  congr 1
  refine List.filter_congr fun y hy => ?_
  exact h.isElement_eq (hx.trans (encloses_of_parent (ht.parent_of_child hy)).atOrEncloses)

end Isomorphism

/-! ## From shapes to isomorphisms -/

open Classical in
/-- The node of the second tree at the place below `c` at which `x` stands below `s`. -/
noncomputable def opposite (t : Tree) (s : NodeId) (t' : Tree) (c x : NodeId) : NodeId :=
  if h : ∃ place, t.follow? s place = some x then (t'.follow? c h.choose).getD .none else .none

theorem isSome_shape (h : t.WellFormed) (hs : t.Has s) (place : List Step) :
    (t.shape s place).isSome = (t.follow? s place).isSome := by
  unfold shape
  rcases hx : t.follow? s place with _ | x
  · rfl
  · obtain ⟨content, hcontent⟩ :=
      has_iff_content.1 (h.has_atOrEnclosed (atOrEncloses_of_follow? h hx) hs)
    simp [hcontent]

/-- Places below nodes of one shape lead to opposite nodes. -/
theorem follow?_opposite (h : t.WellFormed) (h' : t'.WellFormed) (hg : t.GroundedFrom s)
    (hs : t.Has s) (hc : t'.Has c) (hshape : t'.shape c = t.shape s) (place : List Step) :
    t'.follow? c place = (t.follow? s place).map (t.opposite s t' c) := by
  have hsome : (t'.follow? c place).isSome = (t.follow? s place).isSome := by
    rw [← isSome_shape h' hc, ← isSome_shape h hs, hshape]
  rcases hx : t.follow? s place with _ | x
  · simpa [hx] using hsome
  · rw [hx] at hsome
    obtain ⟨y, hy⟩ := Option.isSome_iff_exists.1 hsome
    have hex : ∃ place, t.follow? s place = some x := ⟨place, hx⟩
    have hown : hex.choose = place := follow?_unique h hg hex.choose_spec hx
    rw [hy, Option.map_some, opposite, dif_pos hex, hown, hy, Option.getD_some]

/-- Nodes of one shape have one inside. -/
theorem exists_isomorphism (h : t.WellFormed) (h' : t'.WellFormed) (hg : t.GroundedFrom s)
    (hg' : t'.GroundedFrom c) (hs : t.Has s) (hc : t'.Has c) (hshape : t'.shape c = t.shape s) :
    ∃ φ, t.Isomorphism s t' c φ := by
  have hfollow := follow?_opposite h h' hg hs hc hshape
  have hopposite : ∀ {place x}, t.follow? s place = some x →
      t'.follow? c place = some (t.opposite s t' c x) := by
    intro place x hx
    rw [hfollow, hx, Option.map_some]
  refine ⟨t.opposite s t' c, ?_⟩
  constructor
  case root =>
    have hroot : t'.follow? c [] = some (t.opposite s t' c s) := hopposite rfl
    exact (Option.some.inj hroot).symm
  case injective =>
    intro x y hx hy hxy
    obtain ⟨place, hplace⟩ := exists_follow? h hx
    obtain ⟨place', hplace'⟩ := exists_follow? h hy
    have hopp' := hopposite hplace'
    rw [← hxy] at hopp'
    rw [follow?_unique h' hg' (hopposite hplace) hopp', hplace', Option.some.injEq] at hplace
    exact hplace.symm
  case onto =>
    intro y hy
    obtain ⟨place, hplace⟩ := exists_follow? h' hy
    rw [hfollow] at hplace
    obtain ⟨x, hx, hxy⟩ := Option.map_eq_some_iff.1 hplace
    exact ⟨x, atOrEncloses_of_follow? h hx, hxy⟩
  case bare =>
    intro x hx
    obtain ⟨place, hplace⟩ := exists_follow? h hx
    have hplaceShape := congrFun hshape place
    simpa [shape, hplace, hopposite hplace] using hplaceShape
  case children =>
    intro x hx
    obtain ⟨place, hplace⟩ := exists_follow? h hx
    refine List.ext_getElem? fun i => ?_
    have hstep := hfollow (place ++ [.child i])
    rw [follow?_append, follow?_append, hplace, hopposite hplace, Option.bind_some,
      Option.bind_some, follow?_child, follow?_child] at hstep
    rw [hstep, List.getElem?_map]
  case contents =>
    intro x hx
    obtain ⟨place, hplace⟩ := exists_follow? h hx
    have hstep := hfollow (place ++ [.contents])
    rwa [follow?_append, follow?_append, hplace, hopposite hplace, Option.bind_some,
      Option.bind_some, follow?_contents, follow?_contents] at hstep

/-- A node keeps its inside where nothing at or below it has changed. -/
theorem isomorphism_id (h : t.WellFormed) (h' : t'.WellFormed)
    (hcontent : ∀ x, t.AtOrEncloses s x → t'.content? x = t.content? x)
    (hchildren : ∀ x, t.AtOrEncloses s x → t'.children x = t.children x) :
    t.Isomorphism s t' s id := by
  constructor
  case root => rfl
  case injective => exact fun _ _ hxy => hxy
  case onto =>
    intro y hy
    refine ⟨y, ?_, rfl⟩
    induction hy with
    | refl => exact .refl t s
    | tail _ hstep ih =>
      rcases hstep with hparent | hcontents
      · have hchild := h'.child_of_parent hparent
        rw [hchildren _ ih] at hchild
        exact ih.trans (encloses_of_parent (h.parent_of_child hchild)).atOrEncloses
      · rw [contents?_congr (hcontent _ ih)] at hcontents
        exact ih.trans (encloses_of_contents hcontents).atOrEncloses
  case bare => exact fun hx => by rw [id, hcontent _ hx]
  case children => exact fun hx => by rw [id, hchildren _ hx, List.map_id]
  case contents => exact fun hx => by rw [id, contents?_congr (hcontent _ hx), Option.map_id, id]

/-! ## Nodes that look alike -/

/-- Nodes of two trees are paired such that paired nodes say the same and hold paired nodes, one by
    one. -/
structure Likeness (t t' : Tree) (R : NodeId → NodeId → Prop) : Prop where
  bare : ∀ x y, R x y → (t'.content? y).map Content.bare = (t.content? x).map Content.bare
  children : ∀ x y, R x y → List.Forall₂ R (t.children x) (t'.children y)
  contents : ∀ x y, R x y → Option.Rel R (t.contents? x) (t'.contents? y)

theorem rel_getElem? {R : NodeId → NodeId → Prop} {l l' : List NodeId} (h : List.Forall₂ R l l')
    (i : Nat) : Option.Rel R l[i]? l'[i]? := by
  induction h generalizing i with
  | nil => exact .none
  | cons hxy _ ih =>
    cases i with
    | zero => exact .some hxy
    | succ i => simpa using ih i

/-- Paired nodes have one shape. -/
theorem Likeness.shape_eq {R : NodeId → NodeId → Prop} (h : Likeness t t' R) (hxy : R x y) :
    t'.shape y = t.shape x := by
  have hbind : ∀ {a b : Option NodeId} {rest : List Step}, Option.Rel R a b →
      (∀ x y, R x y → t'.shape y rest = t.shape x rest) →
        (b.bind fun y => t'.shape y rest) = a.bind fun x => t.shape x rest := by
    rintro _ _ rest (hxy | _) hrest
    · exact hrest _ _ hxy
    · rfl
  funext place
  induction place generalizing x y with
  | nil => exact h.bare x y hxy
  | cons step rest ih =>
    cases step with
    | child i =>
      rw [shape_child, shape_child]
      exact hbind (rel_getElem? (h.children x y hxy) i) fun _ _ => ih
    | contents =>
      rw [shape_contents, shape_contents]
      exact hbind (h.contents x y hxy) fun _ _ => ih

end Repeater.Dom.Tree
