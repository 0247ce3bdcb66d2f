/-
  Repeater/Proofs/Dom/Shapes.lean
  ===============================
  **Places below a node, and what stands there.**

  A place below a node is named by the steps that lead to it: to a child by its position, or into
  the contents of a template. The shape of a node says what stands at each place, apart from ids.
  Two nodes have one shape when everything below them, the contents of templates included, is the
  same in the same order.

  A tree `Extends` another when it has only new nodes to add: the old ones are as they were, and
  the new ones hold new nodes, each made after its holder. Then the shapes of the old nodes are as
  they were as well (`Extends.shape`), and no new template holds itself
  (`Extends.groundedFrom_new`).
-/
import Repeater.Proofs.Dom.Nesting

namespace Repeater.Dom

/-- What a node says, apart from the id of the fragment that holds its contents. -/
def Content.bare : Content → Content
  | .element e => .element { e with contents := none }
  | content => content

theorem Content.bare_eq_fragment {content : Content} :
    content.bare = .fragment ↔ content = .fragment := by
  cases content <;> simp [bare]

@[simp] theorem Content.holdsChildren_bare (content : Content) :
    content.bare.holdsChildren = content.holdsChildren := by
  cases content <;> rfl

@[simp] theorem Content.isSome_element?_bare (content : Content) :
    content.bare.element?.isSome = content.element?.isSome := by
  cases content <;> rfl

theorem Content.eq_of_bare {content original : Content} (h : content.bare = original.bare)
    (horiginal : original.element? = none) : content = original := by
  cases content <;> cases original <;> simp_all [bare, element?]

theorem Content.eq_element_of_bare {content : Content} {e : Element}
    (h : content.bare = (Content.element e).bare) :
    ∃ e', content = .element e' ∧ e'.tag = e.tag ∧ e'.attributes = e.attributes := by
  cases content <;> simp_all [bare]

/-- A step downwards. -/
inductive Step where
  /-- To the child at a position. -/
  | child (position : Nat)
  /-- Into the contents of a template. -/
  | contents
deriving DecidableEq, Repr

namespace Tree

variable {t t' u : Tree} {p x y f : NodeId}

/-- The node at a place below `x`. -/
def follow? (t : Tree) : NodeId → List Step → Option NodeId
  | x, [] => some x
  | x, .child i :: rest => (t.children x)[i]?.bind fun y => t.follow? y rest
  | x, .contents :: rest => (t.contents? x).bind fun f => t.follow? f rest

/-- What stands at each place below `x`. -/
def shape (t : Tree) (x : NodeId) (place : List Step) : Option Content :=
  (t.follow? x place).bind fun y => (t.content? y).map Content.bare

theorem shape_nil (t : Tree) (x : NodeId) : t.shape x [] = (t.content? x).map Content.bare := rfl

theorem shape_child (t : Tree) (x : NodeId) (i : Nat) (rest : List Step) :
    t.shape x (.child i :: rest) = (t.children x)[i]?.bind fun y => t.shape y rest := by
  unfold shape
  rw [follow?, Option.bind_assoc]

theorem shape_contents (t : Tree) (x : NodeId) (rest : List Step) :
    t.shape x (.contents :: rest) = (t.contents? x).bind fun f => t.shape f rest := by
  unfold shape
  rw [follow?, Option.bind_assoc]

theorem atOrAbove_of_follow? (h : t.WellFormed) {place : List Step}
    (hlight : Step.contents ∉ place) (hy : t.follow? x place = some y) : t.AtOrAbove x y := by
  induction place generalizing x with
  | nil =>
    cases hy
    exact .refl t _
  | cons step place ih =>
    cases step with
    | child i =>
      obtain ⟨z, hz, hzy⟩ := Option.bind_eq_some_iff.1 hy
      exact (above_of_parent (h.parent_of_child (List.mem_of_getElem? hz))).atOrAbove.trans
        (ih (fun hmem => hlight (List.mem_cons_of_mem _ hmem)) hzy)
    | contents => simp at hlight

/-! ## Regions that a change does not touch -/

/-- A set of nodes that holds, with each node, its children and its contents. -/
structure Closed (t : Tree) (S : NodeId → Prop) : Prop where
  children : ∀ {x y}, S x → y ∈ t.children x → S y
  contents : ∀ {x f}, S x → t.contents? x = some f → S f

theorem Closed.follow? {S : NodeId → Prop} (h : t.Closed S) (hx : S x) {place : List Step}
    (hy : t.follow? x place = some y) : S y := by
  induction place generalizing x with
  | nil =>
    cases hy
    exact hx
  | cons step place ih =>
    cases step with
    | child i =>
      obtain ⟨z, hz, hzy⟩ := Option.bind_eq_some_iff.1 hy
      exact ih (h.children hx (List.mem_of_getElem? hz)) hzy
    | contents =>
      obtain ⟨f, hf, hfy⟩ := Option.bind_eq_some_iff.1 hy
      exact ih (h.contents hx hf) hfy

/-- Places in a region are the same after a change that leaves children and contents there. -/
theorem follow?_congr {S : NodeId → Prop} (h : t.Closed S)
    (hchildren : ∀ x, S x → t'.children x = t.children x)
    (hcontents : ∀ x, S x → t'.contents? x = t.contents? x) (hx : S x) (place : List Step) :
    t'.follow? x place = t.follow? x place := by
  induction place generalizing x with
  | nil => rfl
  | cons step place ih =>
    cases step with
    | child i =>
      simp only [Tree.follow?, hchildren x hx]
      refine Option.bind_congr fun y hy => ?_
      exact ih (h.children hx (List.mem_of_getElem? hy))
    | contents =>
      simp only [Tree.follow?, hcontents x hx]
      exact Option.bind_congr fun f hf => ih (h.contents hx hf)

theorem shape_congr {S : NodeId → Prop} (h : t.Closed S)
    (hchildren : ∀ x, S x → t'.children x = t.children x)
    (hcontent : ∀ x, S x → t'.content? x = t.content? x) (hx : S x) :
    t'.shape x = t.shape x := by
  funext place
  unfold shape
  rw [follow?_congr h hchildren (fun y hy => contents?_congr (hcontent y hy)) hx]
  exact Option.bind_congr fun y hy => by rw [hcontent y (h.follow? hx hy)]

/-- What a node encloses is closed. -/
theorem WellFormed.closed_atOrEncloses (h : t.WellFormed) (x : NodeId) :
    t.Closed (t.AtOrEncloses x) where
  children hy hz := hy.trans (encloses_of_parent (h.parent_of_child hz)).atOrEncloses
  contents hy hf := hy.trans (encloses_of_contents hf).atOrEncloses

theorem atOrEncloses_of_follow? (h : t.WellFormed) {place : List Step}
    (hy : t.follow? x place = some y) : t.AtOrEncloses x y :=
  (h.closed_atOrEncloses x).follow? (.refl t x) hy

theorem WellFormed.closed_has (h : t.WellFormed) : t.Closed t.Has :=
  ⟨fun _ hy => h.has_of_child hy, fun _ hf => h.has_contents hf⟩

/-! ## Growing trees -/

theorem precedes_of_old_new (hx : t.Has x) (hy : ¬ t.Has y) (hy' : t'.Has y) :
    x.Precedes y := by
  obtain ⟨i, hi, rfl⟩ := has_iff_slot.1 hx
  obtain ⟨j, -, rfl⟩ := has_iff_slot.1 hy'
  rw [has_slot] at hy
  show i < j
  omega

/-- The tree has new nodes besides those of `t`, which are as they were; what is new holds new
    contents, and is held by a node that was made before it. -/
structure Extends (t t' : Tree) : Prop where
  old : ∀ {x}, t.Has x → t'.get? x = t.get? x
  contents_old : ∀ {x f}, t'.contents? x = some f → t.Has f → t.Has x
  ranked : ∀ {a b}, t'.Holds a b → t.Holds a b ∨ a.Precedes b

namespace Extends

theorem refl (t : Tree) : t.Extends t where
  old _ := rfl
  contents_old hx _ := has_of_contents hx
  ranked := .inl

theorem has (h : t.Extends t') (hx : t.Has x) : t'.Has x := by
  unfold Has at *
  rwa [h.old hx]

theorem content? (h : t.Extends t') (hx : t.Has x) : t'.content? x = t.content? x := by
  unfold Tree.content?
  rw [h.old hx]

theorem parent? (h : t.Extends t') (hx : t.Has x) : t'.parent? x = t.parent? x := by
  unfold Tree.parent?
  rw [h.old hx]

theorem children (h : t.Extends t') (hx : t.Has x) : t'.children x = t.children x := by
  unfold Tree.children
  rw [h.old hx]

theorem contents? (h : t.Extends t') (hx : t.Has x) : t'.contents? x = t.contents? x :=
  contents?_congr (h.content? hx)

theorem trans (h : t.Extends t') (h' : t'.Extends u) : t.Extends u where
  old hx := (h'.old (h.has hx)).trans (h.old hx)
  contents_old hx hf := by
    have hx' := h'.contents_old hx (h.has hf)
    rw [h'.contents? hx'] at hx
    exact h.contents_old hx hf
  ranked hab := (h'.ranked hab).elim h.ranked .inr

theorem size_le (h : t.Extends t') : t.size ≤ t'.size := by
  by_contra hlt
  have : t'.Has (.slot (t.size - 1)) := h.has (has_slot.2 (by omega))
  rw [has_slot] at this
  omega

/-- What is new has new children. -/
theorem new_child (h : t.Extends t') (ht : t.WellFormed) (hx : t'.parent? x = some p)
    (hp : ¬ t.Has p) : ¬ t.Has x := by
  intro hold
  rw [h.parent? hold] at hx
  exact hp (ht.has_parent hx)

/-- What is below something new is new. -/
theorem new_below (h : t.Extends t') (ht : t.WellFormed) (hp : ¬ t.Has p)
    (hx : t'.AtOrAbove p x) : ¬ t.Has x := by
  induction hx with
  | refl => exact hp
  | tail _ hstep ih => exact h.new_child ht hstep ih

theorem closed_new (h : t.Extends t') (ht : t.WellFormed) (ht' : t'.WellFormed) :
    t'.Closed fun x => ¬ t.Has x where
  children hx hy := h.new_child ht (ht'.parent_of_child hy) hx
  contents hx hf hhas := hx (h.contents_old hf hhas)

theorem shape (h : t.Extends t') (ht : t.WellFormed) (hx : t.Has x) : t'.shape x = t.shape x :=
  shape_congr ht.closed_has (fun _ hy => h.children hy) (fun _ hy => h.content? hy) hx

/-- An old node is held by the old node that held it. -/
theorem old_holder (h : t.Extends t') (hab : t'.Holds x y) (hy : t.Has y) :
    t.Holds x y := by
  rcases hab with hab | hab
  · exact .inl (h.parent? hy ▸ hab)
  · exact .inr (h.contents? (h.contents_old hab hy) ▸ hab)

/-- What encloses an old node is old and enclosed it before; what encloses a new one was made before
    it. -/
theorem old_encloses (h : t.Extends t') (ht : t.WellFormed) (ht' : t'.WellFormed)
    (hxy : t'.Encloses x y) : if t.Has y then t.Encloses x y else x.Precedes y := by
  have hstep : ∀ {a b}, t'.Holds a b → ¬ t.Has b → a.Precedes b := by
    intro a b hab hb
    rcases h.ranked hab with hab | hab
    · exact absurd (ht.has_held hab) hb
    · exact hab
  induction hxy with
  | single hxy =>
    split
    · next hy => exact Relation.TransGen.single (h.old_holder hxy hy)
    · next hy => exact hstep hxy hy
  | @tail b c _ hbc ih =>
    split
    · next hc =>
      have hbc' := h.old_holder hbc hc
      rw [if_pos (ht.has_holder hbc')] at ih
      exact ih.tail hbc'
    · next hc =>
      split at ih
      · exact precedes_of_old_new (ht.has_encloses ih) hc (ht'.has_held hbc)
      · exact ih.trans (hstep hbc hc)

/-- What is new encloses nothing old. -/
theorem new_encloses (h : t.Extends t') (ht : t.WellFormed) (ht' : t'.WellFormed)
    (hx : ¬ t.Has x) (hxy : t'.AtOrEncloses x y) : ¬ t.Has y := by
  intro hy
  rcases atOrEncloses_iff.1 hxy with rfl | hxy
  · exact hx hy
  · have := h.old_encloses ht ht' hxy
    rw [if_pos hy] at this
    exact hx (ht.has_encloses this)

/-- No new template holds itself. -/
theorem groundedFrom_new (h : t.Extends t') (ht : t.WellFormed) (ht' : t'.WellFormed)
    (hx : ¬ t.Has x) : t'.GroundedFrom x := by
  intro y hxy hy
  have := h.old_encloses ht ht' hy
  rw [if_neg (h.new_encloses ht ht' hx hxy)] at this
  exact NodeId.Precedes.irrefl y this

end Extends

/-! ## Edits that only touch what is new -/

theorem extends_push {content : Content}
    (hcontent : ∀ e, content = .element e → e.contents = none) :
    t.Extends (t.push content).2 where
  old hx := by
    rw [get?_push, if_neg]
    rintro rfl
    exact not_has_new t hx
  contents_old hx hf := by
    rcases (contents?_push _ _ _).1 hx with ⟨-, e, he, hc⟩ | hx
    · simp [hcontent e he] at hc
    · exact has_of_contents hx
  ranked := by
    rintro a b (hab | hab)
    · exact .inl (.inl (by simpa using hab))
    · rcases (contents?_push _ _ _).1 hab with ⟨-, e, he, hc⟩ | hab
      · simp [hcontent e he] at hc
      · exact .inl (.inr hab)

theorem get?_setContent_of_ne (content : Content) (hxy : y ≠ x) :
    (t.setContent x content).get? y = t.get? y := by
  unfold setContent
  rw [get?_modify, if_neg hxy.symm]

theorem Extends.setContent (h : u.Extends t) {content : Content} (hx : ¬ u.Has x)
    (hcontents : ∀ e f, content = .element e → e.contents = some f →
      ¬ u.Has f ∧ (t.contents? x = some f ∨ x.Precedes f)) :
    u.Extends (t.setContent x content) where
  old := by
    intro y hy
    rw [get?_setContent_of_ne content (by rintro rfl; exact hx hy), h.old hy]
  contents_old := by
    intro y f hy hf
    obtain ⟨e, he, hef⟩ := contents?_eq_some.1 hy
    rw [content?_setContent] at he
    split at he
    · exact absurd hf (hcontents e _ (Option.some.inj he) hef).1
    · exact h.contents_old (contents?_eq_some.2 ⟨e, he, hef⟩) hf
  ranked := by
    rintro a b (hab | hab)
    · exact h.ranked (.inl (by simpa using hab))
    · obtain ⟨e, he, hef⟩ := contents?_eq_some.1 hab
      rw [content?_setContent] at he
      split at he
      · next ha =>
        rcases (hcontents e _ (Option.some.inj he) hef).2 with hab | hab
        · exact h.ranked (.inr (ha.1 ▸ hab))
        · exact .inr (ha.1 ▸ hab)
      · exact h.ranked (.inr (contents?_eq_some.2 ⟨e, he, hef⟩))

theorem get?_relocate_of_ne {c : NodeId} {reference : Option NodeId} (hyc : y ≠ c) (hyp : y ≠ p)
    (hparent : t.parent? c ≠ some y) : (t.relocate p c reference).get? y = t.get? y := by
  rw [relocate_eq, get?_place, get?_detach]
  cases t.get? y <;> simp [hyc, hyp, hparent]

theorem Extends.relocate (h : u.Extends t) {c : NodeId}
    {reference : Option NodeId} (hp : ¬ u.Has p) (hc : ¬ u.Has c) (hct : t.Has c)
    (hparent : ∀ q, t.parent? c = some q → ¬ u.Has q) (hpc : p.Precedes c) :
    u.Extends (t.relocate p c reference) where
  old := by
    intro y hy
    rw [get?_relocate_of_ne (by rintro rfl; exact hc hy) (by rintro rfl; exact hp hy)
      (fun hcy => hparent y hcy hy), h.old hy]
  contents_old hy hf := h.contents_old (by simpa using hy) hf
  ranked := by
    rintro a b (hab | hab)
    · rw [parent?_relocate t p c reference b hct] at hab
      split at hab
      · next hb =>
        rw [Option.some.injEq] at hab
        exact .inr (hab ▸ hb ▸ hpc)
      · exact h.ranked (.inl hab)
    · exact h.ranked (.inr (by simpa using hab))

theorem Extends.textSet (h : u.Extends t) (hu : u.WellFormed) (ht : t.WellFormed) {m : NodeId}
    {text : String} (hset : t.TextSet m text t') (hm : ¬ u.Has m) (hmt : t.Has m) :
    u.Extends t' where
  old := by
    intro y hy
    have hyt := h.has hy
    have hnew : y ≠ .slot t.size := by
      rintro rfl
      exact not_has_new t hyt
    have hym : y ≠ m := by
      rintro rfl
      exact hm hy
    have hkid : y ∉ t.children m := fun hkid => h.new_child hu (ht.parent_of_child hkid) hm hy
    have hcontent : t'.content? y = t.content? y := by simp [hset.content, hnew]
    rw [← h.old hy]
    refine get?_eq_of_shown ?_ hcontent ?_ (hset.children_other y hym)
    · simp only [has_iff_content, hcontent]
    · simp [hset.parent, hkid, hnew]
  contents_old := by
    intro y f hy hf
    refine h.contents_old ?_ hf
    obtain ⟨e, he, hef⟩ := contents?_eq_some.1 hy
    rw [hset.content] at he
    split at he
    · simp at he
    · exact contents?_eq_some.2 ⟨e, he, hef⟩
  ranked := by
    rintro a b (hab | hab)
    · rw [hset.parent] at hab
      split at hab
      · simp at hab
      · split at hab
        · next hb =>
          rw [Option.some.injEq] at hab
          exact .inr (hab ▸ hb.2 ▸ precedes_new hmt)
        · exact h.ranked (.inl hab)
    · obtain ⟨e, he, hef⟩ := contents?_eq_some.1 hab
      rw [hset.content] at he
      split at he
      · simp at he
      · exact h.ranked (.inr (contents?_eq_some.2 ⟨e, he, hef⟩))

end Tree

end Repeater.Dom
