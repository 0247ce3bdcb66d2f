/-
  Repeater/Proofs/Dom/Walks.lean
  ==============================
  **Walking up and down a well-formed tree.**

  The walks of a tree are bounded by the size of its arena. In a well-formed tree the bound is
  never met: the nodes met on a walk are all different and all in the arena, and the node the walk
  starts from is not among them. So the ancestors of a node are exactly the nodes above it
  (`mem_ancestors`) and its descendants exactly the nodes below it (`mem_descendants`), each listed
  once.
-/
import Mathlib.Data.List.Perm.Subperm
import Repeater.Dom.Selector
import Repeater.Proofs.Dom.WellFormed

namespace Repeater.Dom.Tree

variable {t : Tree} {a b p r x y : NodeId}

/-- Different nodes of a tree are not more than its arena holds. -/
theorem length_le_size {ids : List NodeId} (hnodup : ids.Nodup) (hhas : ∀ x ∈ ids, t.Has x) :
    ids.length ≤ t.size := by
  have hsub : ids ⊆ (List.range t.size).map .slot := by
    intro x hx
    obtain ⟨i, hi, rfl⟩ := has_iff_slot.1 (hhas x hx)
    simpa using hi
  have := (List.subperm_of_subset hnodup hsub).length_le
  simpa using this

/-! ## Upwards -/

theorem mem_climb {steps : Nat} {start : Option NodeId} (hx : x ∈ t.climb steps start) :
    ∃ s, start = some s ∧ t.AtOrAbove x s := by
  induction steps generalizing start with
  | zero => simp [climb] at hx
  | succ steps ih =>
    cases start with
    | none => simp [climb] at hx
    | some s =>
      refine ⟨s, rfl, ?_⟩
      rw [climb, List.mem_cons] at hx
      rcases hx with rfl | hx
      · exact .refl t x
      · obtain ⟨p, hp, hxp⟩ := ih hx
        exact hxp.trans (above_of_parent hp).atOrAbove

theorem nodup_climb (h : t.WellFormed) (steps : Nat) (start : Option NodeId) :
    (t.climb steps start).Nodup := by
  induction steps generalizing start with
  | zero => simp [climb]
  | succ steps ih =>
    cases start with
    | none => simp [climb]
    | some s =>
      rw [climb, List.nodup_cons]
      refine ⟨fun hs => ?_, ih _⟩
      obtain ⟨p, hp, hsp⟩ := mem_climb hs
      exact h.acyclic s (hsp.trans_above (above_of_parent hp))

/-- A climb that is not cut short meets everything above its start. -/
theorem mem_climb_of_length_lt {steps : Nat} {s : NodeId}
    (hlength : (t.climb steps (some s)).length < steps) (hx : t.AtOrAbove x s) :
    x ∈ t.climb steps (some s) := by
  induction steps generalizing s with
  | zero => omega
  | succ steps ih =>
    rw [climb] at hlength ⊢
    rcases atOrAbove_iff.1 hx with rfl | hx
    · simp
    · obtain ⟨p, hp, hxp⟩ := above_iff_parent.1 hx
      rw [hp] at hlength ⊢
      exact List.mem_cons_of_mem _ (ih (by simpa using hlength) hxp)

/-- The node itself is one more node of the arena, so the climb from its parent is shorter than the
    bound. -/
theorem length_ancestors_lt (h : t.WellFormed) (hb : t.Has b) :
    (t.ancestors b).length < t.size := by
  unfold ancestors
  have hnodup : (b :: t.climb t.size (t.parent? b)).Nodup := by
    refine List.nodup_cons.2 ⟨fun hmem => ?_, nodup_climb h _ _⟩
    obtain ⟨q, hq, hbq⟩ := mem_climb hmem
    exact h.acyclic b (hbq.trans_above (above_of_parent hq))
  have hhas : ∀ x ∈ b :: t.climb t.size (t.parent? b), t.Has x := by
    intro x hx
    rcases List.mem_cons.1 hx with rfl | hx
    · exact hb
    · obtain ⟨q, hq, hxq⟩ := mem_climb hx
      exact h.has_above (hxq.trans_above (above_of_parent hq))
  have := length_le_size hnodup hhas
  simp only [List.length_cons] at this
  omega

theorem mem_ancestors (h : t.WellFormed) : a ∈ t.ancestors b ↔ t.Above a b := by
  constructor
  · intro ha
    obtain ⟨p, hp, hap⟩ := mem_climb ha
    exact above_iff_parent.2 ⟨p, hp, hap⟩
  · intro hab
    obtain ⟨p, hp, hap⟩ := above_iff_parent.1 hab
    have hlength := length_ancestors_lt h (has_of_parent hp)
    unfold ancestors at hlength ⊢
    rw [hp] at hlength ⊢
    exact mem_climb_of_length_lt hlength hap

theorem nodup_ancestors (h : t.WellFormed) (b : NodeId) : (t.ancestors b).Nodup :=
  nodup_climb h _ _

/-- A climb that is not cut short is the same in a tree where nothing on the way has another
    parent. -/
theorem climb_congr {t' : Tree} {steps steps' : Nat} {s : NodeId} (hle : steps ≤ steps')
    (hlength : (t.climb steps (some s)).length < steps)
    (hparent : ∀ a, t.AtOrAbove a s → t'.parent? a = t.parent? a) :
    t'.climb steps' (some s) = t.climb steps (some s) := by
  induction steps generalizing s steps' with
  | zero => omega
  | succ steps ih =>
    obtain ⟨steps', rfl⟩ : ∃ n, steps' = n + 1 := ⟨steps' - 1, by omega⟩
    rw [climb, climb, hparent s (.refl t s)]
    rw [climb] at hlength
    rcases hp : t.parent? s with _ | p
    · cases steps <;> cases steps' <;> rfl
    · rw [hp] at hlength
      rw [ih (by omega) (by simpa using hlength) fun a hap =>
        hparent a (hap.trans (above_of_parent hp).atOrAbove)]

theorem ancestors_congr {t' : Tree} (h : t.WellFormed) (hb : t.Has b) (hsize : t.size ≤ t'.size)
    (hparent : ∀ a, t.AtOrAbove a b → t'.parent? a = t.parent? a) :
    t'.ancestors b = t.ancestors b := by
  have hlength := length_ancestors_lt h hb
  unfold ancestors at hlength ⊢
  rw [hparent b (.refl t b)]
  rcases hp : t.parent? b with _ | p
  · cases t.size <;> cases t'.size <;> rfl
  · rw [hp] at hlength
    exact climb_congr hsize hlength fun a hap =>
      hparent a (hap.trans (above_of_parent hp).atOrAbove)

theorem mem_cons_ancestors (h : t.WellFormed) : x ∈ b :: t.ancestors b ↔ t.AtOrAbove x b := by
  rw [List.mem_cons, mem_ancestors h, atOrAbove_iff]

theorem ancestors_of_root (hb : t.parent? b = none) : t.ancestors b = [] := by
  unfold ancestors
  rw [hb]
  cases t.size <;> rfl

/-- The way up from a node goes through its parent. -/
theorem ancestors_of_parent (h : t.WellFormed) (hp : t.parent? b = some p) :
    t.ancestors b = p :: t.ancestors p := by
  have hlength := length_ancestors_lt h (has_of_parent hp)
  unfold ancestors at hlength ⊢
  rw [hp] at hlength ⊢
  obtain ⟨steps, hsteps⟩ : ∃ steps, t.size = steps + 1 := ⟨t.size - 1, by omega⟩
  rw [hsteps, climb] at hlength ⊢
  rcases hq : t.parent? p with _ | q
  · cases steps <;> rfl
  · rw [hq] at hlength
    rw [climb_congr (Nat.le_succ steps) (by simpa using hlength) fun _ _ => rfl]

/-- The way up from below a node leads to it, past nodes that are not above it. -/
theorem ancestors_of_atOrAbove (h : t.WellFormed) (hab : t.AtOrAbove a b) :
    ∃ front, b :: t.ancestors b = front ++ (a :: t.ancestors a) ∧
      ∀ x ∈ front, ¬ t.AtOrAbove x a := by
  induction hab with
  | refl => exact ⟨[], rfl, by simp⟩
  | @tail p b hap hparent ih =>
    obtain ⟨front, hpath, hfront⟩ := ih
    refine ⟨b :: front, ?_, fun x hx hxa => ?_⟩
    · rw [ancestors_of_parent h hparent, hpath, List.cons_append]
    · rcases List.mem_cons.1 hx with rfl | hx
      · exact h.acyclic x ((AtOrAbove.trans hxa hap).trans_above (above_of_parent hparent))
      · exact hfront x hx hxa

/-- The ways up from two nodes come together where they first meet. -/
theorem ancestors_fork (h : t.WellFormed) (a b : NodeId) : ∃ front front' common,
    a :: t.ancestors a = front ++ common ∧ b :: t.ancestors b = front' ++ common ∧
      (∀ x ∈ front, ¬ t.AtOrAbove x b) ∧ ∀ x ∈ front', ¬ t.AtOrAbove x a := by
  generalize hway : t.ancestors a = way
  induction way generalizing a with
  | nil =>
    by_cases hab : t.AtOrAbove a b
    · obtain ⟨front, hpath, hfront⟩ := ancestors_of_atOrAbove h hab
      exact ⟨[], front, [a], rfl, hway ▸ hpath, by simp, hfront⟩
    · refine ⟨[a], b :: t.ancestors b, [], rfl, by simp, by simpa using hab, fun x hx hxa => hab ?_⟩
      have hmem := (mem_cons_ancestors h).2 hxa
      rw [hway, List.mem_singleton] at hmem
      exact hmem ▸ (mem_cons_ancestors h).1 hx
  | cons q rest ih =>
    obtain ⟨p, hp⟩ : ∃ p, t.parent? a = some p := by
      rcases hp : t.parent? a with _ | p
      · rw [ancestors_of_root hp] at hway
        cases hway
      · exact ⟨p, rfl⟩
    have hupper := ancestors_of_parent h hp
    rw [hway, List.cons.injEq] at hupper
    obtain ⟨rfl, hrest⟩ := hupper
    by_cases hab : t.AtOrAbove a b
    · obtain ⟨front, hpath, hfront⟩ := ancestors_of_atOrAbove h hab
      exact ⟨[], front, _, rfl, hway ▸ hpath, by simp, hfront⟩
    obtain ⟨front, front', common, hpath, hpath', hfront, hfront'⟩ := ih q hrest.symm
    refine ⟨a :: front, front', common, by rw [hpath, List.cons_append], hpath', ?_, ?_⟩
    · exact List.forall_mem_cons.2 ⟨hab, hfront⟩
    · intro x hx hxa
      rcases atOrAbove_iff.1 hxa with rfl | hxa
      · exact hab ((mem_cons_ancestors h).1 (hpath' ▸ List.mem_append_left _ hx))
      · obtain ⟨q', hq', hxq⟩ := above_iff_parent.1 hxa
        cases hp.symm.trans hq'
        exact hfront' x hx hxq

theorem isInclusiveAncestor_iff (h : t.WellFormed) :
    t.isInclusiveAncestor a b = true ↔ t.AtOrAbove a b := by
  simp [isInclusiveAncestor, mem_ancestors h, atOrAbove_iff]

/-! ## Downwards -/

theorem mem_walk {steps : Nat} {pending : List NodeId} (h : t.WellFormed)
    (hx : x ∈ t.walk steps pending) : ∃ p ∈ pending, t.AtOrAbove p x := by
  induction steps generalizing pending with
  | zero => cases pending <;> simp [walk] at hx
  | succ steps ih =>
    cases pending with
    | nil => simp [walk] at hx
    | cons s rest =>
      rw [walk, List.mem_cons] at hx
      rcases hx with rfl | hx
      · exact ⟨x, by simp, .refl t x⟩
      · obtain ⟨p, hp, hpx⟩ := ih hx
        rcases List.mem_append.1 hp with hp | hp
        · refine ⟨s, by simp, ?_⟩
          exact (above_of_parent (h.parent_of_child hp)).atOrAbove.trans hpx
        · exact ⟨p, by simp [hp], hpx⟩

/-- Neither node is at or above the other. -/
def Apart (t : Tree) (a b : NodeId) : Prop := ¬ t.AtOrAbove a b ∧ ¬ t.AtOrAbove b a

/-- Different children of one node are apart. -/
theorem apart_of_siblings (h : t.WellFormed) (ha : t.parent? a = some p)
    (hb : t.parent? b = some p) (hne : a ≠ b) : t.Apart a b := by
  have key : ∀ {a b}, t.parent? a = some p → t.parent? b = some p → a ≠ b →
      ¬ t.AtOrAbove a b := by
    intro a b ha hb hne hab
    rcases atOrAbove_iff.1 hab with rfl | hab
    · exact hne rfl
    · obtain ⟨q, hq, haq⟩ := above_iff_parent.1 hab
      rw [hb, Option.some.injEq] at hq
      subst hq
      exact h.acyclic p ((above_of_parent ha).trans_atOrAbove haq)
  exact ⟨key ha hb hne, key hb ha hne.symm⟩

/-- The children of a node are apart from whatever the node is apart from. -/
theorem Apart.child (hx : t.parent? x = some p) (hpy : t.Apart p y) : t.Apart x y := by
  constructor
  · exact fun hxy => hpy.1 ((above_of_parent hx).atOrAbove.trans hxy)
  · intro hyx
    rcases atOrAbove_iff.1 hyx with rfl | hyx
    · exact hpy.1 (above_of_parent hx).atOrAbove
    · obtain ⟨q, hq, hyq⟩ := above_iff_parent.1 hyx
      rw [hx, Option.some.injEq] at hq
      exact hpy.2 (hq ▸ hyq)

theorem pairwise_apart_children (h : t.WellFormed) (p : NodeId) :
    (t.children p).Pairwise t.Apart :=
  (h.nodup_children p).imp_of_mem fun ha hb hne =>
    apart_of_siblings h (h.parent_of_child ha) (h.parent_of_child hb) hne

theorem nodup_walk (h : t.WellFormed) {steps : Nat} {pending : List NodeId}
    (hapart : pending.Pairwise t.Apart) : (t.walk steps pending).Nodup := by
  induction steps generalizing pending with
  | zero => cases pending <;> simp [walk]
  | succ steps ih =>
    cases pending with
    | nil => simp [walk]
    | cons s rest =>
      obtain ⟨hs, hrest⟩ := List.pairwise_cons.1 hapart
      rw [walk, List.nodup_cons]
      constructor
      · intro hmem
        obtain ⟨p, hp, hps⟩ := mem_walk h hmem
        rcases List.mem_append.1 hp with hp | hp
        · exact h.not_above_of_atOrAbove hps (above_of_parent (h.parent_of_child hp))
        · exact (hs p hp).2 hps
      · refine ih (List.pairwise_append.2 ⟨pairwise_apart_children h s, hrest, ?_⟩)
        exact fun a ha b hb => (hs b hb).child (h.parent_of_child ha)

/-- A walk that is not cut short meets everything at or below the nodes it starts with. -/
theorem mem_walk_of_length_lt (h : t.WellFormed) {steps : Nat} {pending : List NodeId}
    (hlength : (t.walk steps pending).length < steps) (hp : p ∈ pending)
    (hx : t.AtOrAbove p x) : x ∈ t.walk steps pending := by
  induction steps generalizing pending p with
  | zero => omega
  | succ steps ih =>
    cases pending with
    | nil => simp at hp
    | cons s rest =>
      rw [walk] at hlength ⊢
      have hlength' : (t.walk steps (t.children s ++ rest)).length < steps := by
        simpa using hlength
      rcases List.mem_cons.1 hp with rfl | hp
      · rcases atOrAbove_iff.1 hx with rfl | hx
        · simp
        · obtain ⟨c, hc, hcx⟩ := hx.exists_child
          exact List.mem_cons_of_mem _
            (ih hlength' (List.mem_append_left _ (h.child_of_parent hc)) hcx)
      · exact List.mem_cons_of_mem _ (ih hlength' (List.mem_append_right _ hp) hx)

theorem above_of_mem_walk (h : t.WellFormed) {steps : Nat}
    (hx : x ∈ t.walk steps (t.children r)) : t.Above r x := by
  obtain ⟨p, hp, hpx⟩ := mem_walk h hx
  exact (above_of_parent (h.parent_of_child hp)).trans_atOrAbove hpx

/-- The node itself is one more node of the arena, so the walk below it is shorter than the
    bound. -/
theorem length_descendants_lt (h : t.WellFormed) (hr : t.Has r) :
    (t.descendants r).length < t.size := by
  have hnodup : (r :: t.descendants r).Nodup :=
    List.nodup_cons.2 ⟨fun hmem => h.acyclic r (above_of_mem_walk h hmem),
      nodup_walk h (pairwise_apart_children h r)⟩
  have hhas : ∀ y ∈ r :: t.descendants r, t.Has y := by
    intro y hy
    rcases List.mem_cons.1 hy with rfl | hy
    · exact hr
    · exact (above_of_mem_walk h hy).has_below
  exact length_le_size hnodup hhas

theorem mem_descendants (h : t.WellFormed) : x ∈ t.descendants r ↔ t.Above r x := by
  constructor
  · exact above_of_mem_walk h
  · intro hrx
    obtain ⟨c, hc, hcx⟩ := hrx.exists_child
    exact mem_walk_of_length_lt h (length_descendants_lt h (h.has_above hrx)) (h.child_of_parent hc)
      hcx

theorem descendants_eq_nil (hr : t.children r = []) : t.descendants r = [] := by
  unfold descendants
  rw [hr]
  cases t.size <;> rfl

theorem nodup_descendants (h : t.WellFormed) (r : NodeId) : (t.descendants r).Nodup :=
  nodup_walk h (pairwise_apart_children h r)

/-! ## Trees that agree below a node -/

theorem walk_congr {t' : Tree} {steps : Nat} {pending : List NodeId}
    (hsame : ∀ x ∈ t.walk steps pending, t'.children x = t.children x) :
    t'.walk steps pending = t.walk steps pending := by
  induction steps generalizing pending with
  | zero => cases pending <;> rfl
  | succ steps ih =>
    cases pending with
    | nil => rfl
    | cons s rest =>
      rw [walk, List.forall_mem_cons] at hsame
      rw [walk, walk, hsame.1]
      exact congrArg (s :: ·) (ih hsame.2)

/-- More steps than a walk takes make no difference. -/
theorem walk_of_length_lt {steps more : Nat} {pending : List NodeId}
    (hlength : (t.walk steps pending).length < steps) (hmore : steps ≤ more) :
    t.walk more pending = t.walk steps pending := by
  induction steps generalizing pending more with
  | zero => omega
  | succ steps ih =>
    obtain ⟨more, rfl⟩ : ∃ m, more = m + 1 := ⟨more - 1, by omega⟩
    cases pending with
    | nil => rfl
    | cons s rest =>
      rw [walk] at hlength
      rw [walk, walk, ih (by simpa using hlength) (by omega)]

/-- Trees in which the nodes at or below `r` have the same children have the same walk below it. -/
theorem descendants_congr {t' : Tree} (h : t.WellFormed) (hr : t.Has r) (hsize : t.size ≤ t'.size)
    (hsame : ∀ x, t.AtOrAbove r x → t'.children x = t.children x) :
    t'.descendants r = t.descendants r := by
  unfold descendants
  rw [hsame r (.refl t r)]
  have hmore := walk_of_length_lt (length_descendants_lt h hr) hsize
  rw [← hmore]
  apply walk_congr
  intro x hx
  exact hsame x (above_of_mem_walk h hx).atOrAbove

/-- A selector finds the same nodes if it accepts the same nodes. -/
theorem selectFrom_congr {t' : Tree} {selector : Selector} (h : t.WellFormed) (hr : t.Has r)
    (hsize : t.size ≤ t'.size)
    (hsame : ∀ x, t.AtOrAbove r x →
      t'.children x = t.children x ∧ t'.satisfies x selector = t.satisfies x selector) :
    t'.selectFrom r selector = t.selectFrom r selector := by
  have hselect : t'.select r selector = t.select r selector := by
    unfold select
    rw [descendants_congr h hr hsize fun x hx => (hsame x hx).1]
    apply List.filter_congr
    intro x hx
    exact (hsame x ((mem_descendants h).1 hx).atOrAbove).2
  unfold selectFrom
  rw [hselect, (hsame r (.refl t r)).2]

/-! ## Queries -/

theorem mem_selectFrom (h : t.WellFormed) {selector : Selector} :
    x ∈ t.selectFrom r selector ↔ t.AtOrAbove r x ∧ t.satisfies x selector = true := by
  unfold selectFrom select
  rw [atOrAbove_iff]
  split <;> simp only [List.mem_cons, List.mem_filter, mem_descendants h] <;> grind

theorem nodup_selectFrom (h : t.WellFormed) (r : NodeId) (selector : Selector) :
    (t.selectFrom r selector).Nodup := by
  unfold selectFrom select
  have hbelow := (nodup_descendants h r).filter fun id => t.satisfies id selector
  split
  · refine List.nodup_cons.2 ⟨fun hr => ?_, hbelow⟩
    exact h.acyclic r ((mem_descendants h).1 (List.mem_of_mem_filter hr))
  · exact hbelow

theorem satisfies_congr {t' : Tree} (h : t'.content? x = t.content? x) (selector : Selector) :
    t'.satisfies x selector = t.satisfies x selector := by
  unfold satisfies
  rw [element?_congr h]

theorem isElement_of_satisfies {selector : Selector} (h : t.satisfies x selector = true) :
    t.isElement x = true := by
  unfold satisfies at h
  unfold isElement
  cases he : t.element? x <;> simp_all

theorem satisfies_of_not_element (h : t.isElement x = false) (selector : Selector) :
    t.satisfies x selector = false := by
  rw [Bool.eq_false_iff]
  intro hx
  rw [isElement_of_satisfies hx] at h
  cases h

theorem satisfies_attributeIs {name value : String} :
    t.satisfies x (.attributeIs name value) = true ↔ t.attribute? x name = some value := by
  unfold satisfies attribute?
  cases t.element? x <;> simp [Selector.accepts]

theorem satisfies_hasAttribute {name : String} :
    t.satisfies x (.hasAttribute name) = true ↔ (t.attribute? x name).isSome = true := by
  unfold satisfies attribute?
  cases t.element? x <;> simp [Selector.accepts]

theorem satisfies_template_of_contents (h : t.WellFormed) {f : NodeId}
    (hx : t.contents? x = some f) : t.satisfies x (.tag "template") = true := by
  obtain ⟨e, he, hf⟩ := contents?_eq_some.1 hx
  have htag := h.contents_template (element?_eq_some.2 he) (by simp [hf])
  unfold Element.isTemplate at htag
  unfold satisfies
  rw [element?_eq_some.2 he]
  simp only [Option.any_some, Selector.accepts, beq_iff_eq] at htag ⊢
  rw [htag]

end Repeater.Dom.Tree
