/-
  Repeater/Proofs/Dom/Traversals.lean
  ===================================
  **The nodes below a node, in document order.**

  On links, the nodes below a node are listed with a stack: the node on top is taken, and its
  children are put in its place, the last one first (`Links.Sweeps`). Nothing bounds that loop but
  the tree. In a well-formed tree it ends, with the recursive order in which every node stands right
  before the nodes below it (`Preorder`), and so do the loops that read the children and the
  ancestors of a node. What is listed is every node that has the given one among its ancestors, once
  (`descendants_documentOrder`); selectors keep that order.

  The contents of a template are no part of the tree the template stands in: their nodes are below a
  node only when it is one of them itself.
-/
import Repeater.Proofs.Dom.Documents
import Repeater.Proofs.Dom.LinkedEdits
import Repeater.Proofs.Dom.Selections

namespace Repeater.Dom

open Markup

/-! ## The order, and the loop that lists it -/

/-- The nodes at and below some nodes in pre-order: each node, those below it, then those of the
    nodes behind it. -/
inductive Tree.Preorder (t : Tree) : List NodeId → List NodeId → Prop
  | nil : t.Preorder [] []
  | cons {x : NodeId} {rest below behind : List NodeId} : t.Preorder (t.children x) below →
      t.Preorder rest behind → t.Preorder (x :: rest) (x :: (below ++ behind))

/-- The loop over a stack whose top is at its end comes to an end and has listed these nodes. -/
inductive Links.Sweeps (a : Links) : List NodeId → List NodeId → Prop
  | done : a.Sweeps [] []
  | visit {x : NodeId} {stack kids ids : List NodeId} : Links.Reads a.next? (a.first? x) kids →
      a.Sweeps (stack ++ kids.reverse) ids → a.Sweeps (stack ++ [x]) (x :: ids)

/-- Listing the nodes below `r` ends, with these nodes: its children are read, and the stack starts
    with them. -/
def Links.ListsBelow (a : Links) (r : NodeId) (ids : List NodeId) : Prop :=
  ∃ kids, Links.Reads a.next? (a.first? r) kids ∧ a.Sweeps kids.reverse ids

/-- A loop that ends has one outcome. -/
theorem Links.Reads.unique {step : NodeId → Option NodeId} {start : Option NodeId}
    {ids ids' : List NodeId} (h : Links.Reads step start ids) (h' : Links.Reads step start ids') :
    ids = ids' := by
  induction h generalizing ids' with
  | stop => cases h' with | stop => rfl
  | step _ ih => cases h' with | step hrest => rw [ih hrest]

theorem Links.Sweeps.unique {a : Links} {stack ids ids' : List NodeId} (h : a.Sweeps stack ids)
    (h' : a.Sweeps stack ids') : ids = ids' := by
  induction h generalizing ids' with
  | done =>
    generalize hstack : ([] : List NodeId) = stack at h'
    cases h' with
    | done => rfl
    | visit => simp at hstack
  | @visit x stack kids ids hkids _ ih =>
    generalize htop : stack ++ [x] = other at h'
    cases h' with
    | done => simp at htop
    | visit hkids' hrest =>
      obtain ⟨rfl, hx⟩ := List.append_inj' htop rfl
      obtain rfl := List.singleton_inj.1 hx
      rw [hkids.unique hkids'] at ih
      rw [ih hrest]

namespace Tree

variable {t : Tree} {r x f z : NodeId} {pending ids ids' : List NodeId}

theorem Preorder.unique (h : t.Preorder pending ids) (h' : t.Preorder pending ids') :
    ids = ids' := by
  induction h generalizing ids' with
  | nil => cases h' with | nil => rfl
  | cons _ _ ihbelow ihbehind =>
    cases h' with
    | cons hbelow hbehind => rw [ihbelow hbelow, ihbehind hbehind]

/-- A walk that is not cut short is what the stack lists, refilled with reversed children. -/
theorem Meets.sweeps (h : t.Tidy) (hmeets : t.Meets pending ids) :
    t.links.Sweeps pending.reverse ids := by
  obtain ⟨steps, rfl, hlength⟩ := hmeets
  induction steps generalizing pending with
  | zero => exact absurd hlength (Nat.not_lt_zero _)
  | succ steps ih =>
    cases pending with
    | nil => exact .done
    | cons x rest =>
      rw [walk] at hlength ⊢
      have hrest := ih (by simpa using hlength)
      rw [List.reverse_append] at hrest
      rw [List.reverse_cons]
      exact .visit (reads_children h x) hrest

theorem meets_children (h : t.WellFormed) (r : NodeId) :
    t.Meets (t.children r) (t.descendants r) := by
  by_cases hr : t.Has r
  · exact meets_descendants h hr
  · rw [descendants_eq_flatMap h, children_of_not_has hr]
    exact ⟨1, rfl, Nat.one_pos⟩

theorem listsBelow_iff (h : t.WellFormed) :
    t.links.ListsBelow r ids ↔ ids = t.descendants r := by
  have hlists : t.links.Sweeps (t.children r).reverse (t.descendants r) :=
    (meets_children h r).sweeps h.tidy
  constructor
  · rintro ⟨kids, hkids, hids⟩
    rw [hkids.unique (reads_children h.tidy r)] at hids
    exact hids.unique hlists
  · rintro rfl
    exact ⟨_, reads_children h.tidy r, hlists⟩

theorem preorder_flatMap (h : ∀ x ∈ ids, t.Preorder (t.children x) (t.descendants x)) :
    t.Preorder ids (ids.flatMap fun x => x :: t.descendants x) := by
  induction ids with
  | nil => exact .nil
  | cons x rest ih =>
    rw [List.flatMap_cons, List.cons_append]
    exact .cons (h x (by simp)) (ih fun y hy => h y (by simp [hy]))

/-- The recursion that goes from a node to its children ends. -/
theorem preorder_descendants (h : t.WellFormed) (r : NodeId) :
    t.Preorder (t.children r) (t.descendants r) := by
  -- there is less below a child than below the node
  induction hn : (t.descendants r).length using Nat.strong_induction_on generalizing r with
  | _ n ih =>
    rw [descendants_eq_flatMap h]
    exact preorder_flatMap fun x hx => ih _ (hn ▸ length_descendants_child h hx) x rfl

theorem preorder_iff (h : t.WellFormed) :
    t.Preorder (t.children r) ids ↔ ids = t.descendants r := by
  constructor
  · exact fun hids => hids.unique (preorder_descendants h r)
  · rintro rfl
    exact preorder_descendants h r

theorem mem_descendants_iff_ancestors (h : t.WellFormed) :
    x ∈ t.descendants r ↔ r ∈ t.ancestors x := by
  rw [mem_descendants h, mem_ancestors h]

/-! ## Contents of templates -/

/-- What is in the contents of a template is below a node only when the node is in them too. -/
theorem enclosed_of_mem_descendants (h : t.WellFormed) (hf : t.contents? z = some f)
    (hfx : t.AtOrEncloses f x) (hx : x ∈ t.descendants r) : t.AtOrEncloses f r :=
  h.atOrEncloses_of_detached (h.fragment_parent (h.contents_fragment hf))
    ((mem_descendants h).1 hx).atOrAbove hfx

/-- Where no template holds itself, nothing in the contents of a template at or below a node is
    below the node. -/
theorem not_mem_descendants_of_contents (h : t.WellFormed) (hg : t.GroundedFrom r)
    (hz : t.AtOrAbove r z) (hf : t.contents? z = some f) (hfx : t.AtOrEncloses f x) :
    x ∉ t.descendants r := by
  intro hx
  have hfr := enclosed_of_mem_descendants h hf hfx hx
  have hrf : t.Encloses r f := hz.atOrEncloses.trans_encloses (encloses_of_contents hf)
  exact hg r (.refl t r) (hrf.trans_atOrEncloses hfr)

/-! ## Selecting -/

theorem mem_select (h : t.WellFormed) {selector : Selector} :
    x ∈ t.select r selector ↔ r ∈ t.ancestors x ∧ t.satisfies x selector = true := by
  unfold select
  rw [List.mem_filter, mem_descendants_iff_ancestors h]

theorem selectFirst?_eq_head? (t : Tree) (r : NodeId) (selector : Selector) :
    t.selectFirst? r selector = (t.select r selector).head? := by
  unfold selectFirst? select
  rw [List.head?_filter]

/-! ## Document order -/

/-- The nodes below a node are listed in document order, each once, by loops that end, and those
    in the contents of a template are not among them. A selector finds each of them it accepts once,
    in that order. -/
theorem descendants_documentOrder (h : t.WellFormed) (r : NodeId) :
    (∀ ids, t.Preorder (t.children r) ids ↔ ids = t.descendants r) ∧
      (∀ ids, t.links.ListsBelow r ids ↔ ids = t.descendants r) ∧
      (∀ x, Links.Reads t.links.next? (t.links.first? x) (t.children x) ∧
        Links.Reads t.links.parent? (t.links.parent? x) (t.ancestors x)) ∧
      (t.descendants r).Nodup ∧ (∀ x, x ∈ t.descendants r ↔ r ∈ t.ancestors x) ∧
      (∀ z f x, t.contents? z = some f → t.AtOrEncloses f x → ¬ t.AtOrEncloses f r →
        x ∉ t.descendants r) ∧
      (t.GroundedFrom r → ∀ z f x, t.AtOrAbove r z → t.contents? z = some f →
        t.AtOrEncloses f x → x ∉ t.descendants r) ∧
      ∀ selector, (t.select r selector).Sublist (t.descendants r) ∧
        (t.select r selector).Nodup ∧
        (∀ x, x ∈ t.select r selector ↔ r ∈ t.ancestors x ∧ t.satisfies x selector = true) ∧
        t.selectFirst? r selector = (t.select r selector).head? := by
  have hselect : ∀ selector, (t.select r selector).Sublist (t.descendants r) :=
    fun _ => List.filter_sublist
  refine ⟨fun ids => preorder_iff h, fun ids => listsBelow_iff h,
    fun x => ⟨reads_children h.tidy x, reads_ancestors h x⟩, nodup_descendants h r,
    fun x => mem_descendants_iff_ancestors h, ?apart, ?grounded, ?selected⟩
  case apart =>
    exact fun z f x hf hfx hfr hx => hfr (enclosed_of_mem_descendants h hf hfx hx)
  case grounded =>
    exact fun hg z f x hz hf hfx => not_mem_descendants_of_contents h hg hz hf hfx
  case selected =>
    exact fun selector => ⟨hselect selector, (nodup_descendants h r).sublist (hselect selector),
      fun x => mem_select h, selectFirst?_eq_head? t r selector⟩

/-- A section holds an element with a text in it, a template and a text; the text in the contents of
    the template is not below the section. -/
theorem descendants_documentOrder_section :
    let t := (documentOf "about:blank" [.element "section" [] []
      [.element "p" [] [] [.text "one"], .element "template" [] [.text "inside"] [],
        .text "two"]]).tree
    t.WellFormed ∧ t.GroundedFrom (.slot 1) ∧
      t.descendants (.slot 1) = [.slot 2, .slot 3, .slot 4, .slot 7] ∧
      t.Preorder (t.children (.slot 1)) [.slot 2, .slot 3, .slot 4, .slot 7] ∧
      t.links.ListsBelow (.slot 1) [.slot 2, .slot 3, .slot 4, .slot 7] ∧
      t.contents? (.slot 4) = some (.slot 5) ∧ .slot 6 ∉ t.descendants (.slot 1) ∧
      t.selectFirst? (.slot 1) .universal = some (.slot 2) := by
  intro t
  have hwf : t.WellFormed := (edited_documentOf "about:blank" _).wellFormed wellFormed_empty
  have hg : t.GroundedFrom (.slot 1) := (InOrder.grounded (by decide +kernel)).groundedFrom _
  have hids : t.descendants (.slot 1) = [.slot 2, .slot 3, .slot 4, .slot 7] := by decide +kernel
  have hz : t.AtOrAbove (.slot 1) (.slot 4) :=
    (above_of_parent (by decide +kernel)).atOrAbove
  have hf : t.contents? (.slot 4) = some (.slot 5) := by decide +kernel
  have hx : t.AtOrEncloses (.slot 5) (.slot 6) :=
    (encloses_of_parent (by decide +kernel)).atOrEncloses
  obtain ⟨hpreorder, hlists, -, -, -, -, hgrounded, hselect⟩ :=
    descendants_documentOrder hwf (.slot 1)
  refine ⟨hwf, hg, hids, (hpreorder _).2 hids.symm, (hlists _).2 hids.symm, hf,
    hgrounded hg _ _ _ hz hf hx, ?_⟩
  rw [(hselect .universal).2.2.2]
  decide +kernel

end Tree

end Repeater.Dom
