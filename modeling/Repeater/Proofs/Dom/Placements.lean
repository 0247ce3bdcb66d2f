/-
  Repeater/Proofs/Dom/Placements.lean
  ===================================
  **Insertions as moves between lists.**

  An allowed insertion takes nodes out of the lists they stand in and puts them into the children of
  the parent, right before the reference or at the end. For a node that is no fragment these nodes
  are the node alone; for a fragment they are its children, which stay together and in their order.
  `Gathered` says this on the lists of children. The links that are mended by hand come out
  accordingly: followed from either end, they read the same lists (`Edit.insertBefore_gathers`).

  A node that is to stand before itself is the one case in which the reference is itself taken out;
  its list stays as it is.
-/
import Repeater.Proofs.Dom.Construction

namespace Repeater.Dom

open Tree

variable {t : Tree} {p c f : NodeId} {reference : Option NodeId}

/-! ## Putting a run into a list -/

/-- The second list is the first with the entries of `run` taken out and put back together, in their
    order, right before `reference`, or at the end without one. -/
def PutBefore (run : List NodeId) (reference : Option NodeId) (ids ids' : List NodeId) : Prop :=
  ∃ front back, ids.filter (· ∉ run) = front ++ back ∧ back.head? = reference ∧
    ids' = front ++ run ++ back

namespace Tree

/-! ## What an insertion shows -/

/-- What a tree shows after the nodes of `run` have been put into `p`: all other nodes lose those of
    their children that are in the run, and nothing else changes. -/
structure Gathered (t : Tree) (p : NodeId) (run : List NodeId) (reference : Option NodeId)
    (t' : Tree) : Prop where
  wellFormed : t'.WellFormed
  size : t'.size = t.size
  content : ∀ y, t'.content? y = t.content? y
  parent : ∀ y, t'.parent? y = if y ∈ run then some p else t.parent? y
  place : (∀ r ∈ run, reference ≠ some r) →
    PutBefore run reference (t.children p) (t'.children p)
  own_place : ∀ r ∈ run, reference = some r → t'.children p = t.children p
  elsewhere : ∀ y, y ≠ p → t'.children y = (t.children y).filter (· ∉ run)

theorem filter_ne_of_parent (h : t.WellFormed) (y : NodeId) :
    (t.children y).filter (· ∉ [c]) =
      if t.parent? c = some y then (t.children y).erase c else t.children y := by
  split
  · next hc =>
    rw [(h.nodup_children y).erase_eq_filter]
    exact List.filter_congr fun x _ => by by_cases hx : x = c <;> simp [hx]
  · next hc =>
    refine List.filter_eq_self.2 fun x hx => ?_
    have hne : x ≠ c := by
      rintro rfl
      exact hc (h.parent_of_child hx)
    simpa using hne

/-- A node that moves is taken out of its list and put where it is to go. -/
theorem gathered_relocate (h : t.WellFormed) {content : Content}
    (hplace : t.Allows p c reference content) (hfragment : content ≠ .fragment)
    (hcp : ¬ t.AtOrAbove c p) : t.Gathered p [c] reference (t.relocate p c reference) where
  wellFormed := wellFormed_of_allows h hplace hfragment hcp
  size := size_relocate ..
  content := content?_relocate t p c reference
  parent := by
    intro y
    rw [parent?_relocate _ _ _ _ _ hplace.has_child]
    simp
  place := by
    intro hother
    have hne : reference ≠ some c := hother c (by simp)
    have hmoved : t.movedReference c reference = reference := if_neg hne
    have hleft : (t.detach c).children p = (t.children p).filter (· ∉ [c]) := by
      rw [filter_ne_of_parent h, children_detach]
    have hstill : ∀ r, reference = some r → r ∈ (t.detach c).children p := by
      intro r hr
      have hrc : r ≠ c := by
        rintro rfl
        exact hne hr
      rw [hleft]
      simpa [hrc] using h.child_of_parent (hplace.reference r hr)
    obtain ⟨front, back, hlist, hplaced, hback⟩ := exists_place _ c hstill
    refine ⟨front, back, hleft ▸ hlist, hback, ?_⟩
    rw [children_relocate _ _ _ _ _ hplace.has_parent, if_pos rfl, hmoved, hplaced]
    simp
  own_place := by
    intro r hr hself
    obtain rfl : r = c := by simpa using hr
    have hparent := hplace.reference r hself
    obtain ⟨front, back, hlist⟩ := List.append_of_mem (h.child_of_parent hparent)
    have hnext : t.nextSibling? r = back.head? :=
      siblingIn?_self h.tidy hlist (arranges_id front r back)
    have hmoved : t.movedReference r reference = back.head? := (if_pos hself).trans hnext
    have hnodup := List.nodup_middle.1 (hlist ▸ h.nodup_children p)
    have hfront : r ∉ front := fun hmem =>
      (List.nodup_cons.1 hnodup).1 (List.mem_append_left _ hmem)
    have hleft : (t.detach r).children p = front ++ back := by
      rw [children_detach, if_pos hparent, hlist, List.erase_append_right _ hfront]
      simp
    rw [children_relocate _ _ _ _ _ hplace.has_parent, if_pos rfl, hmoved, hleft,
      listWith_eq_run, listWithRun_head? [r], hlist]
    · simp
    · intro z hz hzfront
      exact (List.nodup_append.1 (List.nodup_cons.1 hnodup).2).2.2 z hzfront z
        (List.mem_of_head? hz) rfl
  elsewhere := by
    intro y hy
    rw [filter_ne_of_parent h, children_relocate _ _ _ _ _ hplace.has_parent, if_neg hy]

/-- The children of a fragment are taken out of it and put where they are to go. -/
theorem gathered_of_spliced (h : t.WellFormed) {t' : Tree} (hpf : p ≠ f)
    (hreference : ∀ r, reference = some r → t.parent? r = some p)
    (hspliced : t.Spliced p f reference t') : t.Gathered p (t.children f) reference t' := by
  -- no other list holds a child of the fragment
  have hkeep : ∀ y, y ≠ f → (t.children y).filter (· ∉ t.children f) = t.children y := by
    intro y hy
    refine List.filter_eq_self.2 fun x hx => ?_
    rw [decide_eq_true_eq]
    intro hxf
    have hxy := h.parent_of_child hx
    rw [h.parent_of_child hxf, Option.some.injEq] at hxy
    exact hy hxy.symm
  have hnot : ∀ r ∈ t.children f, reference ≠ some r := by
    intro r hr hself
    have hrp := hreference r hself
    rw [h.parent_of_child hr, Option.some.injEq] at hrp
    exact hpf hrp.symm
  constructor
  case wellFormed => exact hspliced.wellFormed
  case size => exact hspliced.size
  case content => exact hspliced.content
  case parent => exact hspliced.parent
  case place =>
    intro _
    obtain ⟨front, back, hlist, hrun, hback⟩ := exists_placeRun (t.children p) (t.children f)
      fun r hr => h.child_of_parent (hreference r hr)
    exact ⟨front, back, (hkeep p hpf).trans hlist, hback, hspliced.children_place.trans hrun⟩
  case own_place => exact fun r hr hself => absurd hself (hnot r hr)
  case elsewhere =>
    intro y hy
    by_cases hyf : y = f
    · subst hyf
      rw [hspliced.children_fragment, eq_comm, List.filter_eq_nil_iff]
      simp
    · rw [hspliced.children_other y hy hyf, hkeep y hyf]

end Tree

/-! ## Insertions -/

/-- An insertion at an allowed place succeeds when the new child is neither the parent nor above it.
    A node moves alone; a fragment gives all its children away and is left empty. The links are
    mended so that they read the new lists, forwards and backwards. -/
theorem Edit.insertBefore_gathers (h : t.WellFormed)
    (hholder : ∃ holder, t.content? p = some holder ∧ holder.holdsChildren) (hc : t.Has c)
    (hreference : ∀ r, reference = some r → r ∈ t.children p) (hcp : ¬ t.AtOrAbove c p) :
    ∃ t', exec (Edit.insertBefore p c reference) t = (.ok c, t') ∧
      exec (LinkEdit.insertBefore p c reference) t.links = (.ok c, t'.links) ∧
      (t.content? c ≠ some .fragment → t.Gathered p [c] reference t') ∧
      (t.content? c = some .fragment →
        t.Gathered p (t.children c) reference t' ∧ t'.children c = []) ∧
      ∀ y, Links.Reads t'.links.next? (t'.links.first? y) (t'.children y) ∧
        Links.Reads t'.links.previous? (t'.links.last? y) (t'.children y).reverse := by
  obtain ⟨content, hcontent⟩ := has_iff_content.1 hc
  have hplace : t.Allows p c reference content :=
    ⟨hholder, hcontent, fun r hr => h.parent_of_child (hreference r hr)⟩
  have hpc : p ≠ c := by
    rintro rfl
    exact hcp (.refl t p)
  have hmirrors := Mirrors.insertBefore p c reference t h.tidy
  by_cases hfragment : content = .fragment
  · subst hfragment
    have hkids : ∀ k ∈ t.children c, ¬ t.AtOrAbove k p := fun k hk hkp =>
      hcp ((above_of_parent (h.parent_of_child hk)).atOrAbove.trans hkp)
    obtain ⟨t', hrun, hspliced⟩ := exec_insertBefore_fragment h hpc hplace hkids
    have hgathered := gathered_of_spliced h hpc hplace.reference hspliced
    refine ⟨t', hrun, ?_, fun hother => absurd hcontent hother, ?_, ?_⟩
    · rw [hmirrors.2, hrun]
    · exact fun _ => ⟨hgathered, hspliced.children_fragment⟩
    · intro y
      exact ⟨reads_children hgathered.wellFormed.tidy y,
        reads_children_reverse hgathered.wellFormed.tidy y⟩
  · have hrun := exec_insertBefore_node h hplace hfragment hcp
    have hgathered := gathered_relocate h hplace hfragment hcp
    refine ⟨t.relocate p c reference, hrun, ?_, fun _ => hgathered, ?_, ?_⟩
    · rw [hmirrors.2, hrun]
    · intro hkind
      rw [hcontent, Option.some.injEq] at hkind
      exact absurd hkind hfragment
    · intro y
      exact ⟨reads_children hgathered.wellFormed.tidy y,
        reads_children_reverse hgathered.wellFormed.tidy y⟩

/-- A list of three items, and a fragment with two more. -/
def shelfEdits : List Operation :=
  [.createElement "ul", .createElement "li", .createElement "li", .createElement "li",
    .createFragment, .createElement "li", .createElement "li",
    .insert (.slot 1) (.slot 2) none, .insert (.slot 1) (.slot 3) none,
    .insert (.slot 1) (.slot 4) none, .insert (.slot 5) (.slot 6) none,
    .insert (.slot 5) (.slot 7) none]

/-- The fragment goes before the second item, and the third item before itself. -/
theorem Edit.insertBefore_gathers_shelf :
    let shelf := Tree.empty.after shelfEdits
    shelf.WellFormed ∧
      (∃ holder, shelf.content? (.slot 1) = some holder ∧ holder.holdsChildren) ∧
      (∀ r, some (.slot 3) = some r → r ∈ shelf.children (.slot 1)) ∧
      (∀ r, some (.slot 4) = some r → r ∈ shelf.children (.slot 1)) ∧
      (shelf.Has (.slot 5) ∧ ¬ shelf.AtOrAbove (.slot 5) (.slot 1)) ∧
      (shelf.Has (.slot 4) ∧ ¬ shelf.AtOrAbove (.slot 4) (.slot 1)) ∧
      (∃ t', exec (Edit.insertBefore (.slot 1) (.slot 5) (some (.slot 3))) shelf =
          (.ok (.slot 5), t') ∧
        shelf.Gathered (.slot 1) [.slot 6, .slot 7] (some (.slot 3)) t' ∧
        t'.children (.slot 1) = [.slot 2, .slot 6, .slot 7, .slot 3, .slot 4]) ∧
      ∃ t', exec (Edit.insertBefore (.slot 1) (.slot 4) (some (.slot 4))) shelf =
          (.ok (.slot 4), t') ∧
        shelf.Gathered (.slot 1) [.slot 4] (some (.slot 4)) t' ∧
        t'.children (.slot 1) = [.slot 2, .slot 3, .slot 4] := by
  intro shelf
  have hwf : shelf.WellFormed := (edited_after Tree.empty shelfEdits).wellFormed wellFormed_empty
  have hholder : ∃ holder, shelf.content? (.slot 1) = some holder ∧ holder.holdsChildren :=
    ⟨.element { tag := "ul" }, by decide +kernel, rfl⟩
  have hthird : ∀ r, some (.slot 3) = some r → r ∈ shelf.children (.slot 1) := by
    rintro _ ⟨⟩
    decide +kernel
  have hfourth : ∀ r, some (.slot 4) = some r → r ∈ shelf.children (.slot 1) := by
    rintro _ ⟨⟩
    decide +kernel
  have hfragment : ¬ shelf.AtOrAbove (.slot 5) (.slot 1) := by
    rw [← isInclusiveAncestor_iff hwf]
    decide +kernel
  have hitem : ¬ shelf.AtOrAbove (.slot 4) (.slot 1) := by
    rw [← isInclusiveAncestor_iff hwf]
    decide +kernel
  have hhas : shelf.Has (.slot 5) ∧ shelf.Has (.slot 4) := by decide +kernel
  refine ⟨hwf, hholder, hthird, hfourth, ⟨hhas.1, hfragment⟩, ⟨hhas.2, hitem⟩, ?_, ?_⟩
  · obtain ⟨t', hrun, -, -, hmoved, -⟩ :=
      insertBefore_gathers hwf hholder hhas.1 hthird hfragment
    have hkids : shelf.children (.slot 5) = [.slot 6, .slot 7] := by decide +kernel
    refine ⟨t', hrun, hkids ▸ (hmoved (by decide +kernel)).1, ?_⟩
    have hafter : (exec (Edit.insertBefore (.slot 1) (.slot 5) (some (.slot 3))) shelf).2.children
        (.slot 1) = [.slot 2, .slot 6, .slot 7, .slot 3, .slot 4] := by decide +kernel
    rwa [hrun] at hafter
  · obtain ⟨t', hrun, -, hmoved, -⟩ := insertBefore_gathers hwf hholder hhas.2 hfourth hitem
    have hgathered := hmoved (by decide +kernel)
    refine ⟨t', hrun, hgathered, ?_⟩
    rw [hgathered.own_place (.slot 4) (by simp) rfl]
    decide +kernel

end Repeater.Dom
