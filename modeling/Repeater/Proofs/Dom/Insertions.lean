/-
  Repeater/Proofs/Dom/Insertions.lean
  ===================================
  **Insertions that fail.**

  An insertion of a node that is not a fragment is checked before any link is touched. A fragment
  gives its children away one by one, each with its own check, so an insertion of it can fail after
  some of them have moved. This happens exactly when the place lies at or below a child of the
  fragment that is not its first: the children before that one have then gone to the place as one
  run, and it and those after it are left in the fragment (`Edit.torn_insertion`). In all other
  cases a failed insertion leaves the tree as it was (`Edit.insertBefore_error`).
-/
import Repeater.Proofs.Dom.Construction

namespace Repeater.Dom

open Tree

variable {t t' : Tree} {p c f k : NodeId} {reference : Option NodeId} {before after : List NodeId}

namespace Tree

/-- The fragment `f` may be inserted into `p`, but `p` lies at or below its child `k`. -/
structure Tears (t : Tree) (p f : NodeId) (reference : Option NodeId) (before : List NodeId)
    (k : NodeId) (after : List NodeId) : Prop where
  allows : t.Allows p f reference .fragment
  children : t.children f = before ++ k :: after
  blocked : t.AtOrAbove k p

namespace Tears

theorem parent (h : t.Tears p f reference before k after) (ht : t.WellFormed) :
    t.parent? k = some f := ht.parent_of_child (by simp [h.children])

/-- The place is not the fragment itself. -/
theorem ne (h : t.Tears p f reference before k after) (ht : t.WellFormed) : p ≠ f := by
  rintro rfl
  exact ht.not_above_of_atOrAbove h.blocked (above_of_parent (h.parent ht))

/-- No other child of the fragment is at or above the place. -/
theorem not_atOrAbove (h : t.Tears p f reference before k after) (ht : t.WellFormed) {x : NodeId}
    (hx : x ∈ before) : ¬ t.AtOrAbove x p := by
  intro hxp
  have hxf : t.parent? x = some f := ht.parent_of_child (by simp [h.children, hx])
  have hne : x ≠ k := by
    rintro rfl
    have hnodup := ht.nodup_children f
    rw [h.children] at hnodup
    exact (List.nodup_cons.1 (List.nodup_middle.1 hnodup)).1 (List.mem_append_left _ hx)
  have hapart := apart_of_siblings ht hxf (h.parent ht) hne
  exact (hxp.total h.blocked).elim hapart.1 hapart.2

end Tears

end Tree

namespace Edit

theorem exec_insertBefore_of_fragment (hplace : t.Allows p f reference .fragment) :
    exec (insertBefore p f reference) t = exec (do
      (t.children f).forM fun kid => insertNode p kid reference
      return f) t := by
  unfold insertBefore
  simp only [exec_get_bind, checkPlace_eq_ok.2 hplace, exec_liftM_ok_bind, Content.isFragment,
    if_true]

/-- A fragment is torn where one of its children is at or above the place. -/
theorem exec_insertBefore_tears (ht : t.WellFormed) (h : t.Tears p f reference before k after) :
    ∃ t', exec (insertBefore p f reference) t = (.error (.hierarchy p k), t') ∧
      t.Moved p f reference before (k :: after) t' := by
  obtain ⟨t', hrun, hmoved⟩ := exec_insertRun ht (h.ne ht) h.allows.holder h.allows.reference
    h.children fun x hx => h.not_atOrAbove ht hx
  -- the children that have moved are not on the way from `k` down to the place
  have hkept : t'.AtOrAbove k p := by
    have hpath : ∀ {x}, t.AtOrAbove k x → t.AtOrAbove x p → t'.AtOrAbove k x := by
      intro x hkx
      induction hkx with
      | refl => exact fun _ => .refl t' k
      | tail hkz hstep ih =>
        intro hxp
        refine Relation.ReflTransGen.tail (ih ((above_of_parent hstep).atOrAbove.trans hxp)) ?_
        rw [hmoved.parent, if_neg fun hmem => h.not_atOrAbove ht hmem hxp, hstep]
    exact hpath h.blocked (.refl t p)
  obtain ⟨content, hcontent⟩ := has_iff_content.1 (has_of_parent (h.parent ht))
  have hplace : t'.Allows p k reference content := by
    refine ⟨by simpa only [hmoved.content] using h.allows.holder, ?_, fun r hr => ?_⟩
    · rw [hmoved.content, hcontent]
    · rw [hmoved.parent, h.allows.reference r hr, ite_self]
  refine ⟨t', ?_, hmoved⟩
  rw [exec_insertBefore_of_fragment h.allows, h.children]
  refine exec_bind_error ?_
  rw [exec_forM_append, exec_bind_ok hrun, exec_forM_cons]
  exact exec_bind_error (exec_insertNode_blocked hmoved.wellFormed hplace hkept)

/-- A fragment that is inserted into itself keeps its children, in another order. -/
theorem exec_insertKids_self (ht : t.WellFormed)
    (hholder : ∃ holder, t.content? p = some holder ∧ holder.holdsChildren)
    (hreference : ∀ r, reference = some r → t.parent? r = some p) {kids : List NodeId}
    (hkids : ∀ kid ∈ kids, t.parent? kid = some p) :
    ∃ t', exec (kids.forM fun kid => insertNode p kid reference) t = (.ok ⟨⟩, t') := by
  induction kids generalizing t with
  | nil => exact ⟨t, rfl⟩
  | cons kid rest ih =>
    have hparent := hkids kid (by simp)
    obtain ⟨content, hcontent⟩ := has_iff_content.1 (has_of_parent hparent)
    have hplace : t.Allows p kid reference content := ⟨hholder, hcontent, hreference⟩
    have hfragment : content ≠ .fragment := by
      rintro rfl
      simp [ht.fragment_parent hcontent] at hparent
    have hnot : ¬ t.AtOrAbove kid p := fun hle =>
      ht.not_above_of_atOrAbove hle (above_of_parent hparent)
    have hsame : ∀ y, (t.relocate p kid reference).parent? y = t.parent? y := by
      intro y
      rw [parent?_relocate _ _ _ _ _ hplace.has_child]
      split
      · next hy => rw [hy, hparent]
      · rfl
    obtain ⟨t', hrun⟩ := ih (wellFormed_of_allows ht hplace hfragment hnot) (by simpa using hholder)
      (fun r hr => (hsame r).trans (hreference r hr))
      (fun kid' hkid' => (hsame kid').trans (hkids kid' (by simp [hkid'])))
    exact ⟨t', by rw [exec_forM_cons, exec_bind_ok (exec_insertNode_ok ht hplace hnot), hrun]⟩

/-- A failed insertion leaves the tree as it was, unless a fragment has been torn. -/
theorem insertBefore_error (ht : t.WellFormed) {e : DomError}
    (hrun : exec (insertBefore p c reference) t = (.error e, t')) :
    t' = t ∨ ∃ before k after, before ≠ [] ∧ t.Tears p c reference before k after := by
  rcases hplace : t.checkPlace p c reference with error | content
  · unfold insertBefore at hrun
    simp only [exec_get_bind, hplace, exec_liftM_error_bind, Prod.mk.injEq] at hrun
    exact .inl hrun.2.symm
  have hallows := checkPlace_eq_ok.1 hplace
  by_cases hfragment : content = .fragment
  swap
  · refine .inl ?_
    by_cases hnot : t.AtOrAbove c p
    · have hkind : content.isFragment = false := by
        cases content <;> simp_all [Content.isFragment]
      unfold insertBefore at hrun
      simp only [exec_get_bind, hplace, exec_liftM_ok_bind, hkind] at hrun
      rw [if_neg (by simp), exec_bind_error (exec_insertNode_blocked ht hallows hnot)] at hrun
      exact (Prod.mk.inj hrun).2.symm
    · rw [exec_insertBefore_node ht hallows hfragment hnot] at hrun
      simp at hrun
  subst hfragment
  by_cases hpc : p = c
  · subst hpc
    obtain ⟨u, hok⟩ := exec_insertKids_self ht hallows.holder hallows.reference
      fun kid (hkid : kid ∈ t.children p) => ht.parent_of_child hkid
    rw [exec_insertBefore_of_fragment hallows, exec_bind_ok hok] at hrun
    simp at hrun
  by_cases hkids : ∀ k ∈ t.children c, ¬ t.AtOrAbove k p
  · obtain ⟨u, hok, -⟩ := exec_insertBefore_fragment ht hpc hallows hkids
    rw [hok] at hrun
    simp at hrun
  obtain ⟨k, hk, hblocked⟩ : ∃ k ∈ t.children c, t.AtOrAbove k p := by
    simpa using hkids
  obtain ⟨before, after, hchildren⟩ := List.append_of_mem hk
  have htears : t.Tears p c reference before k after := ⟨hallows, hchildren, hblocked⟩
  cases before with
  | nil =>
    obtain ⟨content, hcontent⟩ := has_iff_content.1 (has_of_parent (htears.parent ht))
    have hfirst : exec ((k :: after).forM fun kid => insertNode p kid reference) t =
        (.error (.hierarchy p k), t) := by
      rw [exec_forM_cons]
      exact exec_bind_error (exec_insertNode_blocked ht
        ⟨hallows.holder, hcontent, hallows.reference⟩ hblocked)
    rw [exec_insertBefore_of_fragment hallows, hchildren, List.nil_append,
      exec_bind_error hfirst] at hrun
    exact .inl (Prod.mk.inj hrun).2.symm
  | cons x before => exact .inr ⟨x :: before, k, after, by simp, htears⟩

/-- An insertion into a tree that was built by edits fails and leaves other links than before
    exactly when a fragment is torn behind its first child. What is left then are the links of the
    tree in which the children before the one that is in the way have moved. -/
theorem torn_insertion (operations : List Operation) (p c : NodeId) (reference : Option NodeId) :
    let t := Tree.empty.after operations
    let result := (exec (insertBefore p c reference) t).1
    let t' := (exec (insertBefore p c reference) t).2
    ((∃ e, result = .error e) ∧ t'.links ≠ t.links ↔
        ∃ before k after, before ≠ [] ∧ t.Tears p c reference before k after) ∧
      ∀ before k after, t.Tears p c reference before k after →
        result = .error (.hierarchy p k) ∧ t.Moved p c reference before (k :: after) t' := by
  intro t result t'
  have ht : t.WellFormed := (edited_after Tree.empty operations).wellFormed wellFormed_empty
  have htorn : ∀ before k after, t.Tears p c reference before k after →
      result = .error (.hierarchy p k) ∧ t.Moved p c reference before (k :: after) t' := by
    intro before k after htears
    obtain ⟨u, hrun, hmoved⟩ := exec_insertBefore_tears ht htears
    have hu : t' = u := congrArg Prod.snd hrun
    exact ⟨congrArg Prod.fst hrun, hu ▸ hmoved⟩
  refine ⟨⟨?_, ?_⟩, htorn⟩
  · rintro ⟨⟨e, he⟩, hlinks⟩
    have hrun : exec (insertBefore p c reference) t = (.error e, t') := Prod.ext he rfl
    rcases insertBefore_error ht hrun with hsame | htears
    · exact absurd (congrArg Tree.links hsame) hlinks
    · exact htears
  · rintro ⟨before, k, after, hbefore, htears⟩
    obtain ⟨herror, hmoved⟩ := htorn before k after htears
    refine ⟨⟨_, herror⟩, fun hlinks => ?_⟩
    obtain ⟨x, rest, rfl⟩ := List.exists_cons_of_ne_nil hbefore
    -- the first child has another parent now
    have hold : t.parent? x = some c := ht.parent_of_child (by simp [htears.children])
    have hnew : t'.parent? x = some p := by rw [hmoved.parent, if_pos (by simp)]
    rw [← parent?_links, hlinks, parent?_links, hold, Option.some.injEq] at hnew
    exact htears.ne ht hnew.symm

/-- A fragment with two children is put into a node below the second: the first has moved. -/
example :
    let t := Tree.empty.after [.createFragment, .createElement "a", .createElement "b",
      .createElement "i", .insert (.slot 1) (.slot 2) none, .insert (.slot 1) (.slot 3) none,
      .insert (.slot 3) (.slot 4) none]
    let after := exec (insertBefore (.slot 4) (.slot 1) none) t
    after.1 = .error (.hierarchy (.slot 4) (.slot 3)) ∧ t.parent? (.slot 2) = some (.slot 1) ∧
      after.2.parent? (.slot 2) = some (.slot 4) := by decide +kernel

end Edit

end Repeater.Dom
