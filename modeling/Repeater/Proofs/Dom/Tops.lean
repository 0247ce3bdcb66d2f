/-
  Repeater/Proofs/Dom/Tops.lean
  =============================
  **How a node on top comes to stand below another.**

  An edit moves the node it is told to move, or the children of a fragment; every other node either
  stays where it is or is let go. So a node without a parent gets one only by an insertion of this
  very node (`Operation.parent?_apply`).

  The check of an insertion looks at the way up from the new parent and at nothing else, and the
  document node is no exception to it. In a tree of which it is the top it is refused everywhere,
  since it is above every place; below an element that is not part of the document it is accepted.
  `Edit.document_lowered` says when this is so, and that nothing else puts the document node below
  another node.
-/
import Repeater.Proofs.Dom.Documents
import Repeater.Proofs.Dom.LinkedEdits
import Repeater.Proofs.Dom.Steps

namespace Repeater.Dom

open Tree

variable {t t' : Tree} {p c x : NodeId} {reference : Option NodeId} {content : Content}

/-! ## Admitted insertions -/

/-- Whether the node `c` may be put into `p`: the place is allowed, and `p` is not at or below
    `c`. -/
structure Tree.Admits (t : Tree) (p c : NodeId) (reference : Option NodeId) (content : Content) :
    Prop where
  allows : t.Allows p c reference content
  apart : ¬ t.AtOrAbove c p

namespace Edit

/-- An insertion of a node that is not a fragment either is admitted and moves the node, or fails
    and changes nothing. -/
theorem exec_insertBefore_cases (h : t.WellFormed) (hc : t.content? c = some content)
    (hfragment : content ≠ .fragment) (p : NodeId) (reference : Option NodeId) :
    (t.Admits p c reference content ∧
      exec (insertBefore p c reference) t = (.ok c, t.relocate p c reference)) ∨
    (¬ t.Admits p c reference content ∧
      ∃ e, exec (insertBefore p c reference) t = (.error e, t)) := by
  rcases hplace : t.checkPlace p c reference with e | content'
  · refine .inr ⟨fun hadmits => ?_, e, ?_⟩
    · rw [checkPlace_eq_ok.2 hadmits.allows] at hplace
      cases hplace
    · unfold insertBefore
      simp only [exec_get_bind, hplace, exec_liftM_error_bind]
  have hallows := checkPlace_eq_ok.1 hplace
  obtain rfl : content' = content := Option.some.inj (hallows.child.symm.trans hc)
  by_cases hcp : t.AtOrAbove c p
  · refine .inr ⟨fun hadmits => hadmits.apart hcp, .hierarchy p c, ?_⟩
    have hkind : content'.isFragment = false := by
      cases content' <;> simp_all [Content.isFragment]
    unfold insertBefore
    simp only [exec_get_bind, hplace, exec_liftM_ok_bind, hkind]
    rw [if_neg (by simp), exec_bind_error (exec_insertNode_blocked h hallows hcp)]
  · exact .inl ⟨⟨hallows, hcp⟩, exec_insertBefore_node h hallows hfragment hcp⟩

/-! ## Parents under edits -/

theorem parent?_insertNode (h : t.WellFormed) (hxc : x ≠ c) (p : NodeId)
    (reference : Option NodeId) :
    (exec (insertNode p c reference) t).2.parent? x = t.parent? x := by
  rcases exec_insertNode h p c reference with ⟨content, hallows, -, hrun⟩ | ⟨e, hrun⟩
  · rw [hrun, parent?_relocate _ _ _ _ _ hallows.has_child, if_neg hxc]
  · rw [hrun]

theorem parent?_insertKids (h : t.WellFormed) {kids : List NodeId} (hx : x ∉ kids)
    (hkids : ∀ k ∈ kids, t.content? k ≠ some .fragment) (p : NodeId)
    (reference : Option NodeId) :
    (exec (kids.forM fun kid => insertNode p kid reference) t).2.parent? x = t.parent? x := by
  induction kids generalizing t with
  | nil => rfl
  | cons k rest ih =>
    have hxk : x ≠ k := List.ne_of_not_mem_cons hx
    have hxrest : x ∉ rest := List.not_mem_of_not_mem_cons hx
    rw [exec_forM_cons]
    rcases exec_insertNode h p k reference with ⟨content, hallows, hnot, hrun⟩ | ⟨e, hrun⟩
    · have hfragment : content ≠ .fragment := by
        rintro rfl
        exact hkids k (by simp) hallows.child
      rw [exec_bind_ok hrun, ih (wellFormed_of_allows h hallows hfragment hnot) hxrest]
      · rw [parent?_relocate _ _ _ _ _ hallows.has_child, if_neg hxk]
      · intro k' hk'
        rw [content?_relocate]
        exact hkids k' (by simp [hk'])
    · rw [exec_bind_error hrun]

/-- What a program gives back after its work makes no difference to the tree. -/
theorem exec_return_snd {α β : Type} (program : Edit α) (b : β) (t : Tree) :
    (exec (program >>= fun _ => pure b) t).2 = (exec program t).2 := by
  rw [exec_bind]
  rcases exec program t with ⟨_ | _, _⟩ <;> rfl

/-- An insertion of another node gives no parent to a node without one. -/
theorem parent?_insertBefore (h : t.WellFormed) (hxc : x ≠ c) (hx : t.parent? x = none)
    (p : NodeId) (reference : Option NodeId) :
    (exec (insertBefore p c reference) t).2.parent? x = none := by
  unfold insertBefore
  rw [exec_get_bind]
  rcases t.checkPlace p c reference with e | content
  · rw [exec_liftM_error_bind]
    exact hx
  rw [exec_liftM_ok_bind]
  split
  · have hmem : x ∉ t.children c := by
      intro hmem
      rw [h.parent_of_child hmem] at hx
      cases hx
    have hkids : ∀ k ∈ t.children c, t.content? k ≠ some .fragment := by
      intro k hk hfragment
      have hnone := h.fragment_parent hfragment
      rw [h.parent_of_child hk] at hnone
      cases hnone
    rw [exec_return_snd, parent?_insertKids h hmem hkids p reference, hx]
  · rw [exec_return_snd, parent?_insertNode h hxc p reference, hx]

/-- The text of a node may be set without any other node getting a parent. -/
theorem parent?_setText (h : t.WellFormed) (hhas : t.Has x) (hx : t.parent? x = none)
    (id : NodeId) (text : String) : (exec (setText id text) t).2.parent? x = none := by
  rcases hid : t.get? id with _ | node
  · unfold setText
    simp only [exec_get_bind, hid, exec_throw]
    exact hx
  have hemptied : (exec (do
      node.children.forM fun kid => modify (·.detach kid)
      unless text.isEmpty do
        let child ← create (.text text)
        let _ ← append id child : Edit Unit) t).2.parent? x = none := by
    have hgone := detached_detachAll h node.children
    have hloop := exec_forM_modify (ε := DomError) node.children
      (fun kid tree => tree.detach kid) t
    have hnone : (t.detachAll node.children).parent? x = none := by
      rw [hgone.parent, hx, ite_self]
    rw [exec_bind_ok hloop]
    show (exec _ (t.detachAll node.children)).2.parent? x = none
    -- the new text is the one node that is given a parent
    have hnew : x ≠ .slot (t.detachAll node.children).size := by
      rintro rfl
      rw [hgone.size] at hhas
      exact not_has_new t hhas
    split
    · exact hnone
    · rw [exec_bind_ok (exec_create _ _)]
      have hrun := parent?_insertBefore (wellFormed_push hgone.wellFormed (.text text) (by simp))
        hnew (by rw [parent?_push, hnone]) id none
      exact (congrArg (Tree.parent? · x) (exec_return_snd _ _ _)).trans hrun
  rcases hcontent : node.content with _ | _ | _ | _ | s | _
  case text =>
    have hcontent : t.content? id = some (.text s) := by simp [content?, hid, hcontent]
    rw [exec_setText_text hcontent, parent?_setContent, hx]
  all_goals
    unfold setText
    simp only [exec_get_bind, hid, hcontent]
    exact hemptied

end Edit

/-- A node without a parent gets one from no edit but an insertion of this node. -/
theorem Operation.parent?_apply (h : t.WellFormed) (hhas : t.Has x) (hx : t.parent? x = none)
    {operation : Operation} (hother : ∀ p reference, operation ≠ .insert p x reference) :
    (operation.apply t).parent? x = none := by
  have hdetach : ∀ y, (t.detach y).parent? x = none := by
    intro y
    rw [parent?_detach, hx, ite_self]
  have hcreate : ∀ content, (exec (discard (Edit.create content)) t).2.parent? x = none := by
    intro content
    rw [exec_discard, Edit.exec_create, parent?_push, hx]
  unfold apply
  cases operation with
  | createElement tag =>
    unfold run
    rw [exec_discard, Edit.exec_createElement]
    unfold withElement
    dsimp only
    split <;> simp [hx]
  | createText text => exact hcreate _
  | createComment text => exact hcreate _
  | createFragment => exact hcreate _
  | createDoctype name => exact hcreate _
  | insert parent child reference =>
    have hxc : x ≠ child := by
      rintro rfl
      exact hother parent reference rfl
    unfold run
    rw [exec_discard]
    exact Edit.parent?_insertBefore h hxc hx parent reference
  | removeChild parent child =>
    unfold run Edit.removeChild
    rw [exec_discard, exec_get_bind]
    split
    · exact hdetach child
    · exact hx
  | remove id =>
    unfold run Edit.remove
    rw [exec_discard, exec_get_bind]
    split
    · exact hx
    · exact hdetach id
  | copy id deep =>
    obtain ⟨result, t', hrun, -, hext, -⟩ := Edit.exec_copy h id deep
    unfold run
    rw [exec_discard, hrun]
    exact (hext.parent? hhas).trans hx
  | setAttribute id name value =>
    unfold run
    rcases Edit.exec_theElement t id with ⟨e, he, -⟩ | ⟨error, hrun⟩
    · rw [Edit.exec_setAttribute he, parent?_setContent, hx]
    · unfold Edit.setAttribute
      rw [exec_bind_error hrun, hx]
  | removeAttribute id name =>
    unfold run
    rw [exec_discard]
    rcases Edit.exec_theElement t id with ⟨e, he, -⟩ | ⟨error, hrun⟩
    · rw [Edit.exec_removeAttribute he, parent?_setContent, hx]
    · unfold Edit.removeAttribute
      rw [exec_bind_error hrun, hx]
  | setText id text =>
    unfold run
    exact Edit.parent?_setText h hhas hx id text

/-! ## The document node -/

/-- Whether every document of the first tree is one in the second. -/
def Tree.KeepsDocuments (t t' : Tree) : Prop :=
  ∀ x, t.content? x = some .document → t'.content? x = some .document

namespace Tree.KeepsDocuments

instance : IsPreorder Tree KeepsDocuments where
  refl _ := fun _ h => h
  trans _ _ _ := fun h h' x hx => h' x (h x hx)

theorem push (t : Tree) (content : Content) : t.KeepsDocuments (t.push content).2 := by
  intro x hx
  rw [content?_push, if_neg, hx]
  rintro rfl
  exact not_has_new t (has_of_content hx)

/-- A node that is no document may get another content. -/
theorem setContent {content content' : Content} (hx : t.content? x = some content)
    (hkind : content ≠ .document) : t.KeepsDocuments (t.setContent x content') := by
  intro y hy
  rw [content?_setContent, if_neg, hy]
  rintro ⟨rfl, -⟩
  rw [hx, Option.some.injEq] at hy
  exact hkind hy

theorem stepwise : Stepwise KeepsDocuments where
  withElement t tag := by
    have hone := push t (.element (Element.ofTag tag))
    unfold withElement
    dsimp only
    split
    · have hnew : ((t.push (.element (Element.ofTag tag))).2.push .fragment).2.content?
          (.slot t.size) = some (.element (Element.ofTag tag)) := by simp [size_push]
      refine trans_of KeepsDocuments (trans_of KeepsDocuments hone (push _ .fragment)) ?_
      exact setContent hnew (by simp)
    · exact hone
  push t _ _ := push t _
  moved hsame := fun x hx => (hsame x).trans hx
  setElement hx _ _ := setContent (element?_eq_some.1 hx) (by simp)
  setText hx _ := setContent hx (by simp)

end Tree.KeepsDocuments

theorem Operation.keepsDocuments_apply (operation : Operation) (h : t.WellFormed) :
    t.KeepsDocuments (operation.apply t) :=
  KeepsDocuments.stepwise.apply
    (fun hext _ hx => (hext.content? (has_of_content hx)).trans hx) operation h

/-- Slot 0 holds the document node after any edits. -/
theorem Tree.content?_document_after (operations : List Operation) :
    (Tree.empty.after operations).content? .document = some .document := by
  suffices h : ∀ t : Tree, t.WellFormed → t.content? .document = some .document →
      (t.after operations).content? .document = some .document from h _ wellFormed_empty rfl
  induction operations with
  | nil => exact fun _ _ h => h
  | cons operation rest ih =>
    exact fun t ht h => ih _ ((Edited.one t operation).wellFormed ht)
      (operation.keepsDocuments_apply ht _ h)

/-- An edit of a tree whose document node is on top puts it below `p` exactly if it is an admitted
    insertion of it into `p`. -/
theorem Operation.document_lowered_iff (h : t.WellFormed)
    (hdocument : t.content? .document = some .document) (htop : t.parent? .document = none)
    (operation : Operation) (p : NodeId) :
    (operation.apply t).parent? .document = some p ↔
      ∃ reference, operation = .insert p .document reference ∧
        t.Admits p .document reference .document := by
  have hhas : t.Has .document := has_of_content hdocument
  by_cases hinsert : ∃ q reference, operation = .insert q .document reference
  · obtain ⟨q, reference, rfl⟩ := hinsert
    unfold apply run
    rw [exec_discard]
    rcases Edit.exec_insertBefore_cases h hdocument (by simp) q reference with
      ⟨hadmits, hrun⟩ | ⟨hnot, e, hrun⟩
    · rw [hrun, parent?_relocate _ _ _ _ _ hhas, if_pos rfl]
      constructor
      · rintro ⟨⟩
        exact ⟨reference, rfl, hadmits⟩
      · rintro ⟨_, ⟨⟩, -⟩
        rfl
    · rw [hrun, htop]
      constructor
      · rintro ⟨⟩
      · rintro ⟨_, ⟨⟩, hadmits⟩
        exact absurd hadmits hnot
  · push Not at hinsert
    rw [operation.parent?_apply h hhas htop hinsert]
    constructor
    · rintro ⟨⟩
    · rintro ⟨reference, rfl, -⟩
      exact absurd rfl (hinsert p reference)

/-- If edits have put the document node below another node, one of them was an insertion of it
    that was admitted in the tree as it was then, with the document node on top. -/
theorem Tree.lowered_after (h : t.WellFormed) (hdocument : t.content? .document = some .document)
    (htop : t.parent? .document = none) (operations : List Operation)
    (hlowered : (t.after operations).parent? .document ≠ none) :
    ∃ before p reference rest, operations = before ++ .insert p .document reference :: rest ∧
      (t.after before).parent? .document = none ∧
      (t.after before).Admits p .document reference .document := by
  induction operations generalizing t with
  | nil => exact absurd htop hlowered
  | cons operation rest ih =>
    rcases hp : (operation.apply t).parent? .document with _ | p
    · obtain ⟨before, p, reference, rest', rfl, hbefore⟩ :=
        ih ((Edited.one t operation).wellFormed h) (operation.keepsDocuments_apply h _ hdocument)
          hp hlowered
      exact ⟨operation :: before, p, reference, rest', rfl, hbefore⟩
    · obtain ⟨reference, rfl, hadmits⟩ := (operation.document_lowered_iff h hdocument htop p).1 hp
      exact ⟨[], p, reference, rest, rfl, htop, hadmits⟩

namespace Edit

/-- How the document node can come to stand below another node, for edits of the empty document with
    any arguments. An insertion of it is carried out exactly if the parent may hold children and is
    neither the document node nor below it, and the reference is a child of the parent; it fails
    and changes nothing otherwise. While the document node is on top, no other edit puts it below
    a node, and so it is on top until the first insertion of this kind. -/
theorem document_lowered (operations : List Operation) :
    let t := Tree.empty.after operations
    (∀ p reference, t.Admits p .document reference .document →
      ∃ t', exec (insertBefore p .document reference) t = (.ok .document, t') ∧
        t'.parent? .document = some p) ∧
    (∀ p reference, ¬ t.Admits p .document reference .document →
      ∃ e, exec (insertBefore p .document reference) t = (.error e, t)) ∧
    (t.parent? .document = none → ∀ (operation : Operation) p,
      (operation.apply t).parent? .document = some p ↔
        ∃ reference, operation = .insert p .document reference ∧
          t.Admits p .document reference .document) ∧
    (t.parent? .document ≠ none →
      ∃ before p reference rest, operations = before ++ .insert p .document reference :: rest ∧
        (Tree.empty.after before).parent? .document = none ∧
        (Tree.empty.after before).Admits p .document reference .document) := by
  intro t
  have ht : t.WellFormed := (edited_after Tree.empty operations).wellFormed wellFormed_empty
  have hdocument : t.content? .document = some .document := content?_document_after operations
  have hcases := exec_insertBefore_cases ht hdocument (by simp)
  refine ⟨fun p reference hadmits => ?_, fun p reference hnot => ?_, fun htop operation p => ?_, ?_⟩
  · obtain ⟨-, hrun⟩ := (hcases p reference).resolve_right fun hother => hother.1 hadmits
    refine ⟨_, hrun, ?_⟩
    rw [parent?_relocate _ _ _ _ _ (has_of_content hdocument), if_pos rfl]
  · exact ((hcases p reference).resolve_left fun hother => hnot hother.1).2
  · exact operation.document_lowered_iff ht hdocument htop p
  · exact lowered_after wellFormed_empty rfl rfl operations

/-- The document node is put into an element beside the document, and cannot be put into one that
    is a part of it. -/
example :
    let t := Tree.empty.after [.createElement "a", .createElement "b",
      .insert .document (.slot 2) none]
    (exec (insertBefore (.slot 1) .document none) t).2.parent? .document = some (.slot 1) ∧
      (exec (insertBefore (.slot 2) .document none) t).1 =
        .error (.hierarchy (.slot 2) .document) := by decide +kernel

end Edit

end Repeater.Dom
