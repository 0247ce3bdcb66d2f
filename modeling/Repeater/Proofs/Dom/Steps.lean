/-
  Repeater/Proofs/Dom/Steps.lean
  ==============================
  **The steps that edits are made of.**

  Apart from copying, every edit comes down to a few steps: a new node comes in, nodes are moved
  without a change to what they say, an element gets other attributes, a text another string. What
  every such step keeps, every edit keeps, whether it is refused half-way or not
  (`Stepwise.apply`). Templates keep their contents in this way (`Edited.keepsContents`).
-/
import Repeater.Proofs.Dom.Operations

namespace Repeater.Dom

open Tree

variable {t t' : Tree} {R : Tree → Tree → Prop} {p c x : NodeId} {reference : Option NodeId}

/-- A relation that holds from each tree to those that one step of an edit leads to. -/
structure Stepwise (R : Tree → Tree → Prop) : Prop where
  withElement : ∀ t tag, R t (t.withElement tag)
  push : ∀ (t : Tree) {content : Content}, content.element? = none → R t (t.push content).2
  moved : ∀ {t t' : Tree}, (∀ x, t'.content? x = t.content? x) → R t t'
  setElement : ∀ {t : Tree} {x e e'}, t.element? x = some e → e'.tag = e.tag →
    e'.contents = e.contents → R t (t.setContent x (.element e'))
  setText : ∀ {t : Tree} {x s}, t.content? x = some (.text s) → ∀ s',
    R t (t.setContent x (.text s'))

namespace Stepwise

variable [IsPreorder Tree R] (h : Stepwise R)
include h

theorem insertNode (p c : NodeId) (reference : Option NodeId) :
    Keeps R (Edit.insertNode p c reference) := by
  intro t
  unfold Edit.insertNode
  rw [exec_get_bind]
  rcases t.checkPlace p c reference with e | content
  · rw [exec_liftM_error_bind]
    exact refl_of R t
  · rw [exec_liftM_ok_bind]
    split
    · exact refl_of R t
    · exact h.moved (content?_relocate t p c reference)

theorem insertBefore (p c : NodeId) (reference : Option NodeId) :
    Keeps R (Edit.insertBefore p c reference) := by
  refine Keeps.get_bind fun t => Keeps.bind (Keeps.liftM _) fun content => ?_
  split
  · exact Keeps.bind (Keeps.forM fun kid _ => h.insertNode p kid reference) fun _ =>
      Keeps.pure _
  · exact Keeps.bind (h.insertNode p c reference) fun _ => Keeps.pure _

theorem partwise : Partwise R where
  createElement tag t := by
    rw [Edit.exec_createElement]
    exact h.withElement t tag
  create hcontent t := h.push t hcontent
  insertBefore := h.insertBefore
  detach t x := h.moved (content?_detach t x)
  setElement hx htag hcontents _ := h.setElement hx htag hcontents
  setText := h.setText

/-- Every edit keeps what its steps keep, if copying keeps it too. -/
theorem apply (hcopy : ∀ {t t' : Tree}, t.Extends t' → R t t') (operation : Operation)
    (ht : t.WellFormed) : R t (operation.apply t) := by
  by_cases hcopies : ∃ x deep, operation = .copy x deep
  · obtain ⟨x, deep, rfl⟩ := hcopies
    obtain ⟨result, t', hrun, -, hext, -⟩ := Edit.exec_copy ht x deep
    unfold Operation.apply Operation.run
    rw [exec_discard, hrun]
    exact hcopy hext
  · push Not at hcopies
    exact h.partwise.keeps_run hcopies t

end Stepwise

/-! ## Contents of templates -/

/-- Whether what has contents in the first tree has the same contents in the second. -/
def Tree.KeepsContents (t t' : Tree) : Prop :=
  ∀ x f, t.contents? x = some f → t'.contents? x = some f

namespace Tree.KeepsContents

instance : IsPreorder Tree KeepsContents where
  refl _ := fun _ _ h => h
  trans _ _ _ := fun h h' x f hx => h' x f (h x f hx)

theorem of_old (h : ∀ x, t.Has x → t'.content? x = t.content? x) : t.KeepsContents t' :=
  fun x _ hx => (contents?_congr (h x (has_of_contents hx))).trans hx

theorem push (t : Tree) (content : Content) : t.KeepsContents (t.push content).2 := by
  apply of_old
  intro x hx
  rw [content?_push, if_neg]
  rintro rfl
  exact not_has_new t hx

theorem stepwise : Stepwise KeepsContents where
  withElement t tag := by
    have hone := push t (.element (Element.ofTag tag))
    unfold withElement
    dsimp only
    split
    · intro x f hx
      have hx' := push _ .fragment x f (hone x f hx)
      rw [contents?_congr, hx']
      rw [content?_setContent, if_neg]
      rintro ⟨rfl, -⟩
      exact not_has_new t (has_of_contents hx)
    · exact hone
  push t _ _ := push t _
  moved hsame := of_old fun x _ => hsame x
  setElement := by
    intro t x e e' hx _ hcontents y f hy
    obtain ⟨e₁, he₁, hf⟩ := contents?_eq_some.1 hy
    rw [contents?_eq_some]
    by_cases hyx : y = x
    · subst hyx
      rw [← element?_eq_some, hx, Option.some.injEq] at he₁
      refine ⟨e', ?_, by rw [hcontents, he₁, hf]⟩
      rw [content?_setContent, if_pos ⟨rfl, has_of_element hx⟩]
    · refine ⟨e₁, ?_, hf⟩
      rw [content?_setContent, if_neg fun h => hyx h.1, he₁]
  setText := by
    intro t x s hx s' y f hy
    obtain ⟨e, he, hf⟩ := contents?_eq_some.1 hy
    rw [contents?_eq_some]
    refine ⟨e, ?_, hf⟩
    rw [content?_setContent, if_neg, he]
    rintro ⟨rfl, -⟩
    rw [hx] at he
    cases he

end Tree.KeepsContents

theorem Operation.keepsContents_apply (operation : Operation) (h : t.WellFormed) :
    t.KeepsContents (operation.apply t) :=
  KeepsContents.stepwise.apply (fun hext => .of_old fun _ hx => hext.content? hx) operation h

/-- Templates keep their contents for good. -/
theorem Tree.Edited.keepsContents (h : t.Edited t') (ht : t.WellFormed) : t.KeepsContents t' := by
  induction h with
  | refl => exact refl_of KeepsContents t
  | tail hrun hstep ih =>
    obtain ⟨operation, rfl⟩ := hstep
    exact trans_of KeepsContents ih (operation.keepsContents_apply (Edited.wellFormed hrun ht))

end Repeater.Dom
