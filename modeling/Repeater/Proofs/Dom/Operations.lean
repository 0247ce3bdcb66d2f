/-
  Repeater/Proofs/Dom/Operations.lean
  ===================================
  **Runs of edits.**

  Whoever has a tree may apply the edits of the library to it, with any arguments and in any order,
  and go on after one that was refused. What the parts of edits keep, every edit but a copy keeps
  (`Partwise.keeps_run`). `Operation` lists the edits, and `Edited` relates two trees
  when such a run leads from the first to the second. Every run keeps a tree well-formed and loses
  no node (`Edited.wellFormed`, `Edited.grown`).
-/
import Repeater.Proofs.Dom.Copies

namespace Repeater.Dom

open Tree

/-- An edit of a tree with its arguments. -/
inductive Operation where
  | createElement (tag : String)
  | createText (text : String)
  | createComment (text : String)
  | createFragment
  | createDoctype (name : String)
  /-- Inserts a node; without a reference, as the last child. -/
  | insert (parent child : NodeId) (reference : Option NodeId)
  | removeChild (parent child : NodeId)
  | remove (id : NodeId)
  | copy (id : NodeId) (deep : Bool)
  | setAttribute (id : NodeId) (name value : String)
  | removeAttribute (id : NodeId) (name : String)
  | setText (id : NodeId) (text : String)
deriving DecidableEq, Repr

namespace Operation

/-- Carries the edit out. -/
def run : Operation → Edit Unit
  | createElement tag => discard (Edit.createElement tag)
  | createText text => discard (Edit.create (.text text))
  | createComment text => discard (Edit.create (.comment text))
  | createFragment => discard (Edit.create .fragment)
  | createDoctype name => discard (Edit.create (.doctype name))
  | insert parent child reference => discard (Edit.insertBefore parent child reference)
  | removeChild parent child => discard (Edit.removeChild parent child)
  | remove id => discard (Edit.remove id)
  | copy id deep => discard (Edit.copy id deep)
  | setAttribute id name value => Edit.setAttribute id name value
  | removeAttribute id name => discard (Edit.removeAttribute id name)
  | setText id text => Edit.setText id text

/-- The tree after the edit; one that is refused may have done a part of its work. -/
def apply (operation : Operation) (t : Tree) : Tree := (exec operation.run t).2

end Operation

variable {t t' u : Tree} {p c x : NodeId} {reference : Option NodeId}

/-! ## What the parts of edits keep -/

/-- A relation that holds from each tree to those that one part of an edit leads to. Creating and
    inserting are parts as a whole, the rest is taken apart. -/
structure Partwise (R : Tree → Tree → Prop) : Prop where
  createElement : ∀ tag, Keeps R (Edit.createElement tag)
  create : ∀ {content : Content}, content.element? = none → Keeps R (Edit.create content)
  insertBefore : ∀ p c reference, Keeps R (Edit.insertBefore p c reference)
  detach : ∀ (t : Tree) x, R t (t.detach x)
  setElement : ∀ {t : Tree} {x e e'}, t.element? x = some e → e'.tag = e.tag →
    e'.contents = e.contents → (e.NamesDiffer → e'.NamesDiffer) →
      R t (t.setContent x (.element e'))
  setText : ∀ {t : Tree} {x s}, t.content? x = some (.text s) → ∀ s',
    R t (t.setContent x (.text s'))

namespace Partwise

variable {R : Tree → Tree → Prop} [IsPreorder Tree R] (h : Partwise R)
include h

theorem removeChild (p c : NodeId) : Keeps R (Edit.removeChild p c) := by
  intro t
  unfold Edit.removeChild
  rw [exec_get_bind]
  split
  · exact h.detach t c
  · exact refl_of R t

theorem remove (x : NodeId) : Keeps R (Edit.remove x) := by
  intro t
  unfold Edit.remove
  rw [exec_get_bind]
  split
  · exact refl_of R t
  · exact h.detach t x

theorem setAttribute (x : NodeId) (name value : String) :
    Keeps R (Edit.setAttribute x name value) := by
  intro t
  rcases Edit.exec_theElement t x with ⟨e, he, -⟩ | ⟨error, hrun⟩
  · rw [Edit.exec_setAttribute he]
    exact h.setElement he rfl rfl fun hnames => hnames.set name value
  · unfold Edit.setAttribute
    rw [exec_bind_error hrun]
    exact refl_of R t

theorem removeAttribute (x : NodeId) (name : String) : Keeps R (Edit.removeAttribute x name) := by
  intro t
  rcases Edit.exec_theElement t x with ⟨e, he, -⟩ | ⟨error, hrun⟩
  · rw [Edit.exec_removeAttribute he]
    exact h.setElement he rfl rfl fun hnames => hnames.erase name
  · unfold Edit.removeAttribute
    rw [exec_bind_error hrun]
    exact refl_of R t

theorem setTextOf (x : NodeId) (text : String) : Keeps R (Edit.setText x text) := by
  intro t
  rcases hx : t.get? x with _ | node
  · unfold Edit.setText
    simp only [exec_get_bind, hx, exec_throw]
    exact refl_of R t
  have hemptied : Keeps R (do
      node.children.forM fun kid => modify (·.detach kid)
      unless text.isEmpty do
        let child ← Edit.create (.text text)
        let _ ← Edit.append x child : Edit Unit) := by
    refine Keeps.bind (Keeps.forM fun kid _ t => h.detach t kid) fun _ => ?_
    split
    · exact Keeps.pure _
    · exact Keeps.bind (h.create rfl) fun child =>
        Keeps.bind (h.insertBefore x child none) fun _ => Keeps.pure _
  rcases hcontent : node.content with _ | _ | _ | _ | s | _
  case text =>
    have hcontent : t.content? x = some (.text s) := by simp [content?, hx, hcontent]
    rw [Edit.exec_setText_text hcontent]
    exact h.setText hcontent text
  all_goals
    have hrun := hemptied t
    unfold Edit.setText
    simp only [exec_get_bind, hx, hcontent]
    exact hrun

/-- Every edit but a copy keeps what its steps keep. -/
theorem keeps_run {operation : Operation} (hcopy : ∀ x deep, operation ≠ .copy x deep) :
    Keeps R operation.run := by
  cases operation with
  | createElement tag => exact Keeps.map _ (h.createElement tag)
  | createText text => exact Keeps.map _ (h.create rfl)
  | createComment text => exact Keeps.map _ (h.create rfl)
  | createFragment => exact Keeps.map _ (h.create rfl)
  | createDoctype name => exact Keeps.map _ (h.create rfl)
  | insert parent child reference => exact Keeps.map _ (h.insertBefore parent child reference)
  | removeChild parent child => exact Keeps.map _ (h.removeChild parent child)
  | remove x => exact Keeps.map _ (h.remove x)
  | copy x deep => exact absurd rfl (hcopy x deep)
  | setAttribute x name value => exact h.setAttribute x name value
  | removeAttribute x name => exact Keeps.map _ (h.removeAttribute x name)
  | setText x text => exact h.setTextOf x text

end Partwise

/-! ## What no edit breaks -/

/-- If the first tree is well-formed, the second is too and has all nodes of the first. -/
def Tree.Grown (t t' : Tree) : Prop := t.WellFormed → t'.WellFormed ∧ t.size ≤ t'.size

namespace Tree.Grown

instance : IsPreorder Tree Grown where
  refl _ := fun h => ⟨h, Nat.le_refl _⟩
  trans _ _ _ := fun h h' ht =>
    ⟨(h' (h ht).1).1, Nat.le_trans (h ht).2 (h' (h ht).1).2⟩

theorem has (h : t.Grown t') (ht : t.WellFormed) (hx : t.Has x) : t'.Has x := by
  obtain ⟨i, hi, rfl⟩ := has_iff_slot.1 hx
  exact has_slot.2 (Nat.lt_of_lt_of_le hi (h ht).2)

end Tree.Grown

theorem Tree.Extends.grown (h : t.Extends t') (ht' : t'.WellFormed) : t.Grown t' :=
  fun _ => ⟨ht', h.size_le⟩

namespace Edit

theorem keeps_create {content : Content}
    (hcontent : ∀ e, content = .element e → e.contents = none ∧ e.NamesDiffer) :
    Keeps Grown (create content) := by
  intro t h
  rw [exec_create]
  exact ⟨wellFormed_push h _ hcontent, by rw [size_push]; omega⟩

theorem keeps_createElement (tag : String) : Keeps Grown (createElement tag) := by
  intro t h
  rw [exec_createElement]
  refine ⟨?_, ?_⟩
  · have hnames : (Element.ofTag tag).NamesDiffer := List.nodup_nil
    have hwf := wellFormed_push h (.element (Element.ofTag tag))
      (by rintro _ ⟨⟩; exact ⟨rfl, hnames⟩)
    unfold withElement
    dsimp only
    split
    · next htemplate =>
      have hnew : ((t.push (.element (Element.ofTag tag))).2.push .fragment).2.content?
          (.slot t.size) = some (.element (Element.ofTag tag)) := by simp [size_push]
      refine wellFormed_setContent (wellFormed_push hwf .fragment (by simp)) hnew rfl (by simp)
        ?_ ?_ ?_
      · rintro _ ⟨⟩
        exact hnames
      · rintro _ ⟨⟩ _
        simpa [Element.isTemplate] using htemplate
      · rintro _ _ ⟨⟩ ⟨⟩
        refine ⟨by simp [size_push], fun y hy => ?_⟩
        rcases (contents?_push _ _ _).1 hy with ⟨-, _, ⟨⟩, -⟩ | hy
        have := hwf.has_contents hy
        simp [has_slot, size_push] at this
    · exact hwf
  · unfold withElement
    dsimp only
    split <;> simp only [size_setContent, size_push] <;> omega

theorem wellFormed_insertKids (h : t.WellFormed) (p : NodeId) (reference : Option NodeId)
    (kids : List NodeId) (hkids : ∀ k ∈ kids, t.content? k ≠ some .fragment) :
    (exec (kids.forM fun kid => insertNode p kid reference) t).2.WellFormed ∧
      (exec (kids.forM fun kid => insertNode p kid reference) t).2.size = t.size := by
  induction kids generalizing t with
  | nil => exact ⟨h, rfl⟩
  | cons k rest ih =>
    rw [exec_forM_cons]
    rcases exec_insertNode h p k reference with ⟨content, hplace, hnot, hrun⟩ | ⟨e, hrun⟩
    · have hfragment : content ≠ .fragment := by
        rintro rfl
        exact hkids k (by simp) hplace.child
      rw [exec_bind_ok hrun]
      obtain ⟨hwf, hsize⟩ := ih (wellFormed_of_allows h hplace hfragment hnot) (fun k' hk' => by
        rw [content?_relocate]
        exact hkids k' (by simp [hk']))
      exact ⟨hwf, hsize.trans (size_relocate ..)⟩
    · rw [exec_bind_error hrun]
      exact ⟨h, rfl⟩

theorem wellFormed_insertBefore (h : t.WellFormed) (p c : NodeId) (reference : Option NodeId) :
    (exec (insertBefore p c reference) t).2.WellFormed ∧
      (exec (insertBefore p c reference) t).2.size = t.size := by
  rcases hplace : t.checkPlace p c reference with e | content
  · unfold insertBefore
    simp only [exec_get_bind, hplace, exec_liftM_error_bind]
    exact ⟨h, trivial⟩
  · have hallows := checkPlace_eq_ok.1 hplace
    by_cases hfragment : content = .fragment
    · subst hfragment
      have hkids := wellFormed_insertKids h p reference (t.children c) (fun k hk hfragment => by
        have := h.parent_of_child hk
        simp [h.fragment_parent hfragment] at this)
      unfold insertBefore
      simp only [exec_get_bind, hplace, exec_liftM_ok_bind, Content.isFragment, if_true]
      rw [exec_bind]
      rcases hrun : exec ((t.children c).forM fun kid => insertNode p kid reference) t with ⟨_ | _, u⟩
      all_goals
        rw [hrun] at hkids
        exact hkids
    · by_cases hnot : t.AtOrAbove c p
      · have hkind : content.isFragment = false := by
          cases content <;> simp_all [Content.isFragment]
        rcases exec_insertNode h p c reference with ⟨_, -, hnot', -⟩ | ⟨e, hrun⟩
        · exact absurd hnot hnot'
        · unfold insertBefore
          simp only [exec_get_bind, hplace, exec_liftM_ok_bind, hkind]
          rw [if_neg (by simp), exec_bind_error hrun]
          exact ⟨h, rfl⟩
      · rw [exec_insertBefore_node h hallows hfragment hnot]
        exact ⟨wellFormed_of_allows h hallows hfragment hnot, size_relocate ..⟩

theorem keeps_insertBefore (p c : NodeId) (reference : Option NodeId) :
    Keeps Grown (insertBefore p c reference) := by
  intro t h
  obtain ⟨hwf, hsize⟩ := wellFormed_insertBefore h p c reference
  exact ⟨hwf, Nat.le_of_eq hsize.symm⟩

theorem grown_detach (t : Tree) (x : NodeId) : t.Grown (t.detach x) := fun h =>
  ⟨wellFormed_detach h x, Nat.le_of_eq (size_detach ..).symm⟩

theorem grown_setElement {e e' : Element} (hx : t.element? x = some e) (htag : e'.tag = e.tag)
    (hcontents : e'.contents = e.contents) (hnames : e.NamesDiffer → e'.NamesDiffer) :
    t.Grown (t.setContent x (.element e')) := fun h =>
  ⟨wellFormed_setElement h hx htag hcontents (hnames (h.names_differ hx)),
    Nat.le_of_eq (size_setContent ..).symm⟩

theorem keeps_copy (x : NodeId) (deep : Bool) : Keeps Grown (copy x deep) := by
  intro t h
  obtain ⟨result, t', hrun, ht', hext, -⟩ := exec_copy h x deep
  rw [hrun]
  exact ⟨ht', hext.size_le⟩

theorem partwise_grown : Partwise Grown where
  createElement := keeps_createElement
  create hcontent := keeps_create (by rintro e rfl; cases hcontent)
  insertBefore := keeps_insertBefore
  detach := grown_detach
  setElement := grown_setElement
  setText hx _ := fun h =>
    ⟨wellFormed_setContent h hx rfl (by simp) (by simp) (by simp) (by simp),
      Nat.le_of_eq (size_setContent ..).symm⟩

theorem keeps_remove (x : NodeId) : Keeps Grown (remove x) := partwise_grown.remove x

theorem keeps_setText (x : NodeId) (text : String) : Keeps Grown (setText x text) :=
  partwise_grown.setTextOf x text

end Edit

/-! ## Runs -/

theorem Operation.keeps_run (operation : Operation) : Keeps Grown operation.run := by
  by_cases hcopies : ∃ x deep, operation = .copy x deep
  · obtain ⟨x, deep, rfl⟩ := hcopies
    exact Keeps.map _ (Edit.keeps_copy x deep)
  · push Not at hcopies
    exact Edit.partwise_grown.keeps_run hcopies

/-- Whether a run of edits leads from the first tree to the second. -/
def Tree.Edited : Tree → Tree → Prop :=
  Relation.ReflTransGen fun t t' => ∃ operation : Operation, t' = operation.apply t

namespace Tree.Edited

instance : IsPreorder Tree Edited where
  refl _ := Relation.ReflTransGen.refl
  trans _ _ _ := Relation.ReflTransGen.trans

theorem one (t : Tree) (operation : Operation) : t.Edited (operation.apply t) :=
  Relation.ReflTransGen.single ⟨operation, rfl⟩

theorem grown (h : t.Edited t') : t.Grown t' := by
  induction h with
  | refl => exact refl_of Grown t
  | tail _ hstep ih =>
    obtain ⟨operation, rfl⟩ := hstep
    exact trans_of Grown ih (operation.keeps_run _)

theorem wellFormed (h : t.Edited t') (ht : t.WellFormed) : t'.WellFormed := (h.grown ht).1

end Tree.Edited

end Repeater.Dom
