/-
  Repeater/Proofs/Scope/Deleting.lean
  ===================================
  **What deleting an item does.**

  A click on a delete control changes nothing about the scope. It takes the item out once, or not at
  all, and whatever else happens to the tree is done by the hooks. Once the item has been removed
  its listeners are gone, all other listeners stay, whether the hooks after the deletion fail or
  not.
-/
import Repeater.Proofs.Scope.Adding

namespace Repeater.Scope

open Dom Hook Tree

variable {σ : Type} {equipment : Equipment σ} {desk desk' : Desk σ} {R : Tree → Tree → Prop}
  {item : NodeId}

/-- The listeners without those for an item. -/
def without (item : NodeId) (ls : Listeners Action) : Listeners Action :=
  ls.retain fun action => action.deletes? != some item

/-- What a deletion leaves, where `R` is what the hooks do to the tree: at most the item is taken out
    and the listeners for it are gone. -/
structure Deleted (R : Tree → Tree → Prop) (item : NodeId) (desk desk' : Desk σ) : Prop where
  scope : desk'.scope = desk.scope
  tree : ∃ t₁ t₂, R desk.stage.tree t₁ ∧ (t₂ = t₁ ∨ t₂ = t₁.detach item) ∧ R t₂ desk'.stage.tree
  listeners : desk'.listeners = desk.listeners ∨ desk'.listeners = without item desk.listeners

theorem Deleted.grown (h : Deleted Grown item desk desk') :
    desk.stage.tree.Grown desk'.stage.tree := by
  obtain ⟨t₁, t₂, hbefore, hremove, hafter⟩ := h.tree
  have hone : t₁.Grown t₂ := by
    rcases hremove with rfl | rfl
    · exact refl_of Grown _
    · exact Edit.grown_detach t₁ item
  exact trans_of Grown (trans_of Grown hbefore hone) hafter

/-- Removing a node that is not there changes nothing. -/
theorem exec_remove_cases (item : NodeId) (desk : Desk σ) :
    (∃ e, exec (Flow.edit (Edit.remove item) : Flow σ NodeId) desk = (.error e, desk)) ∨
      exec (Flow.edit (Edit.remove item) : Flow σ NodeId) desk =
        (.ok item, desk.withTree (desk.stage.tree.detach item)) := by
  by_cases hitem : desk.stage.tree.Has item
  · exact .inr (Flow.exec_edit_ok (Edit.exec_remove hitem))
  · have hnone : desk.stage.tree.get? item = none := by
      unfold Has at hitem
      simpa using hitem
    refine .inl ⟨.dom (.notFound item), ?_⟩
    rw [Flow.exec_edit]
    unfold Edit.remove
    rw [exec_get_bind, hnone]
    rfl

section hooks

variable [IsPreorder Tree R]

theorem deleted_of_staged (h : desk.Staged R desk') : Deleted R item desk desk' :=
  ⟨h.scope, ⟨_, _, h.tree, .inl rfl, refl_of R _⟩, .inl h.listeners⟩

theorem deleteItem_outcome (desk : Desk σ) (hroutines : desk.scope.routines.Within R)
    (parts : Parts) (control item : NodeId) (event : Event)
    (hcode : ∀ phase program, compileHook desk.stage.tree control phase = .ok (some program) →
      program.Within R equipment.callbacks) :
    Deleted R item desk (exec (deleteItem equipment parts control item event) desk).2 := by
  unfold deleteItem
  rw [Flow.exec_tree_bind]
  rcases hbefore : compileHook desk.stage.tree control .preDelete with e | before
  · exact deleted_of_staged (refl_of _ desk)
  rcases hafter : compileHook desk.stage.tree control .postDelete with e | after
  · exact deleted_of_staged (refl_of _ desk)
  rw [exec_bind_ok (exec_ofExcept _ _), exec_bind_ok (exec_ofExcept _ _)]
  dsimp only
  generalize hoccasion : ({ parts, items := [item], event } : Occasion) = occasion
  have hfirst : desk.Staged R (exec (runHooks equipment .preDelete before occasion) desk).2 :=
    staged_runHooks desk .preDelete before occasion
      (fun p hp => hcode _ p (hbefore.trans (congrArg _ hp))) hroutines
  rcases hrun₁ : exec (runHooks equipment .preDelete before occasion) desk with ⟨e | _, desk₁⟩
  all_goals rw [hrun₁] at hfirst
  · rw [exec_bind_error hrun₁]
    exact deleted_of_staged hfirst
  rw [exec_bind_ok hrun₁]
  rcases exec_remove_cases item desk₁ with ⟨e, hrun₂⟩ | hrun₂
  · rw [exec_bind_error hrun₂]
    exact deleted_of_staged hfirst
  rw [exec_bind_ok hrun₂, exec_bind_ok (Flow.exec_updateListeners _ _)]
  generalize hdesk₂ : ({ desk₁.withTree (desk₁.stage.tree.detach item) with
    listeners := without item desk₁.listeners } : Desk σ) = desk₂
  have hscope₂ : desk₂.scope = desk.scope := by
    rw [← hdesk₂]
    exact hfirst.scope
  have hlast : desk₂.Staged R (exec (runHooks equipment .postDelete after occasion) desk₂).2 :=
    staged_runHooks desk₂ .postDelete after occasion
      (fun p hp => hcode _ p (hafter.trans (congrArg _ hp))) (hscope₂ ▸ hroutines)
  subst hdesk₂
  exact ⟨hlast.scope.trans hscope₂, ⟨_, _, hfirst.tree, .inr rfl, hlast.tree⟩,
    .inr (hlast.listeners.trans (congrArg (without item) hfirst.listeners))⟩

omit [IsPreorder Tree R] in
theorem deleted_during (desk : Desk σ) {flow : Flow σ Unit}
    (hidle : desk.scope.activity = .idle)
    (hrun : Deleted R item (desk.doing .deleting) (exec flow (desk.doing .deleting)).2) :
    Deleted R item desk (exec (Flow.during .deleting flow) desk).2 := by
  rw [Flow.exec_during hidle]
  refine ⟨?_, hrun.tree, hrun.listeners⟩
  show { (exec flow (desk.doing .deleting)).2.scope with activity := .idle } = desk.scope
  rw [hrun.scope]
  show { desk.scope with activity := .idle } = desk.scope
  rw [← hidle]

theorem handleDelete_outcome (desk : Desk σ) (hidle : desk.scope.activity = .idle)
    (hroutines : desk.scope.routines.Within R) (event : Event) (item : NodeId)
    (hcode : ∀ phase program, compileHook desk.stage.tree (event.current.getD event.target) phase =
      .ok (some program) → program.Within R equipment.callbacks) :
    Deleted R item desk (exec (handleDelete equipment event item) desk).2 := by
  have hstay : Deleted R item desk desk := deleted_of_staged (refl_of _ desk)
  unfold handleDelete
  rw [exec_get_bind]
  rcases desk.scope.resolved with e | ⟨parts, identifier⟩
  · exact hstay
  rw [exec_bind_ok (exec_ofExcept _ _)]
  dsimp only
  rw [Flow.exec_tree_bind]
  split
  · rw [exec_bind_ok (Flow.exec_act _ desk)]
    -- the question changes nothing but the world outside
    generalize hasked : (exec (Act.talk _ : Act Error σ Bool) desk.stage).2 = stage
    have htree : stage.tree = desk.stage.tree := by rw [← hasked]; rfl
    have hback : ∀ desk' : Desk σ, Deleted R item { desk with stage } desk' →
        Deleted R item desk desk' := fun desk' hdeleted =>
      ⟨hdeleted.scope, htree ▸ hdeleted.tree, hdeleted.listeners⟩
    split
    · apply hback
      apply deleted_during { desk with stage } hidle
      apply deleteItem_outcome (Desk.doing { desk with stage } .deleting) hroutines
      intro phase program hprogram
      apply hcode phase program
      rw [← htree]
      exact hprogram
    · exact hback _ ⟨rfl, ⟨_, _, refl_of R _, .inl rfl, refl_of R _⟩, .inl rfl⟩
  · exact hstay

end hooks

theorem TameHooks.handleDelete (desk : Desk σ) (hhooks : TameHooks equipment desk.scope)
    (hidle : desk.scope.activity = .idle) (event : Event) (item : NodeId) :
    Deleted Grown item desk (exec (handleDelete equipment event item) desk).2 :=
  handleDelete_outcome desk hidle
    (hhooks.routines.mono fun _ _ hedited => Edited.grown hedited) event item
    fun _ program _ => (program.tame hhooks.callbacks).mono fun _ _ hedited => Edited.grown hedited

end Repeater.Scope
