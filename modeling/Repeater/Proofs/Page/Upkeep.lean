/-
  Repeater/Proofs/Page/Upkeep.lean
  ================================
  **What a page in use does to its document.**

  Everything an embedder does with a page changes the document by edits of the tree, those of the
  hooks included (`Reaches.edited`). A start checks that the template of the scope has contents, and
  no edit takes contents away, so that the template of a started scope can be copied for good
  (`Reaches.stocked`).
-/
import Repeater.Proofs.Dom.Steps
import Repeater.Proofs.Page.Runs
import Repeater.Proofs.Scope.Editing

namespace Repeater

open Dom Hook Scope Tree

variable {σ : Type}

namespace Page

variable {page page' : Page σ} {n : Nat} {scope : Scope σ}

/-- Whether the templates of all started scopes have contents. -/
def Stocked (page : Page σ) : Prop :=
  ∀ (n : Nat) (scope : Scope σ) (parts : Parts), page.scopes[n]? = some scope →
    scope.parts = some parts → ∃ g, page.tree.contents? parts.template = some g

/-- What any use of a page does to an orderly page with contents in its templates. -/
def Upkeep (page page' : Page σ) : Prop :=
  page.Kept → page.Stocked → page'.Kept ∧ page'.Stocked ∧ page.tree.Edited page'.tree

instance : IsPreorder (Page σ) Upkeep where
  refl page := fun h hstocked => ⟨h, hstocked, refl_of Edited page.tree⟩
  trans _ _ _ := fun h h' hkept hstocked =>
    have ⟨hkept₁, hstocked₁, hedited₁⟩ := h hkept hstocked
    have ⟨hkept₂, hstocked₂, hedited₂⟩ := h' hkept₁ hstocked₁
    ⟨hkept₂, hstocked₂, trans_of Edited hedited₁ hedited₂⟩

theorem Kept.tame (h : page.Kept) (hscope : page.scopes[n]? = some scope) : scope.Tame :=
  ⟨(h.settled n scope hscope).routines, (h.settled n scope hscope).afterStart⟩

/-- A flow that edits the tree is upkeep if the elements it leaves to its scope are those it has
    found there, or have a template with contents. -/
theorem upkeep_withScope (operation : String) (flow : Equipment σ → Flow σ Unit)
    (hkept : page.Kept → (page.withScope n operation flow).Kept)
    (hedits : page.Kept → Keeps Desk.Editing (flow page.equipment))
    (hparts : ∀ (scope : Scope σ) (parts : Parts), page.Kept → page.scopes[n]? = some scope →
      (exec (flow page.equipment) (page.desk scope)).2.scope.parts = some parts →
        scope.parts = some parts ∨ ∃ g, page.tree.contents? parts.template = some g) :
    page.Upkeep (page.withScope n operation flow) := by
  intro h hstocked
  refine ⟨hkept h, ?_⟩
  rcases hscope : page.scopes[n]? with _ | scope
  · obtain ⟨line, hline⟩ := withScope_of_none operation flow hscope
    rw [hline]
    exact ⟨hstocked, refl_of Edited page.tree⟩
  obtain ⟨htree, -, hscopes⟩ := withScope_shows operation flow hscope Prod.mk.eta.symm
  have hedited : page.tree.Edited (page.withScope n operation flow).tree := by
    rw [htree]
    exact (hedits h (page.desk scope) (h.tame hscope)).2
  refine ⟨?_, hedited⟩
  have hkeeps := hedited.keepsContents h.wellFormed
  intro m scope' parts hscope' hscopeParts
  rw [hscopes] at hscope'
  obtain ⟨g, hg⟩ : ∃ g, page.tree.contents? parts.template = some g := by
    split at hscope'
    · cases hscope'
      exact (hparts scope parts h hscope hscopeParts).elim
        (fun hsame => hstocked n scope parts hscope hsame) id
    · exact hstocked m scope' parts hscope' hscopeParts
  exact ⟨g, hkeeps _ g hg⟩

theorem upkeep_start (page : Page σ) (n : Nat) : page.Upkeep (page.start n) := by
  refine upkeep_withScope _ _ (fun h => h.start n) (fun _ => editing_start) ?_
  intro scope parts h hscope hparts
  rcases start_outcome (R := Grown) (page.desk scope) h.wellFormed page.equipment
    (fun routine hroutine => Routine.Within.mono (fun _ _ hedited => Edited.grown hedited)
      ((h.tame hscope).afterStart routine hroutine)) with
    hsame | ⟨identifier, found, desk₁, hestablished, hstaged⟩
  · rw [hsame] at hparts
    exact .inl hparts
  · rw [hstaged.scope, hestablished.scope] at hparts
    cases hparts
    right
    have hvalid := (findParts_eq_ok hestablished.found).valid
    change checkTemplate page.tree parts.template = .ok () at hvalid
    unfold checkTemplate at hvalid
    split at hvalid
    · cases hvalid
    · next g hg => exact ⟨g, hg⟩

theorem parts_of_added {equipment : Equipment σ} {desk desk' : Desk σ}
    (h : AddedOrStaged equipment desk desk') : desk'.scope.parts = desk.scope.parts := by
  rcases h with hstaged | ⟨-, -, items, hcounted, -⟩
  · rw [hstaged.scope]
  · rw [hcounted.scope]

theorem upkeep_addFromData (page : Page σ) (n : Nat) (data : List (String × String)) :
    page.Upkeep (page.addFromData n data) := by
  refine upkeep_withScope _ _ (fun h => h.addFromData n data) (fun _ => editing_handleData data) ?_
  intro scope parts h hscope hparts
  rw [parts_of_added (handleData_outcome (page.desk scope) h.wellFormed
    (h.settled n scope hscope).idle page.equipment data)] at hparts
  exact .inl hparts

theorem upkeep_perform (page : Page σ) (event : Event) (action : Action) :
    page.Upkeep (page.perform event action) := by
  cases action with
  | add n =>
    refine upkeep_withScope "add" (handleAdd · event) (fun h => h.perform event (.add n))
      (fun h => editing_handleAdd h.callbacks event) ?_
    intro scope parts h hscope hparts
    rw [parts_of_added (TameHooks.handleAdd (page.desk scope) (h.tameHooks hscope) h.wellFormed
      (h.settled n scope hscope).idle event)] at hparts
    exact .inl hparts
  | delete n item =>
    refine upkeep_withScope "delete" (handleDelete · event item)
      (fun h => h.perform event (.delete n item))
      (fun h => editing_handleDelete h.callbacks event item) ?_
    intro scope parts h hscope hparts
    rw [(TameHooks.handleDelete (page.desk scope) (h.tameHooks hscope)
      (h.settled n scope hscope).idle event item).scope] at hparts
    exact .inl hparts

/-- Doing one thing after the other. -/
theorem upkeep_foldl {α : Type} {step : Page σ → α → Page σ}
    (hstep : ∀ page a, Upkeep page (step page a)) (page : Page σ) (as : List α) :
    page.Upkeep (as.foldl step page) := by
  induction as generalizing page with
  | nil => exact refl_of Upkeep page
  | cons a rest ih => exact trans_of Upkeep (hstep page a) (ih (step page a))

theorem upkeep_click (page : Page σ) (target : NodeId) : page.Upkeep (page.click target).1 :=
  upkeep_foldl (fun page _ => upkeep_foldl (fun page action => upkeep_perform page _ action) page _)
    page _

/-- An operation that leaves the document and the elements of the scopes alone is upkeep. -/
theorem upkeep_of_scopes (hkept : page.Kept → page'.Kept) (htree : page'.tree = page.tree)
    (hscopes : ∀ (n : Nat) (scope : Scope σ) (parts : Parts), page'.scopes[n]? = some scope →
      scope.parts = some parts → ∃ old : Scope σ, page.scopes[n]? = some old ∧
        old.parts = some parts) : page.Upkeep page' := by
  intro h hstocked
  refine ⟨hkept h, ?_, ?_⟩
  · intro n scope parts hscope hparts
    obtain ⟨old, hold, hparts⟩ := hscopes n scope parts hscope hparts
    rw [htree]
    exact hstocked n old parts hold hparts
  · rw [htree]
    exact refl_of Edited page.tree

theorem upkeep_attach (page : Page σ) (root : NodeId) : page.Upkeep (page.attach root).1 := by
  refine upkeep_of_scopes (fun h => h.attach root) ?_ ?_
  · unfold attach
    split <;> rfl
  · intro n scope parts hscope hparts
    unfold attach at hscope
    split at hscope
    · exact ⟨scope, hscope, hparts⟩
    · rw [Array.getElem?_push] at hscope
      split at hscope
      · cases hscope
        cases hparts
      · exact ⟨scope, hscope, hparts⟩

theorem upkeep_attachAll (page : Page σ) (roots : List NodeId) :
    page.Upkeep (page.attachAll roots).1 := by
  induction roots generalizing page with
  | nil => exact refl_of Upkeep page
  | cons root rest ih => exact trans_of Upkeep (upkeep_attach page root) (ih _)

theorem upkeep_changeScope (page : Page σ) (n : Nat) {f : Scope σ → Scope σ}
    (hkept : page.Kept → (page.changeScope n f).Kept)
    (hf : ∀ scope, (f scope).parts = scope.parts) : page.Upkeep (page.changeScope n f) := by
  refine upkeep_of_scopes hkept ?_ ?_
  · unfold changeScope
    split <;> rfl
  · intro m scope parts hscope hparts
    unfold changeScope at hscope
    split at hscope
    · rw [Array.getElem?_modify] at hscope
      split at hscope
      · obtain ⟨old, hold, rfl⟩ := Option.map_eq_some_iff.1 hscope
        exact ⟨old, hold, (hf old).symm.trans hparts⟩
      · exact ⟨scope, hscope, hparts⟩
    · exact ⟨scope, hscope, hparts⟩

theorem upkeep_apply (page : Page σ) (operation : Operation σ) (htame : operation.Tame) :
    page.Upkeep (operation.apply page) := by
  cases operation with
  | attach root => exact upkeep_attach page root
  | discover => exact upkeep_attachAll page _
  | start n => exact upkeep_start page n
  | startAll =>
    exact trans_of Upkeep (upkeep_attachAll page _) (upkeep_foldl upkeep_start _ _)
  | click target => exact upkeep_click page target
  | addFromData n data => exact upkeep_addFromData page n data
  | registerRoutines n routines =>
    exact upkeep_changeScope page n (fun h => h.registerRoutines n htame) fun _ => rfl
  | registerAfterStart n routine =>
    exact upkeep_changeScope page n (fun h => h.registerAfterStart n htame) fun _ => rfl
  | registerCallback name callback =>
    exact upkeep_of_scopes (fun h => h.registerCallback name htame) rfl
      fun n scope parts hscope hparts => ⟨scope, hscope, hparts⟩
  | edit operation =>
    intro h hstocked
    have hedited := Edited.one page.tree operation
    refine ⟨h.withTree hedited.grown, ?_, hedited⟩
    intro n scope parts hscope hparts
    obtain ⟨g, hg⟩ := hstocked n scope parts hscope hparts
    exact ⟨g, hedited.keepsContents h.wellFormed _ g hg⟩

theorem Reaches.upkeep (hreaches : page.Reaches page') : page.Upkeep page' := by
  induction hreaches with
  | refl => exact refl_of Upkeep page
  | tail _ hstep ih =>
    obtain ⟨operation, htame, rfl⟩ := hstep
    exact trans_of Upkeep ih (upkeep_apply _ operation htame)

theorem New.stocked (h : page.New) : page.Stocked := by
  intro n scope parts hscope hparts
  rw [h.scopes] at hscope
  simp at hscope

/-- The template of a started scope has contents. -/
theorem Reaches.stocked (hreaches : page.Reaches page') (h : page.New) : page'.Stocked :=
  (hreaches.upkeep h.kept h.stocked).2.1

/-- From any page that has been made over a document, a run of edits leads to what becomes of the
    document. -/
theorem Reaches.edited (hreaches : page.Reaches page') (h : page.New) :
    page.tree.Edited page'.tree := (hreaches.upkeep h.kept h.stocked).2.2

end Page

end Repeater
