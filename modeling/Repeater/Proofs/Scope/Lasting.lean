/-
  Repeater/Proofs/Scope/Lasting.lean
  ==================================
  **What a flow leaves of the nodes that were there.**

  When the hooks leave the tree alone, every flow of a scope that has been started lets the nodes
  last (`Tree.Lasting`). An addition that fails may leave new nodes behind, an addition that goes
  through puts new nodes into the container or before the trigger; a deletion strikes out its item;
  a start puts the mark on the root, and may find other elements than before, all of them below the
  root.
-/
import Repeater.Proofs.Dom.Lasting
import Repeater.Proofs.Scope.Outcomes

namespace Repeater.Scope

open Dom Hook Stamp Tree

variable {σ : Type} {equipment : Equipment σ} {parts : Parts} {identifier : String}
  {desk desk' : Desk σ} {t t₁ t' : Tree} {counter : Nat} {f item : NodeId} {mark : Attribute}
  {roots apart : NodeId → Prop} {struck : List NodeId} {result : Except Error Unit}

/-- What a flow leaves of a desk: the nodes have lasted, and the scope has the elements it had, or
    others that a search below its root has found. -/
structure Lasts (mark : Attribute) (roots apart : NodeId → Prop) (struck : List NodeId)
    (desk desk' : Desk σ) : Prop where
  tree : Lasting mark roots apart struck desk.stage.tree desk'.stage.tree
  root : desk'.scope.root = desk.scope.root
  started : desk.scope.started = true → desk'.scope.started = true
  parts : desk'.scope.parts = desk.scope.parts ∨ ∃ identifier parts,
    findParts desk.stage.tree desk.scope.root = .ok (identifier, parts) ∧
      desk'.scope.parts = some parts

theorem Lasts.of_same (hscope : desk'.scope = desk.scope)
    (htree : Lasting mark roots apart struck desk.stage.tree desk'.stage.tree) :
    Lasts mark roots apart struck desk desk' := by
  refine ⟨htree, ?_, ?_, .inl ?_⟩
  · rw [hscope]
  · rw [hscope]
    exact id
  · rw [hscope]

theorem Lasts.of_counted {items : List NodeId} (hcounted : Counted equipment items desk desk')
    (htree : Lasting mark roots apart struck desk.stage.tree desk'.stage.tree) :
    Lasts mark roots apart struck desk desk' := by
  refine ⟨htree, ?_, ?_, .inl ?_⟩
  · rw [hcounted.scope]
  · rw [hcounted.scope]
    exact id
  · rw [hcounted.scope]

/-- Whether additions to the scope put their items into `p`: as its container, or as the parent of
    its trigger. -/
def PutsInto (scope : Scope σ) (t : Tree) (p : NodeId) : Prop :=
  ∃ parts, scope.parts = some parts ∧ (p = parts.container ∨ t.parent? parts.trigger = some p)

/-! ## Additions -/

theorem Inserted.lasting (h : t.WellFormed)
    (hinserted : Inserted t parts identifier counter t₁ f t')
    (hcontainer : ¬ apart parts.container) :
    Lasting mark roots apart [] t t' :=
  hinserted.1.extends_old.lasting_spliced h hinserted.1.wellFormed hinserted.1.new hinserted.2
    hcontainer

/-- What is taken out again had not been there before. -/
theorem TakenOut.lasting (h : t.WellFormed)
    (htaken : TakenOut t parts identifier counter t₁ f t') (hcontainer : ¬ apart parts.container) :
    Lasting mark roots apart [] t t' := by
  obtain ⟨t₂, hinserted, hgone⟩ := htaken
  have hput : Lasting mark roots apart [] t t₂ := hinserted.lasting h hcontainer
  obtain ⟨hdrafted, hspliced⟩ := hinserted
  apply (hput.trans (hgone.lasting hspliced.wellFormed)).drop h
  intro x hx
  exact parent?_of_not_has (new_of_mem_elementChildren h hdrafted.wellFormed
    hdrafted.extends_old hdrafted.new hx).1

theorem StillHooks.lasts_handleAdd (desk : Desk σ) (hidle : desk.scope.activity = .idle)
    (h : desk.stage.tree.WellFormed)
    (hstill : ∀ parts, desk.scope.parts = some parts →
      StillHooks equipment desk.scope desk.stage.tree parts.trigger)
    (hcontainer : ∀ parts, desk.scope.parts = some parts →
      desk.stage.tree.Has parts.container ∧ ¬ apart parts.container) {event : Event}
    (hrun : exec (Scope.handleAdd equipment event) desk = (result, desk')) :
    Lasts mark roots apart [] desk desk' := by
  obtain ⟨_, _, hrun', hend⟩ := StillHooks.exec_handleAdd desk hidle h hstill
    (fun parts hparts => (hcontainer parts hparts).1) event
  cases hrun'.symm.trans hrun
  rcases hend with ⟨-, hscope, -, hend⟩ |
    ⟨-, parts, identifier, t₁, f, hresolved, hinserted, hcounted⟩
  · apply Lasts.of_same hscope
    rcases hend with ⟨hwf, hext⟩ | ⟨parts, identifier, t₁, f, hresolved, htaken⟩
    · exact hext.lasting h hwf
    · exact htaken.lasting h (hcontainer parts (resolved_eq_ok hresolved).1).2
  · exact .of_counted hcounted
      (hinserted.lasting h (hcontainer parts (resolved_eq_ok hresolved).1).2)

theorem lasts_handleData (desk : Desk σ) (hidle : desk.scope.activity = .idle)
    (h : desk.stage.tree.WellFormed)
    (hplace : ∀ parts p, desk.scope.parts = some parts →
      desk.stage.tree.parent? parts.trigger = some p → ¬ apart p) {data : List (String × String)}
    (hrun : exec (handleData equipment data) desk = (result, desk')) :
    Lasts mark roots apart [] desk desk' := by
  obtain ⟨_, _, hrun', hend⟩ := exec_handleData_ends desk hidle h equipment data
  cases hrun'.symm.trans hrun
  rcases hend with ⟨-, hscope, -, hwf, hext⟩ | ⟨-, parts, p, f, t', hparts, hfilled⟩
  · exact .of_same hscope (hext.lasting h hwf)
  · exact .of_counted hfilled.counted (hfilled.extends_old.lasting_spliced h hfilled.wellFormed
      hfilled.new hfilled.spliced (hplace parts p hparts hfilled.parent))

/-! ## Deletions and starts -/

/-- A deletion strikes out its item, if the item had a parent and has none now. -/
theorem StillHooks.lasts_handleDelete (desk : Desk σ) (hidle : desk.scope.activity = .idle)
    (h : desk.stage.tree.WellFormed) {event : Event}
    (hstill : StillHooks equipment desk.scope desk.stage.tree (event.current.getD event.target))
    (hrun : exec (Scope.handleDelete equipment event item) desk = (result, desk')) :
    Lasts mark roots apart ([item].filter fun x =>
      desk.stage.tree.parent? x ≠ none ∧ desk'.stage.tree.parent? x = none) desk desk' := by
  have hdeleted := handleDelete_outcome (R := Eq) desk hidle hstill.routines event item hstill.code
  rw [hrun] at hdeleted
  obtain ⟨t₁, t₂, rfl, hremove, rfl⟩ := hdeleted.tree
  apply Lasts.of_same hdeleted.scope
  have hgone := detachAll_taken hremove
  have hdetached := detached_detachAll h ([item].filter fun x =>
    desk.stage.tree.parent? x ≠ none ∧ desk'.stage.tree.parent? x = none)
  rw [← hgone] at hdetached
  exact hdetached.lasting h

theorem lasting_started (h : t.WellFormed) (equipment : Equipment σ) {root : NodeId}
    (hroot : roots root) :
    Lasting ⟨Directive.started.name, equipment.config.startedValue⟩ roots apart [] t
      (marked equipment root t) := by
  rcases he : t.element? root with _ | e
  · rw [marked_of_none equipment he]
    exact .refl h
  · rw [marked_of_element equipment he]
    exact lasting_marked h he hroot

theorem lasts_restart (desk : Desk σ) (h : desk.stage.tree.WellFormed)
    (hstarted : desk.scope.started = true) (hroot : roots desk.scope.root)
    (hafter : ∀ routine, desk.scope.afterStart = some routine → routine.Within Eq)
    (hrun : exec (start equipment) desk = (result, desk')) :
    Lasts ⟨Directive.started.name, equipment.config.startedValue⟩ roots apart [] desk desk' := by
  have houtcome := start_outcome (R := Eq) desk h equipment hafter
  rw [hrun] at houtcome
  rcases houtcome with rfl | ⟨identifier, parts, desk₁, hestablished, hstaged⟩
  · exact .of_same rfl (.refl h)
  · refine ⟨?_, ?_, fun _ => ?_, .inr ⟨identifier, parts, hestablished.found, ?_⟩⟩
    · rw [← hstaged.tree, (hestablished.restarted hstarted).1]
      exact lasting_started h equipment hroot
    all_goals rw [hstaged.scope, hestablished.scope]

end Repeater.Scope
