/-
  Repeater/Proofs/Scope/Editing.lean
  ==================================
  **Flows change the tree by its edits only.**

  Stamping, inserting, removing and marking are edits of the tree, and what is registered as a hook
  is taken to do no more. So whatever a flow does and wherever it fails, a run of edits leads from
  the tree it has found to the tree it leaves (`editing_handleAdd` and the lemmas after it), and
  what every edit keeps is kept by every flow.
-/
import Repeater.Proofs.Scope.Adding
import Repeater.Proofs.Scope.Starting

namespace Repeater

open Dom Hook Stamp Tree

variable {σ α : Type}

/-! ## Edits -/

namespace Dom.Edit

theorem edited_setText (x : NodeId) (text : String) : Keeps Edited (setText x text) :=
  fun t => Edited.one t (.setText x text)

theorem edited_setAttribute (x : NodeId) (name value : String) :
    Keeps Edited (setAttribute x name value) := fun t => Edited.one t (.setAttribute x name value)

theorem edited_of_discard {change : Edit α} (operation : Operation)
    (h : operation.run = discard change) : Keeps Edited change := by
  intro t
  have hone := Edited.one t operation
  unfold Operation.apply at hone
  rwa [h, exec_discard] at hone

theorem edited_copy (x : NodeId) (deep : Bool) : Keeps Edited (copy x deep) :=
  edited_of_discard (.copy x deep) rfl

theorem edited_insertBefore (p c : NodeId) (reference : Option NodeId) :
    Keeps Edited (insertBefore p c reference) :=
  edited_of_discard (.insert p c reference) rfl

theorem edited_remove (x : NodeId) : Keeps Edited (remove x) :=
  edited_of_discard (.remove x) rfl

end Dom.Edit

/-! ## Stamping -/

namespace Stamp

theorem edited_edit {change : Edit α} (h : Keeps Edited change) : Keeps Edited (edit change) := by
  intro t
  rw [exec_edit]
  exact h t

theorem edited_stampSequences (root : NodeId) (counter : Nat) :
    Keeps Edited (stampSequences root counter) := by
  refine Keeps.get_bind fun t => ?_
  refine Keeps.bind (Keeps.mapM fun m _ => ?_) fun stamps => ?_
  · split
    · exact Keeps.pure _
    · exact Keeps.throw _
  · exact Keeps.bind (Keeps.forM fun stamp _ => edited_edit (Edit.edited_setText _ _)) fun _ =>
      Keeps.pure _

theorem edited_stampAttribute (x : NodeId) (scope : String) (counter : Nat) (name : String) :
    Keeps Edited (stampAttribute x scope counter name) := by
  refine Keeps.get_bind fun t => ?_
  split
  · exact Keeps.pure _
  · dsimp only
    split
    · exact Keeps.pure _
    · exact Keeps.bind (edited_edit (Edit.edited_setAttribute _ _ _)) fun _ => Keeps.pure _

theorem edited_stampIndex (root : NodeId) (scope : String) (counter : Nat) :
    Keeps Edited (stampIndex root scope counter) := by
  refine Keeps.get_bind fun t => ?_
  refine Keeps.bind (Keeps.mapM fun m _ => ?_) fun _ => Keeps.pure _
  refine Keeps.get_bind fun t' => ?_
  split
  · exact Keeps.pure _
  · exact Keeps.bind (Keeps.mapM fun name _ => edited_stampAttribute _ _ _ _) fun _ => Keeps.pure _

theorem edited_fillSlots (root : NodeId) (data : List (String × String)) :
    Keeps Edited (fillSlots root data) := by
  refine Keeps.bind (Keeps.mapM fun entry _ => ?_) fun _ => Keeps.pure _
  refine Keeps.get_bind fun t => ?_
  split
  · exact Keeps.pure _
  · exact Keeps.bind (edited_edit (Edit.edited_setText _ _)) fun _ => Keeps.pure _

theorem edited_copyTemplate (template : NodeId) (counter : Nat) :
    Keeps Edited (copyTemplate template counter) := by
  refine Keeps.get_bind fun t => ?_
  split
  · exact Keeps.throw _
  · exact Keeps.bind (edited_edit (Edit.edited_copy _ _)) fun _ =>
      Keeps.bind (edited_stampSequences _ _) fun _ => Keeps.pure _

end Stamp

/-! ## Flows -/

/-- The hooks of a scope edit the tree by its operations. -/
structure Scope.Tame (scope : Scope σ) : Prop where
  routines : scope.routines.Within Edited
  afterStart : ∀ routine, scope.afterStart = some routine → routine.Tame

/-- As long as the hooks of its scope do no more, a flow changes the tree by edits. -/
def Desk.Editing (desk desk' : Desk σ) : Prop :=
  desk.scope.Tame → desk'.scope.Tame ∧ desk.stage.tree.Edited desk'.stage.tree

instance : IsPreorder (Desk σ) Desk.Editing where
  refl _ := fun h => ⟨h, refl_of Edited _⟩
  trans _ _ _ := fun h h' htame =>
    ⟨(h' (h htame).1).1, trans_of Edited (h htame).2 (h' (h htame).1).2⟩

namespace Flow

theorem editing_stamp {stamping : Stamping α} (h : Keeps Edited stamping) :
    Keeps Desk.Editing (Flow.stamp stamping : Flow σ α) :=
  fun desk htame => ⟨htame, h desk.stage.tree⟩

theorem editing_edit {change : Edit α} (h : Keeps Edited change) :
    Keeps Desk.Editing (Flow.edit change : Flow σ α) := editing_stamp (edited_edit h)

theorem editing_tree : Keeps Desk.Editing (Flow.tree : Flow σ Tree) :=
  fun _ htame => ⟨htame, refl_of Edited _⟩

theorem editing_act {step : Act Error σ α} (h : Keeps (OnTree Edited) step) :
    Keeps Desk.Editing (Flow.act step) := fun desk htame => ⟨htame, h desk.stage⟩

theorem editing_updateScope {f : Scope σ → Scope σ} (hf : ∀ scope, scope.Tame → (f scope).Tame) :
    Keeps Desk.Editing (Flow.updateScope f) := fun _ htame => ⟨hf _ htame, refl_of Edited _⟩

theorem editing_updateListeners (f : Listeners Action → Listeners Action) :
    Keeps Desk.Editing (Flow.updateListeners f : Flow σ Unit) :=
  fun _ htame => ⟨htame, refl_of Edited _⟩

theorem editing_of_staged {flow : Flow σ α}
    (h : ∀ desk : Desk σ, desk.scope.Tame → desk.Staged Edited (exec flow desk).2) :
    Keeps Desk.Editing flow := by
  intro desk htame
  obtain ⟨hscope, -, htree⟩ := h desk htame
  exact ⟨hscope ▸ htame, htree⟩

theorem editing_during {activity : Activity} {flow : Flow σ α} (h : Keeps Desk.Editing flow) :
    Keeps Desk.Editing (Flow.during activity flow) := by
  intro desk htame
  by_cases hidle : desk.scope.activity = .idle
  · obtain ⟨htame', htree⟩ := h (desk.doing activity) ⟨htame.routines, htame.afterStart⟩
    rw [Flow.exec_during hidle]
    exact ⟨⟨htame'.routines, htame'.afterStart⟩, htree⟩
  · have hbusy : exec (Flow.during activity flow) desk =
        (.error (.busy desk.scope.activity.name), desk) := if_neg hidle
    rw [hbusy]
    exact ⟨htame, refl_of Edited _⟩

end Flow

namespace Scope

variable {equipment : Equipment σ}

theorem editing_count (f : Nat → Nat) : Keeps Desk.Editing
    (Flow.updateScope fun scope : Scope σ => { scope with counter := f scope.counter }) :=
  Flow.editing_updateScope fun _ htame => ⟨htame.routines, htame.afterStart⟩

theorem editing_wireAll (items : List NodeId) :
    Keeps Desk.Editing (items.forM (wireDelete equipment)) := by
  intro desk htame
  rw [exec_wireAll]
  exact ⟨htame, refl_of Edited _⟩

section hooks

variable (hcallbacks : equipment.callbacks.Within Edited)
include hcallbacks

theorem editing_runHooks (phase : Phase) (program : Option Program) (occasion : Occasion) :
    Keeps Desk.Editing (runHooks equipment phase program occasion) :=
  Flow.editing_of_staged fun desk htame => staged_runHooks desk phase program occasion
    (fun p _ => p.tame hcallbacks) htame.routines

theorem editing_handleAdd (event : Event) : Keeps Desk.Editing (handleAdd equipment event) := by
  refine Keeps.get_bind fun desk => ?_
  refine Keeps.bind (Keeps.ofExcept _) fun resolved => Flow.editing_during ?_
  unfold addItem
  refine Keeps.bind Flow.editing_tree fun t => ?_
  refine Keeps.bind (Keeps.ofExcept _) fun before => ?_
  refine Keeps.bind (Keeps.ofExcept _) fun after => ?_
  refine Keeps.get_bind fun desk => ?_
  refine Keeps.bind (Flow.editing_stamp (edited_copyTemplate _ _)) fun fragment => ?_
  refine Keeps.bind (Flow.editing_stamp (edited_stampIndex _ _ _)) fun _ => ?_
  refine Keeps.bind Flow.editing_tree fun t' => ?_
  refine Keeps.bind (editing_runHooks hcallbacks _ _ _) fun _ => ?_
  refine Keeps.bind (Flow.editing_edit (Edit.edited_insertBefore _ _ _)) fun _ => ?_
  refine Keeps.bind ?_ fun _ => Keeps.bind (editing_wireAll _) fun _ => editing_count _
  refine Keeps.tryCatch (editing_runHooks hcallbacks _ _ _) fun failure => ?_
  refine Keeps.bind (Keeps.forM fun item _ => ?_) fun _ => Keeps.throw _
  exact Keeps.map _ (Flow.editing_edit (Edit.edited_remove _))

theorem editing_handleDelete (event : Event) (item : NodeId) :
    Keeps Desk.Editing (handleDelete equipment event item) := by
  refine Keeps.get_bind fun desk => ?_
  refine Keeps.bind (Keeps.ofExcept _) fun resolved => ?_
  refine Keeps.bind Flow.editing_tree fun t => ?_
  dsimp only
  split
  swap
  · intro desk'
    rw [exec_throw_bind]
    exact refl_of Desk.Editing desk'
  refine Keeps.bind (Flow.editing_act (keeps_talk _)) fun yes => ?_
  split
  swap
  · exact Keeps.pure _
  refine Flow.editing_during ?_
  unfold deleteItem
  refine Keeps.bind Flow.editing_tree fun t' => ?_
  refine Keeps.bind (Keeps.ofExcept _) fun before => ?_
  refine Keeps.bind (Keeps.ofExcept _) fun after => ?_
  refine Keeps.bind (editing_runHooks hcallbacks _ _ _) fun _ => ?_
  refine Keeps.bind (Flow.editing_edit (Edit.edited_remove _)) fun _ => ?_
  exact Keeps.bind (Flow.editing_updateListeners _) fun _ => editing_runHooks hcallbacks _ _ _

end hooks

theorem editing_handleData (data : List (String × String)) :
    Keeps Desk.Editing (handleData equipment data) := by
  refine Keeps.get_bind fun desk => ?_
  refine Keeps.bind (Keeps.ofExcept _) fun resolved => Flow.editing_during ?_
  unfold addFilled
  refine Keeps.bind Flow.editing_tree fun t => ?_
  split
  swap
  · exact Keeps.throw _
  refine Keeps.get_bind fun desk => ?_
  refine Keeps.bind (Flow.editing_stamp (edited_copyTemplate _ _)) fun fragment => ?_
  refine Keeps.bind (Flow.editing_stamp (edited_fillSlots _ _)) fun _ => ?_
  refine Keeps.bind (Flow.editing_stamp (edited_stampIndex _ _ _)) fun _ => ?_
  refine Keeps.bind Flow.editing_tree fun t' => ?_
  refine Keeps.bind (Flow.editing_edit (Edit.edited_insertBefore _ _ _)) fun _ => ?_
  exact Keeps.bind (editing_wireAll _) fun _ => editing_count _

theorem editing_runAfterStart (parts : Parts) (items : List NodeId) :
    Keeps Desk.Editing (runAfterStart equipment parts items) :=
  Flow.editing_of_staged fun _ htame => staged_runAfterStart htame.afterStart parts items

theorem editing_conclude (n : Nat) (root : NodeId) (identifier : String) (parts : Parts)
    (items : List NodeId) :
    Keeps Desk.Editing (conclude equipment n root identifier parts items) := by
  unfold conclude
  refine Keeps.bind (editing_wireAll _) fun _ => ?_
  refine Keeps.bind (Flow.editing_updateListeners _) fun _ => ?_
  refine Keeps.bind (Flow.editing_edit (Edit.edited_setAttribute _ _ _)) fun _ => ?_
  refine Keeps.bind (Flow.editing_updateScope fun _ htame => ⟨htame.routines, htame.afterStart⟩)
    fun _ => ?_
  exact Keeps.bind (Flow.editing_act (keeps_log _)) fun _ => editing_runAfterStart _ _

theorem editing_start : Keeps Desk.Editing (start equipment) := by
  intro desk
  rw [exec_start_eq]
  split
  · exact refl_of Desk.Editing desk
  next identifier parts _ =>
  split
  swap
  · exact refl_of Desk.Editing desk
  have hestablish : Keeps Desk.Editing
      (establish equipment desk.stage.tree desk.scope identifier parts) := by
    unfold establish
    refine Keeps.bind (Flow.editing_updateListeners _) fun _ => ?_
    refine Keeps.bind (Flow.editing_updateScope fun _ htame =>
      ⟨htame.routines, htame.afterStart⟩) fun _ => ?_
    refine Keeps.bind (Keeps.forM fun item _ => ?_) fun _ => editing_conclude _ _ _ _ _
    refine Keeps.get_bind fun desk' => ?_
    refine Keeps.bind (Flow.editing_stamp (edited_stampSequences _ _)) fun _ => ?_
    refine Keeps.bind (Flow.editing_stamp (edited_stampIndex _ _ _)) fun _ => ?_
    exact editing_count fun _ => _
  exact hestablish desk

end Scope

end Repeater
