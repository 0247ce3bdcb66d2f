/-
  Repeater/Proofs/Scope/DataAdditions.lean
  ========================================
  **Additions from data, to the last node.**

  An addition from data fails when the trigger has no parent, or when a mark for a sequence in the
  template has no pattern; then the tree has got new nodes at most. Nothing after these two checks
  can fail: the item, with the texts in its slots, comes in right before the trigger
  (`exec_addFilled_cases`). The registered hooks are never looked at: with others the flow does the
  same (`blind_handleData`).
-/
import Repeater.Proofs.Scope.Outcomes
import Repeater.Proofs.Stamp.Making

namespace Repeater

open Dom Hook Stamp Tree

variable {σ α β : Type}

/-! ## Hooks that are not looked at -/

/-- The desk with other hooks registered. -/
def Desk.withHooks (desk : Desk σ) (routines : Routines σ) (afterStart : Option (Routine σ)) :
    Desk σ := { desk with scope := { desk.scope with routines, afterStart } }

/-- The flow does the same whatever hooks are registered. -/
def Flow.Blind (flow : Flow σ α) : Prop := ∀ desk routines afterStart,
  exec flow (desk.withHooks routines afterStart) =
    ((exec flow desk).1, (exec flow desk).2.withHooks routines afterStart)

namespace Flow

theorem Blind.bind {flow : Flow σ α} {next : α → Flow σ β} (h : flow.Blind)
    (hnext : ∀ a, (next a).Blind) : Blind (flow >>= next) := by
  intro desk routines afterStart
  rw [exec_bind, exec_bind, h]
  rcases exec flow desk with ⟨e | a, between⟩
  · rfl
  · exact hnext a between routines afterStart

theorem Blind.pure (a : α) : Blind (pure a : Flow σ α) := fun _ _ _ => rfl

theorem Blind.throw (e : Error) : Blind (throw e : Flow σ α) := fun _ _ _ => rfl

theorem Blind.ofExcept (result : Except Error α) :
    Blind (MonadExcept.ofExcept result : Flow σ α) := by
  cases result <;> exact fun _ _ _ => rfl

/-- What is read of a desk must not depend on its hooks. -/
theorem Blind.get_bind {next : Desk σ → Flow σ α} (h : ∀ desk, (next desk).Blind)
    (hread : ∀ desk routines afterStart, next (desk.withHooks routines afterStart) = next desk) :
    Blind (get >>= next) := by
  intro desk routines afterStart
  rw [exec_get_bind, exec_get_bind, hread]
  exact h desk desk routines afterStart

theorem blind_stamp (stamping : Stamping α) : Blind (stamp stamping : Flow σ α) := fun _ _ _ => rfl

theorem blind_edit (change : Edit α) : Blind (edit change : Flow σ α) := fun _ _ _ => rfl

theorem blind_tree : Blind (tree : Flow σ Tree) := fun _ _ _ => rfl

theorem Blind.forM {items : List α} {body : α → Flow σ PUnit} (h : ∀ a, (body a).Blind) :
    Blind (items.forM body) := by
  induction items with
  | nil => exact .pure _
  | cons a rest ih => exact (h a).bind fun _ => ih

theorem Blind.during {flow : Flow σ α} (h : flow.Blind) (activity : Activity) :
    Blind (during activity flow) := by
  intro desk routines afterStart
  by_cases hidle : desk.scope.activity = .idle
  · have hidle' : (desk.withHooks routines afterStart).scope.activity = .idle := hidle
    rw [exec_during hidle, exec_during hidle']
    have hrun := h (desk.doing activity) routines afterStart
    change exec flow ((desk.withHooks routines afterStart).doing activity) = _ at hrun
    rw [hrun]
    rfl
  · have hbusy : ∀ desk : Desk σ, desk.scope.activity ≠ .idle →
        exec (Flow.during activity flow) desk =
          (.error (.busy desk.scope.activity.name), desk) := fun _ h => if_neg h
    rw [hbusy desk hidle, hbusy (desk.withHooks routines afterStart) hidle]
    rfl

end Flow

namespace Scope

variable {equipment : Equipment σ} {parts : Parts} {identifier : String} {desk desk' : Desk σ}
  {g : NodeId}

theorem blind_wireDelete (item : NodeId) : (wireDelete equipment item).Blind := by
  intro desk routines afterStart
  rw [exec_wireDelete, exec_wireDelete]
  rfl

theorem blind_addFilled (parts : Parts) (identifier : String) (data : List (String × String)) :
    (addFilled equipment parts identifier data).Blind := by
  unfold addFilled
  refine Flow.blind_tree.bind fun t => ?_
  split
  swap
  · exact .throw _
  refine .get_bind (fun desk => ?_) fun _ _ _ => rfl
  refine (Flow.blind_stamp _).bind fun fragment => ?_
  refine (Flow.blind_stamp _).bind fun _ => ?_
  refine (Flow.blind_stamp _).bind fun _ => ?_
  refine Flow.blind_tree.bind fun t' => ?_
  refine (Flow.blind_edit _).bind fun _ => ?_
  exact (Flow.Blind.forM blind_wireDelete).bind fun _ _ _ _ => rfl

/-- The registered hooks take no part in an addition from data. -/
theorem blind_handleData (data : List (String × String)) : (handleData equipment data).Blind := by
  refine .get_bind (fun desk => ?_) fun _ _ _ => rfl
  exact (Flow.Blind.ofExcept _).bind fun resolved => (blind_addFilled _ _ _).during _

/-! ## The ends of an addition -/

/-- What an addition that has gone through leaves: the item is in its place, and is counted. -/
def Gains (equipment : Equipment σ) (g : NodeId) (texts : List (NodeId × String))
    (identifier : String) (p : NodeId) (reference : Option NodeId) (desk desk' : Desk σ) : Prop :=
  ∃ φ, Gained desk.stage.tree g texts identifier desk.scope.counter p reference desk'.stage.tree φ ∧
    desk'.stage.outside = desk.stage.outside ∧
    Counted equipment ((desk.stage.tree.elementChildren g).map φ) desk desk'

/-- The texts of an item that is filled from data. -/
def itemTexts (t : Tree) (g : NodeId) (counter : Nat) (data : List (String × String)) :
    List (NodeId × String) := fillings t g (numbering t g counter) data

theorem exec_addFilled_notReady (desk : Desk σ) {p : NodeId} (h : desk.stage.tree.WellFormed)
    (hp : desk.stage.tree.parent? parts.trigger = some p)
    (hg : desk.stage.tree.contents? parts.template = some g)
    (hgrounded : desk.stage.tree.GroundedFrom g)
    (hready : sequencesReady desk.stage.tree g = false) (equipment : Equipment σ)
    (identifier : String) (data : List (String × String)) :
    ∃ t', exec (addFilled equipment parts identifier data) desk =
        (.error (.missingAttribute .sequence), desk.withTree t') ∧
      t'.WellFormed ∧ desk.stage.tree.Extends t' := by
  obtain ⟨t', hrun, hwf, hext⟩ :=
    exec_copyTemplate_notReady h hg hgrounded hready desk.scope.counter
  refine ⟨t', ?_, hwf, hext⟩
  unfold addFilled
  rw [Flow.exec_tree_bind, hp]
  dsimp only
  rw [exec_get_bind]
  exact exec_bind_error (Flow.exec_stamp hrun)

theorem exec_addFilled_ready (desk : Desk σ) {p : NodeId} (h : desk.stage.tree.WellFormed)
    (hp : desk.stage.tree.parent? parts.trigger = some p)
    (hg : desk.stage.tree.contents? parts.template = some g)
    (hgrounded : desk.stage.tree.GroundedFrom g)
    (hready : sequencesReady desk.stage.tree g = true) (equipment : Equipment σ)
    (identifier : String) (data : List (String × String)) :
    ∃ desk', exec (addFilled equipment parts identifier data) desk = (.ok ⟨⟩, desk') ∧
      Gains equipment g (itemTexts desk.stage.tree g desk.scope.counter data) identifier p
        (some parts.trigger) desk desk' := by
  have hfragment := h.contents_fragment hg
  obtain ⟨f, t₁, hrun₁, hinscribed₁⟩ :=
    exec_copyTemplate_ready h hg hgrounded hready desk.scope.counter
  obtain ⟨n, t₂, hrun₂, hinscribed₂⟩ := hinscribed₁.exec_fillSlots h data
  obtain ⟨m, t₃, φ, hrun₃, h₃, hext, rfl, hmade⟩ :=
    hinscribed₂.exec_stampIndex h identifier desk.scope.counter
  have hcontent : t₃.content? (φ g) = some .fragment := by
    rw [hmade.content g .refl, hfragment]
    rfl
  obtain ⟨t₄, hrun₄, hspliced⟩ := exec_insertBeforeTrigger h h₃ hext hp hinscribed₂.new hcontent
  obtain ⟨desk', hrun₅, hstage, hcounted⟩ :=
    exec_count equipment (t₃.elementChildren (φ g)) (desk.withTree t₄)
  have hstep₁ : exec (Flow.stamp (copyTemplate parts.template desk.scope.counter)) desk =
      (.ok (φ g), desk.withTree t₁) := Flow.exec_stamp hrun₁
  have hstep₂ : exec (Flow.stamp (fillSlots (φ g) data)) (desk.withTree t₁) =
      (.ok n, desk.withTree t₂) := Flow.exec_stamp hrun₂
  have hstep₃ : exec (Flow.stamp (stampIndex (φ g) identifier desk.scope.counter))
      (desk.withTree t₂) = (.ok m, desk.withTree t₃) := Flow.exec_stamp hrun₃
  have hstep₄ : exec (Flow.edit (Edit.insertBefore p (φ g) (some parts.trigger)))
      (desk.withTree t₃) = (.ok (φ g), desk.withTree t₄) := Flow.exec_edit_ok hrun₄
  refine ⟨desk', ?_, φ, ?_, ?_, ?_⟩
  · unfold addFilled
    rw [Flow.exec_tree_bind, hp]
    dsimp only
    rw [exec_get_bind, exec_bind_ok hstep₁, exec_bind_ok hstep₂, exec_bind_ok hstep₃,
      Flow.exec_tree_bind, exec_bind_ok hstep₄]
    exact hrun₅
  · rw [hstage]
    exact gained_of_spliced h hfragment hgrounded h₃ hext hmade hinscribed₂.within_contents
      (h.has_parent hp) hspliced
  · rw [hstage]
    rfl
  · rw [← hmade.elementChildren h hfragment hinscribed₂.within_contents]
    exact ⟨hcounted.scope, hcounted.listeners⟩

/-- Without a parent of the trigger there is no place for an item. -/
theorem exec_handleData_parentless (desk : Desk σ) (hidle : desk.scope.activity = .idle)
    (hresolved : desk.scope.resolved = .ok (parts, identifier))
    (hnone : desk.stage.tree.parent? parts.trigger = none) (equipment : Equipment σ)
    (data : List (String × String)) :
    exec (handleData equipment data) desk = (.error (.missingElement .trigger), desk) := by
  have hnone' : (desk.doing .adding).stage.tree.parent? parts.trigger = none := hnone
  have hrun : exec (addFilled equipment parts identifier data) (desk.doing .adding) =
      (.error (.missingElement .trigger), desk.doing .adding) := by
    unfold addFilled
    rw [Flow.exec_tree_bind, hnone']
    rfl
  rw [exec_handleData hidle hresolved, hrun, doing_idle hidle]

/-- How an addition from data ends: there are three ways, and none of them depends on the data. -/
theorem exec_handleData_cases (desk : Desk σ) (hidle : desk.scope.activity = .idle)
    (hresolved : desk.scope.resolved = .ok (parts, identifier)) (h : desk.stage.tree.WellFormed)
    (hg : desk.stage.tree.contents? parts.template = some g)
    (hgrounded : desk.stage.tree.GroundedFrom g) (equipment : Equipment σ)
    (data : List (String × String)) :
    desk.stage.tree.parent? parts.trigger = none ∧
        exec (handleData equipment data) desk = (.error (.missingElement .trigger), desk) ∨
      sequencesReady desk.stage.tree g = false ∧
        (∃ t', exec (handleData equipment data) desk =
            (.error (.missingAttribute .sequence), desk.withTree t') ∧
          t'.WellFormed ∧ desk.stage.tree.Extends t') ∨
      sequencesReady desk.stage.tree g = true ∧
        ∃ p desk', desk.stage.tree.parent? parts.trigger = some p ∧
          exec (handleData equipment data) desk = (.ok ⟨⟩, desk') ∧
          Gains equipment g (itemTexts desk.stage.tree g desk.scope.counter data) identifier p
            (some parts.trigger) desk desk' := by
  rcases hp : desk.stage.tree.parent? parts.trigger with _ | p
  · exact .inl ⟨rfl, exec_handleData_parentless desk hidle hresolved hp equipment data⟩
  rw [exec_handleData hidle hresolved]
  rcases hready : sequencesReady desk.stage.tree g with _ | _
  · refine .inr (.inl ⟨rfl, ?_⟩)
    obtain ⟨t', hrun, hend⟩ := exec_addFilled_notReady (desk.doing .adding) h hp hg
      hgrounded hready equipment identifier data
    refine ⟨t', ?_, hend⟩
    rw [hrun]
    have hidle' : (desk.withTree t').scope.activity = .idle := hidle
    exact congrArg (Prod.mk _) (doing_idle hidle' .adding)
  · refine .inr (.inr ⟨rfl, p, ?_⟩)
    obtain ⟨desk', hrun, φ, hgained, houtside, hcounted⟩ :=
      exec_addFilled_ready (desk.doing .adding) h hp hg hgrounded hready equipment identifier
        data
    exact ⟨desk'.doing .idle, rfl, by rw [hrun], φ, hgained, houtside, hcounted.doing hidle⟩

end Scope

end Repeater
