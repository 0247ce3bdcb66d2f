/-
  Repeater/Proofs/Scope/PlainAdditions.lean
  =========================================
  **Additions without hooks.**

  Where no hook is registered and none is written on the trigger, a click on it does what an
  addition without data does, except that the item goes to the end of the container. It goes
  through if and only if the template is ready and the container can hold children (`canGain`); then
  one item has come in and is counted (`Gains`), else there are new nodes at most
  (`exec_handleAdd_unhooked`). The same holds of an addition from data, where the parent of the
  trigger takes the place of the container (`exec_handleData_attempted`).
-/
import Repeater.Proofs.Scope.DataAdditions

namespace Repeater

open Dom Hook Stamp Tree

variable {σ : Type}

namespace Scope

variable {equipment : Equipment σ} {scope : Scope σ} {desk : Desk σ} {parts : Parts}
  {identifier : String} {t : Tree} {carrier g p : NodeId}

/-! ## No hooks -/

theorem routine_of_unhooked (h : unhooked scope t carrier = true) (phase : Phase) :
    scope.routines.on phase = none := by
  have hphase : phase ∈ Phase.all := by cases phase <;> decide
  exact Option.isNone_iff_eq_none.1
    (List.all_eq_true.1 ((Bool.and_eq_true _ _).mp h).1 phase hphase)

theorem compileHook_of_unhooked (h : unhooked scope t carrier = true) (phase : Phase) :
    compileHook t carrier phase = .ok none := by
  have hphase : phase ∈ Phase.all := by cases phase <;> decide
  simpa using List.all_eq_true.1 ((Bool.and_eq_true _ _).mp h).2 phase hphase

theorem unhooked_congr {t' : Tree} {scope' : Scope σ} (hroutines : scope'.routines = scope.routines)
    (hcontent : t'.content? carrier = t.content? carrier) :
    unhooked scope' t' carrier = unhooked scope t carrier := by
  unfold unhooked compileHook Tree.attribute?
  rw [hroutines, element?_congr hcontent]

theorem exec_runHooks_none (desk : Desk σ) {phase : Phase}
    (h : desk.scope.routines.on phase = none) (equipment : Equipment σ) (occasion : Occasion) :
    exec (runHooks equipment phase none occasion) desk = (.ok ⟨⟩, desk) := by
  rw [exec_runHooks, h]
  rfl

/-! ## Whether an item can be made -/

/-- Whether an item can be made of what `g` holds and come in among the children of `p`. -/
def canGain (t : Tree) (g p : NodeId) : Bool :=
  sequencesReady t g && (t.content? p).any Content.holdsChildren

theorem canGain_eq_false (h : canGain t g p = false) (hready : sequencesReady t g = true)
    (hp : t.Has p) : ∃ holder, t.content? p = some holder ∧ ¬ holder.holdsChildren := by
  obtain ⟨holder, hholder⟩ := has_iff_content.1 hp
  refine ⟨holder, hholder, ?_⟩
  simpa [canGain, hready, hholder] using h

theorem canGain_eq_true (h : canGain t g p = true) :
    sequencesReady t g = true ∧ ∃ holder, t.content? p = some holder ∧ holder.holdsChildren := by
  obtain ⟨hready, hholds⟩ := (Bool.and_eq_true _ _).mp h
  refine ⟨hready, ?_⟩
  rcases hholder : t.content? p with _ | holder
  · simp [hholder] at hholds
  · exact ⟨holder, rfl, by simpa [hholder] using hholds⟩

/-- How an addition without hooks ends: one item more if it can be made, else new nodes at most. -/
def Attempted (equipment : Equipment σ) (g : NodeId) (data : List (String × String))
    (identifier : String) (p : NodeId) (reference : Option NodeId) (desk : Desk σ)
    (ended : Except Error Unit × Desk σ) : Prop :=
  if canGain desk.stage.tree g p then
    ended.1 = .ok ⟨⟩ ∧ Gains equipment g (itemTexts desk.stage.tree g desk.scope.counter data)
      identifier p reference desk ended.2
  else
    (∃ e, ended.1 = .error e) ∧ ∃ t', ended.2 = desk.withTree t' ∧ t'.WellFormed ∧
      desk.stage.tree.Extends t'

theorem Attempted.of_during {data : List (String × String)} {reference : Option NodeId}
    {ended : Except Error Unit × Desk σ} (hidle : desk.scope.activity = .idle)
    (h : Attempted equipment g data identifier p reference (desk.doing .adding) ended) :
    Attempted equipment g data identifier p reference desk (ended.1, ended.2.doing .idle) := by
  unfold Attempted at h ⊢
  change if canGain desk.stage.tree g p then _ else _ at h
  split at h
  · next hcan =>
    obtain ⟨hok, φ, hgained, houtside, hcounted⟩ := h
    rw [if_pos hcan]
    exact ⟨hok, φ, hgained, houtside, hcounted.doing hidle⟩
  · next hcannot =>
    obtain ⟨herror, t', hdesk, hend⟩ := h
    rw [if_neg hcannot]
    refine ⟨herror, t', ?_, hend⟩
    have hidle' : (desk.withTree t').scope.activity = .idle := hidle
    exact (congrArg (·.doing .idle) hdesk).trans (doing_idle hidle' .adding)

/-! ## Clicks -/

theorem exec_makeDraft_ready (desk : Desk σ) (h : desk.stage.tree.WellFormed)
    (hg : desk.stage.tree.contents? parts.template = some g)
    (hgrounded : desk.stage.tree.GroundedFrom g)
    (hready : sequencesReady desk.stage.tree g = true) (identifier : String) :
    ∃ t' φ, exec (makeDraft parts identifier) desk = (.ok (φ g), desk.withTree t') ∧
      t'.WellFormed ∧ desk.stage.tree.Extends t' ∧
      Within desk.stage.tree g (numbering desk.stage.tree g desk.scope.counter) ∧
      Made desk.stage.tree g (numbering desk.stage.tree g desk.scope.counter) identifier
        desk.scope.counter t' φ := by
  obtain ⟨f, t₁, hrun₁, hinscribed⟩ :=
    exec_copyTemplate_ready h hg hgrounded hready desk.scope.counter
  obtain ⟨n, t₂, φ, hrun₂, h₂, hext, rfl, hmade⟩ :=
    hinscribed.exec_stampIndex h identifier desk.scope.counter
  have hstep₁ : exec (Flow.stamp (copyTemplate parts.template desk.scope.counter)) desk =
      (.ok (φ g), desk.withTree t₁) := Flow.exec_stamp hrun₁
  have hstep₂ : exec (Flow.stamp (stampIndex (φ g) identifier desk.scope.counter))
      (desk.withTree t₁) = (.ok n, desk.withTree t₂) := Flow.exec_stamp hrun₂
  refine ⟨t₂, φ, ?_, h₂, hext, hinscribed.within_contents, hmade⟩
  unfold makeDraft
  rw [exec_get_bind, exec_bind_ok hstep₁, exec_bind_ok hstep₂, exec_pure]

theorem exec_insertDraft_none (desk : Desk σ) (hroutine : desk.scope.routines.on .preAdd = none)
    (equipment : Equipment σ) (parts : Parts) (event : Event) (f : NodeId) :
    exec (insertDraft equipment parts event none f) desk =
      exec (do
        let _ ← Flow.edit (Edit.append parts.container f)
        return desk.stage.tree.elementChildren f) desk := by
  unfold insertDraft
  rw [Flow.exec_tree_bind, exec_bind_ok (exec_runHooks_none desk hroutine equipment _)]

theorem exec_settle_none (desk : Desk σ) (hroutine : desk.scope.routines.on .postAdd = none)
    (equipment : Equipment σ) (parts : Parts) (event : Event) (items : List NodeId) :
    ∃ desk', exec (settle equipment parts event none items) desk = (.ok ⟨⟩, desk') ∧
      desk'.stage = desk.stage ∧ Counted equipment items desk desk' := by
  obtain ⟨desk', hrun, hend⟩ := exec_count equipment items desk
  refine ⟨desk', ?_, hend⟩
  have htry : exec (tryCatch (runHooks equipment .postAdd none ⟨parts, items, event⟩)
      (takeOut items)) desk = (.ok ⟨⟩, desk) := by
    rw [exec_tryCatch, exec_runHooks_none desk hroutine]
  unfold settle
  rw [exec_bind_ok htry, hrun]

theorem exec_addItem_unhooked (desk : Desk σ)
    (hunhooked : unhooked desk.scope desk.stage.tree parts.trigger = true)
    (h : desk.stage.tree.WellFormed) (hg : desk.stage.tree.contents? parts.template = some g)
    (hgrounded : desk.stage.tree.GroundedFrom g) (hp : desk.stage.tree.Has parts.container)
    (equipment : Equipment σ) (identifier : String) (event : Event) :
    Attempted equipment g [] identifier parts.container none desk
      (exec (addItem equipment parts identifier event) desk) := by
  have hcode := compileHook_of_unhooked hunhooked
  have hroutine := routine_of_unhooked hunhooked
  rw [addItem_eq, Flow.exec_tree_bind, hcode, hcode, exec_bind_ok (exec_ofExcept _ _),
    exec_bind_ok (exec_ofExcept _ _)]
  rcases hready : sequencesReady desk.stage.tree g with _ | _
  · obtain ⟨t', hrun, hend⟩ :=
      exec_copyTemplate_notReady h hg hgrounded hready desk.scope.counter
    have hdraft : exec (makeDraft parts identifier) desk =
        (.error (.missingAttribute .sequence), desk.withTree t') := by
      unfold makeDraft
      rw [exec_get_bind]
      exact exec_bind_error (Flow.exec_stamp hrun)
    rw [exec_bind_error hdraft, Attempted, canGain, hready, Bool.false_and, if_neg (by simp)]
    exact ⟨⟨_, rfl⟩, t', rfl, hend⟩
  obtain ⟨t₁, φ, hdraft, h₁, hext, hwithin, hmade⟩ :=
    exec_makeDraft_ready desk h hg hgrounded hready identifier
  have hfragment := h.contents_fragment hg
  have hnew : ¬ desk.stage.tree.Has (φ g) := hmade.new g .refl
  rw [exec_bind_ok hdraft]
  have hinsert := exec_insertDraft_none (desk.withTree t₁) (hroutine .preAdd) equipment parts event
    (φ g)
  rcases hcan : canGain desk.stage.tree g parts.container with _ | _
  · -- the container takes no children, so it refuses the item as a whole
    obtain ⟨holder, hholder, hholds⟩ := canGain_eq_false hcan hready hp
    obtain ⟨e, hplace⟩ : ∃ e, t₁.checkPlace parts.container (φ g) none = .error e := by
      rcases hplace : t₁.checkPlace parts.container (φ g) none with e | content
      · exact ⟨e, rfl⟩
      obtain ⟨holder', hholder', hholds'⟩ := (checkPlace_eq_ok.1 hplace).holder
      rw [hext.content? hp, hholder, Option.some.injEq] at hholder'
      exact absurd (hholder' ▸ hholds') hholds
    have happend : exec (Edit.append parts.container (φ g)) t₁ = (.error e, t₁) := by
      unfold Edit.append Edit.insertBefore
      simp only [exec_get_bind, hplace, exec_liftM_error_bind]
    have hedit := Flow.exec_edit (Edit.append parts.container (φ g)) (desk.withTree t₁)
    rw [show (desk.withTree t₁).stage.tree = t₁ from rfl, happend] at hedit
    rw [exec_bind_error hedit] at hinsert
    rw [exec_bind_error hinsert, Attempted, hcan, if_neg (by simp)]
    exact ⟨⟨_, rfl⟩, t₁, rfl, h₁, hext⟩
  · obtain ⟨holder, hholder, hholds⟩ := (canGain_eq_true hcan).2
    have hcontent : t₁.content? (φ g) = some .fragment := by
      rw [hmade.content g .refl, hfragment]
      rfl
    have hallows : t₁.Allows parts.container (φ g) none .fragment :=
      ⟨⟨holder, (hext.content? hp).trans hholder, hholds⟩, hcontent, by simp⟩
    obtain ⟨t₂, happend, hspliced⟩ := exec_insert_new h h₁ hext hp hnew hallows
    have hedit : exec (Flow.edit (Edit.append parts.container (φ g))) (desk.withTree t₁) =
        (.ok (φ g), desk.withTree t₂) := Flow.exec_edit_ok happend
    rw [exec_bind_ok hedit, exec_pure] at hinsert
    obtain ⟨desk', hsettle, hstage, hcounted⟩ := exec_settle_none (desk.withTree t₂)
      (hroutine .postAdd) equipment parts event (t₁.elementChildren (φ g))
    rw [exec_bind_ok hinsert, Attempted, hcan, if_pos rfl, show exec (settle equipment parts event
      none ((desk.withTree t₁).stage.tree.elementChildren (φ g))) (desk.withTree t₂) = _ from
      hsettle]
    refine ⟨rfl, φ, ?_, congrArg (·.outside) hstage, ?_⟩
    · rw [hstage]
      exact gained_of_spliced h hfragment hgrounded h₁ hext hmade hwithin hp hspliced
    · rw [← hmade.elementChildren h hfragment hwithin]
      exact ⟨hcounted.scope, hcounted.listeners⟩

/-- A click on a trigger without hooks. -/
theorem exec_handleAdd_unhooked (desk : Desk σ) (hidle : desk.scope.activity = .idle)
    (hresolved : desk.scope.resolved = .ok (parts, identifier))
    (hunhooked : unhooked desk.scope desk.stage.tree parts.trigger = true)
    (h : desk.stage.tree.WellFormed) (hg : desk.stage.tree.contents? parts.template = some g)
    (hgrounded : desk.stage.tree.GroundedFrom g) (hp : desk.stage.tree.Has parts.container)
    (equipment : Equipment σ) (event : Event) :
    Attempted equipment g [] identifier parts.container none desk
      (exec (handleAdd equipment event) desk) := by
  rw [exec_handleAdd hidle hresolved]
  exact .of_during hidle (exec_addItem_unhooked (desk.doing .adding) hunhooked h hg hgrounded hp
    equipment identifier event)

/-! ## Additions from data -/

/-- An addition from data, where the trigger has a parent. -/
theorem exec_handleData_attempted (desk : Desk σ) (hidle : desk.scope.activity = .idle)
    (hresolved : desk.scope.resolved = .ok (parts, identifier))
    (hp : desk.stage.tree.parent? parts.trigger = some p)
    (h : desk.stage.tree.WellFormed) (hg : desk.stage.tree.contents? parts.template = some g)
    (hgrounded : desk.stage.tree.GroundedFrom g) (equipment : Equipment σ)
    (data : List (String × String)) :
    Attempted equipment g data identifier p (some parts.trigger) desk
      (exec (handleData equipment data) desk) := by
  obtain ⟨holder, hholder, hholds⟩ := h.holder_of_parent hp
  have hcan : canGain desk.stage.tree g p = sequencesReady desk.stage.tree g := by
    rw [canGain, hholder, Option.any_some, hholds, Bool.and_true]
  rw [Attempted, hcan]
  rcases exec_handleData_cases desk hidle hresolved h hg hgrounded equipment data with
    ⟨hnone, -⟩ | ⟨hready, t', hrun, hend⟩ | ⟨hready, p', desk', hp', hrun, hgains⟩
  · rw [hp] at hnone
    cases hnone
  · rw [hready, if_neg (by simp), hrun]
    exact ⟨⟨_, rfl⟩, t', rfl, hend⟩
  · rw [hp] at hp'
    cases hp'
    rw [if_pos hready, hrun]
    exact ⟨rfl, hgains⟩

end Scope

end Repeater
