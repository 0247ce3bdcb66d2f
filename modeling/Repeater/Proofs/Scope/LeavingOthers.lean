/-
  Repeater/Proofs/Scope/LeavingOthers.lean
  ========================================
  **What the flows of a scope leave to the others.**

  The listeners of all scopes are in one registry, from which a start and a deletion take listeners
  out. A flow only ever adds listeners of its own scope, and what a start takes out is of its own
  scope as well, so that the listeners of the others keep their order (`others_start`). Hooks do not
  matter: they may do anything to the tree and fail at any point, but they have no way to reach the
  registry or the record of a scope. A deletion that gets as far as taking its item out takes the
  listeners for the item with it, whosever they are (`handleDelete_listeners`).
-/
import Repeater.Proofs.Scope.Removing
import Repeater.Proofs.Scope.Starting

namespace Repeater

open Dom Hook Stamp Tree

variable {σ α : Type}

/-- The listeners of all scopes but one, in their order. -/
def Listeners.besides (n : Nat) (ls : Listeners Action) : List (Listener Action) :=
  ls.entries.filter fun l => l.handler.scope ≠ n

namespace Listeners

variable {n : Nat} {ls : Listeners Action}

theorem besides_add {action : Action} (haction : action.scope = n) (ls : Listeners Action)
    (target : NodeId) (kind : EventKind) :
    (ls.add target kind action).besides n = ls.besides n := by
  unfold besides add
  rw [List.filter_append]
  simp [haction]

theorem besides_retain {keep : Action → Bool}
    (hkeep : ∀ action : Action, action.scope ≠ n → keep action = true) (ls : Listeners Action) :
    (ls.retain keep).besides n = ls.besides n := by
  unfold besides retain
  dsimp only
  rw [List.filter_filter]
  apply List.filter_congr
  intro l _
  by_cases hn : l.handler.scope = n
  · simp [hn]
  · simp [hn, hkeep _ hn]

theorem besides_without (n : Nat) (item : NodeId) (ls : Listeners Action) :
    (Scope.without item ls).besides n =
      (ls.besides n).filter fun l => l.handler.deletes? ≠ some item := by
  unfold besides Scope.without retain
  dsimp only
  rw [List.filter_filter, List.filter_filter]
  apply List.filter_congr
  intro l _
  rw [Bool.and_comm]
  congr 1
  rw [Bool.eq_iff_iff]
  simp

end Listeners

/-! ## Flows that leave the others alone -/

/-- A flow of the scope `n` has kept its number, and the listeners of all other scopes. -/
def Desk.LeavesOthers (n : Nat) (desk desk' : Desk σ) : Prop :=
  desk.scope.number = n →
    desk'.scope.number = n ∧ desk'.scope.activity = desk.scope.activity ∧
      desk'.listeners.besides n = desk.listeners.besides n

instance {n : Nat} : IsPreorder (Desk σ) (Desk.LeavesOthers n) where
  refl _ := fun hn => ⟨hn, rfl, rfl⟩
  trans _ _ _ := fun h h' hn =>
    have ⟨hn₁, hactivity₁, hlisteners₁⟩ := h hn
    have ⟨hn₂, hactivity₂, hlisteners₂⟩ := h' hn₁
    ⟨hn₂, hactivity₂.trans hactivity₁, hlisteners₂.trans hlisteners₁⟩

namespace Flow

variable {n : Nat}

theorem others_act (step : Act Error σ α) : Keeps (Desk.LeavesOthers n) (Flow.act step) :=
  fun _ hn => ⟨hn, rfl, rfl⟩

theorem others_stamp (stamping : Stamping α) :
    Keeps (Desk.LeavesOthers n) (Flow.stamp stamping : Flow σ α) := fun _ hn => ⟨hn, rfl, rfl⟩

theorem others_edit (change : Edit α) : Keeps (Desk.LeavesOthers n) (Flow.edit change : Flow σ α) :=
  others_stamp _

theorem others_tree : Keeps (Desk.LeavesOthers n) (Flow.tree : Flow σ Tree) :=
  fun _ hn => ⟨hn, rfl, rfl⟩

theorem others_updateScope {f : Scope σ → Scope σ}
    (hnumber : ∀ scope, (f scope).number = scope.number)
    (hactivity : ∀ scope, (f scope).activity = scope.activity) :
    Keeps (Desk.LeavesOthers n) (Flow.updateScope f) := by
  intro desk hn
  rw [Flow.exec_updateScope]
  exact ⟨(hnumber _).trans hn, hactivity _, rfl⟩

theorem others_updateListeners {f : Listeners Action → Listeners Action}
    (hf : ∀ ls, (f ls).besides n = ls.besides n) :
    Keeps (Desk.LeavesOthers n) (Flow.updateListeners f : Flow σ Unit) := by
  intro desk hn
  rw [Flow.exec_updateListeners]
  exact ⟨hn, rfl, hf _⟩

theorem others_during {activity : Activity} {flow : Flow σ α}
    (h : Keeps (Desk.LeavesOthers n) flow) :
    Keeps (Desk.LeavesOthers n) (Flow.during activity flow) := by
  intro desk hn
  by_cases hidle : desk.scope.activity = .idle
  · obtain ⟨hnumber, -, hlisteners⟩ := h (desk.doing activity) hn
    rw [Flow.exec_during hidle]
    exact ⟨hnumber, hidle.symm, hlisteners⟩
  · have hbusy : exec (Flow.during activity flow) desk =
        (.error (.busy desk.scope.activity.name), desk) := if_neg hidle
    rw [hbusy]
    exact ⟨hn, rfl, rfl⟩

end Flow

namespace Scope

variable {n : Nat} {equipment : Equipment σ}

theorem others_runHooks (phase : Phase) (program : Option Program) (occasion : Occasion) :
    Keeps (Desk.LeavesOthers n) (runHooks equipment phase program occasion) := by
  intro desk
  rw [exec_runHooks]
  refine Keeps.bind ?_ (fun _ => ?_) desk
  · cases program with
    | none => exact Keeps.pure _
    | some program => exact Flow.others_act _
  · rcases desk.scope.routines.on phase with _ | routine
    · exact Keeps.pure _
    · exact Flow.others_act _

theorem others_wireDelete (item : NodeId) :
    Keeps (Desk.LeavesOthers n) (wireDelete equipment item) := by
  intro desk hn
  rw [exec_wireDelete]
  refine ⟨hn, rfl, ?_⟩
  unfold wired
  split
  · rfl
  split
  · rfl
  split
  · have hown : (Action.delete desk.scope.number item).scope = n := hn
    exact Listeners.besides_add hown _ _ _
  · rfl

theorem others_wireAll (items : List NodeId) :
    Keeps (Desk.LeavesOthers n) (items.forM (wireDelete equipment)) :=
  Keeps.forM fun item _ => others_wireDelete item

theorem others_count (f : Nat → Nat) : Keeps (Desk.LeavesOthers n)
    (Flow.updateScope fun scope : Scope σ => { scope with counter := f scope.counter }) :=
  Flow.others_updateScope (fun _ => rfl) fun _ => rfl

/-! ## Additions -/

theorem others_addItem (parts : Parts) (identifier : String) (event : Event) :
    Keeps (Desk.LeavesOthers n) (addItem equipment parts identifier event) := by
  unfold addItem
  refine Keeps.bind Flow.others_tree fun t => ?_
  refine Keeps.bind (Keeps.ofExcept _) fun before => ?_
  refine Keeps.bind (Keeps.ofExcept _) fun after => ?_
  refine Keeps.get_bind fun desk => ?_
  refine Keeps.bind (Flow.others_stamp _) fun fragment => ?_
  refine Keeps.bind (Flow.others_stamp _) fun _ => ?_
  refine Keeps.bind Flow.others_tree fun t' => ?_
  refine Keeps.bind (others_runHooks _ _ _) fun _ => ?_
  refine Keeps.bind (Flow.others_edit _) fun _ => ?_
  refine Keeps.bind ?_ fun _ => Keeps.bind (others_wireAll _) fun _ => others_count _
  refine Keeps.tryCatch (others_runHooks _ _ _) fun failure => ?_
  refine Keeps.bind (Keeps.forM fun item _ => ?_) fun _ => Keeps.throw _
  exact Keeps.map _ (Flow.others_edit _)

theorem others_handleAdd (event : Event) :
    Keeps (Desk.LeavesOthers n) (handleAdd equipment event) := by
  refine Keeps.get_bind fun desk => ?_
  exact Keeps.bind (Keeps.ofExcept _) fun resolved => Flow.others_during (others_addItem _ _ _)

theorem others_addFilled (parts : Parts) (identifier : String) (data : List (String × String)) :
    Keeps (Desk.LeavesOthers n) (addFilled equipment parts identifier data) := by
  unfold addFilled
  refine Keeps.bind Flow.others_tree fun t => ?_
  split
  swap
  · exact Keeps.throw _
  refine Keeps.get_bind fun desk => ?_
  refine Keeps.bind (Flow.others_stamp _) fun fragment => ?_
  refine Keeps.bind (Flow.others_stamp _) fun _ => ?_
  refine Keeps.bind (Flow.others_stamp _) fun _ => ?_
  refine Keeps.bind Flow.others_tree fun t' => ?_
  refine Keeps.bind (Flow.others_edit _) fun _ => ?_
  exact Keeps.bind (others_wireAll _) fun _ => others_count _

theorem others_handleData (data : List (String × String)) :
    Keeps (Desk.LeavesOthers n) (handleData equipment data) := by
  refine Keeps.get_bind fun desk => ?_
  exact Keeps.bind (Keeps.ofExcept _) fun resolved => Flow.others_during (others_addFilled _ _ _)

/-! ## Starts -/

theorem others_takeIn (identifier : String) (item : NodeId) :
    Keeps (Desk.LeavesOthers n) (takeIn identifier item : Flow σ Unit) := by
  refine Keeps.get_bind fun desk => ?_
  refine Keeps.bind (Flow.others_stamp _) fun _ => ?_
  exact Keeps.bind (Flow.others_stamp _) fun _ => others_count fun _ => _

/-- Listeners of other scopes outlive a start. -/
theorem outlivesStart_of_other {action : Action} (haction : action.scope ≠ n) (t : Tree)
    (container : NodeId) : outlivesStart t n container action = true := by
  cases action with
  | add owner => simpa [outlivesStart, Action.scope] using haction
  | delete owner item => simp [outlivesStart, show owner ≠ n from haction]

theorem others_conclude (root : NodeId) (identifier : String) (parts : Parts)
    (items : List NodeId) :
    Keeps (Desk.LeavesOthers n) (conclude equipment n root identifier parts items) := by
  have hown : (Action.add n).scope = n := rfl
  unfold conclude
  refine Keeps.bind (others_wireAll _) fun _ => ?_
  refine Keeps.bind (Flow.others_updateListeners fun ls => Listeners.besides_add hown ls _ _)
    fun _ => ?_
  refine Keeps.bind (Flow.others_edit _) fun _ => ?_
  refine Keeps.bind (Flow.others_updateScope (fun _ => rfl) fun _ => rfl) fun _ => ?_
  refine Keeps.bind (Flow.others_act _) fun _ => ?_
  intro desk hn
  obtain ⟨hscope, hlisteners⟩ := frame_runAfterStart equipment parts items desk
  rw [hscope, hlisteners]
  exact ⟨hn, rfl, rfl⟩

theorem others_start : Keeps (Desk.LeavesOthers n) (start equipment) := by
  intro desk hn
  rw [exec_start_eq]
  split
  · exact ⟨hn, rfl, rfl⟩
  next identifier parts _ =>
  split
  swap
  · exact ⟨hn, rfl, rfl⟩
  have hestablish : Keeps (Desk.LeavesOthers n)
      (establish equipment desk.stage.tree desk.scope identifier parts) := by
    unfold establish
    rw [hn]
    refine Keeps.bind (Flow.others_updateListeners fun ls => Listeners.besides_retain
      (fun action haction => outlivesStart_of_other haction _ _) ls) fun _ => ?_
    refine Keeps.bind (Flow.others_updateScope (fun _ => rfl) fun _ => rfl) fun _ => ?_
    exact Keeps.bind (Keeps.forM fun item _ => others_takeIn identifier item)
      fun _ => others_conclude _ _ _ _
  exact hestablish desk hn

/-! ## Deletions -/

/-- A deletion gets as far as taking the item out: the control is accepted, the host says yes, the
    code of both hooks compiles, the hooks before go through, and the item is still there. -/
def TakesOut (equipment : Equipment σ) (event : Event) (item : NodeId) (desk : Desk σ) : Prop :=
  let control := event.current.getD event.target
  let asked := (answer equipment control desk).2.doing .deleting
  ∃ parts identifier before after desk₁, desk.scope.resolved = .ok (parts, identifier) ∧
    accepted equipment desk.stage.tree control = true ∧
    (answer equipment control desk).1 = true ∧
    compileHook desk.stage.tree control .preDelete = .ok before ∧
    compileHook desk.stage.tree control .postDelete = .ok after ∧
    exec (runHooks equipment .preDelete before ⟨parts, [item], event⟩) asked = (.ok (), desk₁) ∧
    desk₁.stage.tree.Has item

/-- Hooks change nothing but the stage. -/
theorem frame_runHooks (equipment : Equipment σ) (phase : Phase) (program : Option Program)
    (occasion : Occasion) (desk : Desk σ) :
    (exec (runHooks equipment phase program occasion) desk).2.scope = desk.scope ∧
      (exec (runHooks equipment phase program occasion) desk).2.listeners = desk.listeners := by
  have : IsPreorder (Stage σ) fun _ _ => True :=
    { refl := fun _ => trivial, trans := fun _ _ _ _ _ => trivial }
  have hstaged : desk.StagedBy (fun _ _ => True)
      (exec (runHooks equipment phase program occasion) desk).2 :=
    stagedBy_runHooks desk phase program occasion rfl (fun _ _ _ => trivial) fun _ _ _ => trivial
  exact ⟨hstaged.scope, hstaged.listeners⟩

/-- The hooks, the removal and the hooks again leave the scope alone, and of the listeners those for
    the item are gone if the removal has taken place. -/
theorem removal_listeners (equipment : Equipment σ) (parts : Parts) (event : Event) (item : NodeId)
    (desk : Desk σ) (before after : Option Program) :
    let occasion : Occasion := ⟨parts, [item], event⟩
    let desk' := (exec (do
      runHooks equipment .preDelete before occasion
      removeItem item
      runHooks equipment .postDelete after occasion) desk).2
    desk'.scope = desk.scope ∧
      ((∃ desk₁, exec (runHooks equipment .preDelete before occasion) desk = (.ok (), desk₁) ∧
          desk₁.stage.tree.Has item) ∧ desk'.listeners = without item desk.listeners ∨
        (¬ ∃ desk₁, exec (runHooks equipment .preDelete before occasion) desk = (.ok (), desk₁) ∧
          desk₁.stage.tree.Has item) ∧ desk'.listeners = desk.listeners) := by
  intro occasion
  obtain ⟨hscope, hlisteners⟩ := frame_runHooks equipment .preDelete before occasion desk
  rcases hrun : exec (runHooks equipment .preDelete before occasion) desk with ⟨e | _, desk₁⟩
  all_goals rw [hrun] at hscope hlisteners
  · rw [exec_bind_error hrun]
    refine ⟨hscope, .inr ⟨?_, hlisteners⟩⟩
    rintro ⟨desk₂, hgoes, -⟩
    cases hgoes
  rw [exec_bind_ok hrun]
  by_cases hitem : desk₁.stage.tree.Has item
  · rw [exec_bind_ok (exec_removeItem hitem)]
    obtain ⟨hscope₂, hlisteners₂⟩ := frame_runHooks equipment .postDelete after occasion
      { desk₁.withTree (desk₁.stage.tree.detach item) with
        listeners := without item desk₁.listeners }
    exact ⟨hscope₂.trans hscope,
      .inl ⟨⟨desk₁, rfl, hitem⟩, hlisteners₂.trans (congrArg (without item) hlisteners)⟩⟩
  · have hnone : desk₁.stage.tree.get? item = none := by
      unfold Has at hitem
      simpa using hitem
    have hrefused : ∃ e, exec (removeItem item) desk₁ = (.error e, desk₁) := by
      refine ⟨.dom (.notFound item), exec_bind_error ?_⟩
      rw [Flow.exec_edit]
      unfold Edit.remove
      rw [exec_get_bind, hnone]
      rfl
    obtain ⟨e, hrefused⟩ := hrefused
    rw [exec_bind_error hrefused]
    refine ⟨hscope, .inr ⟨?_, hlisteners⟩⟩
    rintro ⟨desk₂, hgoes, hhas⟩
    cases hgoes
    exact hitem hhas

/-- A deletion leaves its scope alone, and of the listeners those for the item are gone if it has
    taken the item out. -/
theorem handleDelete_listeners (equipment : Equipment σ) (desk : Desk σ)
    (hidle : desk.scope.activity = .idle) (event : Event) (item : NodeId) :
    let desk' := (exec (handleDelete equipment event item) desk).2
    desk'.scope = desk.scope ∧
      (TakesOut equipment event item desk ∧ desk'.listeners = without item desk.listeners ∨
        ¬ TakesOut equipment event item desk ∧ desk'.listeners = desk.listeners) := by
  intro desk'
  unfold desk'
  rcases hresolved : desk.scope.resolved with e | ⟨parts, identifier⟩
  · have hrun : exec (handleDelete equipment event item) desk = (.error e, desk) := by
      unfold handleDelete
      rw [exec_get_bind, hresolved]
      exact exec_bind_error (exec_ofExcept _ _)
    rw [hrun]
    refine ⟨rfl, .inr ⟨?_, rfl⟩⟩
    rintro ⟨_, _, _, _, _, hok, -⟩
    cases hresolved.symm.trans hok
  rcases haccepted : accepted equipment desk.stage.tree (event.current.getD event.target) with _ | _
  · rw [exec_handleDelete_refused hresolved haccepted]
    refine ⟨rfl, .inr ⟨?_, rfl⟩⟩
    rintro ⟨-, -, -, -, -, -, hyes, -⟩
    cases haccepted.symm.trans hyes
  rw [exec_handleDelete_asked hidle hresolved haccepted]
  rcases hanswer : (answer equipment (event.current.getD event.target) desk).1 with _ | _
  · refine ⟨?_, .inr ⟨?_, ?_⟩⟩
    · simp only [hanswer]
      rfl
    · rintro ⟨-, -, -, -, -, -, -, hyes, -⟩
      cases hanswer.symm.trans hyes
    · simp only [hanswer]
      rfl
  simp only [hanswer, if_true]
  generalize hasked : (answer equipment (event.current.getD event.target) desk).2.doing .deleting =
    asked
  have htree : asked.stage.tree = desk.stage.tree := by rw [← hasked]; rfl
  have hlisteners : asked.listeners = desk.listeners := by rw [← hasked]; rfl
  have hback : { asked.scope with activity := .idle } = desk.scope := by
    rw [← hasked]
    exact congrArg Desk.scope (doing_idle hidle .deleting)
  rcases exec_deleteItem_cases equipment parts (event.current.getD event.target) item event asked
    with
    ⟨phase, hphase, e, he, hrun⟩ | ⟨before, after, hbefore, hafter, hrun⟩
  · rw [hrun]
    refine ⟨hback, .inr ⟨?_, hlisteners⟩⟩
    rintro ⟨-, -, before, after, -, -, -, -, hbefore, hafter, -⟩
    rw [htree] at he
    simp only [List.mem_cons, List.not_mem_nil, or_false] at hphase
    rcases hphase with rfl | rfl
    · cases hbefore.symm.trans he
    · cases hafter.symm.trans he
  rw [hrun]
  obtain ⟨hscope, hend⟩ := removal_listeners equipment parts event item asked before after
  refine ⟨?_, ?_⟩
  · exact (congrArg (fun scope : Scope σ => { scope with activity := .idle }) hscope).trans hback
  · rw [htree] at hbefore hafter
    refine hend.imp ?_ ?_
    · rintro ⟨⟨desk₁, hgoes, hhas⟩, hwithout⟩
      rw [← hasked] at hgoes
      exact ⟨⟨parts, identifier, before, after, desk₁, hresolved, haccepted, hanswer, hbefore,
        hafter, hgoes, hhas⟩, hwithout.trans (congrArg (without item) hlisteners)⟩
    · rintro ⟨hnot, hsame⟩
      refine ⟨?_, hsame.trans hlisteners⟩
      rintro ⟨parts', identifier', before', after', desk₁, hresolved', -, -, hbefore', -, hgoes,
        hhas⟩
      cases hresolved.symm.trans hresolved'
      cases hbefore.symm.trans hbefore'
      rw [hasked] at hgoes
      exact hnot ⟨desk₁, hgoes, hhas⟩

end Scope

end Repeater
