/-
  Repeater/Proofs/Scope/Removing.lean
  ===================================
  **Deletions with hooks that leave the tree alone.**

  A click on a delete control is refused when the tag of the control is not accepted. Else the host
  is asked, and when it says yes, code that does not compile or a hook before the deletion may still
  stop the deletion (`Stopped`). In all these cases the tree, the listeners and the scope stay as
  they were. What is not stopped takes the item out together with its listeners, whatever the hooks
  after the deletion do (`StillHooks.exec_deleteItem`). The flow itself asks one question, right at
  the start, and no other as long as the hooks ask none (`SilentHooks.exec_handleDelete`).
-/
import Repeater.Proofs.Scope.Deleting
import Repeater.Proofs.Scope.Inserting

namespace Repeater

open Dom Hook Tree

variable {σ : Type}

/-! ## Questions -/

/-- Reads off the world outside which questions the host has been asked, the latest last. -/
structure Host.Records (host : Host σ) (asked : Outside σ → List String) : Prop where
  confirm : ∀ question out, asked ((host.confirm question).run out).2 = asked out ++ [question]
  alert : ∀ message out, asked ((host.alert message).run out).2 = asked out
  write : ∀ line out, asked (out.write line) = asked out

theorem Host.records_scripted :
    Host.scripted.Records fun out => out.state.confirms.toList where
  confirm _ _ := Array.toList_push
  alert _ _ := rfl
  write _ _ := rfl

/-- No question has been asked from one stage to the next. -/
def Unasked (asked : Outside σ → List String) (before after : Stage σ) : Prop :=
  asked after.outside = asked before.outside

instance {asked : Outside σ → List String} : IsPreorder (Stage σ) (Unasked asked) where
  refl _ := rfl
  trans _ _ _ := fun h h' => Eq.trans h' h

namespace Scope

variable {equipment : Equipment σ} {desk desk' : Desk σ} {parts : Parts} {identifier : String}
  {control item : NodeId} {event : Event} {asked : Outside σ → List String}

/-- The registered hooks of a scope and the callbacks ask the host nothing by themselves. -/
structure SilentHooks (equipment : Equipment σ) (scope : Scope σ)
    (asked : Outside σ → List String) : Prop where
  routines : ∀ phase routine, scope.routines.on phase = some routine →
    ∀ context, Keeps (Unasked asked) (routine context)
  callbacks : ∀ entry ∈ equipment.callbacks.entries,
    ∀ context values, Keeps (Unasked asked) (entry.2 context values)

/-- Hook code cannot ask the host, so that hooks ask nothing if the registered ones do not. -/
theorem SilentHooks.unasked_runHooks (hsilent : SilentHooks equipment desk.scope asked)
    (hrecords : equipment.host.Records asked) (phase : Phase) (program : Option Program)
    (occasion : Occasion) :
    desk.StagedBy (Unasked asked) (exec (runHooks equipment phase program occasion) desk).2 := by
  apply stagedBy_runHooks desk phase program occasion rfl
  · intro p _
    apply Program.keeps_run
    intro s _ values
    apply Callee.keeps_call
    · exact fun message stage => hrecords.alert message stage.outside
    · exact fun line stage => hrecords.write line stage.outside
    · exact hsilent.callbacks
    · exact fun _ _ _ _ _ _ => rfl
  · exact fun routine hroutine => hsilent.routines phase routine hroutine _

/-! ## The part after the question -/

/-- Takes an item out of the tree, together with its listeners. -/
def removeItem (item : NodeId) : Flow σ Unit := do
  let _ ← Flow.edit (Edit.remove item)
  Flow.updateListeners (without item)

/-- Code that does not compile ends a deletion before it has done anything. Else the deletion is made
    of the hooks before, the removal and the hooks after. -/
theorem exec_deleteItem_cases (equipment : Equipment σ) (parts : Parts) (control item : NodeId)
    (event : Event) (desk : Desk σ) :
    (∃ phase ∈ [Phase.preDelete, .postDelete], ∃ e,
      compileHook desk.stage.tree control phase = .error e ∧
        exec (deleteItem equipment parts control item event) desk = (.error e, desk)) ∨
    ∃ before after, compileHook desk.stage.tree control .preDelete = .ok before ∧
      compileHook desk.stage.tree control .postDelete = .ok after ∧
      exec (deleteItem equipment parts control item event) desk = exec (do
        runHooks equipment .preDelete before { parts, items := [item], event }
        removeItem item
        runHooks equipment .postDelete after { parts, items := [item], event }) desk := by
  unfold deleteItem removeItem
  rw [Flow.exec_tree_bind]
  rcases hbefore : compileHook desk.stage.tree control .preDelete with e | before
  · exact .inl ⟨.preDelete, by simp, e, hbefore, rfl⟩
  rcases hafter : compileHook desk.stage.tree control .postDelete with e | after
  · exact .inl ⟨.postDelete, by simp, e, hafter, rfl⟩
  refine .inr ⟨before, after, rfl, rfl, ?_⟩
  rw [exec_bind_ok (exec_ofExcept _ _), exec_bind_ok (exec_ofExcept _ _)]
  simp only [bind_assoc]
  rfl

theorem exec_removeItem (h : desk.stage.tree.Has item) :
    exec (removeItem item) desk = (.ok ⟨⟩, { desk.withTree (desk.stage.tree.detach item) with
      listeners := without item desk.listeners }) := by
  unfold removeItem
  rw [exec_bind_ok (Flow.exec_edit_ok (Edit.exec_remove h)), Flow.exec_updateListeners]
  rfl

theorem removeItem_frame (item : NodeId) (desk : Desk σ) :
    (exec (removeItem item) desk).2.scope = desk.scope ∧
      (exec (removeItem item) desk).2.stage.outside = desk.stage.outside := by
  unfold removeItem
  rcases exec_remove_cases item desk with ⟨e, hedit⟩ | hedit
  · rw [exec_bind_error hedit]
    exact ⟨rfl, rfl⟩
  · rw [exec_bind_ok hedit]
    exact ⟨rfl, rfl⟩

/-- What ends a deletion before the item is taken out, though the host has said yes: code that does
    not compile, or a hook before the deletion. -/
inductive Stopped (equipment : Equipment σ) (parts : Parts) (control item : NodeId) (event : Event)
    (desk : Desk σ) : Prop
  | code {phase : Phase} {e : Error} (hphase : phase = .preDelete ∨ phase = .postDelete) :
    compileHook desk.stage.tree control phase = .error e → Stopped equipment parts control item event desk
  | hook {before : Option Program} {e : Error} :
    compileHook desk.stage.tree control .preDelete = .ok before →
    (exec (runHooks equipment .preDelete before { parts, items := [item], event }) desk).1 = .error e →
    Stopped equipment parts control item event desk

theorem not_stopped {before after : Option Program}
    (hbefore : compileHook desk.stage.tree control .preDelete = .ok before)
    (hafter : compileHook desk.stage.tree control .postDelete = .ok after)
    (hgoes : (exec (runHooks equipment .preDelete before { parts, items := [item], event }) desk).1 =
      .ok ()) : ¬ Stopped equipment parts control item event desk := by
  rintro (⟨rfl | rfl, he⟩ | ⟨hbefore', he⟩)
  · cases hbefore.symm.trans he
  · cases hafter.symm.trans he
  · cases hbefore.symm.trans hbefore'
    cases hgoes.symm.trans he

/-- The two ends of a deletion. -/
theorem StillHooks.exec_deleteItem (hstill : StillHooks equipment desk.scope desk.stage.tree control)
    (hitem : desk.stage.tree.Has item) (parts : Parts) (event : Event) :
    ∃ result desk', exec (deleteItem equipment parts control item event) desk = (result, desk') ∧
      desk'.scope = desk.scope ∧
      (Stopped equipment parts control item event desk ∧ (∃ e, result = .error e) ∧
          desk'.stage.tree = desk.stage.tree ∧ desk'.listeners = desk.listeners ∨
        ¬ Stopped equipment parts control item event desk ∧
          desk'.stage.tree = desk.stage.tree.detach item ∧
          desk'.listeners = without item desk.listeners) := by
  rcases exec_deleteItem_cases equipment parts control item event desk with
    ⟨phase, hphase, e, he, hrun⟩ | ⟨before, after, hbefore, hafter, hrun⟩
  · exact ⟨_, desk, hrun, rfl, .inl ⟨.code (by simpa using hphase) he, ⟨e, rfl⟩, rfl, rfl⟩⟩
  rw [hrun]
  have hfirst := staged_runHooks desk .preDelete before ⟨parts, [item], event⟩
    (fun program hprogram => hstill.code .preDelete program (hbefore.trans (congrArg _ hprogram)))
    hstill.routines
  rcases hrun₁ : exec (runHooks equipment .preDelete before ⟨parts, [item], event⟩) desk
    with ⟨e | _, desk₁⟩
  all_goals rw [hrun₁] at hfirst
  · exact ⟨_, desk₁, exec_bind_error hrun₁, hfirst.scope,
      .inl ⟨.hook hbefore (congrArg Prod.fst hrun₁), ⟨e, rfl⟩, hfirst.tree.symm, hfirst.listeners⟩⟩
  have hgoes : ¬ Stopped equipment parts control item event desk :=
    not_stopped hbefore hafter (congrArg Prod.fst hrun₁)
  rw [exec_bind_ok hrun₁, exec_bind_ok (exec_removeItem (hfirst.tree ▸ hitem))]
  generalize hdesk₂ : ({ desk₁.withTree (desk₁.stage.tree.detach item) with
    listeners := without item desk₁.listeners } : Desk σ) = desk₂
  have hscope₂ : desk₂.scope = desk.scope := by
    rw [← hdesk₂]
    exact hfirst.scope
  have hlast := staged_runHooks desk₂ .postDelete after ⟨parts, [item], event⟩
    (fun program hprogram => hstill.code .postDelete program (hafter.trans (congrArg _ hprogram)))
    (hscope₂ ▸ hstill.routines)
  rcases hrun₃ : exec (runHooks equipment .postDelete after ⟨parts, [item], event⟩) desk₂
    with ⟨result, desk₃⟩
  rw [hrun₃] at hlast
  refine ⟨result, desk₃, rfl, hlast.scope.trans hscope₂, .inr ⟨hgoes, ?_, ?_⟩⟩
  · rw [← hlast.tree, ← hdesk₂, hfirst.tree]
    rfl
  · rw [hlast.listeners, ← hdesk₂, ← hfirst.listeners]

theorem SilentHooks.exec_deleteItem (hsilent : SilentHooks equipment desk.scope asked)
    (hrecords : equipment.host.Records asked) (parts : Parts) (control item : NodeId)
    (event : Event) :
    asked (exec (deleteItem equipment parts control item event) desk).2.stage.outside =
      asked desk.stage.outside := by
  rcases exec_deleteItem_cases equipment parts control item event desk with
    ⟨phase, hphase, e, he, hrun⟩ | ⟨before, after, hbefore, hafter, hrun⟩
  · rw [hrun]
  rw [hrun]
  have hfirst := hsilent.unasked_runHooks hrecords .preDelete before ⟨parts, [item], event⟩
  rcases hrun₁ : exec (runHooks equipment .preDelete before ⟨parts, [item], event⟩) desk
    with ⟨e | _, desk₁⟩
  all_goals rw [hrun₁] at hfirst
  · rw [exec_bind_error hrun₁]
    exact hfirst.stage
  rw [exec_bind_ok hrun₁]
  obtain ⟨hscope, houtside⟩ := removeItem_frame item desk₁
  rcases hrun₂ : exec (removeItem item) desk₁ with ⟨e | _, desk₂⟩
  all_goals rw [hrun₂] at hscope houtside
  · rw [exec_bind_error hrun₂]
    exact (congrArg asked houtside).trans hfirst.stage
  rw [exec_bind_ok hrun₂]
  have hsilent₂ : SilentHooks equipment desk₂.scope asked := hscope.trans hfirst.scope ▸ hsilent
  have hlast := hsilent₂.unasked_runHooks hrecords .postDelete after ⟨parts, [item], event⟩
  exact hlast.stage.trans ((congrArg asked houtside).trans hfirst.stage)

/-! ## The whole flow -/

/-- Whether the tag of a control is accepted. -/
def accepted (equipment : Equipment σ) (t : Tree) (control : NodeId) : Bool :=
  equipment.config.isControl ((t.tag? control).getD "")

/-- What the host is asked before an item is deleted. -/
def question (equipment : Equipment σ) (t : Tree) (control : NodeId) : String :=
  equipment.config.confirmMessage (controlLabel equipment.config t control)

/-- The answer of the host to a question, and the desk after it. -/
def answer (equipment : Equipment σ) (control : NodeId) (desk : Desk σ) : Bool × Desk σ :=
  let (yes, outside) :=
    (equipment.host.confirm (question equipment desk.stage.tree control)).run desk.stage.outside
  (yes, { desk with stage := { desk.stage with outside } })

theorem tree_answer (equipment : Equipment σ) (control : NodeId) (desk : Desk σ) :
    ((answer equipment control desk).2.doing .deleting).stage.tree = desk.stage.tree := rfl

theorem exec_answer (equipment : Equipment σ) (control : NodeId) (desk : Desk σ) :
    exec (Flow.act (Act.talk (equipment.host.confirm
        (question equipment desk.stage.tree control))) : Flow σ Bool) desk =
      (.ok (answer equipment control desk).1, (answer equipment control desk).2) := rfl

theorem exec_handleDelete_refused (hresolved : desk.scope.resolved = .ok (parts, identifier))
    (hrefused : accepted equipment desk.stage.tree (event.current.getD event.target) = false)
    (item : NodeId) :
    exec (handleDelete equipment event item) desk =
      (.error (.invalidElement (.notAControl equipment.config.controlTags
        ((desk.stage.tree.tag? (event.current.getD event.target)).getD ""))), desk) := by
  unfold accepted at hrefused
  unfold handleDelete
  rw [exec_get_bind, hresolved, exec_bind_ok (exec_ofExcept _ _)]
  dsimp only
  rw [Flow.exec_tree_bind]
  simp only [hrefused]
  rfl

/-- The question comes first, and nothing happens without a yes. -/
theorem exec_handleDelete_asked (hidle : desk.scope.activity = .idle)
    (hresolved : desk.scope.resolved = .ok (parts, identifier))
    (haccepted : accepted equipment desk.stage.tree (event.current.getD event.target) = true)
    (item : NodeId) :
    exec (handleDelete equipment event item) desk =
      let (yes, desk₁) := answer equipment (event.current.getD event.target) desk
      if yes then
        let (result, desk₂) := exec (deleteItem equipment parts (event.current.getD event.target)
          item event) (desk₁.doing .deleting)
        (result, desk₂.doing .idle)
      else (.ok (), desk₁) := by
  unfold accepted at haccepted
  unfold handleDelete
  rw [exec_get_bind, hresolved, exec_bind_ok (exec_ofExcept _ _)]
  dsimp only
  rw [Flow.exec_tree_bind]
  simp only [haccepted, if_true]
  refine (exec_bind_ok (exec_answer equipment _ desk)).trans ?_
  split
  · exact Flow.exec_during (by exact hidle) .deleting _
  · rfl

/-- The ends of a deletion whose control is accepted. -/
theorem StillHooks.exec_handleDelete_ends (hidle : desk.scope.activity = .idle)
    (hresolved : desk.scope.resolved = .ok (parts, identifier))
    (hstill : StillHooks equipment desk.scope desk.stage.tree control)
    (hcontrol : event.current.getD event.target = control)
    (haccepted : accepted equipment desk.stage.tree control = true)
    (hitem : desk.stage.tree.Has item) :
    let yes := (answer equipment control desk).1
    let asked := (answer equipment control desk).2.doing .deleting
    ∃ result desk', exec (handleDelete equipment event item) desk = (result, desk') ∧
      desk'.scope = desk.scope ∧
      ((yes = false ∨ Stopped equipment parts control item event asked) ∧
          desk'.stage.tree = desk.stage.tree ∧ desk'.listeners = desk.listeners ∨
        ¬ (yes = false ∨ Stopped equipment parts control item event asked) ∧
          desk'.stage.tree = desk.stage.tree.detach item ∧
          desk'.listeners = without item desk.listeners) := by
  subst hcontrol
  have hrun := exec_handleDelete_asked hidle hresolved haccepted item
  -- the question changes nothing but the world outside
  have hscope : (answer equipment (event.current.getD event.target) desk).2.scope = desk.scope := rfl
  have htree : (answer equipment (event.current.getD event.target) desk).2.stage.tree =
      desk.stage.tree := rfl
  have hlisteners : (answer equipment (event.current.getD event.target) desk).2.listeners =
      desk.listeners := rfl
  obtain ⟨yes, asked, hanswer⟩ : ∃ yes asked,
      answer equipment (event.current.getD event.target) desk = (yes, asked) := ⟨_, _, rfl⟩
  rw [hanswer] at hrun hscope htree hlisteners ⊢
  dsimp only at hrun hscope htree hlisteners ⊢
  rw [hrun]
  cases yes with
  | false => exact ⟨_, asked, rfl, hscope, .inl ⟨.inl rfl, htree, hlisteners⟩⟩
  | true =>
    have hstill' : StillHooks equipment (asked.doing .deleting).scope
        (asked.doing .deleting).stage.tree (event.current.getD event.target) := by
      refine ⟨?_, ?_⟩
      · show asked.scope.routines.Within Eq
        rw [hscope]
        exact hstill.routines
      · show ∀ phase program, compileHook asked.stage.tree _ phase = _ → _
        rw [htree]
        exact hstill.code
    obtain ⟨result, desk₂, hrun₂, hscope₂, hend⟩ :=
      hstill'.exec_deleteItem (by exact htree ▸ hitem) parts event
    rw [if_pos rfl, hrun₂]
    refine ⟨result, desk₂.doing .idle, rfl, ?_, ?_⟩
    · show { desk₂.scope with activity := .idle } = desk.scope
      rw [hscope₂, ← hscope]
      exact congrArg Desk.scope (doing_idle (by rw [hscope]; exact hidle) .deleting)
    · rcases hend with ⟨hstopped, -, hend⟩ | ⟨hgoes, hgone, hwithout⟩
      · exact .inl ⟨.inr hstopped, hend.1.trans htree, hend.2.trans hlisteners⟩
      · refine .inr ⟨by simpa using hgoes, ?_, ?_⟩
        · exact hgone.trans (congrArg (·.detach item) htree)
        · exact hwithout.trans (congrArg (without item) hlisteners)

/-- A flow that deletes asks one question, and the hooks add none. -/
theorem SilentHooks.exec_handleDelete (hidle : desk.scope.activity = .idle)
    (hresolved : desk.scope.resolved = .ok (parts, identifier))
    (hsilent : SilentHooks equipment desk.scope asked) (hrecords : equipment.host.Records asked)
    (haccepted : accepted equipment desk.stage.tree (event.current.getD event.target) = true)
    (item : NodeId) :
    asked (exec (handleDelete equipment event item) desk).2.stage.outside =
      asked desk.stage.outside ++
        [question equipment desk.stage.tree (event.current.getD event.target)] := by
  have hanswer : asked (answer equipment (event.current.getD event.target) desk).2.stage.outside =
      asked desk.stage.outside ++
        [question equipment desk.stage.tree (event.current.getD event.target)] :=
    hrecords.confirm _ _
  rw [exec_handleDelete_asked hidle hresolved haccepted item, ← hanswer]
  dsimp only
  split
  · have hsilent' : SilentHooks equipment ((answer equipment (event.current.getD event.target)
        desk).2.doing .deleting).scope asked := ⟨hsilent.routines, hsilent.callbacks⟩
    exact hsilent'.exec_deleteItem hrecords parts _ item event
  · rfl

end Scope

end Repeater
