/-
  Repeater/Proofs/Scope/Flows.lean
  ================================
  **The parts that flows are made of.**

  A flow works on a desk: the scope, the stage and the listeners. The equations here run each kind
  of step. Hooks change nothing but the stage (`staged_runHooks`), and wiring delete controls never
  fails and only adds listeners, at most one for each item (`wireAll_entries`).
-/
import Repeater.Proofs.Hook.Effects
import Repeater.Proofs.Stamp.Drafts
import Repeater.Scope.Items

namespace Repeater

open Dom Hook Stamp Tree

variable {σ α : Type}

/-- The desk with another tree. -/
def Desk.withTree (desk : Desk σ) (tree : Tree) : Desk σ :=
  { desk with stage := { desk.stage with tree } }

namespace Flow

/-! ## Steps -/

theorem exec_act (step : Act Error σ α) (desk : Desk σ) :
    exec (Flow.act step) desk =
      ((exec step desk.stage).1, { desk with stage := (exec step desk.stage).2 }) := rfl

theorem exec_stamp {stamping : Stamping α} {desk : Desk σ} {result : Except Error α} {t' : Tree}
    (h : exec stamping desk.stage.tree = (result, t')) :
    exec (Flow.stamp stamping : Flow σ α) desk = (result, desk.withTree t') := by
  show ((exec stamping desk.stage.tree).1, desk.withTree (exec stamping desk.stage.tree).2) = _
  rw [h]

theorem exec_edit (change : Edit α) (desk : Desk σ) :
    exec (Flow.edit change : Flow σ α) desk =
      ((exec change desk.stage.tree).1.mapError Error.dom,
        desk.withTree (exec change desk.stage.tree).2) := rfl

theorem exec_edit_ok {change : Edit α} {desk : Desk σ} {a : α} {t' : Tree}
    (h : exec change desk.stage.tree = (.ok a, t')) :
    exec (Flow.edit change : Flow σ α) desk = (.ok a, desk.withTree t') := by
  rw [exec_edit, h]
  rfl

theorem exec_tree (desk : Desk σ) :
    exec (Flow.tree : Flow σ Tree) desk = (.ok desk.stage.tree, desk) := rfl

theorem exec_updateScope (f : Scope σ → Scope σ) (desk : Desk σ) :
    exec (Flow.updateScope f) desk = (.ok ⟨⟩, { desk with scope := f desk.scope }) := rfl

theorem exec_updateListeners (f : Listeners Action → Listeners Action) (desk : Desk σ) :
    exec (Flow.updateListeners f : Flow σ Unit) desk =
      (.ok ⟨⟩, { desk with listeners := f desk.listeners }) := rfl

theorem exec_tree_bind (next : Tree → Flow σ α) (desk : Desk σ) :
    exec (Flow.tree >>= next) desk = exec (next desk.stage.tree) desk :=
  exec_bind_ok (exec_tree desk)

end Flow

/-- The desk with the scope in an activity. -/
def Desk.doing (desk : Desk σ) (activity : Activity) : Desk σ :=
  { desk with scope := { desk.scope with activity } }

theorem Flow.exec_during {desk : Desk σ} (hidle : desk.scope.activity = .idle)
    (activity : Activity) (flow : Flow σ α) :
    exec (Flow.during activity flow) desk =
      ((exec flow (desk.doing activity)).1, (exec flow (desk.doing activity)).2.doing .idle) := by
  show (if desk.scope.activity = .idle then _ else _) = _
  rw [if_pos hidle]
  rfl

theorem Scope.doing_idle {desk : Desk σ} (hidle : desk.scope.activity = .idle)
    (activity : Activity) : (desk.doing activity).doing .idle = desk := by
  obtain ⟨⟨⟩, _, _⟩ := desk
  cases hidle
  rfl

/-! ## Hooks -/

/-- The second desk differs only in the stage, where the trees are related. -/
structure Desk.Staged (R : Tree → Tree → Prop) (desk desk' : Desk σ) : Prop where
  scope : desk'.scope = desk.scope
  listeners : desk'.listeners = desk.listeners
  tree : R desk.stage.tree desk'.stage.tree

/-- The second desk differs only in the stage, and the stages are related. -/
structure Desk.StagedBy (S : Stage σ → Stage σ → Prop) (desk desk' : Desk σ) : Prop where
  scope : desk'.scope = desk.scope
  listeners : desk'.listeners = desk.listeners
  stage : S desk.stage desk'.stage

instance {S : Stage σ → Stage σ → Prop} [IsPreorder (Stage σ) S] :
    IsPreorder (Desk σ) (Desk.StagedBy S) where
  refl desk := ⟨rfl, rfl, refl_of S desk.stage⟩
  trans _ _ _ := fun h h' =>
    ⟨h'.scope.trans h.scope, h'.listeners.trans h.listeners, trans_of S h.stage h'.stage⟩

theorem Flow.stagedBy_act {S : Stage σ → Stage σ → Prop} {step : Act Error σ α} (h : Keeps S step) :
    Keeps (Desk.StagedBy S) (Flow.act step) := fun desk => ⟨rfl, rfl, h desk.stage⟩

namespace Scope

/-- Runs hook code, if there is any. -/
def runCode (equipment : Equipment σ) (program : Option Program) (context : Context σ) :
    Flow σ Unit :=
  match program with
  | none => pure ()
  | some program => Flow.act (program.run ⟨context, equipment.callbacks, context.arguments⟩)

/-- Runs a registered hook, if there is one. -/
def runRoutine (routine : Option (Routine σ)) (context : Context σ) : Flow σ Unit :=
  match routine with
  | none => pure ()
  | some routine => Flow.act (ExceptT.adapt Failure.toError (routine context))

theorem exec_runHooks (equipment : Equipment σ) (phase : Phase) (program : Option Program)
    (occasion : Occasion) (desk : Desk σ) :
    let context := desk.scope.context equipment occasion.parts occasion.items (some occasion.event)
    exec (runHooks equipment phase program occasion) desk =
      exec (do
        runCode equipment program context
        runRoutine (desk.scope.routines.on phase) context) desk := by
  unfold runHooks runRoutine
  rw [exec_get_bind]
  dsimp only
  rcases program with _ | program <;> rcases desk.scope.routines.on phase with _ | routine <;> rfl

/-- Hooks change nothing but the stage, and the stage only as they do with what they are given. -/
theorem stagedBy_runHooks {S : Stage σ → Stage σ → Prop} [IsPreorder (Stage σ) S]
    {equipment : Equipment σ} (desk : Desk σ) (phase : Phase) (program : Option Program)
    (occasion : Occasion) {context : Context σ}
    (hcontext : desk.scope.context equipment occasion.parts occasion.items (some occasion.event) =
      context)
    (hprogram : ∀ p, program = some p →
      Keeps S (p.run ⟨context, equipment.callbacks, context.arguments⟩))
    (hroutine : ∀ routine, desk.scope.routines.on phase = some routine →
      Keeps S (routine context)) :
    desk.StagedBy S (exec (runHooks equipment phase program occasion) desk).2 := by
  rw [exec_runHooks, hcontext]
  have hcode : Keeps (Desk.StagedBy S) (runCode equipment program context) := by
    cases program with
    | none => exact Keeps.pure _
    | some p => exact Flow.stagedBy_act (hprogram p rfl)
  refine Keeps.bind hcode (fun _ => ?_) desk
  rcases hfound : desk.scope.routines.on phase with _ | routine
  · exact Keeps.pure _
  · exact Flow.stagedBy_act fun stage => hroutine routine hfound stage

end Scope

section hooks

variable {R : Tree → Tree → Prop} [IsPreorder Tree R]

instance : IsPreorder (Desk σ) (Desk.Staged R) where
  refl desk := ⟨rfl, rfl, refl_of R desk.stage.tree⟩
  trans _ _ _ := fun h h' =>
    ⟨h'.scope.trans h.scope, h'.listeners.trans h.listeners, trans_of R h.tree h'.tree⟩

omit [IsPreorder Tree R] in
theorem Flow.staged_act {step : Act Error σ α} (h : Keeps (OnTree R) step) :
    Keeps (Desk.Staged R) (Flow.act step) := fun desk => ⟨rfl, rfl, h desk.stage⟩

/-- Hooks change nothing but the stage, and the tree only as the hooks do. -/
theorem Scope.staged_runHooks {equipment : Equipment σ} (desk : Desk σ) (phase : Phase)
    (program : Option Program) (occasion : Occasion)
    (hprogram : ∀ p, program = some p → p.Within R equipment.callbacks)
    (hroutines : desk.scope.routines.Within R) :
    desk.Staged R (exec (runHooks equipment phase program occasion) desk).2 := by
  have hstaged : desk.StagedBy (OnTree R) (exec (runHooks equipment phase program occasion) desk).2 :=
    stagedBy_runHooks desk phase program occasion rfl (fun p hp => hprogram p hp _)
      fun routine hroutine => hroutines phase routine hroutine _
  exact ⟨hstaged.scope, hstaged.listeners, hstaged.stage⟩

end hooks

/-! ## Wiring -/

namespace Scope

/-- The listeners after the delete control of an item has been wired. -/
def wired (equipment : Equipment σ) (t : Tree) (scope : Scope σ) (item : NodeId)
    (ls : Listeners Action) : Listeners Action :=
  match scope.identifier with
  | none => ls
  | some identifier =>
    match (t.selectFrom item (.attributeIs Directive.delete.name identifier)).head? with
    | none => ls
    | some control =>
      if (t.tag? control).any equipment.config.isControl then
        ls.add control .click (.delete scope.number item)
      else ls

theorem exec_wireDelete (equipment : Equipment σ) (item : NodeId) (desk : Desk σ) :
    exec (wireDelete equipment item) desk = (.ok ⟨⟩, { desk with
      listeners := wired equipment desk.stage.tree desk.scope item desk.listeners }) := by
  unfold wireDelete wired
  rw [exec_get_bind]
  rcases desk.scope.identifier with _ | identifier
  · rfl
  dsimp only
  rcases (desk.stage.tree.selectFrom item
    (.attributeIs Directive.delete.name identifier)).head? with _ | control
  · rfl
  dsimp only
  split <;> rfl

theorem exec_wireAll (equipment : Equipment σ) (items : List NodeId) (desk : Desk σ) :
    exec (items.forM (wireDelete equipment)) desk = (.ok ⟨⟩, { desk with
      listeners := items.foldl (fun ls item => wired equipment desk.stage.tree desk.scope item ls)
        desk.listeners }) := by
  induction items generalizing desk with
  | nil => rfl
  | cons item rest ih => rw [exec_forM_cons, exec_bind_ok (exec_wireDelete ..), ih, List.foldl_cons]

/-- Wiring items adds at most one listener for each, in their order. -/
theorem wireAll_entries (equipment : Equipment σ) (t : Tree) (scope : Scope σ)
    (items : List NodeId) (ls : Listeners Action) :
    ∃ added, (items.foldl (fun ls item => wired equipment t scope item ls) ls).entries =
        ls.entries ++ added ∧
      (added.map (·.handler)).Sublist (items.map (.delete scope.number)) := by
  induction items generalizing ls with
  | nil => exact ⟨[], by simp, by simp⟩
  | cons item rest ih =>
    obtain ⟨added, hentries, hsub⟩ := ih (wired equipment t scope item ls)
    rw [List.foldl_cons, hentries]
    have hone : (wired equipment t scope item ls).entries = ls.entries ∨ ∃ l : Listener Action,
        l.handler = .delete scope.number item ∧
          (wired equipment t scope item ls).entries = ls.entries ++ [l] := by
      unfold wired
      split
      · exact .inl rfl
      · split
        · exact .inl rfl
        · split
          · exact .inr ⟨_, rfl, rfl⟩
          · exact .inl rfl
    rcases hone with hone | ⟨l, hl, hone⟩
    · exact ⟨added, by rw [hone], hsub.cons _⟩
    · refine ⟨l :: added, by rw [hone, List.append_assoc]; rfl, ?_⟩
      rw [List.map_cons, List.map_cons, hl]
      exact hsub.cons_cons _

end Scope

end Repeater
