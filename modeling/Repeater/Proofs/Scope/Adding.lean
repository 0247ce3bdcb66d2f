/-
  Repeater/Proofs/Scope/Adding.lean
  =================================
  **What adding an item does.**

  A click on the trigger compiles the hook code, makes a draft of the item (`makeDraft`), puts it
  into the container after the hooks before the addition have run (`insertDraft`), and settles it
  with the hooks after the addition (`settle`). An addition from data makes its draft with the texts
  filled in (`makeFilledDraft`). Whatever the hooks do, an addition that fails leaves the scope and
  the listeners as they were, and one that succeeds advances the counter by one and adds listeners
  for the elements of its draft only (`exec_addItem_drafted`, `exec_addFilled_drafted`).
-/
import Repeater.Proofs.Scope.Flows

namespace Repeater

open Dom Hook Stamp Tree

variable {σ : Type}

namespace Scope

/-! ## The steps of an addition -/

/-- Copies and stamps the template. -/
def makeDraft (parts : Parts) (identifier : String) : Flow σ NodeId := do
  let counter := (← get).scope.counter
  let fragment ← Flow.stamp (copyTemplate parts.template counter)
  let _ ← Flow.stamp (stampIndex fragment identifier counter)
  return fragment

/-- Runs the hooks before the addition and puts the draft into the container; gives the items. -/
def insertDraft (equipment : Equipment σ) (parts : Parts) (event : Event)
    (before : Option Program) (fragment : NodeId) : Flow σ (List NodeId) := do
  let items := (← Flow.tree).elementChildren fragment
  runHooks equipment .preAdd before { parts, items, event }
  let _ ← Flow.edit (Edit.append parts.container fragment)
  return items

/-- Takes the items out again and fails. -/
def takeOut (items : List NodeId) (failure : Error) : Flow σ Unit := do
  items.forM fun item => discard (Flow.edit (Edit.remove item))
  throw failure

/-- Runs the hooks after the addition, wires the items and counts. -/
def settle (equipment : Equipment σ) (parts : Parts) (event : Event) (after : Option Program)
    (items : List NodeId) : Flow σ Unit := do
  tryCatch (runHooks equipment .postAdd after { parts, items, event }) (takeOut items)
  items.forM (wireDelete equipment)
  Flow.updateScope fun scope => { scope with counter := scope.counter + 1 }

theorem addItem_eq (equipment : Equipment σ) (parts : Parts) (identifier : String)
    (event : Event) : addItem equipment parts identifier event = (do
      let t ← Flow.tree
      let before ← MonadExcept.ofExcept (compileHook t parts.trigger .preAdd)
      let after ← MonadExcept.ofExcept (compileHook t parts.trigger .postAdd)
      let fragment ← makeDraft parts identifier
      let items ← insertDraft equipment parts event before fragment
      settle equipment parts event after items) := by
  unfold addItem makeDraft insertDraft settle takeOut
  simp only [bind_assoc, pure_bind]

/-- Copies the template, fills it from data and stamps it. -/
def makeFilledDraft (parts : Parts) (identifier : String) (data : List (String × String)) :
    Flow σ NodeId := do
  let counter := (← get).scope.counter
  let fragment ← Flow.stamp (copyTemplate parts.template counter)
  let _ ← Flow.stamp (fillSlots fragment data)
  let _ ← Flow.stamp (stampIndex fragment identifier counter)
  return fragment

theorem addFilled_eq (equipment : Equipment σ) (parts : Parts) (identifier : String)
    (data : List (String × String)) : addFilled equipment parts identifier data = (do
      let some parent := (← Flow.tree).parent? parts.trigger | throw (.missingElement .trigger)
      let fragment ← makeFilledDraft parts identifier data
      let items := (← Flow.tree).elementChildren fragment
      let _ ← Flow.edit (Edit.insertBefore parent fragment (some parts.trigger))
      items.forM (wireDelete equipment)
      Flow.updateScope fun scope => { scope with counter := scope.counter + 1 }) := by
  unfold addFilled makeFilledDraft
  refine congrArg (Flow.tree >>= ·) (funext fun t => ?_)
  rcases t.parent? parts.trigger with _ | parent
  · rfl
  · simp only [bind_assoc, pure_bind]

/-! ## Drafts -/

variable {equipment : Equipment σ} {parts : Parts} {identifier : String} {event : Event}
  {desk desk' : Desk σ}

/-- However making a draft ends, it has only added nodes to the tree. -/
theorem exec_makeDraft (h : desk.stage.tree.WellFormed) (parts : Parts) (identifier : String) :
    ∃ result t', exec (makeDraft parts identifier) desk = (result, desk.withTree t') ∧
      t'.WellFormed ∧ desk.stage.tree.Extends t' ∧ ∀ f, result = .ok f →
        Drafted desk.stage.tree parts.template identifier desk.scope.counter f t' := by
  unfold makeDraft
  rw [exec_get_bind]
  obtain ⟨result, t₁, hrun, h₁, hext, hnumbered⟩ :=
    exec_copyTemplate h parts.template desk.scope.counter
  have hstep : exec (Flow.stamp (copyTemplate parts.template desk.scope.counter)) desk =
      (result, desk.withTree t₁) := Flow.exec_stamp hrun
  cases result with
  | error e => exact ⟨.error e, t₁, exec_bind_error hstep, h₁, hext, by simp⟩
  | ok f =>
    obtain ⟨n, t₂, hrun₂, hdrafted⟩ := (hnumbered f rfl).exec_stampIndex h identifier
    have hstep₂ : exec (Flow.stamp (stampIndex f identifier desk.scope.counter))
        (desk.withTree t₁) = (.ok n, desk.withTree t₂) := Flow.exec_stamp hrun₂
    refine ⟨.ok f, t₂, ?_, hdrafted.wellFormed, hdrafted.extends_old, ?_⟩
    · rw [exec_bind_ok hstep, exec_bind_ok hstep₂]
      rfl
    · rintro _ ⟨⟩
      exact hdrafted

/-! ## Additions with tame hooks -/

/-- The callbacks of the page and the registered hooks of the scope edit the tree by its
    operations. -/
structure TameHooks (equipment : Equipment σ) (scope : Scope σ) : Prop where
  callbacks : equipment.callbacks.Within Edited
  routines : scope.routines.Within Edited

theorem TameHooks.staged_runHooks (desk : Desk σ) (h : TameHooks equipment desk.scope)
    (phase : Phase) (program : Option Program) (occasion : Occasion) :
    desk.Staged Grown (exec (runHooks equipment phase program occasion) desk).2 :=
  Scope.staged_runHooks desk phase program occasion
    (fun p _ => (p.tame h.callbacks).mono fun _ _ hedited => Edited.grown hedited)
    (h.routines.mono fun _ _ hedited => Edited.grown hedited)

theorem staged_edit {α : Type} {change : Edit α} (h : Keeps Grown change) :
    Keeps (Desk.Staged Grown) (Flow.edit change : Flow σ α) := by
  intro desk
  rw [Flow.exec_edit]
  exact ⟨rfl, rfl, h _⟩

theorem TameHooks.exec_insertDraft (desk : Desk σ) (h : TameHooks equipment desk.scope)
    (parts : Parts) (event : Event) (before : Option Program) (fragment : NodeId) :
    ∃ result desk', exec (insertDraft equipment parts event before fragment) desk =
      (result, desk') ∧ desk.Staged Grown desk' ∧
      ∀ items, result = .ok items → items = desk.stage.tree.elementChildren fragment := by
  unfold insertDraft
  rw [Flow.exec_tree_bind]
  have hhooks := TameHooks.staged_runHooks desk h .preAdd before
    { parts, items := desk.stage.tree.elementChildren fragment, event }
  rcases hrun : exec (runHooks equipment .preAdd before
    { parts, items := desk.stage.tree.elementChildren fragment, event }) desk with ⟨_ | _, desk₁⟩
  all_goals rw [hrun] at hhooks
  · exact ⟨_, desk₁, exec_bind_error hrun, hhooks, by simp⟩
  · rw [exec_bind_ok hrun]
    have happend := staged_edit (σ := σ) (Edit.keeps_insertBefore parts.container fragment none) desk₁
    change Desk.Staged Grown desk₁ (exec (Flow.edit (Edit.append parts.container fragment)) desk₁).2
      at happend
    rcases hrun₂ : exec (Flow.edit (Edit.append parts.container fragment) : Flow σ NodeId) desk₁
      with ⟨_ | _, desk₂⟩
    all_goals rw [hrun₂] at happend
    · exact ⟨_, desk₂, exec_bind_error hrun₂, trans_of (Desk.Staged Grown) hhooks happend, by simp⟩
    · refine ⟨.ok _, desk₂, exec_bind_ok hrun₂, trans_of (Desk.Staged Grown) hhooks happend, ?_⟩
      rintro _ ⟨⟩
      rfl

/-- What an addition of items does to a desk. -/
structure Counted (equipment : Equipment σ) (items : List NodeId) (desk desk' : Desk σ) : Prop where
  scope : desk'.scope = { desk.scope with counter := desk.scope.counter + 1 }
  listeners : desk'.listeners = items.foldl
    (fun ls item => wired equipment desk'.stage.tree desk.scope item ls) desk.listeners

theorem Counted.entries {items : List NodeId} (h : Counted equipment items desk desk') :
    ∃ added, desk'.listeners.entries = desk.listeners.entries ++ added ∧
      (added.map (·.handler)).Sublist (items.map (.delete desk.scope.number)) := by
  rw [h.listeners]
  exact wireAll_entries equipment desk'.stage.tree desk.scope items desk.listeners

/-- The last steps of an addition never fail. -/
theorem exec_count (equipment : Equipment σ) (items : List NodeId) (desk : Desk σ) :
    ∃ desk', exec (do
        items.forM (wireDelete equipment)
        Flow.updateScope fun scope => { scope with counter := scope.counter + 1 }) desk =
      (.ok ⟨⟩, desk') ∧ desk'.stage = desk.stage ∧ Counted equipment items desk desk' :=
  ⟨_, (exec_bind_ok (exec_wireAll ..)).trans (Flow.exec_updateScope ..), rfl, rfl, rfl⟩

theorem keeps_takeOut (items : List NodeId) (failure : Error) :
    Keeps (Desk.Staged Grown) (takeOut items failure : Flow σ Unit) :=
  Keeps.bind (Keeps.forM fun item _ => Keeps.map _ (staged_edit (Edit.keeps_remove item)))
    fun _ => Keeps.throw _

theorem exec_takeOut_error (items : List NodeId) (failure : Error) (desk : Desk σ) :
    ∃ e, (exec (takeOut items failure) desk).1 = .error e := by
  unfold takeOut
  rw [exec_bind]
  rcases exec (items.forM fun item => discard (Flow.edit (Edit.remove item)) : Flow σ Unit) desk
    with ⟨e | _, desk'⟩
  · exact ⟨e, rfl⟩
  · exact ⟨failure, rfl⟩

theorem TameHooks.exec_settle (desk : Desk σ) (h : TameHooks equipment desk.scope)
    (parts : Parts) (event : Event) (after : Option Program) (items : List NodeId) :
    ∃ result desk' desk₁, exec (settle equipment parts event after items) desk = (result, desk') ∧
      desk.Staged Grown desk₁ ∧ ((∃ e, result = .error e) ∧ desk' = desk₁ ∨
        result = .ok ⟨⟩ ∧ desk'.stage = desk₁.stage ∧ Counted equipment items desk₁ desk') := by
  have hhooks := TameHooks.staged_runHooks desk h .postAdd after { parts, items, event }
  unfold settle
  rcases hrun : exec (runHooks equipment .postAdd after { parts, items, event }) desk
    with ⟨failure | _, desk₁⟩
  all_goals rw [hrun] at hhooks
  · have htry : exec (tryCatch (runHooks equipment .postAdd after { parts, items, event })
        (takeOut items)) desk = exec (takeOut items failure) desk₁ := by
      rw [exec_tryCatch, hrun]
    obtain ⟨e, he⟩ := exec_takeOut_error items failure desk₁
    have hout := keeps_takeOut items failure desk₁
    rcases hrun₂ : exec (takeOut items failure) desk₁ with ⟨result, desk₂⟩
    rw [hrun₂] at htry he hout
    obtain rfl : result = .error e := he
    exact ⟨_, _, desk₂, exec_bind_error htry, trans_of (Desk.Staged Grown) hhooks hout,
      .inl ⟨⟨e, rfl⟩, rfl⟩⟩
  · have htry : exec (tryCatch (runHooks equipment .postAdd after { parts, items, event })
        (takeOut items)) desk = (.ok ⟨⟩, desk₁) := by
      rw [exec_tryCatch, hrun]
    obtain ⟨desk₂, hrun₂, hstage, hcounted⟩ := exec_count equipment items desk₁
    exact ⟨_, desk₂, desk₁, by rw [exec_bind_ok htry, hrun₂], hhooks,
      .inr ⟨rfl, hstage, hcounted⟩⟩

/-- What an addition of new items does to a desk. -/
structure Added (equipment : Equipment σ) (desk desk' : Desk σ) : Prop where
  grown : desk.stage.tree.Grown desk'.stage.tree
  counted : ∃ items, Counted equipment items desk desk' ∧ items.Nodup ∧
    ∀ item ∈ items, ¬ desk.stage.tree.Has item ∧ desk'.stage.tree.Has item

/-- An addition that fails changes the stage only; one that succeeds counts the elements of the draft
    that it has made. -/
theorem TameHooks.exec_addItem_drafted (desk : Desk σ) (hhooks : TameHooks equipment desk.scope)
    (h : desk.stage.tree.WellFormed) (parts : Parts) (identifier : String) (event : Event) :
    ∃ result desk', exec (addItem equipment parts identifier event) desk = (result, desk') ∧
      ((∃ e, result = .error e) ∧ desk.Staged Grown desk' ∨
        result = .ok ⟨⟩ ∧ ∃ f t₁,
          exec (makeDraft parts identifier) desk = (.ok f, desk.withTree t₁) ∧
          Drafted desk.stage.tree parts.template identifier desk.scope.counter f t₁ ∧
          t₁.Grown desk'.stage.tree ∧ Counted equipment (t₁.elementChildren f) desk desk') := by
  rw [addItem_eq, Flow.exec_tree_bind]
  rcases compileHook desk.stage.tree parts.trigger .preAdd with e | before
  · exact ⟨_, desk, exec_bind_error (exec_ofExcept _ _), .inl ⟨⟨e, rfl⟩, refl_of _ desk⟩⟩
  rw [exec_bind_ok (exec_ofExcept _ _)]
  rcases compileHook desk.stage.tree parts.trigger .postAdd with e | after
  · exact ⟨_, desk, exec_bind_error (exec_ofExcept _ _), .inl ⟨⟨e, rfl⟩, refl_of _ desk⟩⟩
  rw [exec_bind_ok (exec_ofExcept _ _)]
  obtain ⟨result, t₁, hrun₁, h₁, hext₁, hdrafted⟩ := exec_makeDraft h parts identifier
  have hstaged₁ : desk.Staged Grown (desk.withTree t₁) := ⟨rfl, rfl, hext₁.grown h₁⟩
  cases result with
  | error e => exact ⟨_, _, exec_bind_error hrun₁, .inl ⟨⟨e, rfl⟩, hstaged₁⟩⟩
  | ok f =>
    rw [exec_bind_ok hrun₁]
    obtain ⟨result, desk₂, hrun₂, hstaged₂, hitems⟩ :=
      TameHooks.exec_insertDraft (desk.withTree t₁) hhooks parts event before f
    have hstaged₂' := trans_of (Desk.Staged Grown) hstaged₁ hstaged₂
    cases result with
    | error e => exact ⟨_, _, exec_bind_error hrun₂, .inl ⟨⟨e, rfl⟩, hstaged₂'⟩⟩
    | ok items =>
      obtain rfl := hitems items rfl
      rw [exec_bind_ok hrun₂]
      obtain ⟨result, desk₃, desk₀, hrun₃, hstaged₃, hend⟩ :=
        TameHooks.exec_settle desk₂ (hstaged₂'.scope ▸ hhooks) parts event after
          (t₁.elementChildren f)
      have hstaged₀ := trans_of (Desk.Staged Grown) hstaged₂' hstaged₃
      refine ⟨_, desk₃, hrun₃, ?_⟩
      rcases hend with ⟨herror, rfl⟩ | ⟨rfl, hstage, hcounted⟩
      · exact .inl ⟨herror, hstaged₀⟩
      · refine .inr ⟨rfl, f, t₁, hrun₁, hdrafted f rfl, ?_, ?_, ?_⟩
        · rw [hstage]
          exact trans_of Grown hstaged₂.tree hstaged₃.tree
        · rw [hcounted.scope, hstaged₀.scope]
        · rw [← hstaged₀.listeners, ← hstaged₀.scope]
          exact hcounted.listeners

/-- An addition that fails changes the stage only; one that succeeds counts new items. -/
theorem TameHooks.exec_addItem (desk : Desk σ) (hhooks : TameHooks equipment desk.scope)
    (h : desk.stage.tree.WellFormed) (parts : Parts) (identifier : String) (event : Event) :
    ∃ result desk', exec (addItem equipment parts identifier event) desk = (result, desk') ∧
      ((∃ e, result = .error e) ∧ desk.Staged Grown desk' ∨
        result = .ok ⟨⟩ ∧ Added equipment desk desk') := by
  obtain ⟨result, desk', hrun, hend⟩ :=
    TameHooks.exec_addItem_drafted desk hhooks h parts identifier event
  refine ⟨result, desk', hrun, hend.imp_right ?_⟩
  rintro ⟨hok, f, t₁, -, hdrafted, hgrown, hcounted⟩
  have hext := hdrafted.extends_old
  have h₁ := hdrafted.wellFormed
  refine ⟨hok, trans_of Grown (hext.grown h₁) hgrown, _, hcounted, ?_, ?_⟩
  · exact (h₁.nodup_children f).filter _
  · intro item hitem
    obtain ⟨hnew, hhas⟩ := new_of_mem_elementChildren h h₁ hext hdrafted.new hitem
    exact ⟨hnew, hgrown.has h₁ hhas⟩

/-! ## Additions from data -/

/-- What an addition from data leaves: a draft `f` that has gone before the trigger. -/
structure Filled (equipment : Equipment σ) (parts : Parts) (desk desk' : Desk σ) (p f : NodeId)
    (t' : Tree) : Prop where
  parent : desk.stage.tree.parent? parts.trigger = some p
  wellFormed : t'.WellFormed
  extends_old : desk.stage.tree.Extends t'
  new : ¬ desk.stage.tree.Has f
  spliced : t'.Spliced p f (some parts.trigger) desk'.stage.tree
  counted : Counted equipment (t'.elementChildren f) desk desk'

/-- A fragment that is new may go into a node that was there before. -/
theorem exec_insert_new {t t' : Tree} {p f : NodeId} {reference : Option NodeId}
    (h : t.WellFormed) (h' : t'.WellFormed) (hext : t.Extends t') (hp : t.Has p) (hf : ¬ t.Has f)
    (hallows : t'.Allows p f reference .fragment) :
    ∃ t'', exec (Edit.insertBefore p f reference) t' = (.ok f, t'') ∧
      t'.Spliced p f reference t'' := by
  refine Edit.exec_insertBefore_fragment h' ?_ hallows ?_
  · rintro rfl
    exact hf hp
  · intro k hk hkp
    exact hext.new_below h (hext.new_child h (h'.parent_of_child hk) hf) hkp hp

theorem exec_insertBeforeTrigger {t t' : Tree} {p f x : NodeId} (h : t.WellFormed)
    (h' : t'.WellFormed) (hext : t.Extends t') (hx : t.parent? x = some p) (hf : ¬ t.Has f)
    (hfragment : t'.content? f = some .fragment) :
    ∃ t'', exec (Edit.insertBefore p f (some x)) t' = (.ok f, t'') ∧
      t'.Spliced p f (some x) t'' := by
  have hp : t.Has p := h.has_parent hx
  obtain ⟨holder, hholder, hholds⟩ := h.holder_of_parent hx
  refine exec_insert_new h h' hext hp hf ⟨?_, hfragment, ?_⟩
  · exact ⟨holder, (hext.content? hp).trans hholder, hholds⟩
  · rintro r ⟨⟩
    rw [hext.parent? (has_of_parent hx), hx]

/-- However making a filled draft ends, it has only added nodes to the tree. -/
theorem exec_makeFilledDraft (h : desk.stage.tree.WellFormed) (parts : Parts) (identifier : String)
    (data : List (String × String)) :
    ∃ result t', exec (makeFilledDraft parts identifier data) desk = (result, desk.withTree t') ∧
      t'.WellFormed ∧ desk.stage.tree.Extends t' ∧ ∀ f, result = .ok f →
        ¬ desk.stage.tree.Has f ∧ t'.content? f = some .fragment := by
  unfold makeFilledDraft
  rw [exec_get_bind]
  obtain ⟨result, t₁, hrun₁, h₁, hext₁, hnumbered⟩ :=
    exec_copyTemplate h parts.template desk.scope.counter
  have hstep₁ : exec (Flow.stamp (copyTemplate parts.template desk.scope.counter)) desk =
      (result, desk.withTree t₁) := Flow.exec_stamp hrun₁
  cases result with
  | error e => exact ⟨_, t₁, exec_bind_error hstep₁, h₁, hext₁, by simp⟩
  | ok f =>
    have hnumbered := hnumbered f rfl
    rw [exec_bind_ok hstep₁]
    obtain ⟨result, t₂, hrun₂, h₂, hext₂, hfragment₂⟩ :=
      exec_fillSlots h h₁ hext₁ hnumbered.new (hnumbered.fragment h) data
    have hstep₂ : exec (Flow.stamp (fillSlots f data)) (desk.withTree t₁) =
        (result, desk.withTree t₂) := Flow.exec_stamp hrun₂
    cases result with
    | error e => exact ⟨_, t₂, exec_bind_error hstep₂, h₂, hext₂, by simp⟩
    | ok count =>
      rw [exec_bind_ok hstep₂]
      obtain ⟨n, t₃, hrun₃, hstamped, hext₃⟩ :=
        exec_stampIndex_new h h₂ hext₂ hnumbered.new identifier desk.scope.counter
      have hstep₃ : exec (Flow.stamp (stampIndex f identifier desk.scope.counter))
          (desk.withTree t₂) = (.ok n, desk.withTree t₃) := Flow.exec_stamp hrun₃
      refine ⟨.ok f, t₃, exec_bind_ok hstep₃, hstamped.wellFormed, hext₃, ?_⟩
      rintro _ ⟨⟩
      exact ⟨hnumbered.new, hstamped.content_of_not_element hfragment₂ rfl⟩

/-- An addition from data that fails has only added nodes to the tree; one that succeeds has put the
    draft that it has made before the trigger. -/
theorem exec_addFilled_drafted (desk : Desk σ) (h : desk.stage.tree.WellFormed)
    (equipment : Equipment σ) (parts : Parts) (identifier : String) (data : List (String × String)) :
    ∃ result desk', exec (addFilled equipment parts identifier data) desk = (result, desk') ∧
      ((∃ e, result = .error e) ∧ (∃ t', desk' = desk.withTree t' ∧ t'.WellFormed ∧
          desk.stage.tree.Extends t') ∨
        result = .ok ⟨⟩ ∧ ∃ p f t',
          exec (makeFilledDraft parts identifier data) desk = (.ok f, desk.withTree t') ∧
            Filled equipment parts desk desk' p f t') := by
  rw [addFilled_eq, Flow.exec_tree_bind]
  rcases hparent : desk.stage.tree.parent? parts.trigger with _ | p
  · exact ⟨_, desk, rfl, .inl ⟨⟨_, rfl⟩, _, rfl, h, .refl _⟩⟩
  dsimp only
  obtain ⟨result, t₁, hrun₁, h₁, hext₁, hdraft⟩ := exec_makeFilledDraft h parts identifier data
  cases result with
  | error e => exact ⟨_, _, exec_bind_error hrun₁, .inl ⟨⟨e, rfl⟩, t₁, rfl, h₁, hext₁⟩⟩
  | ok f =>
    obtain ⟨hnew, hfragment⟩ := hdraft f rfl
    obtain ⟨t₂, hrun₂, hspliced⟩ := exec_insertBeforeTrigger h h₁ hext₁ hparent hnew hfragment
    have hstep₂ : exec (Flow.edit (Edit.insertBefore p f (some parts.trigger)))
        (desk.withTree t₁) = (.ok f, desk.withTree t₂) := Flow.exec_edit_ok hrun₂
    obtain ⟨desk₃, hrun₃, hstage, hcounted⟩ :=
      exec_count equipment (t₁.elementChildren f) (desk.withTree t₂)
    refine ⟨.ok ⟨⟩, desk₃, ?_, .inr ⟨rfl, p, f, t₁, hrun₁, hparent, h₁, hext₁, hnew, ?_,
      hcounted.scope, hcounted.listeners⟩⟩
    · rw [exec_bind_ok hrun₁, Flow.exec_tree_bind, exec_bind_ok hstep₂]
      exact hrun₃
    · rw [hstage]
      exact hspliced

/-- An addition from data that fails has only added nodes to the tree. -/
theorem exec_addFilled (desk : Desk σ) (h : desk.stage.tree.WellFormed)
    (equipment : Equipment σ) (parts : Parts) (identifier : String) (data : List (String × String)) :
    ∃ result desk', exec (addFilled equipment parts identifier data) desk = (result, desk') ∧
      ((∃ e, result = .error e) ∧ (∃ t', desk' = desk.withTree t' ∧ t'.WellFormed ∧
          desk.stage.tree.Extends t') ∨
        result = .ok ⟨⟩ ∧ ∃ p f t', Filled equipment parts desk desk' p f t') := by
  obtain ⟨result, desk', hrun, hend⟩ :=
    exec_addFilled_drafted desk h equipment parts identifier data
  refine ⟨result, desk', hrun, hend.imp_right ?_⟩
  rintro ⟨hok, p, f, t', -, hfilled⟩
  exact ⟨hok, p, f, t', hfilled⟩

theorem Filled.added {p f : NodeId} {t' : Tree} (h : desk.stage.tree.WellFormed)
    (hfilled : Filled equipment parts desk desk' p f t') : Added equipment desk desk' := by
  refine ⟨fun _ => ⟨hfilled.spliced.wellFormed, ?_⟩, _, hfilled.counted, ?_, ?_⟩
  · rw [hfilled.spliced.size]
    exact hfilled.extends_old.size_le
  · exact (hfilled.wellFormed.nodup_children f).filter _
  · intro item hitem
    obtain ⟨hnew, hhas⟩ :=
      new_of_mem_elementChildren h hfilled.wellFormed hfilled.extends_old hfilled.new hitem
    obtain ⟨content, hcontent⟩ := has_iff_content.1 hhas
    exact ⟨hnew, has_of_content ((hfilled.spliced.content item).trans hcontent)⟩

/-! ## Whole flows -/

/-- What any addition does to the desk of an idle scope: either only the stage is changed, or the
    scope has its elements and new items are counted. -/
def AddedOrStaged (equipment : Equipment σ) (desk desk' : Desk σ) : Prop :=
  desk.Staged Grown desk' ∨ desk.scope.parts.isSome = true ∧ Added equipment desk desk'

theorem resolved_eq_ok {scope : Scope σ} (h : scope.resolved = .ok (parts, identifier)) :
    scope.parts = some parts ∧ scope.identifier = some identifier := by
  unfold resolved at h
  split at h
  · next hparts hidentifier =>
    cases h
    exact ⟨hparts, hidentifier⟩
  · simp at h

theorem isSome_parts_of_resolved {scope : Scope σ}
    (h : scope.resolved = .ok (parts, identifier)) : scope.parts.isSome = true := by
  rw [(resolved_eq_ok h).1]
  rfl

theorem exec_during_added {flow : Flow σ Unit} (activity : Activity)
    (hidle : desk.scope.activity = .idle)
    (hrun : AddedOrStaged equipment (desk.doing activity) (exec flow (desk.doing activity)).2) :
    AddedOrStaged equipment desk (exec (Flow.during activity flow) desk).2 := by
  rw [Flow.exec_during hidle]
  have hback : ∀ scope : Scope σ, scope.activity = .idle →
      { { scope with activity } with activity := .idle } = scope := by
    rintro ⟨⟩ rfl
    rfl
  rcases hrun with hstaged | ⟨hparts, hgrown, items, hcounted, hitems⟩
  · refine .inl ⟨?_, hstaged.listeners, hstaged.tree⟩
    show { (exec flow (desk.doing activity)).2.scope with activity := .idle } = desk.scope
    rw [hstaged.scope]
    exact hback _ hidle
  · refine .inr ⟨hparts, hgrown, items, ⟨?_, hcounted.listeners⟩, hitems⟩
    show { (exec flow (desk.doing activity)).2.scope with activity := .idle } = _
    rw [hcounted.scope]
    exact hback { desk.scope with counter := desk.scope.counter + 1 } hidle

theorem TameHooks.handleAdd (desk : Desk σ) (hhooks : TameHooks equipment desk.scope)
    (h : desk.stage.tree.WellFormed) (hidle : desk.scope.activity = .idle) (event : Event) :
    AddedOrStaged equipment desk (exec (handleAdd equipment event) desk).2 := by
  unfold Scope.handleAdd
  rw [exec_get_bind]
  rcases hresolved : desk.scope.resolved with e | ⟨parts, identifier⟩
  · exact .inl (refl_of (Desk.Staged Grown) desk)
  · obtain ⟨result, desk', hrun, hend⟩ := TameHooks.exec_addItem (desk.doing .adding)
      ⟨hhooks.callbacks, hhooks.routines⟩ h parts identifier event
    rw [exec_bind_ok (exec_ofExcept _ _)]
    refine exec_during_added .adding hidle ?_
    rw [hrun]
    exact hend.imp And.right fun hend => ⟨isSome_parts_of_resolved hresolved, hend.2⟩

theorem handleData_outcome (desk : Desk σ) (h : desk.stage.tree.WellFormed)
    (hidle : desk.scope.activity = .idle) (equipment : Equipment σ) (data : List (String × String)) :
    AddedOrStaged equipment desk (exec (handleData equipment data) desk).2 := by
  unfold handleData
  rw [exec_get_bind]
  rcases hresolved : desk.scope.resolved with e | ⟨parts, identifier⟩
  · exact .inl (refl_of (Desk.Staged Grown) desk)
  · obtain ⟨result, desk', hrun, hend⟩ := exec_addFilled (desk.doing .adding) h equipment
      parts identifier data
    rw [exec_bind_ok (exec_ofExcept _ _)]
    refine exec_during_added .adding hidle ?_
    rw [hrun]
    rcases hend with ⟨-, t', rfl, ht', hext⟩ | ⟨-, p, f, t', hfilled⟩
    · exact .inl ⟨rfl, rfl, hext.grown ht'⟩
    · exact .inr ⟨isSome_parts_of_resolved hresolved, hfilled.added h⟩

end Scope

end Repeater
