/-
  Repeater/Proofs/Page/Callbacks.lean
  ===================================
  **Callbacks out of reach.**

  The hook code of a document is compiled when a flow runs it, so a flow calls no callback that is
  registered under a forbidden word (`runHooks_congr`). Two pages that differ in such callbacks only
  are `Twins`, and whatever is done to both keeps them so. A run of a page can therefore leave out
  every registration under a forbidden word and comes out the same.
-/
import Repeater.Proofs.Hook.Denied
import Repeater.Proofs.Page.Runs

namespace Repeater

open Dom Hook Vocabulary

namespace Scope

variable {σ : Type} {equipment : Equipment σ} {callbacks : Callbacks σ}

/-- The callbacks are those of the equipment, whatever stands under the forbidden words. -/
def SameCallbacks (equipment : Equipment σ) (callbacks : Callbacks σ) : Prop :=
  ∀ name, name ∉ forbidden → callbacks.find? name = equipment.callbacks.find? name

theorem compileHook_mentions {t : Tree} {carrier : NodeId} {phase : Phase} {program : Program}
    (h : compileHook t carrier phase = .ok (some program)) {name : String}
    (hname : program.Mentions name) : name ∉ forbidden := by
  unfold compileHook at h
  split at h
  · cases h
  · next code _ =>
    rcases hcompiled : compile code Vocabulary.parameters with e | program'
    · rw [hcompiled] at h
      cases h
    · rw [hcompiled] at h
      cases h
      exact mentions_not_forbidden hcompiled hname

theorem runHooks_congr (h : SameCallbacks equipment callbacks) {t : Tree} {carrier : NodeId}
    {phase : Phase} {program : Option Program} (hcompiled : compileHook t carrier phase = .ok program)
    (occasion : Occasion) :
    runHooks { equipment with callbacks } phase program occasion =
      runHooks equipment phase program occasion := by
  refine bind_congr fun desk => ?_
  cases program with
  | none => rfl
  | some program =>
    let context := desk.scope.context equipment occasion.parts occasion.items (some occasion.event)
    let setting : Setting σ := ⟨context, equipment.callbacks, context.arguments⟩
    have hrun : program.run { setting with callbacks } = program.run setting :=
      Program.run_congr fun name hname => h name (compileHook_mentions hcompiled hname)
    show (Flow.act (program.run { setting with callbacks }) >>= _) =
      (Flow.act (program.run setting) >>= _)
    rw [hrun]
    rfl

/-- What follows a computed value only matters for the value. -/
theorem ofExcept_bind_congr {α β : Type} {result : Except Error α} {next next' : α → Flow σ β}
    (h : ∀ a, result = .ok a → next a = next' a) :
    (MonadExcept.ofExcept result >>= next) = (MonadExcept.ofExcept result >>= next') := by
  cases result with
  | error e => rfl
  | ok a => exact h a rfl

theorem addItem_congr (h : SameCallbacks equipment callbacks) (parts : Parts) (identifier : String)
    (event : Event) : addItem { equipment with callbacks } parts identifier event =
      addItem equipment parts identifier event := by
  refine bind_congr fun t => ofExcept_bind_congr fun before hbefore =>
    ofExcept_bind_congr fun after hafter => bind_congr fun desk => bind_congr fun fragment =>
    bind_congr fun count => bind_congr fun t' => ?_
  dsimp only
  rw [runHooks_congr h hbefore, runHooks_congr h hafter]
  rfl

theorem deleteItem_congr (h : SameCallbacks equipment callbacks) (parts : Parts)
    (control item : NodeId) (event : Event) :
    deleteItem { equipment with callbacks } parts control item event =
      deleteItem equipment parts control item event := by
  refine bind_congr fun t => ofExcept_bind_congr fun before hbefore =>
    ofExcept_bind_congr fun after hafter => ?_
  dsimp only
  rw [runHooks_congr h hbefore, runHooks_congr h hafter]

theorem handleAdd_congr (h : SameCallbacks equipment callbacks) (event : Event) :
    handleAdd { equipment with callbacks } event = handleAdd equipment event := by
  refine bind_congr fun desk => bind_congr fun ⟨parts, identifier⟩ => ?_
  dsimp only
  rw [addItem_congr h]

theorem handleDelete_congr (h : SameCallbacks equipment callbacks) (event : Event) (item : NodeId) :
    handleDelete { equipment with callbacks } event item = handleDelete equipment event item := by
  unfold handleDelete
  simp only [deleteItem_congr h]

end Scope

namespace Page

variable {σ : Type} {page page' : Page σ} {n : Nat}

/-- The pages differ at most in what is registered under the forbidden words. -/
inductive Twins (page : Page σ) : Page σ → Prop where
  | intro (callbacks : Callbacks σ) : Scope.SameCallbacks page.equipment callbacks →
      Twins page { page with callbacks }

theorem Twins.listeners (h : page.Twins page') : page'.listeners = page.listeners := by
  cases h
  rfl

theorem Twins.tree (h : page.Twins page') : page'.tree = page.tree := by
  cases h
  rfl

theorem Twins.refl (page : Page σ) : page.Twins page := .intro page.callbacks fun _ _ => rfl

theorem Twins.foldl {α : Type} {step : Page σ → α → Page σ}
    (hstep : ∀ a {page page' : Page σ}, page.Twins page' → (step page a).Twins (step page' a))
    (h : page.Twins page') (steps : List α) :
    (steps.foldl step page).Twins (steps.foldl step page') := by
  induction steps generalizing page page' with
  | nil => exact h
  | cons a steps ih => exact ih (hstep a h)

theorem Twins.withScope (h : page.Twins page') (operation : String)
    (flow : Equipment σ → Flow σ Unit)
    (hflow : ∀ equipment callbacks, Scope.SameCallbacks equipment callbacks →
      flow { equipment with callbacks } = flow equipment) :
    (page.withScope n operation flow).Twins (page'.withScope n operation flow) := by
  obtain ⟨callbacks, hsame⟩ := h
  have hsame' : flow (Page.equipment { page with callbacks }) = flow page.equipment :=
    hflow page.equipment callbacks hsame
  unfold Page.withScope
  dsimp only
  rw [hsame']
  rcases page.scopes[n]? with _ | scope
  · exact .intro callbacks hsame
  · dsimp only [Page.tree]
    split
    · exact .intro callbacks hsame
    · exact .intro callbacks hsame

theorem Twins.start (h : page.Twins page') (number : Nat) :
    (page.start number).Twins (page'.start number) :=
  h.withScope "initialize" Scope.start fun _ _ _ => rfl

theorem Twins.perform (h : page.Twins page') (event : Event) (action : Action) :
    (page.perform event action).Twins (page'.perform event action) := by
  cases action with
  | add number =>
    refine h.withScope "add" (Scope.handleAdd · event) fun _ _ hsame => ?_
    exact Scope.handleAdd_congr hsame event
  | delete number item =>
    refine h.withScope "delete" (Scope.handleDelete · event item) fun _ _ hsame => ?_
    exact Scope.handleDelete_congr hsame event item

theorem Twins.arrive (h : page.Twins page') (event : Event) (node : NodeId) :
    (page.arrive event node).Twins (page'.arrive event node) := by
  unfold Page.arrive
  rw [h.listeners]
  exact h.foldl (fun action _ _ htwins => htwins.perform _ action) _

theorem Twins.click (h : page.Twins page') (target : NodeId) :
    (page.click target).1.Twins (page'.click target).1 := by
  unfold Page.click
  rw [h.tree]
  exact h.foldl (fun node _ _ htwins => htwins.arrive _ node) _

theorem Twins.attach (h : page.Twins page') (root : NodeId) :
    (page.attach root).1.Twins (page'.attach root).1 ∧
      (page'.attach root).2 = (page.attach root).2 := by
  obtain ⟨callbacks, hsame⟩ := h
  unfold Page.attach
  dsimp only
  split
  · exact ⟨.intro callbacks hsame, rfl⟩
  · exact ⟨.intro callbacks hsame, rfl⟩

theorem Twins.attachAll (h : page.Twins page') (roots : List NodeId) :
    (page.attachAll roots).1.Twins (page'.attachAll roots).1 ∧
      (page'.attachAll roots).2 = (page.attachAll roots).2 := by
  induction roots generalizing page page' with
  | nil => exact ⟨h, rfl⟩
  | cons root roots ih =>
    obtain ⟨htwins, hnumber⟩ := h.attach root
    obtain ⟨hall, hnumbers⟩ := ih htwins
    refine ⟨hall, ?_⟩
    simp only [Page.attachAll, hnumber, hnumbers]

theorem Twins.discover (h : page.Twins page') :
    page.discover.1.Twins page'.discover.1 ∧ page'.discover.2 = page.discover.2 := by
  unfold Page.discover
  rw [h.tree]
  exact h.attachAll _

theorem Twins.startAll (h : page.Twins page') : page.startAll.Twins page'.startAll := by
  obtain ⟨htwins, hnumbers⟩ := h.discover
  show (page.discover.2.foldl Page.start page.discover.1).Twins
    (page'.discover.2.foldl Page.start page'.discover.1)
  rw [hnumbers]
  exact htwins.foldl (fun number _ _ htwins => htwins.start number) _

theorem Twins.changeScope (h : page.Twins page') (f : Scope σ → Scope σ) :
    (page.changeScope n f).Twins (page'.changeScope n f) := by
  obtain ⟨callbacks, hsame⟩ := h
  unfold Page.changeScope
  dsimp only
  split
  · exact .intro callbacks hsame
  · exact .intro callbacks hsame

theorem find?_register (callbacks : Callbacks σ) (name : String) (callback : Callback σ)
    (other : String) : (callbacks.register name callback).find? other =
      if other = name then some callback else callbacks.find? other := by
  unfold Callbacks.find? Callbacks.register
  rw [List.lookup_cons]
  by_cases hsame : other = name
  · rw [if_pos hsame, beq_iff_eq.2 hsame]
  · rw [if_neg hsame, beq_eq_false_iff_ne.2 hsame]
    dsimp only
    induction callbacks.entries with
    | nil => rfl
    | cons entry entries ih =>
      by_cases hentry : entry.1 = name
      · rw [List.filter_cons_of_neg (by simp [hentry]), ih, List.lookup_cons, hentry,
          beq_eq_false_iff_ne.2 hsame]
      · rw [List.filter_cons_of_pos (by simp [hentry]), List.lookup_cons, List.lookup_cons, ih]

theorem Twins.registerCallback (h : page.Twins page') (name : String) (callback : Callback σ) :
    (page.registerCallback name callback).Twins (page'.registerCallback name callback) := by
  obtain ⟨callbacks, hsame⟩ := h
  refine .intro (callbacks.register name callback) fun other hother => ?_
  show _ = (page.callbacks.register name callback).find? other
  rw [find?_register, find?_register]
  split
  · rfl
  · exact hsame other hother

/-- A registration under a forbidden word makes no difference. -/
theorem Twins.registerForbidden (h : page.Twins page') {name : String} (hname : name ∈ forbidden)
    (callback : Callback σ) : page.Twins (page'.registerCallback name callback) := by
  obtain ⟨callbacks, hsame⟩ := h
  refine .intro (callbacks.register name callback) fun other hother => ?_
  rw [find?_register, if_neg]
  · exact hsame other hother
  · rintro rfl
    exact hother hname

theorem Twins.apply (h : page.Twins page') (operation : Operation σ) :
    (operation.apply page).Twins (operation.apply page') := by
  cases operation with
  | attach root => exact (h.attach root).1
  | discover => exact h.discover.1
  | start number => exact h.start number
  | startAll => exact h.startAll
  | click target => exact h.click target
  | addFromData number data =>
    exact h.withScope "add_item_using_data" (Scope.handleData · data) fun _ _ _ => rfl
  | registerRoutines number routines => exact h.changeScope _
  | registerAfterStart number routine => exact h.changeScope _
  | registerCallback name callback => exact h.registerCallback name callback
  | edit operation =>
    obtain ⟨callbacks, hsame⟩ := h
    exact .intro callbacks hsame

/-- Whether the operation registers a callback under a forbidden word. -/
def Operation.registersForbidden : Operation σ → Bool
  | .registerCallback name _ => name ∈ forbidden
  | _ => false

theorem Twins.foldl_filter (h : page.Twins page') (operations : List (Operation σ)) :
    ((operations.filter (! ·.registersForbidden)).foldl Operation.apply page).Twins
      (operations.foldl Operation.apply page') := by
  induction operations generalizing page page' with
  | nil => exact h
  | cons operation operations ih =>
    by_cases hforbidden : operation.registersForbidden
    · rw [List.filter_cons_of_neg (by simp [hforbidden]), List.foldl_cons]
      refine ih ?_
      cases operation with
      | registerCallback name callback => exact h.registerForbidden (of_decide_eq_true hforbidden) _
      | _ => cases hforbidden
    · rw [List.filter_cons_of_pos (by simp [hforbidden]), List.foldl_cons, List.foldl_cons]
      exact ih (h.apply operation)

/-- No callee, member or parameter that compiled code names is a forbidden word, so the program runs
    the same whatever is registered under forbidden words. A page in use, whose hook code is all
    compiled, does the same when these registrations are left out. -/
theorem forbidden_out_of_reach :
    (∀ code parameters program, compile code parameters = .ok program →
      (∀ name, program.Mentions name → name ∉ forbidden) ∧
      ∀ {σ : Type} (setting : Setting σ) (callbacks : Callbacks σ),
        (∀ name, name ∉ forbidden → callbacks.find? name = setting.callbacks.find? name) →
          program.run { setting with callbacks } = program.run setting) ∧
    ∀ {σ : Type} (page : Page σ) (operations : List (Operation σ)),
      ((operations.filter (! ·.registersForbidden)).foldl Operation.apply page).Twins
        (operations.foldl Operation.apply page) := by
  constructor
  · intro code parameters program hcompiled
    have hmentions : ∀ name, program.Mentions name → name ∉ forbidden :=
      fun name hname => mentions_not_forbidden hcompiled hname
    refine ⟨hmentions, ?_⟩
    intro σ setting callbacks hsame
    exact Program.run_congr fun name hname => hsame name (hmentions name hname)
  · intro σ page operations
    exact (Twins.refl page).foldl_filter operations

/-- A program that calls another callback does not notice one that is registered as `fetch`. -/
theorem fetch_out_of_reach :
    let program : Program := ⟨["child"], [⟨.callback "ping", [⟨.parameter 0, []⟩]⟩]⟩
    compile "ping(child)" ["child"] = .ok program ∧
      (∀ name, program.Mentions name → name ∉ forbidden) ∧
      ∀ (setting : Setting Unit) (callback : Callback Unit),
        program.run { setting with callbacks := setting.callbacks.register "fetch" callback } =
          program.run setting := by
  intro program
  have hcompiled : compile "ping(child)" ["child"] = .ok program := by decide +kernel
  obtain ⟨hmentions, hrun⟩ := forbidden_out_of_reach.1 _ _ _ hcompiled
  refine ⟨hcompiled, hmentions, fun setting callback => hrun setting _ fun name hname => ?_⟩
  rw [find?_register, if_neg]
  rintro rfl
  exact hname (by decide)

end Page

end Repeater
