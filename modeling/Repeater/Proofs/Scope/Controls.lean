/-
  Repeater/Proofs/Scope/Controls.lean
  ===================================
  **Which control of an item is wired.**

  Marked elements of an item are looked for in document order, and the search ends at the first: it
  is the control if its tag is accepted, and otherwise the item has none. So an element that is no
  control hides the controls behind it (`Hides`), and this is the only way to miss a control
  (`finds_control_iff`). An item that a flow takes in has one listener if it has a control, and none
  otherwise: listeners from before do not outlive a start (`Concluded.bindings_item`), and a new
  item has none (`Counted.bindings_item`). The hook after a start comes too late to change that
  (`exec_start_withoutAfter`).
-/
import Repeater.Proofs.Scope.DataAdditions
import Repeater.Proofs.Scope.Rewiring

namespace Repeater

open Dom Hook Stamp Tree

variable {σ : Type}

namespace Scope

variable {equipment : Equipment σ} {config : Config} {desk desk' desk₁ : Desk σ} {parts : Parts}
  {identifier : String} {t t₁ : Tree} {item x : NodeId} {items : List NodeId} {n : Nat}

/-! ## Marked elements -/

/-- The elements at and below an item that are marked as delete controls, in document order. -/
def markers (t : Tree) (identifier : String) (item : NodeId) : List NodeId :=
  t.selectFrom item (.attributeIs Directive.delete.name identifier)

/-- Whether an element has a tag that delete controls may have. -/
def accepts (config : Config) (t : Tree) (x : NodeId) : Bool := (t.tag? x).any config.isControl

/-- A delete control of an item is an element at or below it that is marked with the identifier of
    the scope and has an accepted tag. -/
structure IsControlOf (config : Config) (t : Tree) (identifier : String) (item control : NodeId) :
    Prop where
  inside : t.AtOrAbove item control
  marked : t.attribute? control Directive.delete.name = some identifier
  accepted : accepts config t control = true

theorem isControlOf_iff (h : t.WellFormed) : IsControlOf config t identifier item x ↔
    x ∈ markers t identifier item ∧ accepts config t x = true := by
  unfold markers
  rw [mem_selectFrom h, satisfies_attributeIs]
  constructor
  · rintro ⟨hinside, hmarked, haccepted⟩
    exact ⟨⟨hinside, hmarked⟩, haccepted⟩
  · rintro ⟨⟨hinside, hmarked⟩, haccepted⟩
    exact ⟨hinside, hmarked, haccepted⟩

theorem control?_eq_some_iff {control : NodeId} :
    control? config t identifier item = some control ↔
      ∃ rest, markers t identifier item = control :: rest ∧ accepts config t control = true := by
  show (markers t identifier item).head?.filter (accepts config t) = some control ↔ _
  rw [Option.filter_eq_some_iff, List.head?_eq_some_iff]
  simp only [exists_and_right]

/-- The first marked element of an item is no control, but one of the others is. -/
def Hides (config : Config) (t : Tree) (identifier : String) (item : NodeId) : Prop :=
  ∃ first rest, markers t identifier item = first :: rest ∧ accepts config t first = false ∧
    ∃ control ∈ rest, accepts config t control = true

/-- If an item has controls, then one of them is found, unless they are hidden. -/
theorem finds_control_iff (h : t.WellFormed) (config : Config) (identifier : String)
    (item : NodeId) :
    ((∃ control, IsControlOf config t identifier item control) →
      ∃ control, IsControlOf config t identifier item control ∧
        control? config t identifier item = some control) ↔
      ¬ Hides config t identifier item := by
  simp only [isControlOf_iff h, control?_eq_some_iff]
  unfold Hides
  rcases markers t identifier item with _ | ⟨first, rest⟩
  · simp
  -- the search ends at the first marked element, whether it is a control or not
  rcases hfirst : accepts config t first with _ | _ <;> simp [hfirst]

/-! ## The listeners for one item -/

/-- The listener for an item, if it has a control. -/
def deletion? (config : Config) (t : Tree) (identifier : String) (n : Nat) (item : NodeId) :
    Option Binding :=
  (control? config t identifier item).map (⟨·, .click, .delete n item⟩)

theorem deletions_cons (config : Config) (t : Tree) (identifier : String) (n : Nat)
    (item : NodeId) (rest : List NodeId) : deletions config t identifier n (item :: rest) =
      (deletion? config t identifier n item).toList ++ deletions config t identifier n rest := by
  unfold deletions deletion?
  rw [List.filterMap_cons]
  rcases control? config t identifier item with _ | control <;> rfl

theorem filter_deletion? (config : Config) (t : Tree) (identifier : String) (n : Nat)
    (other item : NodeId) : (deletion? config t identifier n other).toList.filter
      (fun b => b.action = .delete n item) =
        if other = item then (deletion? config t identifier n other).toList else [] := by
  unfold deletion?
  by_cases hother : other = item <;>
    rcases control? config t identifier other with _ | control <;> simp [hother]

/-- Among the listeners for some items are those for each of them. -/
theorem filter_deletions_item (hnodup : items.Nodup) (hitem : item ∈ items) :
    (deletions config t identifier n items).filter (fun b => b.action = .delete n item) =
      (deletion? config t identifier n item).toList := by
  induction items with
  | nil => cases hitem
  | cons other rest ih =>
    obtain ⟨hnot, hnodup⟩ := List.nodup_cons.1 hnodup
    rw [deletions_cons, List.filter_append, filter_deletion?]
    split
    · next hother =>
      subst hother
      rw [List.filter_eq_nil_iff.2, List.append_nil]
      intro b hb hdeletes
      obtain ⟨item', hitem', control, -, rfl⟩ := mem_deletions.1 hb
      have hsame : item' = other := by simpa using hdeletes
      exact hnot (hsame ▸ hitem')
    · next hother =>
      exact ih hnodup ((List.mem_cons.1 hitem).resolve_left (Ne.symm hother))

/-- The listeners for an item that an addition counts, if there were none before. -/
theorem Counted.bindings_item (h : Counted equipment items desk desk')
    (hidentifier : desk.scope.identifier = some identifier) (hnodup : items.Nodup)
    (hitem : item ∈ items)
    (hnone : ∀ b ∈ desk.listeners.bindings, b.action ≠ .delete desk.scope.number item) :
    (desk'.listeners.bindings.filter fun b => b.action = .delete desk.scope.number item) =
      (deletion? equipment.config desk'.stage.tree identifier desk.scope.number item).toList := by
  rw [h.bindings hidentifier, List.filter_append, filter_deletions_item hnodup hitem,
    List.filter_eq_nil_iff.2 (by simpa using hnone), List.nil_append]

/-- The listeners for an item in the container after a start. -/
theorem Concluded.bindings_item (h : Concluded equipment desk identifier parts t₁ desk₁)
    (hwf : desk.stage.tree.WellFormed)
    (hitem : item ∈ desk.stage.tree.elementChildren parts.container) :
    (desk₁.listeners.bindings.filter fun b => b.action = .delete desk.scope.number item) =
      (deletion? equipment.config desk₁.stage.tree identifier desk.scope.number item).toList := by
  have hparent := hwf.parent_of_child (List.mem_of_mem_filter hitem)
  have hold : (desk.listeners.bindings.filter fun b => outlivesStart desk.stage.tree
      desk.scope.number parts.container b.action).filter
        (fun b => b.action = .delete desk.scope.number item) = [] := by
    rw [List.filter_eq_nil_iff]
    intro b hb hdeletes
    rw [decide_eq_true_eq] at hdeletes
    have hkept := (List.mem_filter.1 hb).2
    rw [hdeletes, outlivesStart_delete] at hkept
    exact hkept.2 hparent
  have hnodup : (desk.stage.tree.elementChildren parts.container).Nodup :=
    (hwf.nodup_children _).filter _
  rw [h.bindings, List.filter_append, List.filter_append, hold,
    filter_deletions_item hnodup hitem, h.tree]
  unfold deletion?
  rw [control?_marked]
  simp

/-! ## The hook after a start -/

/-- What a start does before the hook after it. -/
def prepare (equipment : Equipment σ) (t : Tree) (scope : Scope σ) (identifier : String)
    (parts : Parts) : Flow σ Unit := do
  Flow.updateListeners (·.retain (outlivesStart t scope.number parts.container))
  Flow.updateScope fun scope => { scope with identifier := some identifier, parts := some parts }
  (pending t scope parts).forM (takeIn identifier)
  (t.elementChildren parts.container).forM (wireDelete equipment)
  Flow.updateListeners (·.add parts.trigger .click (.add scope.number))
  Flow.edit
    (Edit.setAttribute scope.root Directive.started.name equipment.config.startedValue)
  Flow.updateScope fun scope => { scope with started := true }
  Flow.act (Act.log ⟨.info, .engine, "scope initialized",
    [("scope", .text identifier), ("items", .count (t.elementChildren parts.container).length)]⟩)

theorem establish_eq (equipment : Equipment σ) (t : Tree) (scope : Scope σ) (identifier : String)
    (parts : Parts) : establish equipment t scope identifier parts = (do
      prepare equipment t scope identifier parts
      runAfterStart equipment parts (t.elementChildren parts.container)) := by
  unfold establish conclude prepare
  simp only [bind_assoc]

theorem blind_takeIn (identifier : String) (item : NodeId) :
    (takeIn identifier item : Flow σ Unit).Blind := by
  refine .get_bind (fun desk => ?_) fun _ _ _ => rfl
  refine (Flow.blind_stamp _).bind fun _ => (Flow.blind_stamp _).bind fun _ => ?_
  exact fun _ _ _ => rfl

theorem blind_prepare (t : Tree) (scope : Scope σ) (identifier : String) (parts : Parts) :
    (prepare equipment t scope identifier parts).Blind := by
  have hsame : ∀ f : Scope σ → Scope σ, (∀ scope routines afterStart,
      f { scope with routines, afterStart } = { f scope with routines, afterStart }) →
      (Flow.updateScope f).Blind := by
    intro f hf desk routines afterStart
    rw [Flow.exec_updateScope, Flow.exec_updateScope]
    exact congrArg (fun scope => (Except.ok (), { desk with scope })) (hf desk.scope _ _)
  unfold prepare
  refine Flow.Blind.bind (fun _ _ _ => rfl) fun _ => ?_
  refine (hsame _ fun _ _ _ => rfl).bind fun _ => ?_
  refine (Flow.Blind.forM (blind_takeIn identifier)).bind fun _ => ?_
  refine (Flow.Blind.forM blind_wireDelete).bind fun _ => ?_
  refine Flow.Blind.bind (fun _ _ _ => rfl) fun _ => ?_
  refine (Flow.blind_edit _).bind fun _ => ?_
  exact (hsame _ fun _ _ _ => rfl).bind fun _ _ _ _ => rfl

/-- The desk of a scope without a hook after the start. -/
def withoutAfter (desk : Desk σ) : Desk σ := desk.withHooks desk.scope.routines none

/-- A start wires the same whether a hook runs after it or not. -/
theorem exec_start_withoutAfter (equipment : Equipment σ) (desk : Desk σ) :
    (exec (start equipment) desk).2.listeners =
        (exec (start equipment) (withoutAfter desk)).2.listeners ∧
      (exec (start equipment) desk).2.scope.identifier =
        (exec (start equipment) (withoutAfter desk)).2.scope.identifier := by
  have hestablish : ∀ identifier parts,
      establish equipment desk.stage.tree (withoutAfter desk).scope identifier parts =
        establish equipment desk.stage.tree desk.scope identifier parts := fun _ _ => rfl
  rw [exec_start_eq, exec_start_eq, show (withoutAfter desk).stage = desk.stage from rfl,
    show (withoutAfter desk).scope.root = desk.scope.root from rfl,
    show (withoutAfter desk).scope.started = desk.scope.started from rfl]
  rcases findParts desk.stage.tree desk.scope.root with e | ⟨identifier, parts⟩
  · exact ⟨rfl, rfl⟩
  dsimp only
  rw [hestablish]
  split
  swap
  · exact ⟨rfl, rfl⟩
  have hblind : exec (prepare equipment desk.stage.tree desk.scope identifier parts)
      (withoutAfter desk) = _ := blind_prepare _ _ _ _ _ _ _
  rw [establish_eq, exec_bind, exec_bind, hblind]
  rcases exec (prepare equipment desk.stage.tree desk.scope identifier parts) desk with
    ⟨e | ⟨⟩, between⟩
  · exact ⟨rfl, rfl⟩
  dsimp only
  obtain ⟨hscope, hlisteners⟩ := frame_runAfterStart equipment parts
    (desk.stage.tree.elementChildren parts.container) between
  obtain ⟨hscope', hlisteners'⟩ := frame_runAfterStart equipment parts
    (desk.stage.tree.elementChildren parts.container)
    (between.withHooks desk.scope.routines none)
  rw [hscope, hlisteners, hscope', hlisteners']
  exact ⟨rfl, rfl⟩

/-! ## The items of a flow -/

/-- The items of a start: the elements in the container, if the scope has been started before or all
    of them are ready to be taken in. -/
def foundItems (desk : Desk σ) : List NodeId :=
  let t := desk.stage.tree
  match findParts t desk.scope.root with
  | .error _ => []
  | .ok (_, parts) =>
    let items := t.elementChildren parts.container
    if desk.scope.started || items.all (sequencesReady t) then items else []

/-- The items of an addition: the elements in the draft that it makes. -/
def draftItems (draft : Parts → String → Flow σ NodeId) (desk : Desk σ) : List NodeId :=
  match desk.scope.resolved with
  | .error _ => []
  | .ok (parts, identifier) =>
    match exec (draft parts identifier) (desk.doing .adding) with
    | (.error _, _) => []
    | (.ok f, drafted) => drafted.stage.tree.elementChildren f

theorem draftItems_eq {draft : Parts → String → Flow σ NodeId} {f : NodeId} {drafted : Desk σ}
    (hresolved : desk.scope.resolved = .ok (parts, identifier))
    (hrun : exec (draft parts identifier) (desk.doing .adding) = (.ok f, drafted)) :
    draftItems draft desk = drafted.stage.tree.elementChildren f := by
  unfold draftItems
  rw [hresolved]
  dsimp only
  rw [hrun]

/-- The items are new, and have been wired and counted. -/
structure CountedNew (equipment : Equipment σ) (items : List NodeId) (desk desk' : Desk σ) :
    Prop where
  identifier : desk.scope.identifier.isSome
  counted : Counted equipment items desk desk'
  nodup : items.Nodup
  new : ∀ item ∈ items, ¬ desk.stage.tree.Has item

theorem TameHooks.handleAdd_counts (desk : Desk σ) (hhooks : TameHooks equipment desk.scope)
    (h : desk.stage.tree.WellFormed) (hidle : desk.scope.activity = .idle) {event : Event}
    (hrun : exec (Scope.handleAdd equipment event) desk = (.ok ⟨⟩, desk')) :
    CountedNew equipment (draftItems makeDraft desk) desk desk' := by
  rcases hresolved : desk.scope.resolved with e | ⟨parts, identifier⟩
  · unfold Scope.handleAdd at hrun
    rw [exec_get_bind, hresolved, exec_bind_error (exec_ofExcept _ _)] at hrun
    cases hrun
  obtain ⟨result, desk₁, hrun₁, hend⟩ := TameHooks.exec_addItem_drafted (desk.doing .adding)
    ⟨hhooks.callbacks, hhooks.routines⟩ h parts identifier event
  rw [Scope.exec_handleAdd hidle hresolved, hrun₁] at hrun
  cases hrun
  rcases hend with ⟨⟨e, herror⟩, -⟩ | ⟨-, f, t₁, hdraft, hdrafted, -, hcounted⟩
  · cases herror
  rw [draftItems_eq hresolved hdraft]
  refine ⟨by rw [(resolved_eq_ok hresolved).2]; rfl, hcounted.doing hidle, ?_, ?_⟩
  · exact (hdrafted.wellFormed.nodup_children f).filter _
  · exact fun item hitem => (new_of_mem_elementChildren h hdrafted.wellFormed hdrafted.extends_old
      hdrafted.new hitem).1

theorem handleData_counts (desk : Desk σ) (h : desk.stage.tree.WellFormed)
    (hidle : desk.scope.activity = .idle) {data : List (String × String)}
    (hrun : exec (handleData equipment data) desk = (.ok ⟨⟩, desk')) :
    CountedNew equipment (draftItems (makeFilledDraft · · data) desk) desk desk' := by
  rcases hresolved : desk.scope.resolved with e | ⟨parts, identifier⟩
  · rw [exec_handleData_unresolved hresolved] at hrun
    cases hrun
  obtain ⟨result, desk₁, hrun₁, hend⟩ :=
    exec_addFilled_drafted (desk.doing .adding) h equipment parts identifier data
  rw [exec_handleData hidle hresolved, hrun₁] at hrun
  cases hrun
  rcases hend with ⟨⟨e, herror⟩, -⟩ | ⟨-, p, f, t', hdraft, hfilled⟩
  · cases herror
  rw [draftItems_eq hresolved hdraft]
  refine ⟨by rw [(resolved_eq_ok hresolved).2]; rfl, hfilled.counted.doing hidle, ?_, ?_⟩
  · exact (hfilled.wellFormed.nodup_children f).filter _
  · exact fun item hitem => (new_of_mem_elementChildren h hfilled.wellFormed hfilled.extends_old
      hfilled.new hitem).1

/-- The listeners for an item of a start, in the tree in which the start has wired it. -/
theorem bindings_start_item (desk : Desk σ) (h : desk.stage.tree.WellFormed)
    (equipment : Equipment σ) (hitem : item ∈ foundItems desk) :
    ∃ identifier, (exec (start equipment) desk).2.scope.identifier = some identifier ∧
      ((exec (start equipment) desk).2.listeners.bindings.filter
          fun b => b.action = .delete desk.scope.number item) =
        (deletion? equipment.config (exec (start equipment) (withoutAfter desk)).2.stage.tree
          identifier desk.scope.number item).toList := by
  obtain ⟨hlisteners, hidentifier⟩ := exec_start_withoutAfter equipment desk
  rw [hlisteners, hidentifier]
  have h' : (withoutAfter desk).stage.tree.WellFormed := h
  rcases exec_start_unhooked h' rfl equipment with
    ⟨identifier, parts, t₁, desk₁, hchecked, hconcluded, hrun⟩ | ⟨hrefused, -⟩
  · have hfound : findParts desk.stage.tree desk.scope.root = .ok (identifier, parts) :=
      hchecked.found
    have hinside : item ∈ desk.stage.tree.elementChildren parts.container := by
      unfold foundItems at hitem
      simp only [hfound] at hitem
      split at hitem
      · exact hitem
      · cases hitem
    rw [hrun]
    exact ⟨identifier, by rw [hconcluded.scope], hconcluded.bindings_item h hinside⟩
  · exfalso
    apply hrefused
    unfold foundItems at hitem
    dsimp only at hitem
    split at hitem
    · cases hitem
    next parts hfound =>
    split at hitem
    swap
    · cases hitem
    next hready =>
      have hready : desk.scope.started = true ∨ ∀ item ∈ desk.stage.tree.elementChildren
          parts.container, sequencesReady desk.stage.tree item = true := by simpa using hready
      exact ⟨_, parts, hfound, hready⟩

end Scope

end Repeater
