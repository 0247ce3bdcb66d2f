/-
  Repeater/Proofs/Scope/Bindings.lean
  ===================================
  **What the listeners of a page are bound to.**

  Without its number, a listener is a `Binding`: the node it waits on, the kind of event, and what
  it does. Wiring items adds the bindings of their delete controls (`bindings_wireAll`), where the
  control of an item is the first element in it that carries the directive, if its tag is accepted
  (`control?`). A start drops the bindings that do not outlive it, and adds those of the items in
  the container and that of the trigger (`Concluded.bindings`). The mark that a start puts on the
  root is not seen by any search for the elements of a scope or for a control (`findParts_marked`,
  `control?_marked`), so that starting a scope again binds the same once more
  (`exec_start_again`).
-/
import Repeater.Proofs.Dom.Lasting
import Repeater.Proofs.Scope.Starting

namespace Repeater

open Dom Hook Stamp Tree

/-- What a listener waits for and does, without its number. -/
structure Binding where
  target : NodeId
  kind : EventKind
  action : Action
deriving DecidableEq, Repr

def Listener.binding (l : Listener Action) : Binding := ⟨l.target, l.kind, l.handler⟩

namespace Listeners

/-- The bindings in the order of their registration. -/
def bindings (ls : Listeners Action) : List Binding := ls.entries.map Listener.binding

theorem bindings_add (ls : Listeners Action) (target : NodeId) (kind : EventKind)
    (action : Action) : (ls.add target kind action).bindings = ls.bindings ++ [⟨target, kind, action⟩] :=
  List.map_append

theorem bindings_retain (ls : Listeners Action) (keep : Action → Bool) :
    (ls.retain keep).bindings = ls.bindings.filter fun b => keep b.action := by
  unfold bindings
  rw [List.filter_map]
  rfl

/-- The bindings tell what is done on a node, and in which order. -/
theorem map_on (ls : Listeners Action) (target : NodeId) (kind : EventKind) :
    (ls.on target kind).map (·.handler) =
      (ls.bindings.filter fun b => b.target = target && b.kind = kind).map (·.action) := by
  unfold bindings on
  rw [List.filter_map, List.map_map]
  rfl

theorem map_on_eq_of_bindings {ls ls' : Listeners Action} (h : ls'.bindings = ls.bindings)
    (target : NodeId) (kind : EventKind) :
    (ls'.on target kind).map (·.handler) = (ls.on target kind).map (·.handler) := by
  rw [map_on, map_on, h]

end Listeners

namespace Scope

variable {σ : Type} {equipment : Equipment σ} {config : Config} {desk desk' desk₁ : Desk σ}
  {scope : Scope σ} {identifier : String} {parts : Parts} {root item : NodeId}
  {t t' t₁ : Tree}

/-! ## Controls -/

/-- The delete control of an item: the first element in it that carries the directive with the
    identifier, if its tag is accepted. -/
def control? (config : Config) (t : Tree) (identifier : String) (item : NodeId) : Option NodeId :=
  (t.selectFrom item (.attributeIs Directive.delete.name identifier)).head?.filter fun control =>
    (t.tag? control).any config.isControl

/-- The control of an item depends on nothing but what the item holds. -/
theorem control?_congr (h : t.WellFormed) (hitem : t.Has item) (hsize : t.size ≤ t'.size)
    (hsame : ∀ x, t.AtOrAbove item x →
      t'.children x = t.children x ∧ t'.content? x = t.content? x) (identifier : String) :
    control? config t' identifier item = control? config t identifier item := by
  have hselected : t'.selectFrom item (.attributeIs Directive.delete.name identifier) =
      t.selectFrom item (.attributeIs Directive.delete.name identifier) :=
    selectFrom_congr h hitem hsize fun x hx => ⟨(hsame x hx).1, satisfies_congr (hsame x hx).2 _⟩
  unfold control?
  rw [hselected]
  rcases hhead : (t.selectFrom item (.attributeIs Directive.delete.name identifier)).head? with
    _ | control
  · rfl
  have hbelow := ((mem_selectFrom h).1 (List.mem_of_head? hhead)).1
  rw [Option.filter_some, Option.filter_some]
  unfold Tree.tag?
  rw [element?_congr (hsame control hbelow).2]

theorem atOrAbove_of_control? {control : NodeId} (h : t.WellFormed)
    (hcontrol : control? config t identifier item = some control) : t.AtOrAbove item control := by
  obtain ⟨hhead, -⟩ := Option.filter_eq_some_iff.1 hcontrol
  exact ((mem_selectFrom h).1 (List.mem_of_head? hhead)).1

/-- The bindings of the delete controls of items. -/
def deletions (config : Config) (t : Tree) (identifier : String) (number : Nat)
    (items : List NodeId) : List Binding :=
  items.filterMap fun item =>
    (control? config t identifier item).map fun control => ⟨control, .click, .delete number item⟩

theorem mem_deletions {number : Nat} {items : List NodeId} {b : Binding} :
    b ∈ deletions config t identifier number items ↔ ∃ item ∈ items, ∃ control,
      control? config t identifier item = some control ∧
        b = ⟨control, .click, .delete number item⟩ := by
  unfold deletions
  simp only [List.mem_filterMap, Option.map_eq_some_iff, eq_comm (a := b)]

theorem bindings_wired (hidentifier : scope.identifier = some identifier) (t : Tree) (item : NodeId)
    (ls : Listeners Action) : (wired equipment t scope item ls).bindings =
      ls.bindings ++ deletions equipment.config t identifier scope.number [item] := by
  unfold wired deletions
  rw [hidentifier, List.filterMap_cons, List.filterMap_nil]
  unfold control?
  dsimp only
  rcases (t.selectFrom item (.attributeIs Directive.delete.name identifier)).head? with _ | control
  · simp
  by_cases haccepted : (t.tag? control).any equipment.config.isControl = true
  · simp [haccepted, Listeners.bindings_add, Option.filter_some]
  · simp [haccepted, Option.filter_some]

theorem bindings_wireAll (hidentifier : scope.identifier = some identifier) (t : Tree)
    (items : List NodeId) (ls : Listeners Action) :
    (items.foldl (fun ls item => wired equipment t scope item ls) ls).bindings =
      ls.bindings ++ deletions equipment.config t identifier scope.number items := by
  induction items generalizing ls with
  | nil => simp [deletions]
  | cons item rest ih =>
    rw [List.foldl_cons, ih, bindings_wired hidentifier, List.append_assoc]
    congr 1
    exact List.filterMap_append.symm

/-- The bindings after items have been counted. -/
theorem Counted.bindings {items : List NodeId} (h : Counted equipment items desk desk')
    (hidentifier : desk.scope.identifier = some identifier) :
    desk'.listeners.bindings = desk.listeners.bindings ++
      deletions equipment.config desk'.stage.tree identifier desk.scope.number items := by
  rw [h.listeners]
  exact bindings_wireAll hidentifier _ _ _

/-- The bindings after a start. -/
theorem Concluded.bindings (h : Concluded equipment desk identifier parts t₁ desk₁) :
    desk₁.listeners.bindings =
      (desk.listeners.bindings.filter fun b =>
        outlivesStart desk.stage.tree desk.scope.number parts.container b.action) ++
      deletions equipment.config t₁ identifier desk.scope.number
        (desk.stage.tree.elementChildren parts.container) ++
      [⟨parts.trigger, .click, .add desk.scope.number⟩] := by
  have hidentifier : desk₁.scope.identifier = some identifier := by rw [h.scope]
  have hnumber : desk₁.scope.number = desk.scope.number := by rw [h.scope]
  rw [h.listeners, Listeners.bindings_add, bindings_wireAll hidentifier, hnumber,
    Listeners.bindings_retain]

/-! ## What does not see the mark of a start -/

section marked

variable (equipment) (root) (t)

theorem tag?_marked (x : NodeId) : (marked equipment root t).tag? x = t.tag? x := by
  unfold Tree.tag?
  rw [element?_marked, Option.map_map]
  congr 1
  funext e
  dsimp only [Function.comp]
  split <;> rfl

theorem attribute?_marked (x : NodeId) {name : String} (hname : name ≠ Directive.started.name) :
    (marked equipment root t).attribute? x name = t.attribute? x name := by
  unfold Tree.attribute?
  rw [element?_marked, Option.bind_map]
  congr 1
  funext e
  dsimp only [Function.comp]
  split
  · rw [Element.get?_set, if_neg hname]
  · rfl

theorem satisfies_marked (x : NodeId) {name : String} (hname : name ≠ Directive.started.name)
    (value : String) : (marked equipment root t).satisfies x (.attributeIs name value) =
      t.satisfies x (.attributeIs name value) := by
  unfold Tree.satisfies
  rw [element?_marked]
  rcases t.element? x with _ | e
  · rfl
  rw [Option.map_some, Option.any_some, Option.any_some]
  split
  · dsimp only [Selector.accepts]
    rw [Element.get?_set, if_neg hname]
  · rfl

theorem descendants_marked (x : NodeId) :
    (marked equipment root t).descendants x = t.descendants x := by
  unfold Tree.descendants
  rw [children_marked, size_marked]
  exact walk_congr fun y _ => children_marked equipment root t y

theorem findPart_marked (from' : NodeId) (identifier : String) {directive : Directive}
    (hdirective : directive.name ≠ Directive.started.name) :
    findPart (marked equipment root t) from' identifier directive =
      findPart t from' identifier directive := by
  unfold findPart Tree.selectFirst?
  simp only [descendants_marked, satisfies_marked equipment root t _ hdirective]

theorem findParts_marked (from' : NodeId) :
    findParts (marked equipment root t) from' = findParts t from' := by
  have hvalid : ∀ template, checkTemplate (marked equipment root t) template =
      checkTemplate t template := by
    intro template
    unfold checkTemplate
    simp only [contents?_marked, elementChildren_marked]
  unfold findParts
  simp only [attribute?_marked equipment root t from' (show Directive.root.name ≠ _ by decide),
    findPart_marked equipment root t from' _ (show Directive.template.name ≠ _ by decide),
    findPart_marked equipment root t from' _ (show Directive.trigger.name ≠ _ by decide),
    findPart_marked equipment root t from' _ (show Directive.container.name ≠ _ by decide), hvalid]

theorem control?_marked (identifier : String) (item : NodeId) :
    control? config (marked equipment root t) identifier item = control? config t identifier item := by
  unfold control? Tree.selectFrom Tree.select
  simp only [descendants_marked, tag?_marked,
    satisfies_marked equipment root t _ (show Directive.delete.name ≠ _ by decide)]

theorem marked_marked :
    marked equipment root (marked equipment root t) = marked equipment root t := by
  have hroot := element?_marked equipment root t root
  rcases he : t.element? root with _ | e
  · rw [marked_of_none equipment he, marked_of_none equipment he]
  · rw [he, Option.map_some, if_pos rfl] at hroot
    rw [marked_of_element equipment hroot, marked_of_element equipment he, Element.set_set,
      setContent_setContent]

end marked

theorem isConnected_marked (h : t.WellFormed) (equipment : Equipment σ) (root x : NodeId) :
    (marked equipment root t).isConnected x = t.isConnected x := by
  have h' : (marked equipment root t).WellFormed := (grown_marked equipment root t h).1
  unfold Tree.isConnected
  rw [Bool.eq_iff_iff, isInclusiveAncestor_iff h', isInclusiveAncestor_iff h]
  exact ⟨.mono fun y p hy => (parent?_marked equipment root t y).symm.trans hy,
    .mono fun y p hy => (parent?_marked equipment root t y).trans hy⟩

theorem outlivesStart_marked (h : t.WellFormed) (equipment : Equipment σ) (root : NodeId)
    (number : Nat) (container : NodeId) (action : Action) :
    outlivesStart (marked equipment root t) number container action =
      outlivesStart t number container action := by
  unfold outlivesStart
  simp only [isConnected_marked h, parent?_marked]

/-! ## Starting again -/

/-- The bindings that a start adds do not outlive a further one. -/
theorem filter_deletions (h : t.WellFormed) (number : Nat) (container : NodeId) :
    (deletions config t₁ identifier number (t.elementChildren container)).filter
      (fun b => outlivesStart t number container b.action) = [] := by
  rw [List.filter_eq_nil_iff]
  intro b hb
  obtain ⟨item, hitem, control, -, rfl⟩ := mem_deletions.1 hb
  have hparent := h.parent_of_child (List.mem_of_mem_filter hitem)
  simp [outlivesStart, hparent]

/-- Without a hook after it, a start ends where it has concluded, unless it is refused. -/
theorem exec_start_unhooked (h : desk.stage.tree.WellFormed)
    (hafter : desk.scope.afterStart = none) (equipment : Equipment σ) :
    (∃ identifier parts t₁ desk₁, desk.scope.Checked desk.stage.tree identifier parts ∧
      Concluded equipment desk identifier parts t₁ desk₁ ∧
      exec (start equipment) desk = (.ok (), desk₁)) ∨
    (¬ ∃ identifier parts, desk.scope.Checked desk.stage.tree identifier parts) ∧
      ∃ e, exec (start equipment) desk = (.error e, desk) := by
  refine (exec_start_concluded desk h equipment).imp_left ?_
  rintro ⟨identifier, parts, t₁, desk₁, hchecked, hconcluded, hrun⟩
  refine ⟨identifier, parts, t₁, desk₁, hchecked, hconcluded, ?_⟩
  rw [hrun, exec_runAfterStart, hconcluded.scope, hafter]

/-- A start of a scope that has been started before wires in the tree it finds. -/
theorem Concluded.of_started (h : Concluded equipment desk identifier parts t₁ desk₁)
    (hstarted : desk.scope.started = true) :
    t₁ = desk.stage.tree ∧ desk₁.scope.counter = desk.scope.counter := by
  have hpending : pending desk.stage.tree desk.scope parts = [] := by
    unfold pending
    rw [if_pos hstarted]
  have hseeded := h.seeded
  rw [hpending] at hseeded
  cases hseeded
  refine ⟨rfl, ?_⟩
  rw [h.scope, hpending]
  rfl

/-- What a start has concluded twice is as it was after the first time. -/
theorem Concluded.again {desk₂ : Desk σ} {t₂ : Tree} (h : desk.stage.tree.WellFormed)
    (hstarted : desk.scope.started = true)
    (hfirst : Concluded equipment desk identifier parts t₁ desk₁)
    (hsecond : Concluded equipment desk₁ identifier parts t₂ desk₂) :
    desk₂.stage.tree = desk₁.stage.tree ∧ desk₂.scope = desk₁.scope ∧
      desk₂.listeners.bindings = desk₁.listeners.bindings := by
  have hscope := hfirst.scope
  have hstarted₁ : desk₁.scope.started = true := by rw [hscope]
  obtain ⟨rfl, -⟩ := hfirst.of_started hstarted
  obtain ⟨rfl, hcounter⟩ := hsecond.of_started hstarted₁
  have htree := hfirst.tree
  refine ⟨?_, ?_, ?_⟩
  · rw [hsecond.tree, htree, hscope, marked_marked]
  · rw [hsecond.scope] at hcounter ⊢
    dsimp only at hcounter
    rw [hcounter, hscope]
  · have hnumber : desk₁.scope.number = desk.scope.number := by rw [hscope]
    have houtlives : ∀ b : Binding, outlivesStart desk₁.stage.tree desk.scope.number
        parts.container b.action = outlivesStart desk.stage.tree desk.scope.number parts.container
          b.action := by
      rw [htree]
      exact fun b => outlivesStart_marked h equipment _ _ _ b.action
    have hcontrols : deletions equipment.config desk₁.stage.tree identifier desk.scope.number
        (desk₁.stage.tree.elementChildren parts.container) =
          deletions equipment.config desk.stage.tree identifier desk.scope.number
            (desk.stage.tree.elementChildren parts.container) := by
      rw [htree, elementChildren_marked]
      unfold deletions
      simp only [control?_marked]
    rw [hsecond.bindings, hnumber, hcontrols, hfirst.bindings, List.filter_append,
      List.filter_append, List.filter_filter]
    simp only [houtlives, filter_deletions h, Bool.and_self]
    simp [outlivesStart]

/-- Without a hook after the start, a start that goes through can be made once more. The second one
    leaves the tree, the scope and the bindings as the first one has left them. -/
theorem exec_start_again (h : desk.stage.tree.WellFormed) (hstarted : desk.scope.started = true)
    (hafter : desk.scope.afterStart = none)
    (hrun : exec (start equipment) desk = (.ok (), desk₁)) :
    ∃ desk₂, exec (start equipment) desk₁ = (.ok (), desk₂) ∧
      desk₂.stage.tree = desk₁.stage.tree ∧ desk₂.scope = desk₁.scope ∧
      desk₂.listeners.bindings = desk₁.listeners.bindings := by
  obtain ⟨identifier, parts, t₁, _, hchecked, hconcluded, hrun'⟩ | ⟨-, e, hfails⟩ :=
    exec_start_unhooked h hafter equipment
  case inr =>
    rw [hrun] at hfails
    simp at hfails
  cases hrun'.symm.trans hrun
  have hscope := hconcluded.scope
  obtain ⟨rfl, -⟩ := hconcluded.of_started hstarted
  have h₁ : desk₁.stage.tree.WellFormed := by
    rw [hconcluded.tree]
    exact (grown_marked equipment _ _ h).1
  have hchecked₁ : desk₁.scope.Checked desk₁.stage.tree identifier parts := by
    refine ⟨?_, .inl (by rw [hscope])⟩
    rw [hconcluded.tree, findParts_marked, hscope]
    exact hchecked.found
  obtain ⟨identifier', parts', t₂, desk₂, hchecked₂, hconcluded₂, hrun₂⟩ | ⟨hnot, -⟩ :=
    exec_start_unhooked h₁ (by rw [hscope]; exact hafter) equipment
  case inr => exact absurd ⟨identifier, parts, hchecked₁⟩ hnot
  cases hchecked₂.found.symm.trans hchecked₁.found
  exact ⟨desk₂, hrun₂, hconcluded.again h hstarted hconcluded₂⟩

end Scope

end Repeater
