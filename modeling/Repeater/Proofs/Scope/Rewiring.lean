/-
  Repeater/Proofs/Scope/Rewiring.lean
  ===================================
  **Which controls delete which items.**

  An item is wired to a control when some listener on the control deletes it. Here is what the flows
  do to this relation when the hooks leave the tree alone: an addition wires the elements it has put
  in, each to the control that is found in it, and nothing else comes where a scope puts its items
  (`PutsInto`); a deletion that takes its item out unwires this item. A start wires the items in the
  container to what it finds in them, and of all others it keeps those in the document
  (`Concluded.wires`).
-/
import Repeater.Proofs.Scope.Bindings
import Repeater.Proofs.Scope.Lasting
import Repeater.Proofs.Scope.Removing

namespace Repeater

open Dom Hook Stamp Tree

variable {σ : Type}

/-- Whether a listener on the control deletes the item for the scope of the number. -/
def Listeners.Wires (ls : Listeners Action) (number : Nat) (control item : NodeId) : Prop :=
  ∃ b ∈ ls.bindings, b.target = control ∧ b.action = .delete number item

instance (ls : Listeners Action) (number : Nat) (control item : NodeId) :
    Decidable (ls.Wires number control item) :=
  inferInstanceAs (Decidable (∃ b ∈ ls.bindings, _ ∧ _))

theorem Listeners.wires_iff {ls : Listeners Action} {number : Nat} {control item : NodeId} :
    ls.Wires number control item ↔
      ∃ l ∈ ls.entries, l.target = control ∧ l.handler = .delete number item := by
  unfold Wires bindings
  simp only [List.mem_map, exists_exists_and_eq_and]
  rfl

namespace Scope

variable {equipment : Equipment σ} {config : Config} {desk desk' desk₁ : Desk σ} {scope : Scope σ}
  {parts : Parts} {identifier : String} {event : Event} {t t₁ t' u : Tree} {number : Nat}
  {control item f p x y : NodeId} {items gone : List NodeId} {reference : Option NodeId}
  {result : Except Error Unit}

theorem exists_mem_deletions {m : Nat} :
    (∃ b ∈ deletions config t identifier m items, b.target = control ∧
        b.action = .delete number item) ↔
      number = m ∧ item ∈ items ∧ control? config t identifier item = some control := by
  constructor
  · rintro ⟨b, hb, htarget, haction⟩
    obtain ⟨item', hitem, control', hcontrol, rfl⟩ := mem_deletions.1 hb
    cases haction
    cases htarget
    exact ⟨rfl, hitem, hcontrol⟩
  · rintro ⟨rfl, hitem, hcontrol⟩
    exact ⟨_, mem_deletions.2 ⟨item, hitem, control, hcontrol, rfl⟩, rfl, rfl⟩

/-! ## Starts -/

/-- What is wired after a start. -/
theorem Concluded.wires (h : Concluded equipment desk identifier parts t₁ desk₁) :
    desk₁.listeners.Wires number control item ↔
      desk.listeners.Wires number control item ∧
          outlivesStart desk.stage.tree desk.scope.number parts.container (.delete number item) ∨
        number = desk.scope.number ∧ item ∈ desk.stage.tree.elementChildren parts.container ∧
          control? equipment.config t₁ identifier item = some control := by
  unfold Listeners.Wires
  rw [h.bindings, ← exists_mem_deletions]
  simp only [List.mem_append, List.mem_filter, List.mem_singleton]
  constructor
  · rintro ⟨b, (⟨hb, hkept⟩ | hb) | rfl, htarget, haction⟩
    · exact .inl ⟨⟨b, hb, htarget, haction⟩, haction ▸ hkept⟩
    · exact .inr ⟨b, hb, htarget, haction⟩
    · cases haction
  · rintro (⟨⟨b, hb, htarget, haction⟩, hkept⟩ | ⟨b, hb, htarget, haction⟩)
    · exact ⟨b, .inl (.inl ⟨hb, haction ▸ hkept⟩), htarget, haction⟩
    · exact ⟨b, .inl (.inr hb), htarget, haction⟩

theorem outlivesStart_delete (t : Tree) (number : Nat) (container item : NodeId) :
    outlivesStart t number container (.delete number item) = true ↔
      t.isConnected item = true ∧ t.parent? item ≠ some container := by
  simp [outlivesStart]

/-- After a start, the items in the container are wired to the controls that are found in them. -/
theorem Concluded.wires_inside (h : Concluded equipment desk identifier parts t₁ desk₁)
    (hwf : desk.stage.tree.WellFormed)
    (hhas : ∀ control, desk.listeners.Wires desk.scope.number control item →
      desk.stage.tree.Has item)
    (hparent : desk₁.stage.tree.parent? item = some parts.container) :
    desk₁.listeners.Wires desk.scope.number control item ↔
      desk₁.stage.tree.isElement item = true ∧
        control? equipment.config desk₁.stage.tree identifier item = some control := by
  have helement : desk₁.stage.tree.isElement item = desk.stage.tree.isElement item := by
    rw [h.tree, isElement_marked, h.seeded.isElement]
  have hold : desk.stage.tree.Has item → desk.stage.tree.parent? item = some parts.container := by
    intro hitem
    rw [h.tree, parent?_marked] at hparent
    exact h.seeded.parent_of_old hwf hitem hparent
  rw [h.wires, outlivesStart_delete, hwf.mem_elementChildren, helement, h.tree, control?_marked]
  constructor
  · rintro (⟨hwired, -, hnot⟩ | ⟨-, ⟨-, he⟩, hcontrol⟩)
    · exact absurd (hold (hhas control hwired)) hnot
    · exact ⟨he, hcontrol⟩
  · rintro ⟨he, hcontrol⟩
    obtain ⟨e, he'⟩ := Option.isSome_iff_exists.1 he
    exact .inr ⟨rfl, ⟨hold (has_of_element he'), he⟩, hcontrol⟩

/-- A start of a scope that has been started before keeps the wiring, but for items that are neither
    in the container nor in the document, if the items in the container are wired to the controls
    that it finds in them. -/
theorem Concluded.wires_again (h : Concluded equipment desk identifier parts t₁ desk₁)
    (hwf : desk.stage.tree.WellFormed) (hstarted : desk.scope.started = true)
    (hinside : desk.stage.tree.parent? item = some parts.container →
      (desk.listeners.Wires desk.scope.number control item ↔
        desk.stage.tree.isElement item = true ∧
          control? equipment.config desk.stage.tree identifier item = some control)) :
    desk₁.listeners.Wires desk.scope.number control item ↔
      desk.listeners.Wires desk.scope.number control item ∧
        (desk.stage.tree.parent? item = some parts.container ∨
          desk.stage.tree.isConnected item = true) := by
  obtain ⟨rfl, -⟩ := h.of_started hstarted
  rw [h.wires, outlivesStart_delete, hwf.mem_elementChildren]
  by_cases hparent : desk.stage.tree.parent? item = some parts.container
  · simp [hparent, hinside hparent]
  · simp [hparent]

/-! ## What flows do -/

/-- What a flow does to the wiring: it wires some items it has put in, and unwires some it has taken
    out. No other element has come where a scope puts its items. -/
structure Rewired (equipment : Equipment σ) (items gone : List NodeId) (desk desk' : Desk σ) :
    Prop where
  wires : ∀ number control item, desk'.listeners.Wires number control item ↔
    desk.listeners.Wires number control item ∧ item ∉ gone ∨
      number = desk.scope.number ∧ item ∈ items ∧ ∃ identifier,
        desk.scope.identifier = some identifier ∧
          control? equipment.config desk'.stage.tree identifier item = some control
  put : ∀ item ∈ items, ¬ desk.stage.tree.Has item ∧ desk'.stage.tree.isElement item = true ∧
    ∃ p, desk.scope.PutsInto desk.stage.tree p ∧ desk'.stage.tree.parent? item = some p
  others : ∀ x y, desk.stage.tree.Has x → desk'.stage.tree.parent? y = some x →
    desk'.stage.tree.isElement y = true → desk.stage.tree.Has y ∨ y ∈ items
  gone : ∀ item ∈ gone, desk'.stage.tree.parent? item = none

theorem Rewired.congr {desk'' : Desk σ} (h : Rewired equipment items gone desk desk')
    (htree : desk''.stage.tree = desk'.stage.tree) (hlisteners : desk''.listeners = desk'.listeners) :
    Rewired equipment items gone desk desk'' := by
  constructor
  all_goals simp only [htree, hlisteners]
  · exact h.wires
  · exact h.put
  · exact h.others
  · exact h.gone

theorem Rewired.of_same (hlisteners : desk'.listeners = desk.listeners)
    (hothers : ∀ x y, desk.stage.tree.Has x → desk'.stage.tree.parent? y = some x →
      desk'.stage.tree.isElement y = true → desk.stage.tree.Has y) :
    Rewired equipment [] [] desk desk' where
  wires number control item := by simp [hlisteners]
  put := by simp
  others x y hx hp he := .inl (hothers x y hx hp he)
  gone := by simp

/-! ## Additions -/

/-- Nothing but the children of the fragment has come below a node that was there before. -/
theorem child_of_spliced (h : t.Extends u) (ht : t.WellFormed) (hu : u.WellFormed)
    (hspliced : u.Spliced p f reference t') (hx : t.Has x) (hp : t'.parent? y = some x) :
    t.Has y ∨ y ∈ u.children f ∧ x = p := by
  rw [hspliced.parent] at hp
  split at hp
  · next hkid => exact .inr ⟨hkid, (Option.some.inj hp).symm⟩
  · have hchild := hu.child_of_parent hp
    rw [h.children hx] at hchild
    exact .inl (ht.has_of_child hchild)

theorem rewired_of_spliced (ht : desk.stage.tree.WellFormed) (hu : u.WellFormed)
    (hext : desk.stage.tree.Extends u) (hf : ¬ desk.stage.tree.Has f)
    (hspliced : u.Spliced p f reference desk'.stage.tree)
    (hplace : desk.scope.PutsInto desk.stage.tree p)
    (hidentifier : desk.scope.identifier = some identifier)
    (hcounted : Counted equipment (u.elementChildren f) desk desk') :
    Rewired equipment (u.elementChildren f) [] desk desk' := by
  have hbindings := hcounted.bindings hidentifier
  have helement : ∀ y, desk'.stage.tree.isElement y = u.isElement y :=
    fun y => isElement_congr (hspliced.content y)
  constructor
  case wires =>
    intro number control item
    unfold Listeners.Wires
    simp only [hbindings, List.mem_append, or_and_right, exists_or, exists_mem_deletions,
      hidentifier, Option.some.injEq, exists_eq_left', List.not_mem_nil, not_false_eq_true, and_true]
  case put =>
    intro item hitem
    have hkid := List.mem_of_mem_filter hitem
    refine ⟨hext.new_child ht (hu.parent_of_child hkid) hf, ?_, p, hplace, ?_⟩
    · rw [helement]
      exact (List.mem_filter.1 hitem).2
    · rw [hspliced.parent, if_pos hkid]
  case others =>
    intro x y hx hp he
    rw [helement] at he
    exact (child_of_spliced hext ht hu hspliced hx hp).imp_right fun hkid =>
      List.mem_filter.2 ⟨hkid.1, he⟩
  case gone => simp

theorem has_of_sameItems (ht : t.WellFormed) (ht' : t'.WellFormed) (hsame : SameItems t t')
    (hx : t.Has x) (hp : t'.parent? y = some x) (he : t'.isElement y = true) : t.Has y := by
  have hmem : y ∈ t'.elementChildren x := List.mem_filter.2 ⟨ht'.child_of_parent hp, he⟩
  rw [hsame x hx] at hmem
  exact ht.has_of_child (List.mem_of_mem_filter hmem)

theorem StillHooks.rewired_handleAdd (desk : Desk σ) (hidle : desk.scope.activity = .idle)
    (h : desk.stage.tree.WellFormed)
    (hstill : ∀ parts, desk.scope.parts = some parts →
      StillHooks equipment desk.scope desk.stage.tree parts.trigger)
    (hcontainer : ∀ parts, desk.scope.parts = some parts → desk.stage.tree.Has parts.container)
    (hrun : exec (Scope.handleAdd equipment event) desk = (result, desk')) :
    ∃ items, Rewired equipment items [] desk desk' := by
  obtain ⟨_, _, hrun', hend⟩ := StillHooks.exec_handleAdd desk hidle h hstill hcontainer event
  cases hrun'.symm.trans hrun
  rcases hend with ⟨-, -, hlisteners, hend⟩ |
    ⟨-, parts, identifier, t₁, f, hresolved, hinserted, hcounted⟩
  · refine ⟨[], .of_same hlisteners fun x y hx hp he => ?_⟩
    rcases hend with ⟨hwf, hext⟩ | ⟨parts, identifier, t₁, f, hresolved, htaken⟩
    · exact has_of_sameItems h hwf (fun z hz => hext.elementChildren h hz) hx hp he
    · have hhas := hcontainer parts (resolved_eq_ok hresolved).1
      obtain ⟨hsteady, hsame⟩ := htaken.steady h hhas hhas
      exact has_of_sameItems h hsteady.wellFormed hsame hx hp he
  · obtain ⟨hparts, hidentifier⟩ := resolved_eq_ok hresolved
    obtain ⟨hdrafted, hspliced⟩ := hinserted
    exact ⟨_, rewired_of_spliced h hdrafted.wellFormed hdrafted.extends_old hdrafted.new hspliced
      ⟨parts, hparts, .inl rfl⟩ hidentifier hcounted⟩

theorem rewired_handleData (desk : Desk σ) (hidle : desk.scope.activity = .idle)
    (h : desk.stage.tree.WellFormed)
    (hidentifier : desk.scope.parts.isSome → desk.scope.identifier.isSome)
    {data : List (String × String)}
    (hrun : exec (handleData equipment data) desk = (result, desk')) :
    ∃ items, Rewired equipment items [] desk desk' := by
  obtain ⟨_, _, hrun', hend⟩ := exec_handleData_ends desk hidle h equipment data
  cases hrun'.symm.trans hrun
  rcases hend with ⟨-, -, hlisteners, hwf, hext⟩ | ⟨-, parts, p, f, t', hparts, hfilled⟩
  · exact ⟨[], .of_same hlisteners fun x y hx hp he =>
      has_of_sameItems h hwf (fun z hz => hext.elementChildren h hz) hx hp he⟩
  · obtain ⟨identifier, hidentifier⟩ := Option.isSome_iff_exists.1 (hidentifier (by simp [hparts]))
    exact ⟨_, rewired_of_spliced h hfilled.wellFormed hfilled.extends_old hfilled.new
      hfilled.spliced ⟨parts, hparts, .inr hfilled.parent⟩ hidentifier hfilled.counted⟩

/-! ## Deletions -/

theorem rewired_of_detached (h : desk.stage.tree.WellFormed)
    (htree : desk'.stage.tree = desk.stage.tree.detach item)
    (hlisteners : desk'.listeners = without item desk.listeners) :
    Rewired equipment [] [item] desk desk' := by
  have hdetached : desk.stage.tree.Detached [item] desk'.stage.tree := by
    rw [htree]
    exact detached_detachAll h [item]
  constructor
  case wires =>
    intro number control other
    simp only [Listeners.wires_iff, hlisteners, without, Listeners.retain, List.mem_filter,
      List.not_mem_nil, false_and, and_false, or_false, List.mem_singleton, bne_iff_ne]
    constructor
    · rintro ⟨l, ⟨hl, hkept⟩, htarget, hhandler⟩
      rw [hhandler] at hkept
      exact ⟨⟨l, hl, htarget, hhandler⟩, fun hsame => hkept (congrArg some hsame)⟩
    · rintro ⟨⟨l, hl, htarget, hhandler⟩, hother⟩
      refine ⟨l, ⟨hl, fun hsame => hother ?_⟩, htarget, hhandler⟩
      rw [hhandler] at hsame
      exact Option.some.inj hsame
  case put => simp
  case others =>
    intro x y _ hp _
    have hparent := hdetached.parent y
    rw [hp] at hparent
    split at hparent
    · cases hparent
    · exact .inl (has_of_parent hparent.symm)
  case gone =>
    intro y hy
    rw [hdetached.parent, if_pos hy]

theorem StillHooks.rewired_handleDelete (desk : Desk σ) (hidle : desk.scope.activity = .idle)
    (h : desk.stage.tree.WellFormed)
    (hstill : StillHooks equipment desk.scope desk.stage.tree (event.current.getD event.target))
    (hitem : desk.stage.tree.Has item)
    (hrun : exec (Scope.handleDelete equipment event item) desk = (result, desk')) :
    ∃ gone, Rewired equipment [] gone desk desk' := by
  have hsame : ∀ {desk' : Desk σ}, desk'.listeners = desk.listeners →
      desk'.stage.tree = desk.stage.tree → ∃ gone, Rewired equipment [] gone desk desk' :=
    fun hlisteners htree => ⟨[], .of_same hlisteners fun x y _ hp _ => by
      rw [htree] at hp
      exact has_of_parent hp⟩
  rcases hresolved : desk.scope.resolved with e | ⟨parts, identifier⟩
  · have hrefused : exec (Scope.handleDelete equipment event item) desk = (.error e, desk) := by
      unfold Scope.handleDelete
      rw [exec_get_bind, hresolved]
      exact exec_bind_error (exec_ofExcept _ _)
    cases hrefused.symm.trans hrun
    exact hsame rfl rfl
  rcases haccepted : accepted equipment desk.stage.tree (event.current.getD event.target) with _ | _
  · cases (exec_handleDelete_refused hresolved haccepted item).symm.trans hrun
    exact hsame rfl rfl
  obtain ⟨_, _, hrun', -, hend⟩ :=
    hstill.exec_handleDelete_ends hidle hresolved rfl haccepted hitem
  cases hrun'.symm.trans hrun
  rcases hend with ⟨-, htree, hlisteners⟩ | ⟨-, htree, hlisteners⟩
  · exact hsame hlisteners htree
  · exact ⟨[item], rewired_of_detached h htree hlisteners⟩

end Scope

end Repeater
