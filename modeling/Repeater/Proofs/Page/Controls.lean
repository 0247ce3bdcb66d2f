/-
  Repeater/Proofs/Page/Controls.lean
  ==================================
  **The delete controls of the items that a page takes in.**

  Items come to a scope by a start, by a click on its trigger and from data, and each of these wires
  the items in the same way: an item has one listener, on its first marked element, if the tag of
  this element is accepted, and none otherwise. So an item with an accepted control is wired to one,
  unless an element that is no control is marked before it (`listeners_of_item`).
-/
import Repeater.Proofs.Page.Deeds
import Repeater.Proofs.Scope.Controls

namespace Repeater

open Dom Hook Markup Scope Stamp Tree

variable {σ : Type} {page : Page σ} {deed : Deed} {item : NodeId} {n : Nat} {scope : Scope σ}

/-- The page without a hook after the start of a scope. -/
def Page.withoutAfter (page : Page σ) (n : Nat) : Page σ :=
  page.changeScope n fun scope => { scope with afterStart := none }

namespace Deed

/-- The items that a deed takes into its scope: the elements that a start finds in the container, or
    those in the draft of an addition that goes through. -/
def items (page : Page σ) (deed : Deed) : List NodeId :=
  match page.scopes[deed.number]? with
  | none => []
  | some scope =>
    match deed with
    | restart _ => foundItems (page.desk scope)
    | act _ (.add _) =>
      if deed.succeeds page then draftItems makeDraft (page.desk scope) else []
    | fill _ data =>
      if deed.succeeds page then draftItems (makeFilledDraft · · data) (page.desk scope) else []
    | act _ (.delete _ _) => []

/-- The tree in which a deed wires its items: the one that it leaves, but for what the hook after a
    start still does. -/
def wiringTree (page : Page σ) : Deed → Tree
  | restart n => ((page.withoutAfter n).start n).tree
  | deed => (deed.carryOut page).tree

/-- The identifier that the scope of a deed has after it. -/
def identifier? (page : Page σ) (deed : Deed) : Option String :=
  ((deed.carryOut page).scopes[deed.number]?).bind (·.identifier)

/-- The listeners that delete an item for the scope of a deed, after it. -/
def listenersFor (page : Page σ) (deed : Deed) (item : NodeId) : List Binding :=
  (deed.carryOut page).listeners.bindings.filter fun b => b.action = .delete deed.number item

theorem exists_scope_of_mem_items (h : item ∈ deed.items page) :
    ∃ scope, page.scopes[deed.number]? = some scope := by
  unfold items at h
  rcases hscope : page.scopes[deed.number]? with _ | scope
  · rw [hscope] at h
    cases h
  · exact ⟨scope, rfl⟩

theorem exec_of_succeeds (h : deed.succeeds page = true)
    (hscope : page.scopes[deed.number]? = some scope) :
    ∃ desk', exec (deed.flow page.equipment) (page.desk scope) = (.ok ⟨⟩, desk') := by
  unfold succeeds at h
  rw [hscope] at h
  dsimp only at h
  rcases hrun : exec (deed.flow page.equipment) (page.desk scope) with ⟨e | ⟨⟩, desk'⟩
  · rw [hrun] at h
    cases h
  · exact ⟨desk', rfl⟩

end Deed

namespace Page

/-! ## The listeners for an item -/

theorem withoutAfter_eq (hscope : page.scopes[n]? = some scope) : page.withoutAfter n =
    { page with scopes := page.scopes.modify n fun scope => { scope with afterStart := none } } :=
  if_pos (Array.getElem?_eq_some_iff.1 hscope).1

/-- The page after a flow that counts new items. -/
theorem Kept.wired_new (h : page.Kept) (hscope : page.scopes[deed.number]? = some scope)
    {items : List NodeId} {desk' : Desk σ}
    (hrun : exec (deed.flow page.equipment) (page.desk scope) = (.ok ⟨⟩, desk'))
    (hnew : CountedNew page.equipment items (page.desk scope) desk') (hitem : item ∈ items) :
    ∃ identifier, deed.identifier? page = some identifier ∧
      deed.listenersFor page item = (deletion? page.config (deed.carryOut page).tree identifier
        deed.number item).toList := by
  obtain ⟨identifier, hidentifier⟩ := Option.isSome_iff_exists.1 hnew.identifier
  have hnumber : (page.desk scope).scope.number = deed.number := h.number _ scope hscope
  obtain ⟨htree, hlisteners, hscopes⟩ := Deed.carryOut_shows hscope hrun
  refine ⟨identifier, ?_, ?_⟩
  · unfold Deed.identifier?
    rw [hscopes, if_pos rfl, Option.bind_some, hnew.counted.scope]
    exact hidentifier
  · have hbindings := hnew.counted.bindings_item hidentifier hnew.nodup hitem ?_
    · unfold Deed.listenersFor
      rw [hlisteners, htree, ← hnumber]
      exact hbindings
    -- what is wired before is in the tree, and the item is not
    · intro b hb hdeletes
      obtain ⟨l, hl, rfl⟩ := List.mem_map.1 hb
      exact hnew.new item hitem (h.wired.onItem l hl _ item hdeletes).2

/-- The page after a start. -/
theorem Kept.wired_found (h : page.Kept) (hscope : page.scopes[n]? = some scope)
    (hitem : item ∈ foundItems (page.desk scope)) :
    ∃ identifier, (Deed.restart n).identifier? page = some identifier ∧
      (Deed.restart n).listenersFor page item =
        (deletion? page.config ((page.withoutAfter n).start n).tree identifier n item).toList := by
  have hnumber : (page.desk scope).scope.number = n := h.number _ scope hscope
  obtain ⟨identifier, hidentifier, hbindings⟩ :=
    bindings_start_item (page.desk scope) h.wellFormed page.equipment hitem
  obtain ⟨-, hlisteners, hscopes⟩ :=
    withScope_shows "initialize" Scope.start hscope (Prod.mk.eta).symm
  have hpage := withoutAfter_eq hscope
  have hscope' : (page.withoutAfter n).scopes[n]? = some { scope with afterStart := none } := by
    rw [hpage]
    show (page.scopes.modify n _)[n]? = _
    rw [Array.getElem?_modify, if_pos rfl, hscope]
    rfl
  have hequipment : (page.withoutAfter n).equipment = page.equipment := by
    rw [hpage]
    rfl
  have hdesk : (page.withoutAfter n).desk { scope with afterStart := none } =
      Scope.withoutAfter (page.desk scope) := by
    rw [hpage]
    rfl
  obtain ⟨htree, -, -⟩ := withScope_shows "initialize" Scope.start hscope' (Prod.mk.eta).symm
  refine ⟨identifier, ?_, ?_⟩
  · unfold Deed.identifier?
    show ((page.start n).scopes[n]?).bind _ = _
    rw [show (page.start n).scopes[n]? = _ from hscopes n, if_pos rfl]
    exact hidentifier
  · show ((page.start n).listeners.bindings.filter fun b => b.action = .delete n item) = _
    rw [show (page.start n).listeners = _ from hlisteners,
      show ((page.withoutAfter n).start n).tree = _ from htree, hequipment, hdesk]
    rw [hnumber] at hbindings
    exact hbindings

/-- Whatever takes an item in, the item gets the listener of its control. -/
theorem Kept.wired_item (h : page.Kept) (hitem : item ∈ deed.items page) :
    ∃ identifier, deed.identifier? page = some identifier ∧
      deed.listenersFor page item = (deletion? page.config (deed.wiringTree page) identifier
        deed.number item).toList := by
  obtain ⟨scope, hscope⟩ := Deed.exists_scope_of_mem_items hitem
  rw [Deed.items, hscope] at hitem
  have hsettled := h.settled _ scope hscope
  match deed with
  | .restart n => exact h.wired_found hscope hitem
  | .act event (.delete n other) => cases hitem
  | .act event (.add n) =>
    obtain ⟨hsucceeds, hitem⟩ := List.mem_ite_nil_right.1 hitem
    obtain ⟨desk', hrun⟩ := Deed.exec_of_succeeds hsucceeds hscope
    exact h.wired_new hscope hrun (TameHooks.handleAdd_counts (page.desk scope)
      (h.tameHooks hscope) h.wellFormed hsettled.idle hrun) hitem
  | .fill n data =>
    obtain ⟨hsucceeds, hitem⟩ := List.mem_ite_nil_right.1 hitem
    obtain ⟨desk', hrun⟩ := Deed.exec_of_succeeds hsucceeds hscope
    exact h.wired_new hscope hrun
      (handleData_counts (page.desk scope) h.wellFormed hsettled.idle hrun) hitem

theorem Kept.wellFormed_wiringTree (h : page.Kept) (deed : Deed) :
    (deed.wiringTree page).WellFormed := by
  have hcarried := (h.carryOut deed).wellFormed
  match deed with
  | .restart n =>
    have hquiet : (page.withoutAfter n).Kept := h.changeScope n fun scope t hsettled =>
      ⟨{ hsettled with afterStart := by rintro _ ⟨⟩ }, rfl, rfl, rfl⟩
    exact (hquiet.start n).wellFormed
  | .act event action => exact hcarried
  | .fill n data => exact hcarried

/-- Without a hook after the start, a deed wires in the tree that it leaves. -/
theorem wiringTree_eq (hscope : page.scopes[deed.number]? = some scope)
    (hafter : scope.afterStart = none) : deed.wiringTree page = (deed.carryOut page).tree := by
  match deed with
  | .act event action => rfl
  | .fill n data => rfl
  | .restart n =>
    have hscope : page.scopes[n]? = some scope := hscope
    have hsame : page.scopes.modify n (fun scope => { scope with afterStart := none }) =
        page.scopes := by
      refine Array.ext_getElem? fun m => ?_
      rw [Array.getElem?_modify]
      split
      · next hm =>
        subst hm
        rw [hscope, Option.map_some, ← hafter]
      · rfl
    show ((page.withoutAfter n).start n).tree = (page.start n).tree
    rw [withoutAfter_eq hscope, hsame]

/-- However a page has been used: an item that a start, a click or an addition from data takes in
    has one listener, on its first marked element, if this one is accepted, and none otherwise. So
    one of its controls is wired, if it has any, unless an element that is none is marked before. -/
theorem listeners_of_item {start : Page σ} (hnew : start.New) (hreaches : start.Reaches page)
    (hitem : item ∈ deed.items page) :
    let t := deed.wiringTree page
    ∃ scope identifier, page.scopes[deed.number]? = some scope ∧
      (scope.afterStart = none → t = (deed.carryOut page).tree) ∧
      deed.identifier? page = some identifier ∧
      deed.listenersFor page item =
        (((markers t identifier item).head?.filter (accepts page.config t)).map
          (⟨·, .click, .delete deed.number item⟩)).toList ∧
      (((∃ control, IsControlOf page.config t identifier item control) →
          ∃ control, IsControlOf page.config t identifier item control ∧
            ⟨control, .click, .delete deed.number item⟩ ∈ deed.listenersFor page item) ↔
        ¬ Hides page.config t identifier item) := by
  intro t
  have hkept := hreaches.kept hnew.kept
  obtain ⟨scope, hscope⟩ := Deed.exists_scope_of_mem_items hitem
  obtain ⟨identifier, hidentifier, hlisteners⟩ := hkept.wired_item hitem
  have hbound : ∀ control, ⟨control, .click, .delete deed.number item⟩ ∈
      deed.listenersFor page item ↔ control? page.config t identifier item = some control := by
    intro control
    rw [hlisteners]
    simp [deletion?, t]
  refine ⟨scope, identifier, hscope, wiringTree_eq hscope, hidentifier, hlisteners, ?_⟩
  simp only [hbound]
  exact finds_control_iff (hkept.wellFormed_wiringTree deed) page.config identifier item

/-- An item in which a span is marked as a delete control before the button is. -/
def twiceMarkedItem : ParseNode :=
  .element "li" [] [] [
    .element "span" [⟨"s-delete", "list"⟩] [] [],
    .element "button" [⟨"s-delete", "list"⟩] [] []]

/-- A click has added such an item, and its button is not wired. -/
theorem listeners_of_item_hidden :
    let start := ofMarkup (listMarkup [twiceMarkedItem] [])
    let page := start.startAll
    let deed := Deed.act (Event.click (.slot 8)) (.add 0)
    start.New ∧ start.Reaches page ∧ .slot 10 ∈ deed.items page ∧
      IsControlOf page.config (deed.carryOut page).tree "list" (.slot 10) (.slot 12) ∧
      deed.listenersFor page (.slot 10) = [] := by
  intro start page deed
  have hreaches : start.Reaches page :=
    Reaches.step Relation.ReflTransGen.refl .startAll trivial
  have hitem : .slot 10 ∈ deed.items page := by decide +kernel
  have hcontrol : .slot 12 ∈ markers (deed.carryOut page).tree "list" (.slot 10) ∧
      accepts page.config (deed.carryOut page).tree (.slot 12) = true := by decide +kernel
  obtain ⟨_, identifier, -, -, hidentifier, hlisteners, -⟩ :=
    listeners_of_item (new_ofMarkup _) hreaches hitem
  have hnamed : deed.identifier? page = some "list" := by decide +kernel
  cases hidentifier.symm.trans hnamed
  refine ⟨new_ofMarkup _, hreaches, hitem, ?_, ?_⟩
  · exact (isControlOf_iff ((hreaches.kept (new_ofMarkup _).kept).wellFormed_wiringTree deed)).2
      hcontrol
  · rw [hlisteners]
    decide +kernel

end Page

end Repeater
