/-
  Repeater/Proofs/Page/DataAdditions.lean
  =======================================
  **Adding from data to a page.**

  An addition from data to a started scope fails for two causes only: the trigger has no parent, or
  a mark for a sequence in the template has no pattern. Then nothing that was there has changed, and
  one line is in the log. Otherwise the item stands right before the trigger, one copy for each
  child of the contents of the template, in their order; the texts of the data are in its slots to
  the letter, and the counter has advanced by one (`addFromData_outcome`). The hooks of the page
  have no part in it (`addFromData_withHooks`).
-/
import Repeater.Proofs.Markup.Printing
import Repeater.Proofs.Page.Ledger
import Repeater.Proofs.Page.Refusals
import Repeater.Proofs.Page.Upkeep
import Repeater.Proofs.Scope.DataAdditions

namespace Repeater

open Dom Hook Markup Scope Stamp Tree

variable {σ : Type}

namespace Page

variable {page : Page σ} {n : Nat} {scope : Scope σ}

/-! ## Hooks have no part in it -/

/-- The page with other hooks of one scope, and with other callbacks. -/
def withHooks (page : Page σ) (n : Nat) (routines : Routines σ)
    (afterStart : Option (Routine σ)) (callbacks : Callbacks σ) : Page σ :=
  { page with
    scopes := page.scopes.modify n fun scope => { scope with routines, afterStart }
    callbacks }

/-- On a page with other hooks, an addition from data does the same. -/
theorem addFromData_withHooks (page : Page σ) (n : Nat) (data : List (String × String))
    (routines : Routines σ) (afterStart : Option (Routine σ)) (callbacks : Callbacks σ) :
    (page.withHooks n routines afterStart callbacks).addFromData n data =
      (page.addFromData n data).withHooks n routines afterStart callbacks := by
  have hscopes : (page.withHooks n routines afterStart callbacks).scopes[n]? =
      page.scopes[n]?.map fun scope => { scope with routines, afterStart } := by
    show (page.scopes.modify n _)[n]? = _
    rw [Array.getElem?_modify, if_pos rfl]
  unfold addFromData
  rcases hscope : page.scopes[n]? with _ | scope
  · rw [hscope] at hscopes
    unfold withScope
    rw [hscopes, hscope]
    rfl
  rw [hscope] at hscopes
  rw [withScope_eq _ _ hscopes, withScope_eq _ _ hscope]
  have hrun :
      exec (handleData (page.withHooks n routines afterStart callbacks).equipment data)
        ((page.withHooks n routines afterStart callbacks).desk
          { scope with routines, afterStart }) =
      ((exec (handleData page.equipment data) (page.desk scope)).1,
        (exec (handleData page.equipment data) (page.desk scope)).2.withHooks routines
          afterStart) :=
    blind_handleData data (page.desk scope) routines afterStart
  have hback : ∀ desk' : Desk σ, (page.withHooks n routines afterStart callbacks).putBack n
      (desk'.withHooks routines afterStart) =
        (page.putBack n desk').withHooks n routines afterStart callbacks := by
    intro desk'
    have hmodified : (page.scopes.modify n fun scope => { scope with routines, afterStart }
        ).setIfInBounds n { desk'.scope with routines, afterStart } =
          (page.scopes.setIfInBounds n desk'.scope).modify n
            fun scope => { scope with routines, afterStart } := by
      refine Array.ext_getElem? fun m => ?_
      simp only [Array.getElem?_setIfInBounds, Array.getElem?_modify, Array.size_modify]
      by_cases hm : n = m
      · subst hm
        by_cases hn : n < page.scopes.size <;> simp [hn]
      · simp [hm]
    exact congrArg (fun scopes => { page with
      document := { page.document with tree := desk'.stage.tree }
      scopes, listeners := desk'.listeners, outside := desk'.stage.outside, callbacks }) hmodified
  rw [hrun]
  rcases exec (handleData page.equipment data) (page.desk scope) with ⟨e | ⟨⟩, desk'⟩
  · exact congrArg (fun page' : Page σ => page'.log
      (failureLine e "add_item_using_data" desk'.scope.label)) (hback desk')
  · exact hback desk'

/-! ## The outcome -/

/-- What an addition from data that has failed leaves of a page: new nodes have come at most, and
    the failure is in the log. -/
structure Spared (page : Page σ) (line : LogLine) (page' : Page σ) : Prop where
  nodes : ∀ x, page.tree.Has x → page'.tree.get? x = page.tree.get? x
  links : ∀ x, page.tree.Has x → page'.tree.links.get? x = page.tree.links.get? x
  scopes : page'.scopes = page.scopes
  listeners : page'.listeners = page.listeners
  outside : page'.outside = page.outside.write line

/-- What an addition from data that has gone through leaves of a page. The copies of the children of
    `g` stand right before the trigger, with the texts of the data in their slots. -/
structure Supplied (page : Page σ) (n : Nat) (scope : Scope σ) (parts : Parts)
    (identifier : String) (g : NodeId) (data : List (String × String)) (page' : Page σ) : Prop where
  item : ∃ p φ before after, page.tree.parent? parts.trigger = some p ∧
    page.tree.children p = before ++ parts.trigger :: after ∧
    page'.tree.children p =
      before ++ (page.tree.children g).map φ ++ parts.trigger :: after ∧
    Gained page.tree g (itemTexts page.tree g scope.counter data) identifier scope.counter p
      (some parts.trigger) page'.tree φ
  scopes : ∀ m : Nat, page'.scopes[m]? =
    if m = n then some { scope with counter := scope.counter + 1 } else page.scopes[m]?
  listeners : ∃ added, page'.listeners.entries = page.listeners.entries ++ added ∧
    ∀ l ∈ added, ∃ item, l.handler = .delete n item ∧ ¬ page.tree.Has item
  outside : page'.outside = page.outside

theorem spared_of_extends (h : page.tree.WellFormed) (hscope : page.scopes[n]? = some scope)
    {t' : Tree} (hext : page.tree.Extends t') {operation : String}
    {flow : Equipment σ → Flow σ Unit} {error : Error}
    (hrun : exec (flow page.equipment) (page.desk scope) =
      (.error error, (page.desk scope).withTree t')) :
    page.Spared (failureLine error operation scope.label) (page.withScope n operation flow) := by
  have hback := withScope_eq operation flow hscope
  rw [hrun] at hback
  rw [hback]
  exact ⟨fun x hx => hext.old hx, fun x hx => hext.links h hx, scopes_putBack_same hscope rfl, rfl,
    rfl⟩

theorem supplied_of_gains (h : page.Kept) (hscope : page.scopes[n]? = some scope) {parts : Parts}
    {identifier : String} {g p : NodeId} {data : List (String × String)} {desk' : Desk σ}
    (hp : page.tree.parent? parts.trigger = some p)
    (hrun : exec (handleData page.equipment data) (page.desk scope) = (.ok ⟨⟩, desk'))
    (hgains : Gains page.equipment g (itemTexts page.tree g scope.counter data) identifier p
      (some parts.trigger) (page.desk scope) desk') :
    page.Supplied n scope parts identifier g data (page.addFromData n data) := by
  have hback := withScope_eq "add_item_using_data"
    (fun equipment => handleData equipment data) hscope
  rw [hrun] at hback
  change page.addFromData n data = page.putBack n desk' at hback
  obtain ⟨φ, hgained, houtside, hcounted⟩ := hgains
  rw [hback]
  constructor
  case item =>
    obtain ⟨before, after, hids, hbefore⟩ :=
      List.eq_append_cons_of_mem (h.wellFormed.child_of_parent hp)
    have hkids : desk'.stage.tree.children p = listWithRun ((page.tree.children g).map φ)
        (some parts.trigger) (page.tree.children p) := hgained.children
    rw [hids, listWithRun_append_cons hbefore] at hkids
    exact ⟨p, φ, before, after, hp, hids, hkids, hgained⟩
  case scopes =>
    intro m
    rw [scopes_putBack page hscope, hcounted.scope]
    rfl
  case listeners =>
    obtain ⟨added, hentries, hsub⟩ := hcounted.entries
    refine ⟨added, hentries, fun l hl => ?_⟩
    obtain ⟨item, hitem, hhandler⟩ := Wired.handler_of_sublist hsub hl
    obtain ⟨s, hs, rfl⟩ := List.mem_map.1 hitem
    refine ⟨φ s, ?_, (hgained.item s (List.mem_of_mem_filter hs)).2.new s .refl⟩
    rw [hhandler]
    exact congrArg (Action.delete · (φ s)) (h.number n scope hscope)
  case outside => exact houtside

/-- An addition from data to a started scope, in any state of the page in which the template does
    not hold itself. -/
theorem addFromData_outcome {start : Page σ} (hnew : start.New) (hreaches : start.Reaches page)
    (hscope : page.scopes[n]? = some scope) (hstarted : scope.started = true)
    (hgrounded : ∀ parts g, scope.parts = some parts →
      page.tree.contents? parts.template = some g → page.tree.GroundedFrom g)
    (data : List (String × String)) :
    ∃ parts identifier g, scope.resolved = .ok (parts, identifier) ∧
      page.tree.contents? parts.template = some g ∧
      ((Deed.fill n data).succeeds page = false ↔
        page.tree.parent? parts.trigger = none ∨
          ∃ m, page.tree.AtOrAbove g m ∧
            page.tree.attribute? m Directive.sequence.name = some "") ∧
      ((Deed.fill n data).succeeds page = false →
        ∃ error, page.Spared (failureLine error "add_item_using_data" scope.label)
          (page.addFromData n data)) ∧
      ((Deed.fill n data).succeeds page = true →
        page.Supplied n scope parts identifier g data (page.addFromData n data)) ∧
      ∀ routines afterStart callbacks,
        (page.withHooks n routines afterStart callbacks).addFromData n data =
          (page.addFromData n data).withHooks n routines afterStart callbacks := by
  have hkept := hreaches.kept hnew.kept
  obtain ⟨parts, identifier, hresolved⟩ := (hkept.settled n scope hscope).resolved hstarted
  have hparts := (resolved_eq_ok hresolved).1
  obtain ⟨g, hg⟩ := hreaches.stocked hnew n scope parts hscope hparts
  have hground := hgrounded parts g hparts hg
  refine ⟨parts, identifier, g, hresolved, hg, ?_⟩
  have hcases := exec_handleData_cases (page.desk scope)
    (hkept.settled n scope hscope).idle hresolved hkept.wellFormed hg hground page.equipment data
  change page.tree.parent? parts.trigger = none ∧ _ ∨ sequencesReady page.tree g = false ∧ _ ∨
    sequencesReady page.tree g = true ∧ _ at hcases
  rw [← sequencesReady_eq_false hkept.wellFormed]
  have hsucceeds : ∀ {result desk'},
      exec (handleData page.equipment data) (page.desk scope) = (result, desk') →
        (Deed.fill n data).succeeds page = result.isOk := fun hrun => succeeds_eq hscope hrun
  have hhooks := addFromData_withHooks page n data
  rcases hcases with
    ⟨hnone, hrun⟩ | ⟨hready, t', hrun, -, hext⟩ | ⟨hready, p, desk', hp, hrun, hgains⟩
  · rw [hsucceeds hrun]
    refine ⟨by simp [hnone, Except.isOk, Except.toBool], fun _ => ?_, by
      simp [Except.isOk, Except.toBool], hhooks⟩
    exact ⟨_, spared_of_extends hkept.wellFormed hscope (.refl page.tree) hrun⟩
  · rw [hsucceeds hrun]
    refine ⟨by simp [hready, Except.isOk, Except.toBool], fun _ => ?_, by
      simp [Except.isOk, Except.toBool], hhooks⟩
    exact ⟨_, spared_of_extends hkept.wellFormed hscope hext hrun⟩
  · rw [hsucceeds hrun]
    refine ⟨?_, by simp [Except.isOk, Except.toBool], fun _ => ?_, hhooks⟩
    · have hp' : page.tree.parent? parts.trigger = some p := hp
      simp [hready, hp', Except.isOk, Except.toBool]
    · exact supplied_of_gains hkept hscope hp hrun hgains

/-- An item with a place for a name. -/
def namedItem : ParseNode :=
  .element "li" [⟨"s-index", "id"⟩, ⟨"id", "item\x7b\x7bindex\x7d\x7d"⟩] [] [
    .element "b" [⟨"s-sequence", "00"⟩] [] [],
    .element "i" [⟨"s-slot", "name"⟩] [] []]

/-- Both children of the contents come before the trigger, and the name stays as it was given. -/
theorem addFromData_outcome_named :
    let start := ofMarkup (listMarkup [.text "next", namedItem] [])
    let page := start.startAll
    let data := [("name", "<b>\x7b\x7bindex\x7d\x7d</b>")]
    let page' := page.addFromData 0 data
    start.New ∧ start.Reaches page ∧ (Deed.fill 0 data).succeeds page = true ∧
      (∃ scope parts identifier, page.scopes[0]? = some scope ∧
        page.Supplied 0 scope parts identifier (.slot 3) data page') ∧
      page'.tree.children (.slot 1) = [.slot 2, .slot 8, .slot 11, .slot 12, .slot 9] ∧
      page'.tree.textContent (.slot 11) = "next" ∧
      page'.tree.attribute? (.slot 12) "id" = some "item0" ∧
      page'.tree.textContent (.slot 13) = "01" ∧
      page'.tree.textContent (.slot 14) = "<b>\x7b\x7bindex\x7d\x7d</b>" := by
  intro start page data page'
  have hnew : start.New := new_ofMarkup _
  have hreaches : start.Reaches page := Reaches.step Relation.ReflTransGen.refl .startAll trivial
  have hsucceeds : (Deed.fill 0 data).succeeds page = true := by decide +kernel
  refine ⟨hnew, hreaches, hsucceeds, ?_, by decide +kernel⟩
  have hscopes : page.scopes[0]?.map (fun scope =>
      (scope.started, scope.parts.map (page.tree.contents? ·.template))) =
        some (true, some (some (.slot 3))) := by decide +kernel
  obtain ⟨scope, hscope, hboth⟩ := Option.map_eq_some_iff.1 hscopes
  obtain ⟨hstarted, hcontents⟩ := Prod.mk.inj hboth
  have hgrounded : page.tree.Grounded := InOrder.grounded (by decide +kernel)
  obtain ⟨parts, identifier, g, hresolved, hg, -, -, hsupplied, -⟩ := addFromData_outcome hnew
    hreaches hscope hstarted (fun _ g _ _ => hgrounded.groundedFrom g) data
  rw [(resolved_eq_ok hresolved).1, Option.map_some, hg] at hcontents
  cases hcontents
  exact ⟨scope, parts, identifier, hscope, hsupplied hsucceeds⟩

end Page

end Repeater
