/-
  Repeater/Proofs/Page/Keeping.lean
  =================================
  **What no operation of a page breaks.**

  `Kept` is the invariant of pages. A scope's number is its position, no two scopes have one root,
  every scope is settled, and the listeners belong to the scopes as `Wired` says. Each flow of a
  scope keeps it, whether it fails or not and whatever the hooks do to the tree.
-/
import Repeater.Page
import Repeater.Proofs.Page.Wiring

namespace Repeater

open Dom Hook Scope Tree

variable {σ : Type}

/-- What holds of a scope between the operations of its page. -/
structure Scope.Settled (scope : Scope σ) (t : Tree) : Prop where
  idle : scope.activity = .idle
  identifier : scope.identifier.isSome = scope.started
  parts : scope.parts.isSome = scope.started
  root : scope.started = true → t.Has scope.root
  elements : ∀ parts, scope.parts = some parts →
    t.Has parts.template ∧ t.Has parts.trigger ∧ t.Has parts.container
  routines : scope.routines.Within Edited
  afterStart : ∀ routine, scope.afterStart = some routine → routine.Tame

theorem Scope.Settled.mono {scope : Scope σ} {t t' : Tree} (h : scope.Settled t)
    (hhas : ∀ x, t.Has x → t'.Has x) : scope.Settled t' where
  idle := h.idle
  identifier := h.identifier
  parts := h.parts
  root hstarted := hhas _ (h.root hstarted)
  elements parts hparts :=
    have ⟨htemplate, htrigger, hcontainer⟩ := h.elements parts hparts
    ⟨hhas _ htemplate, hhas _ htrigger, hhas _ hcontainer⟩
  routines := h.routines
  afterStart := h.afterStart

theorem Scope.Settled.resolved {scope : Scope σ} {t : Tree} (h : scope.Settled t)
    (hstarted : scope.started = true) :
    ∃ parts identifier, scope.resolved = .ok (parts, identifier) := by
  obtain ⟨parts, hparts⟩ := Option.isSome_iff_exists.1 (h.parts.trans hstarted)
  obtain ⟨identifier, hidentifier⟩ := Option.isSome_iff_exists.1 (h.identifier.trans hstarted)
  refine ⟨parts, identifier, ?_⟩
  unfold Scope.resolved
  rw [hparts, hidentifier]

namespace Page

/-- The trigger of a started scope. -/
def triggerOf (page : Page σ) (n : Nat) : Option NodeId :=
  (page.scopes[n]?).bind fun scope => scope.parts.map (·.trigger)

theorem triggerOf_of_scope {page : Page σ} {n : Nat} {scope : Scope σ}
    (hscope : page.scopes[n]? = some scope) : page.triggerOf n = scope.parts.map (·.trigger) := by
  unfold triggerOf
  rw [hscope, Option.bind_some]

theorem isSome_triggerOf {page : Page σ} {n : Nat} : (page.triggerOf n).isSome ↔
    ∃ scope, page.scopes[n]? = some scope ∧ scope.parts.isSome := by
  unfold triggerOf
  cases page.scopes[n]? <;> simp

/-- What a flow of a scope finds. -/
def desk (page : Page σ) (scope : Scope σ) : Desk σ :=
  ⟨scope, ⟨page.tree, page.outside⟩, page.listeners⟩

/-- What holds of a page between its operations. -/
structure Kept (page : Page σ) : Prop where
  wellFormed : page.tree.WellFormed
  number : ∀ (n : Nat) (scope : Scope σ), page.scopes[n]? = some scope → scope.number = n
  root : ∀ (m n : Nat) (scope scope' : Scope σ), page.scopes[m]? = some scope →
    page.scopes[n]? = some scope' → scope.root = scope'.root → m = n
  settled : ∀ (n : Nat) (scope : Scope σ), page.scopes[n]? = some scope → scope.Settled page.tree
  wired : Wired page.triggerOf page.tree page.listeners
  callbacks : page.callbacks.Within Edited

variable {page : Page σ} {n : Nat} {scope : Scope σ} {desk' : Desk σ} {event : Event}

namespace Kept

theorem log (h : page.Kept) (line : LogLine) : (page.log line).Kept :=
  ⟨h.wellFormed, h.number, h.root, h.settled, h.wired, h.callbacks⟩

theorem tameHooks (h : page.Kept) (hscope : page.scopes[n]? = some scope) :
    TameHooks page.equipment scope :=
  ⟨h.callbacks, (h.settled n scope hscope).routines⟩

end Kept

/-! ## Flows -/

theorem scopes_putBack (page : Page σ) (hscope : page.scopes[n]? = some scope) (desk' : Desk σ)
    (m : Nat) :
    (page.putBack n desk').scopes[m]? = if m = n then some desk'.scope else page.scopes[m]? := by
  have hn : n < page.scopes.size := (Array.getElem?_eq_some_iff.1 hscope).1
  show (page.scopes.setIfInBounds n desk'.scope)[m]? = _
  rw [Array.getElem?_setIfInBounds]
  by_cases hm : m = n
  · rw [if_pos hm.symm, if_pos hn, if_pos hm]
  · rw [if_neg (Ne.symm hm), if_neg hm]

theorem withScope_eq (operation : String) (flow : Equipment σ → Flow σ Unit)
    (hscope : page.scopes[n]? = some scope) : page.withScope n operation flow =
      match exec (flow page.equipment) (page.desk scope) with
      | (.ok (), desk') => page.putBack n desk'
      | (.error error, desk') =>
        (page.putBack n desk').log (failureLine error operation desk'.scope.label) := by
  unfold withScope
  rw [hscope]
  rfl

/-- Running a flow of a scope puts the desk back, and may write to the log. -/
theorem withScope_of_scope (operation : String) (flow : Equipment σ → Flow σ Unit)
    (hscope : page.scopes[n]? = some scope) :
    page.withScope n operation flow =
        page.putBack n (exec (flow page.equipment) (page.desk scope)).2 ∨
      ∃ line, page.withScope n operation flow =
        (page.putBack n (exec (flow page.equipment) (page.desk scope)).2).log line := by
  rw [withScope_eq operation flow hscope]
  rcases exec (flow page.equipment) (page.desk scope) with ⟨e | ⟨⟩, desk'⟩
  · exact .inr ⟨_, rfl⟩
  · exact .inl rfl

/-- What a page shows after a flow of a scope. -/
theorem withScope_shows (operation : String) (flow : Equipment σ → Flow σ Unit)
    (hscope : page.scopes[n]? = some scope) {result : Except Error Unit}
    (hrun : exec (flow page.equipment) (page.desk scope) = (result, desk')) :
    (page.withScope n operation flow).tree = desk'.stage.tree ∧
      (page.withScope n operation flow).listeners = desk'.listeners ∧
      ∀ m : Nat, (page.withScope n operation flow).scopes[m]? =
        if m = n then some desk'.scope else page.scopes[m]? := by
  have hscopes := scopes_putBack page hscope desk'
  rcases withScope_of_scope operation flow hscope with hback | ⟨line, hback⟩
  all_goals
    rw [hback, hrun]
    exact ⟨rfl, rfl, hscopes⟩

theorem withScope_of_none (operation : String) (flow : Equipment σ → Flow σ Unit)
    (hscope : page.scopes[n]? = none) : ∃ line, page.withScope n operation flow = page.log line := by
  unfold withScope
  rw [hscope]
  exact ⟨_, rfl⟩

theorem config_withScope (page : Page σ) (n : Nat) (operation : String)
    (flow : Equipment σ → Flow σ Unit) : (page.withScope n operation flow).config = page.config := by
  rcases hscope : page.scopes[n]? with _ | scope
  · obtain ⟨line, hline⟩ := withScope_of_none operation flow hscope
    rw [hline]
    rfl
  · rcases withScope_of_scope operation flow hscope with hback | ⟨line, hback⟩
    all_goals
      rw [hback]
      rfl

namespace Kept

/-- A flow keeps a page if the desk it leaves may be put back. -/
theorem withScope (h : page.Kept) (operation : String) (flow : Equipment σ → Flow σ Unit)
    (hflow : ∀ scope, page.scopes[n]? = some scope →
      (page.putBack n (exec (flow page.equipment) (page.desk scope)).2).Kept) :
    (page.withScope n operation flow).Kept := by
  rcases hscope : page.scopes[n]? with _ | scope
  · obtain ⟨line, hline⟩ := withScope_of_none operation flow hscope
    rw [hline]
    exact h.log line
  · rcases withScope_of_scope operation flow hscope with hback | ⟨line, hback⟩
    · rw [hback]
      exact hflow scope hscope
    · rw [hback]
      exact (hflow scope hscope).log line

/-- When a desk may be put back. -/
theorem putBack (h : page.Kept) (hscope : page.scopes[n]? = some scope)
    (hnumber : desk'.scope.number = scope.number) (hroot : desk'.scope.root = scope.root)
    (hgrown : page.tree.Grown desk'.stage.tree) (hsettled : desk'.scope.Settled desk'.stage.tree)
    (hwired : Wired (Function.update page.triggerOf n (desk'.scope.parts.map (·.trigger)))
      desk'.stage.tree desk'.listeners) : (page.putBack n desk').Kept := by
  have hscopes := scopes_putBack page hscope desk'
  -- the scopes on the new page have the numbers and roots of those on the old one
  have hold : ∀ (m : Nat) (s : Scope σ), (page.putBack n desk').scopes[m]? = some s →
      ∃ s' : Scope σ, page.scopes[m]? = some s' ∧
      s.number = s'.number ∧ s.root = s'.root := by
    intro m s hs
    rw [hscopes] at hs
    split at hs
    · next hm =>
      cases hs
      exact ⟨scope, hm ▸ hscope, hnumber, hroot⟩
    · exact ⟨s, hs, rfl, rfl⟩
  constructor
  case wellFormed => exact (hgrown h.wellFormed).1
  case number =>
    intro m s hs
    obtain ⟨s', hs', hnum, -⟩ := hold m s hs
    rw [hnum, h.number m s' hs']
  case root =>
    intro m m' s s' hs hs' hsame
    obtain ⟨u, hu, -, hu'⟩ := hold m s hs
    obtain ⟨v, hv, -, hv'⟩ := hold m' s' hs'
    exact h.root m m' u v hu hv (hu'.symm.trans (hsame.trans hv'))
  case settled =>
    intro m s hs
    rw [hscopes] at hs
    split at hs
    · cases hs
      exact hsettled
    · exact (h.settled m s hs).mono fun x => hgrown.has h.wellFormed
  case wired =>
    have htrigger : (page.putBack n desk').triggerOf =
        Function.update page.triggerOf n (desk'.scope.parts.map (·.trigger)) := by
      funext m
      unfold triggerOf Function.update
      rw [hscopes]
      by_cases hm : m = n
      · simp [hm]
      · simp [hm]
    rw [htrigger]
    exact hwired
  case callbacks => exact h.callbacks

theorem update_triggerOf (hscope : page.scopes[n]? = some scope) :
    Function.update page.triggerOf n (scope.parts.map (·.trigger)) = page.triggerOf :=
  Function.update_eq_self_iff.2 (triggerOf_of_scope hscope).symm

/-- A flow that has changed nothing of its scope but the number of items. -/
theorem putBack_counted (h : page.Kept) (hscope : page.scopes[n]? = some scope) {counter : Nat}
    (hcounted : desk'.scope = { scope with counter }) (hgrown : page.tree.Grown desk'.stage.tree)
    (hwired : Wired page.triggerOf desk'.stage.tree desk'.listeners) :
    (page.putBack n desk').Kept := by
  have hsettled := (h.settled n scope hscope).mono fun x => hgrown.has h.wellFormed
  refine h.putBack hscope ?_ ?_ hgrown ?_ ?_
  · rw [hcounted]
  · rw [hcounted]
  · rw [hcounted]
    exact { hsettled with }
  · rw [hcounted]
    show Wired (Function.update page.triggerOf n (scope.parts.map (·.trigger))) _ _
    rw [update_triggerOf hscope]
    exact hwired

/-- A flow that has changed the stage only. -/
theorem staged (h : page.Kept) (hscope : page.scopes[n]? = some scope)
    (hstaged : (page.desk scope).Staged Grown desk') : (page.putBack n desk').Kept := by
  refine h.putBack_counted hscope hstaged.scope hstaged.tree ?_
  rw [hstaged.listeners]
  exact h.wired.mono fun x => hstaged.tree.has h.wellFormed

/-- A flow that has added items, or changed the stage only. -/
theorem added (h : page.Kept) (hscope : page.scopes[n]? = some scope)
    (hadded : AddedOrStaged page.equipment (page.desk scope) desk') : (page.putBack n desk').Kept := by
  rcases hadded with hstaged | ⟨hparts, hgrown, items, hcounted, hnodup, hnew⟩
  · exact h.staged hscope hstaged
  obtain ⟨added, hentries, hsub⟩ := hcounted.entries
  change (added.map (·.handler)).Sublist (items.map (.delete scope.number)) at hsub
  rw [h.number n scope hscope] at hsub
  exact h.putBack_counted hscope hcounted.scope hgrown
    (h.wired.addItems (isSome_triggerOf.2 ⟨scope, hscope, hparts⟩) hentries hsub hnodup hnew
      fun x => hgrown.has h.wellFormed)

/-- A flow that has deleted an item. -/
theorem deleted (h : page.Kept) (hscope : page.scopes[n]? = some scope) {item : NodeId}
    (hdeleted : Deleted Grown item (page.desk scope) desk') : (page.putBack n desk').Kept := by
  have hwired : Wired page.triggerOf desk'.stage.tree page.listeners :=
    h.wired.mono fun x => hdeleted.grown.has h.wellFormed
  refine h.putBack_counted hscope hdeleted.scope hdeleted.grown ?_
  rcases hdeleted.listeners with hls | hls
  · rw [hls]
    exact hwired
  · rw [hls]
    exact hwired.dropItem item

/-- A start that has gone through. -/
theorem established (h : page.Kept) (hscope : page.scopes[n]? = some scope) {identifier : String}
    {parts : Parts} {desk₁ : Desk σ}
    (hestablished : Established page.equipment (page.desk scope) identifier parts desk₁)
    (hstaged : desk₁.Staged Grown desk') : (page.putBack n desk').Kept := by
  have hgrown := trans_of Grown hestablished.grown hstaged.tree
  have hhas : ∀ x, page.tree.Has x → desk'.stage.tree.Has x := fun x => hgrown.has h.wellFormed
  have hfound := findParts_eq_ok hestablished.found
  have hsettled := h.settled n scope hscope
  obtain ⟨wired, added, hlisteners, hentries, hsub⟩ := hestablished.listeners
  refine h.putBack hscope ?_ ?_ hgrown ?_ ?_
  · rw [hstaged.scope, hestablished.scope]; rfl
  · rw [hstaged.scope, hestablished.scope]; rfl
  · rw [hstaged.scope, hestablished.scope]
    obtain ⟨e, he⟩ := Option.isSome_iff_exists.1 hfound.isElement_root
    constructor
    case idle => exact hsettled.idle
    case identifier => rfl
    case parts => rfl
    case root => exact fun _ => hhas _ (has_of_element he)
    case elements =>
      rintro _ ⟨⟩
      exact ⟨hhas _ (has_findPart hfound.template), hhas _ (has_findPart hfound.trigger),
        hhas _ (has_findPart hfound.container)⟩
    case routines => exact hsettled.routines
    case afterStart => exact hsettled.afterStart
  · rw [hstaged.scope, hstaged.listeners, hestablished.scope, hlisteners]
    change wired.entries = (page.listeners.retain (outlivesStart page.tree scope.number
      parts.container)).entries ++ added at hentries
    change (added.map (·.handler)).Sublist
      ((page.tree.elementChildren parts.container).map (.delete scope.number)) at hsub
    show Wired (Function.update page.triggerOf n (some parts.trigger)) _
      (wired.add parts.trigger .click (.add scope.number))
    rw [h.number n scope hscope] at hentries hsub ⊢
    exact h.wired.start h.wellFormed hentries hsub hhas parts.trigger

/-! ## Operations that run a flow -/

theorem start (h : page.Kept) (n : Nat) : (page.start n).Kept := by
  refine h.withScope _ _ fun scope hscope => ?_
  rcases start_outcome (R := Grown) (page.desk scope) h.wellFormed page.equipment
    (fun routine hroutine => Routine.Within.mono (fun _ _ hedited => Edited.grown hedited)
      ((h.settled n scope hscope).afterStart routine hroutine)) with
    hsame | ⟨identifier, parts, desk₁, hestablished, hstaged⟩
  · rw [hsame]
    exact h.staged hscope (refl_of (Desk.Staged Grown) _)
  · exact h.established hscope hestablished hstaged

theorem addFromData (h : page.Kept) (n : Nat) (data : List (String × String)) :
    (page.addFromData n data).Kept :=
  h.withScope _ _ fun scope hscope => h.added hscope
    (handleData_outcome (page.desk scope) h.wellFormed (h.settled n scope hscope).idle
      page.equipment data)

theorem perform (h : page.Kept) (event : Event) (action : Action) :
    (page.perform event action).Kept := by
  cases action with
  | add n =>
    exact h.withScope "add" (handleAdd · event) fun scope hscope => h.added hscope
      (TameHooks.handleAdd (page.desk scope) (h.tameHooks hscope) h.wellFormed
        (h.settled n scope hscope).idle event)
  | delete n item =>
    exact h.withScope "delete" (handleDelete · event item) fun scope hscope => h.deleted hscope
      (TameHooks.handleDelete (page.desk scope) (h.tameHooks hscope)
        (h.settled n scope hscope).idle event item)

theorem performAll (h : page.Kept) (event : Event) (actions : List Action) :
    (actions.foldl (Page.perform event) page).Kept := by
  induction actions generalizing page with
  | nil => exact h
  | cons action rest ih => exact ih (h.perform event action)

theorem arrive (h : page.Kept) (event : Event) (node : NodeId) : (page.arrive event node).Kept :=
  h.performAll _ _

theorem arriveAll (h : page.Kept) (event : Event) (path : List NodeId) :
    (path.foldl (Page.arrive event) page).Kept := by
  induction path generalizing page with
  | nil => exact h
  | cons node rest ih => exact ih (h.arrive event node)

theorem click (h : page.Kept) (target : NodeId) : (page.click target).1.Kept := h.arriveAll _ _

/-! ## Operations that change the scopes or the document -/

theorem attach (h : page.Kept) (root : NodeId) : (page.attach root).1.Kept := by
  unfold Page.attach
  split
  · exact h
  next hnone =>
  have hfree : ∀ (m : Nat) (s : Scope σ), page.scopes[m]? = some s → s.root ≠ root := by
    intro m s hs hsame
    have := Array.findIdx?_eq_none_iff.1 hnone s (Array.mem_of_getElem? hs)
    simp [hsame] at this
  have hscopes : ∀ (m : Nat) (s : Scope σ),
      (page.scopes.push { number := page.scopes.size, root })[m]? = some s →
      page.scopes[m]? = some s ∨ m = page.scopes.size ∧ s = { number := page.scopes.size, root } := by
    intro m s hs
    rw [Array.getElem?_push] at hs
    split at hs
    · next hm => exact .inr ⟨hm, (Option.some.inj hs).symm⟩
    · exact .inl hs
  constructor
  case wellFormed => exact h.wellFormed
  case number =>
    intro m s hs
    rcases hscopes m s hs with hs | ⟨rfl, rfl⟩
    · exact h.number m s hs
    · rfl
  case root =>
    intro m m' s s' hs hs' hsame
    rcases hscopes m s hs with hs | ⟨rfl, rfl⟩ <;> rcases hscopes m' s' hs' with hs' | ⟨rfl, rfl⟩
    · exact h.root m m' s s' hs hs' hsame
    · exact absurd hsame (hfree m s hs)
    · exact absurd hsame.symm (hfree m' s' hs')
    · rfl
  case settled =>
    intro m s hs
    rcases hscopes m s hs with hs | ⟨rfl, rfl⟩
    · exact h.settled m s hs
    · exact ⟨rfl, rfl, rfl, by simp, by simp, Routines.within_empty, by simp⟩
  case wired =>
    have htrigger : triggerOf { page with
        scopes := page.scopes.push { number := page.scopes.size, root } } = page.triggerOf := by
      funext m
      unfold triggerOf
      dsimp only
      rw [Array.getElem?_push]
      split
      · next hm => simp [hm]
      · rfl
    show Wired (triggerOf _) _ _
    rw [htrigger]
    exact h.wired
  case callbacks => exact h.callbacks

theorem attachAll (h : page.Kept) (roots : List NodeId) : (page.attachAll roots).1.Kept := by
  induction roots generalizing page with
  | nil => exact h
  | cons root rest ih => exact ih (h.attach root)

theorem discover (h : page.Kept) : page.discover.1.Kept := h.attachAll _

theorem startAll (h : page.Kept) : page.startAll.Kept := by
  have hall : ∀ (numbers : List Nat) (page : Page σ), page.Kept →
      (numbers.foldl Page.start page).Kept := by
    intro numbers
    induction numbers with
    | nil => exact fun _ h => h
    | cons number rest ih => exact fun _ h => ih _ (h.start number)
  exact hall _ _ h.discover

/-- Registering hooks changes nothing else of a scope. -/
theorem changeScope (h : page.Kept) (n : Nat) {f : Scope σ → Scope σ}
    (hf : ∀ scope t, scope.Settled t → (f scope).Settled t ∧ (f scope).number = scope.number ∧
      (f scope).root = scope.root ∧ (f scope).parts = scope.parts) : (page.changeScope n f).Kept := by
  unfold Page.changeScope
  split
  swap
  · exact h.log _
  next hn =>
  have hscope : page.scopes[n]? = some page.scopes[n] := Array.getElem?_eq_getElem hn
  have hback : ({ page with scopes := page.scopes.modify n f } : Page σ) =
      page.putBack n { page.desk page.scopes[n] with scope := f page.scopes[n] } := by
    have hscopes : page.scopes.modify n f = page.scopes.setIfInBounds n (f page.scopes[n]) := by
      refine Array.ext_getElem? fun m => ?_
      rw [Array.getElem?_modify, Array.getElem?_setIfInBounds]
      by_cases hm : n = m
      · subst hm
        simp [hn]
      · simp [hm]
    rw [hscopes]
    rfl
  obtain ⟨hsettled, hnumber, hroot, hparts⟩ := hf _ _ (h.settled n _ hscope)
  rw [hback]
  refine h.putBack hscope hnumber hroot (refl_of Grown _) hsettled ?_
  rw [hparts, update_triggerOf hscope]
  exact h.wired

theorem registerRoutines (h : page.Kept) (n : Nat) {routines : Routines σ}
    (hroutines : routines.Within Edited) : (page.registerRoutines n routines).Kept :=
  h.changeScope n fun _ _ hsettled =>
    ⟨{ hsettled with routines := hsettled.routines.merge hroutines }, rfl, rfl, rfl⟩

theorem registerAfterStart (h : page.Kept) (n : Nat) {routine : Routine σ}
    (hroutine : routine.Tame) : (page.registerAfterStart n routine).Kept :=
  h.changeScope n fun _ _ hsettled =>
    ⟨{ hsettled with afterStart := by rintro _ ⟨⟩; exact hroutine }, rfl, rfl, rfl⟩

theorem registerCallback (h : page.Kept) (name : String) {callback : Callback σ}
    (hcallback : callback.Tame) : (page.registerCallback name callback).Kept :=
  ⟨h.wellFormed, h.number, h.root, h.settled, h.wired, h.callbacks.register hcallback⟩

/-- Edits of the document from outside. -/
theorem withTree (h : page.Kept) {t : Tree} (hgrown : page.tree.Grown t) :
    ({ page with document := { page.document with tree := t } } : Page σ).Kept :=
  have hhas : ∀ x, page.tree.Has x → t.Has x := fun _ => hgrown.has h.wellFormed
  ⟨(hgrown h.wellFormed).1, h.number, h.root, fun n scope hscope => (h.settled n scope hscope).mono hhas,
    h.wired.mono hhas, h.callbacks⟩

end Kept

end Page

end Repeater
