/-
  Repeater/Proofs/Page/Deeds.lean
  ===============================
  **What a page does when it is used, flow by flow.**

  Clicking, adding from data and starting scopes anew come down to running flows of scopes, one
  after the other (`foldl_deeds`). A click runs the flows of all listeners that it meets, and which
  these are is settled on each node when the click arrives there. `Since` is what holds of a page
  from some point on, as long as only such flows run and the hooks leave the tree alone.
-/
import Repeater.Proofs.Page.Runs
import Repeater.Proofs.Scope.Outcomes

namespace Repeater

open Dom Hook Scope Stamp Tree

variable {σ : Type}

/-! ## Deeds -/

/-- The run of one flow. -/
inductive Deed where
  /-- A listener does what it is for. -/
  | act (event : Event) (action : Action)
  /-- An addition from data. -/
  | fill (number : Nat) (data : List (String × String))
  /-- A start of a scope, be it the first one or a later one. -/
  | restart (number : Nat)
deriving DecidableEq, Repr

namespace Deed

/-- The scope whose flow it is. -/
def number : Deed → Nat
  | act _ action => action.scope
  | fill number _ => number
  | restart number => number

/-- What the log calls it. -/
def operation : Deed → String
  | act _ (.add _) => "add"
  | act _ (.delete _ _) => "delete"
  | fill _ _ => "add_item_using_data"
  | restart _ => "initialize"

def flow (equipment : Equipment σ) : Deed → Flow σ Unit
  | act event (.add _) => handleAdd equipment event
  | act event (.delete _ item) => handleDelete equipment event item
  | fill _ data => handleData equipment data
  | restart _ => Scope.start equipment

def carryOut (page : Page σ) (deed : Deed) : Page σ :=
  page.withScope deed.number deed.operation deed.flow

/-- A deed for a scope that the page does not have only writes to the log. -/
theorem carryOut_of_none {page : Page σ} {deed : Deed}
    (hscope : page.scopes[deed.number]? = none) :
    ∃ line, deed.carryOut page = page.log line :=
  Page.withScope_of_none deed.operation deed.flow hscope

/-- What a page shows after a deed: the tree and the listeners that the flow has left, and its scope
    in the place of the old one. -/
theorem carryOut_shows {page : Page σ} {deed : Deed} {scope : Scope σ} {desk' : Desk σ}
    (hscope : page.scopes[deed.number]? = some scope) {result : Except Error Unit}
    (hrun : exec (deed.flow page.equipment) (page.desk scope) = (result, desk')) :
    (deed.carryOut page).tree = desk'.stage.tree ∧
      (deed.carryOut page).listeners = desk'.listeners ∧
      ∀ m : Nat, (deed.carryOut page).scopes[m]? =
        if m = deed.number then some desk'.scope else page.scopes[m]? :=
  Page.withScope_shows deed.operation deed.flow hscope hrun

/-- The item it deletes. -/
def deletes? : Deed → Option NodeId
  | act _ action => action.deletes?
  | _ => none

/-- Whether it is a click on a trigger. -/
def isClick : Deed → Bool
  | act _ (.add _) => true
  | _ => false

/-- Whether it adds an item when it goes through. -/
def isAddition : Deed → Bool
  | act _ (.add _) => true
  | fill _ _ => true
  | _ => false

/-- Whether its flow goes through. -/
def succeeds (page : Page σ) (deed : Deed) : Bool :=
  match page.scopes[deed.number]? with
  | none => false
  | some scope => (exec (deed.flow page.equipment) (page.desk scope)).1.isOk

/-- The hooks that may run leave the tree alone, and a start finds the elements that the scope has,
    if it finds any. -/
def Still (page : Page σ) : Deed → Prop
  | act _ (.add n) => ∀ (scope : Scope σ) (parts : Parts), page.scopes[n]? = some scope →
      scope.parts = some parts → StillHooks page.equipment scope page.tree parts.trigger
  | act event (.delete n _) => ∀ scope : Scope σ, page.scopes[n]? = some scope →
      StillHooks page.equipment scope page.tree (event.current.getD event.target)
  | fill _ _ => True
  | restart n => ∀ scope : Scope σ, page.scopes[n]? = some scope →
      (∃ parts identifier, scope.resolved = .ok (parts, identifier) ∧
        ∀ found, findParts page.tree scope.root = .ok found → found = (identifier, parts)) ∧
      ∀ routine, scope.afterStart = some routine → routine.Within Eq

/-- Whether each of the deeds is still on the page on which it is carried out. -/
def AllStill : Page σ → List Deed → Prop
  | _, [] => True
  | page, deed :: rest => deed.Still page ∧ AllStill (deed.carryOut page) rest

theorem allStill_append (page : Page σ) (deeds rest : List Deed) : AllStill page (deeds ++ rest) ↔
    AllStill page deeds ∧ AllStill (deeds.foldl carryOut page) rest := by
  induction deeds generalizing page with
  | nil => simp [AllStill]
  | cons deed deeds ih => simp only [List.cons_append, AllStill, List.foldl_cons, ih, and_assoc]

/-- Whether a deed has no hooks to run, and a start finds what it has found before. -/
def unhooked (page : Page σ) (deed : Deed) : Bool :=
  page.scopes[deed.number]?.all fun scope =>
    match deed with
    | act _ (.add _) => scope.parts.all fun parts => Scope.unhooked scope page.tree parts.trigger
    | act event (.delete _ _) =>
      Scope.unhooked scope page.tree (event.current.getD event.target)
    | fill _ _ => true
    | restart _ =>
      match scope.resolved, findParts page.tree scope.root with
      | .ok (parts, identifier), .ok found =>
        decide (found = (identifier, parts)) && scope.afterStart.isNone
      | _, _ => false

def allUnhooked : Page σ → List Deed → Bool
  | _, [] => true
  | page, deed :: rest => deed.unhooked page && allUnhooked (deed.carryOut page) rest

theorem still_of_unhooked {page : Page σ} {deed : Deed} (h : deed.unhooked page = true) :
    deed.Still page := by
  match deed with
  | act event (.add n) =>
    intro scope parts hscope hparts
    apply StillHooks.of_unhooked
    rw [unhooked, show page.scopes[(act event (.add n)).number]? = some scope from hscope] at h
    simpa [hparts] using h
  | act event (.delete n item) =>
    intro scope hscope
    apply StillHooks.of_unhooked
    rw [unhooked, show page.scopes[(act event (.delete n item)).number]? = some scope from hscope]
      at h
    simpa using h
  | fill n data => trivial
  | restart n =>
    intro scope hscope
    rw [unhooked, show page.scopes[(restart n).number]? = some scope from hscope,
      Option.all_some] at h
    dsimp only at h
    split at h
    · next parts identifier found hresolved hfound =>
      rw [Bool.and_eq_true, decide_eq_true_eq, Option.isNone_iff_eq_none] at h
      refine ⟨⟨parts, identifier, hresolved, ?_⟩, ?_⟩
      · intro found' hfound'
        cases hfound.symm.trans hfound'
        exact h.1
      · intro routine hroutine
        rw [h.2] at hroutine
        cases hroutine
    · cases h

theorem allStill_of_allUnhooked {page : Page σ} {deeds : List Deed}
    (h : allUnhooked page deeds = true) : AllStill page deeds := by
  induction deeds generalizing page with
  | nil => trivial
  | cons deed rest ih =>
    rw [allUnhooked, Bool.and_eq_true] at h
    exact ⟨still_of_unhooked h.1, ih h.2⟩

end Deed

/-! ## Uses of a page that is ready -/

/-- What a visitor or the embedder does with a page once its scopes have been started. -/
inductive Use where
  | click (target : NodeId)
  | addFromData (number : Nat) (data : List (String × String))
  | start (number : Nat)
deriving DecidableEq, Repr

namespace Page

/-- What is carried out on a node where an event has arrived. -/
def arrivals (page : Page σ) (event : Event) (node : NodeId) : List Deed :=
  (page.listeners.on node event.kind).map fun l => .act { event with current := some node } l.handler

/-- What is carried out on all nodes that an event passes. -/
def passages (event : Event) : Page σ → List NodeId → List Deed
  | _, [] => []
  | page, here :: path => page.arrivals event here ++ passages event (page.arrive event here) path

end Page

namespace Use

def apply (page : Page σ) : Use → Page σ
  | click target => (page.click target).1
  | addFromData number data => page.addFromData number data
  | start number => page.start number

def deeds (page : Page σ) : Use → List Deed
  | click target =>
    page.passages (Event.click target) (target :: page.tree.ancestors target)
  | addFromData number data => [.fill number data]
  | start number => [.restart number]

end Use

namespace Page

variable {page start : Page σ} {n : Nat} {scope : Scope σ} {desk' : Desk σ}

/-- All that is carried out when a page is used. -/
def deeds : Page σ → List Use → List Deed
  | _, [] => []
  | page, use :: uses => use.deeds page ++ deeds (use.apply page) uses

theorem foldl_arrivals (page : Page σ) (event : Event) (node : NodeId) :
    (page.arrivals event node).foldl Deed.carryOut page = page.arrive event node := by
  have hone : ∀ (event : Event) (page : Page σ) (action : Action),
      Deed.carryOut page (.act event action) = page.perform event action := by
    intro event page action
    cases action <;> rfl
  unfold arrivals arrive
  rw [List.foldl_map, List.foldl_map]
  simp only [hone]

theorem eq_act_of_mem_arrivals {event : Event} {deed : Deed} {node : NodeId}
    (hdeed : deed ∈ page.arrivals event node) : ∃ l ∈ page.listeners.entries, l.target = node ∧
      deed = .act { event with current := some node } l.handler := by
  obtain ⟨l, hl, rfl⟩ := List.mem_map.1 hdeed
  rw [Listeners.on, List.mem_filter, Bool.and_eq_true, decide_eq_true_eq] at hl
  exact ⟨l, hl.1, hl.2.1, rfl⟩

theorem foldl_passages (event : Event) (page : Page σ) (path : List NodeId) :
    (page.passages event path).foldl Deed.carryOut page = path.foldl (arrive event) page := by
  induction path generalizing page with
  | nil => rfl
  | cons node path ih =>
    rw [passages, List.foldl_append, foldl_arrivals, ih]
    rfl

theorem foldl_use (page : Page σ) (use : Use) :
    (use.deeds page).foldl Deed.carryOut page = use.apply page := by
  cases use with
  | click target => exact foldl_passages _ _ _
  | addFromData number data => rfl
  | start number => rfl

/-- Using a page is carrying out deeds. -/
theorem foldl_deeds (page : Page σ) (uses : List Use) :
    (page.deeds uses).foldl Deed.carryOut page = uses.foldl Use.apply page := by
  induction uses generalizing page with
  | nil => rfl
  | cons use uses ih => rw [deeds, List.foldl_append, foldl_use, ih, List.foldl_cons]

/-! ## What holds from some point on -/

/-- What holds of a page that was `start` when its scopes were ready: the scopes have their elements,
    the tree has changed steadily, and all nodes that listeners may delete are shallow. -/
structure Since (start page : Page σ) : Prop where
  kept : page.Kept
  steady : Steady start.tree start.tree page.tree
  scopes : ∀ (m : Nat) (scope : Scope σ), page.scopes[m]? = some scope → ∃ scope₀ : Scope σ,
    start.scopes[m]? = some scope₀ ∧ scope.root = scope₀.root ∧ scope.parts = scope₀.parts ∧
      scope.identifier = scope₀.identifier
  shallow : ∀ l ∈ page.listeners.entries, ∀ item, l.handler.deletes? = some item →
    Shallow start.tree page.tree item

/-- At the start every node is shallow. -/
theorem Since.refl (h : start.Kept) : start.Since start where
  kept := h
  steady := .refl h.wellFormed _
  scopes _ scope hscope := ⟨scope, hscope, rfl, rfl, rfl⟩
  shallow l hl item hitem := by
    have hhandler : ∃ n, l.handler = .delete n item := by
      rcases hl : l.handler with n | ⟨n, item'⟩ <;> rw [hl] at hitem <;> cases hitem
      exact ⟨n, rfl⟩
    obtain ⟨n, hhandler⟩ := hhandler
    exact ⟨(h.wired.onItem l hl n item hhandler).2, fun _ hp => h.wellFormed.has_parent hp⟩

theorem Kept.carryOut (h : page.Kept) (deed : Deed) : (deed.carryOut page).Kept := by
  cases deed with
  | act event action =>
    have hperform := h.perform event action
    cases action <;> exact hperform
  | fill n data => exact h.addFromData n data
  | restart n => exact h.start n

namespace Since

/-- A scope has the identifier and the elements that it had. -/
theorem resolved (h : start.Since page) {scope₀ : Scope σ} (hscope₀ : start.scopes[n]? = some scope₀)
    (hscope : page.scopes[n]? = some scope) : scope.resolved = scope₀.resolved := by
  obtain ⟨scope₁, hscope₁, -, hparts, hidentifier⟩ := h.scopes n scope hscope
  rw [hscope₀, Option.some.injEq] at hscope₁
  subst hscope₁
  unfold Scope.resolved
  rw [hparts, hidentifier]

/-- The elements of a scope were there from the start. -/
theorem has_parts (h : start.Since page) (hstart : start.Kept)
    (hscope : page.scopes[n]? = some scope) {parts : Parts} (hparts : scope.parts = some parts) :
    start.tree.Has parts.template ∧ start.tree.Has parts.trigger ∧
      start.tree.Has parts.container := by
  obtain ⟨scope₀, hscope₀, -, hsame, -⟩ := h.scopes n scope hscope
  exact (hstart.settled n scope₀ hscope₀).elements parts (hsame ▸ hparts)

theorem has_root (h : start.Since page) (hstart : start.Kept)
    (hscope : page.scopes[n]? = some scope) {parts : Parts} (hparts : scope.parts = some parts) :
    start.tree.Has scope.root := by
  obtain ⟨scope₀, hscope₀, hroot, hsame, -⟩ := h.scopes n scope hscope
  have hsettled := hstart.settled n scope₀ hscope₀
  rw [hroot]
  apply hsettled.root
  rw [← hsettled.parts, ← hsame, hparts]
  rfl

/-- The parent of the trigger of a scope was there from the start, and was its parent then. -/
theorem parent_trigger (h : start.Since page) (hstart : start.Kept)
    (hscope : page.scopes[n]? = some scope) {parts : Parts} (hparts : scope.parts = some parts)
    {p : NodeId} (hp : page.tree.parent? parts.trigger = some p) :
    start.tree.parent? parts.trigger = some p ∧ start.tree.Has p := by
  have hparent := h.steady.parent _ p (h.has_parts hstart hscope hparts).2.1 hp
  exact ⟨hparent, hstart.wellFormed.has_parent hparent⟩

/-- Whatever is carried out on such a page is steady. -/
theorem shifted (h : start.Since page) (hstart : start.Kept) {deed : Deed}
    (hstill : deed.Still page)
    (hshallow : ∀ item, deed.deletes? = some item → Shallow start.tree page.tree item)
    (hscope : page.scopes[deed.number]? = some scope) {result : Except Error Unit}
    (hrun : exec (deed.flow page.equipment) (page.desk scope) = (result, desk')) :
    Shifted start.tree (page.desk scope) desk' := by
  have hsettled := h.kept.settled _ scope hscope
  have hwf : (page.desk scope).stage.tree.WellFormed := h.kept.wellFormed
  match deed with
  | .act event (.add n) =>
    obtain ⟨_, _, hrun', hshifted, -⟩ := StillHooks.handleAdd start.tree
      (page.desk scope) hsettled.idle hwf (fun parts hparts => hstill scope parts hscope hparts)
      (fun parts hparts => ⟨(h.has_parts hstart hscope hparts).2.2,
        (hsettled.elements parts hparts).2.2⟩) event
    cases hrun'.symm.trans hrun
    exact hshifted
  | .act event (.delete n item) =>
    exact (StillHooks.handleDelete (page.desk scope) hsettled.idle hwf (hstill scope hscope)
      (hshallow item rfl) hrun).1
  | .fill n data =>
    obtain ⟨_, _, hrun', hshifted, -⟩ := handleData_ends start.tree (page.desk scope)
      hsettled.idle hwf (fun parts p hparts hp => (h.parent_trigger hstart hscope hparts hp).2)
      page.equipment data
    cases hrun'.symm.trans hrun
    exact hshifted
  | .restart n =>
    obtain ⟨⟨parts, identifier, hresolved, hfound⟩, hafter⟩ := hstill scope hscope
    have hparts := (resolved_eq_ok hresolved).1
    have hstarted : scope.started = true := by
      rw [← hsettled.parts, hparts]
      rfl
    exact (restart_ends (page.desk scope) hwf hresolved hstarted hfound hafter
      (h.has_root hstart hscope hparts) (h.has_parts hstart hscope hparts).2.2 hrun).1

theorem steady_carryOut (h : start.Since page) (hstart : start.Kept) {deed : Deed}
    (hstill : deed.Still page)
    (hshallow : ∀ item, deed.deletes? = some item → Shallow start.tree page.tree item) :
    Steady start.tree page.tree (deed.carryOut page).tree := by
  rcases hscope : page.scopes[deed.number]? with _ | scope
  · obtain ⟨line, hline⟩ := Deed.carryOut_of_none hscope
    rw [hline]
    exact .refl h.kept.wellFormed _
  · obtain ⟨result, desk', hrun⟩ : ∃ result desk', exec (deed.flow page.equipment)
        (page.desk scope) = (result, desk') := ⟨_, _, rfl⟩
    obtain ⟨htree, -, -⟩ := Deed.carryOut_shows hscope hrun
    rw [htree]
    exact (h.shifted hstart hstill hshallow hscope hrun).steady

theorem carryOut (h : start.Since page) (hstart : start.Kept) {deed : Deed}
    (hstill : deed.Still page)
    (hshallow : ∀ item, deed.deletes? = some item → Shallow start.tree page.tree item) :
    start.Since (deed.carryOut page) := by
  have hsteady := h.steady_carryOut hstart hstill hshallow
  have hold : ∀ l ∈ page.listeners.entries, ∀ item, l.handler.deletes? = some item →
      Shallow start.tree (deed.carryOut page).tree item :=
    fun l hl item hitem => hsteady.shallow (h.shallow l hl item hitem)
  refine ⟨h.kept.carryOut deed, h.steady.trans hsteady, ?_, ?_⟩
  all_goals
    rcases hscope : page.scopes[deed.number]? with _ | scope
  · obtain ⟨line, hline⟩ := Deed.carryOut_of_none hscope
    rw [hline]
    exact h.scopes
  · obtain ⟨result, desk', hrun⟩ : ∃ result desk', exec (deed.flow page.equipment)
        (page.desk scope) = (result, desk') := ⟨_, _, rfl⟩
    obtain ⟨-, -, hscopes⟩ := Deed.carryOut_shows hscope hrun
    have hshifted := h.shifted hstart hstill hshallow hscope hrun
    intro m scope' hscope'
    rw [hscopes m] at hscope'
    split at hscope'
    · next hm =>
      cases hscope'
      obtain ⟨scope₀, hscope₀, hroot, hparts, hidentifier⟩ := h.scopes _ scope hscope
      exact ⟨scope₀, hm ▸ hscope₀, hshifted.root.trans hroot, hshifted.parts.trans hparts,
        hshifted.identifier.trans hidentifier⟩
    · exact h.scopes m scope' hscope'
  · obtain ⟨line, hline⟩ := Deed.carryOut_of_none hscope
    have hsame : (deed.carryOut page).listeners = page.listeners := by
      rw [hline]
      rfl
    rw [hsame]
    exact hold
  · obtain ⟨result, desk', hrun⟩ : ∃ result desk', exec (deed.flow page.equipment)
        (page.desk scope) = (result, desk') := ⟨_, _, rfl⟩
    obtain ⟨htree, hlisteners, -⟩ := Deed.carryOut_shows hscope hrun
    have hshifted := h.shifted hstart hstill hshallow hscope hrun
    intro l hl item hitem
    rw [hlisteners] at hl
    rcases hshifted.listeners l hl with hl | hnew
    · exact hold l hl item hitem
    · rw [htree]
      exact hnew item hitem

end Since

end Page

end Repeater
