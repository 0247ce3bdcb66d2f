/-
  Repeater/Proofs/Page/Neighbours.lean
  ====================================
  **Scopes leave each other alone.**

  All scopes of a page share one tree, one registry of listeners and one table of callbacks. Still a
  flow of one scope leaves the records of the others as they are, and their listeners in the
  registry, each with its target and at its place among them; only a deletion that takes its item
  out takes along what other scopes have wired for this very item (`carryOut_leavesOthers`). This
  holds of every page that has come about by its operations, from a page without scopes, whatever is
  registered on it.
-/
import Repeater.Proofs.Page.Removals
import Repeater.Proofs.Scope.LeavingOthers

namespace Repeater

open Dom Hook Markup Scope

variable {σ : Type}

namespace Page

variable {page : Page σ} {n : Nat}

/-! ## Where scopes stand -/

/-- Each scope stands at its number and does nothing. -/
def AtRest (page : Page σ) : Prop :=
  ∀ (n : Nat) (scope : Scope σ), page.scopes[n]? = some scope →
    scope.number = n ∧ scope.activity = .idle

namespace AtRest

theorem of_no_scopes (h : page.scopes = #[]) : page.AtRest := by
  intro n scope hscope
  simp [h] at hscope

theorem log (h : page.AtRest) (line : LogLine) : (page.log line).AtRest := h

/-- A page is at rest if its scopes are old ones or stand at rest. -/
theorem of_scopes {page' : Page σ} (h : page.AtRest)
    (hscopes : ∀ (m : Nat) (scope : Scope σ), page'.scopes[m]? = some scope →
      page.scopes[m]? = some scope ∨ scope.number = m ∧ scope.activity = .idle) :
    page'.AtRest :=
  fun m scope hscope => (hscopes m scope hscope).elim (h m scope) id

theorem withScope (h : page.AtRest) (operation : String) (flow : Equipment σ → Flow σ Unit)
    (hflow : ∀ scope : Scope σ, page.scopes[n]? = some scope →
      scope.number = n → scope.activity = .idle →
        (exec (flow page.equipment) (page.desk scope)).2.scope.number = n ∧
          (exec (flow page.equipment) (page.desk scope)).2.scope.activity = .idle) :
    (page.withScope n operation flow).AtRest := by
  rcases hscope : page.scopes[n]? with _ | scope
  · obtain ⟨line, hline⟩ := withScope_of_none operation flow hscope
    rw [hline]
    exact h.log line
  obtain ⟨hnumber, hidle⟩ := h n scope hscope
  obtain ⟨result, desk', hrun⟩ : ∃ result desk', exec (flow page.equipment) (page.desk scope) =
      (result, desk') := ⟨_, _, rfl⟩
  have hafter := hflow scope hscope hnumber hidle
  rw [hrun] at hafter
  obtain ⟨-, -, hscopes⟩ := withScope_shows operation flow hscope hrun
  refine h.of_scopes fun m scope' hscope' => ?_
  rw [hscopes] at hscope'
  split at hscope'
  · next hm =>
    cases hscope'
    exact .inr ⟨hm ▸ hafter.1, hafter.2⟩
  · exact .inl hscope'

theorem of_others (h : page.AtRest) (operation : String) {flow : Equipment σ → Flow σ Unit}
    (hflow : ∀ equipment, Keeps (Desk.LeavesOthers n) (flow equipment)) :
    (page.withScope n operation flow).AtRest :=
  h.withScope operation flow fun scope _ hnumber hidle =>
    have ⟨hnumber', hactivity, _⟩ := hflow page.equipment (page.desk scope) hnumber
    ⟨hnumber', hactivity.trans hidle⟩

theorem start (h : page.AtRest) (n : Nat) : (page.start n).AtRest :=
  h.of_others "initialize" fun _ => others_start

theorem addFromData (h : page.AtRest) (n : Nat) (data : List (String × String)) :
    (page.addFromData n data).AtRest :=
  h.of_others "add_item_using_data" fun _ => others_handleData data

theorem perform (h : page.AtRest) (event : Event) (action : Action) :
    (page.perform event action).AtRest := by
  cases action with
  | add n => exact h.of_others "add" fun _ => others_handleAdd event
  | delete n item =>
    refine h.withScope "delete" (handleDelete · event item) fun scope _ hnumber hidle => ?_
    obtain ⟨hscope, -⟩ := handleDelete_listeners page.equipment (page.desk scope) hidle event item
    rw [hscope]
    exact ⟨hnumber, hidle⟩

/-- Doing one thing after the other. -/
theorem foldl {α : Type} {step : Page σ → α → Page σ}
    (hstep : ∀ page : Page σ, page.AtRest → ∀ a, (step page a).AtRest) (as : List α)
    (h : page.AtRest) : (as.foldl step page).AtRest := by
  induction as generalizing page with
  | nil => exact h
  | cons a rest ih => exact ih (hstep page h a)

theorem click (h : page.AtRest) (target : NodeId) : (page.click target).1.AtRest :=
  foldl (fun _ h _ => foldl (fun _ h => h.perform _) _ h) _ h

theorem attach (h : page.AtRest) (root : NodeId) : (page.attach root).1.AtRest := by
  unfold Page.attach
  split
  · exact h
  refine h.of_scopes fun m scope hscope => ?_
  rw [Array.getElem?_push] at hscope
  split at hscope
  · next hm =>
    cases hscope
    exact .inr ⟨hm.symm, rfl⟩
  · exact .inl hscope

theorem attachAll (h : page.AtRest) (roots : List NodeId) : (page.attachAll roots).1.AtRest := by
  induction roots generalizing page with
  | nil => exact h
  | cons root rest ih => exact ih (h.attach root)

theorem changeScope (h : page.AtRest) (n : Nat) {f : Scope σ → Scope σ}
    (hf : ∀ scope, (f scope).number = scope.number ∧ (f scope).activity = scope.activity) :
    (page.changeScope n f).AtRest := by
  unfold Page.changeScope
  split
  swap
  · exact h.log _
  refine h.of_scopes fun m scope hscope => ?_
  rw [Array.getElem?_modify] at hscope
  split at hscope
  · obtain ⟨old, hold, rfl⟩ := Option.map_eq_some_iff.1 hscope
    obtain ⟨hnumber, hidle⟩ := h m old hold
    exact .inr ⟨(hf old).1.trans hnumber, (hf old).2.trans hidle⟩
  · exact .inl hscope

theorem apply (h : page.AtRest) (operation : Operation σ) : (operation.apply page).AtRest := by
  cases operation with
  | attach root => exact h.attach root
  | discover => exact h.attachAll _
  | start n => exact h.start n
  | startAll => exact foldl (fun _ h => h.start) _ (h.attachAll _)
  | click target => exact h.click target
  | addFromData n data => exact h.addFromData n data
  | registerRoutines n routines => exact h.changeScope n fun _ => ⟨rfl, rfl⟩
  | registerAfterStart n routine => exact h.changeScope n fun _ => ⟨rfl, rfl⟩
  | registerCallback name callback => exact h
  | edit operation => exact h

end AtRest

/-! ## What a deed leaves to the others -/

/-- The deed is a deletion that takes the item out. -/
def TakesOut (page : Page σ) (item : NodeId) : Deed → Prop
  | .act event (.delete n item') => item' = item ∧ ∃ scope : Scope σ, page.scopes[n]? = some scope ∧
      Scope.TakesOut page.equipment event item (page.desk scope)
  | _ => False

theorem scopes_carryOut (page : Page σ) (deed : Deed) {m : Nat} (hm : m ≠ deed.number) :
    (deed.carryOut page).scopes[m]? = page.scopes[m]? := by
  rcases hscope : page.scopes[deed.number]? with _ | scope
  · obtain ⟨line, hline⟩ := Deed.carryOut_of_none hscope
    rw [hline]
    rfl
  · obtain ⟨-, -, hscopes⟩ := Deed.carryOut_shows hscope Prod.mk.eta.symm
    rw [hscopes, if_neg hm]

/-- All deeds but deletions leave the others alone. -/
theorem others_flow (equipment : Equipment σ) {deed : Deed} (hdeed : deed.deletes? = none) :
    Keeps (Desk.LeavesOthers n) (deed.flow equipment) := by
  match deed with
  | .act event (.add _) => exact others_handleAdd event
  | .fill _ data => exact others_handleData data
  | .restart _ => exact others_start

theorem AtRest.listeners_carryOut (h : page.AtRest) (deed : Deed) :
    ((¬ ∃ item, page.TakesOut item deed) ∧
        (deed.carryOut page).listeners.besides deed.number =
          page.listeners.besides deed.number) ∨
      ∃ item, page.TakesOut item deed ∧ (deed.carryOut page).listeners.besides deed.number =
        (page.listeners.besides deed.number).filter (·.handler.deletes? ≠ some item) := by
  rcases hscope : page.scopes[deed.number]? with _ | scope
  · obtain ⟨line, hline⟩ := Deed.carryOut_of_none hscope
    refine .inl ⟨?_, by rw [hline]; rfl⟩
    rintro ⟨item, htakes⟩
    match deed with
    | .act event (.delete n item') =>
      obtain ⟨-, scope, hsome, -⟩ := htakes
      cases hscope.symm.trans hsome
  obtain ⟨hnumber, hidle⟩ := h _ scope hscope
  obtain ⟨result, desk', hrun⟩ : ∃ result desk',
      exec (deed.flow page.equipment) (page.desk scope) = (result, desk') := ⟨_, _, rfl⟩
  obtain ⟨-, hlisteners, -⟩ := Deed.carryOut_shows hscope hrun
  rw [hlisteners]
  rcases hdeletes : deed.deletes? with _ | item
  · refine .inl ⟨?_, ?_⟩
    · rintro ⟨item, htakes⟩
      match deed with
      | .act event (.delete n item') => cases hdeletes
    · have hleaves := others_flow page.equipment hdeletes (page.desk scope) hnumber
      rw [hrun] at hleaves
      exact hleaves.2.2
  · match deed with
    | .act event (.delete n item') =>
      cases hdeletes
      obtain ⟨-, hend⟩ := handleDelete_listeners page.equipment (page.desk scope) hidle event
        item
      change exec (handleDelete page.equipment event item) (page.desk scope) = _ at hrun
      rw [hrun] at hend
      rcases hend with ⟨htakes, hgone⟩ | ⟨hnot, hsame⟩
      · exact .inr ⟨item, ⟨rfl, scope, hscope, htakes⟩,
          (congrArg (·.besides n) hgone).trans (Listeners.besides_without n item _)⟩
      · refine .inl ⟨?_, congrArg (·.besides n) hsame⟩
        rintro ⟨item', rfl, scope', hscope', htakes⟩
        cases hscope.symm.trans hscope'
        exact hnot htakes

/-- On a page that has come about by its operations, whatever its hooks do, a start, an addition or
    a deletion of one scope leaves the records of all other scopes as they are, and their listeners,
    but for those that delete the very item that has been taken out. -/
theorem carryOut_leavesOthers (start : Page σ) (hstart : start.scopes = #[])
    (operations : List (Operation σ)) (deed : Deed) :
    let page := operations.foldl Operation.apply start
    let page' := deed.carryOut page
    (∀ m : Nat, m ≠ deed.number → page'.scopes[m]? = page.scopes[m]?) ∧
      ((¬ ∃ item, page.TakesOut item deed) ∧
          page'.listeners.besides deed.number = page.listeners.besides deed.number ∨
        ∃ item, page.TakesOut item deed ∧ page'.listeners.besides deed.number =
          (page.listeners.besides deed.number).filter (·.handler.deletes? ≠ some item)) := by
  intro page page'
  have hrest : page.AtRest :=
    AtRest.foldl (fun _ h operation => h.apply operation) operations (AtRest.of_no_scopes hstart)
  exact ⟨fun m hm => scopes_carryOut page deed hm, hrest.listeners_carryOut deed⟩

/-- Two scopes have wired the control of one item. When the first deletes the item, the second loses
    its listener for the item, and keeps the one on its trigger. -/
theorem carryOut_leavesOthers_shared :
    let start := ofMarkup sharedMarkup
    let page := [Operation.startAll].foldl Operation.apply start
    let deed : Deed := .act (Event.click (.slot 7)) (.delete 0 (.slot 6))
    let page' := deed.carryOut page
    start.scopes = #[] ∧ page'.scopes[1]? = page.scopes[1]? ∧
      (page.listeners.besides 0).map (·.handler) = [.delete 1 (.slot 6), .add 1] ∧
      page'.listeners.besides 0 =
        (page.listeners.besides 0).filter (·.handler.deletes? ≠ some (.slot 6)) ∧
      (page'.listeners.besides 0).map (·.handler) = [.add 1] := by
  intro start page deed page'
  have hbefore : (page.listeners.besides 0).map (·.handler) = [.delete 1 (.slot 6), .add 1] := by
    decide +kernel
  have hafter : (page'.listeners.besides 0).map (·.handler) = [.add 1] := by decide +kernel
  obtain ⟨hscopes, hlisteners⟩ := carryOut_leavesOthers start rfl [.startAll] deed
  refine ⟨rfl, hscopes 1 (by decide), hbefore, ?_, hafter⟩
  rcases hlisteners with ⟨-, hsame⟩ | ⟨item, htakes, hothers⟩
  · have hmap := congrArg (List.map (·.handler)) hsame
    change (page'.listeners.besides 0).map (·.handler) = (page.listeners.besides 0).map _ at hmap
    rw [hafter, hbefore] at hmap
    cases hmap
  · rw [← htakes.1] at hothers
    exact hothers

end Page

end Repeater
