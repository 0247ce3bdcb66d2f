/-
  Repeater/Proofs/Page/Refusals.lean
  ==================================
  **Starts that fail.**

  A start checks its scope before it changes anything: the identifier, the elements, the template,
  and at the first start the sequence marks of all items in the container (`Scope.Checked`). What
  has passed the check is taken in, wired and marked without fail, and only the registered hook
  after the start can still end it. So a start that fails has either left the page as it was, but
  for the line in the log, or has handed on the failure of that hook (`Page.failed_start`).
-/
import Repeater.Proofs.Page.Runs
import Repeater.Proofs.Scope.Starting

namespace Repeater

open Dom Hook Markup Scope Stamp Tree

namespace Page

variable {σ : Type} {page : Page σ} {n : Nat} {scope : Scope σ}

theorem putBack_desk (hscope : page.scopes[n]? = some scope) :
    page.putBack n (page.desk scope) = page := by
  have hscopes : page.scopes.setIfInBounds n scope = page.scopes := by
    refine Array.ext_getElem? fun m => ?_
    rw [Array.getElem?_setIfInBounds]
    split
    · next hm =>
      rw [if_pos (Array.getElem?_eq_some_iff.1 hscope).1, ← hm, hscope]
    · rfl
  unfold putBack desk
  rw [hscopes]
  rfl

/-- Putting back a desk whose scope has not changed leaves all scopes as they were. -/
theorem scopes_putBack_same (hscope : page.scopes[n]? = some scope) {desk' : Desk σ}
    (hsame : desk'.scope = scope) : (page.putBack n desk').scopes = page.scopes := by
  show page.scopes.setIfInBounds n desk'.scope = page.scopes
  rw [hsame]
  exact congrArg Page.scopes (putBack_desk hscope)

/-- When a start fails, the page is as it was but for a line in the log, or the registered hook
    after the start has failed. Once the check has been passed, the result is that of the hook, and
    success when there is none. -/
theorem failed_start (hdocument : Tree.empty.Edited page.tree)
    (hscope : page.scopes[n]? = some scope) :
    (∀ e desk', exec (Scope.start page.equipment) (page.desk scope) = (.error e, desk') →
      (desk' = page.desk scope ∧
        page.start n = page.log (failureLine e "initialize" scope.label)) ∨
      ∃ identifier parts desk₁ routine failure,
        Established page.equipment (page.desk scope) identifier parts desk₁ ∧
        scope.afterStart = some routine ∧
        (exec (routine (context page.equipment desk₁.scope parts
          (page.tree.elementChildren parts.container) none)) desk₁.stage).1 = .error failure ∧
        e = failure.toError) ∧
    ∀ identifier parts, scope.Checked page.tree identifier parts →
      ∃ desk₁, Established page.equipment (page.desk scope) identifier parts desk₁ ∧
        exec (Scope.start page.equipment) (page.desk scope) =
          match scope.afterStart with
          | none => (.ok (), desk₁)
          | some routine =>
            let ran := exec (routine (context page.equipment desk₁.scope parts
              (page.tree.elementChildren parts.container) none)) desk₁.stage
            (ran.1.mapError Failure.toError, { desk₁ with stage := ran.2 }) := by
  have hwf : page.tree.WellFormed := hdocument.wellFormed wellFormed_empty
  have hrunAfter : ∀ {identifier parts desk₁},
      Established page.equipment (page.desk scope) identifier parts desk₁ →
      exec (runAfterStart page.equipment parts (page.tree.elementChildren parts.container)) desk₁ =
        match scope.afterStart with
        | none => (.ok (), desk₁)
        | some routine =>
          let ran := exec (routine (context page.equipment desk₁.scope parts
            (page.tree.elementChildren parts.container) none)) desk₁.stage
          (ran.1.mapError Failure.toError, { desk₁ with stage := ran.2 }) := by
    intro identifier parts desk₁ hestablished
    have hafter : desk₁.scope.afterStart = scope.afterStart := by rw [hestablished.scope]; rfl
    rw [exec_runAfterStart, hafter] <;> rfl
  rcases exec_start_cases (page.desk scope) hwf page.equipment with
    ⟨identifier, parts, desk₁, hchecked, hestablished, hrun⟩ | ⟨hunchecked, error, hrun⟩
  · have hrun := hrun.trans (hrunAfter hestablished)
    constructor
    · intro e desk' hfails
      refine .inr ⟨identifier, parts, desk₁, ?_⟩
      rw [hrun] at hfails
      rcases hafter : scope.afterStart with _ | routine
      · rw [hafter] at hfails
        simp at hfails
      · rw [hafter] at hfails
        dsimp only at hfails
        rcases hran : (exec (routine (context page.equipment desk₁.scope parts
          (page.tree.elementChildren parts.container) none)) desk₁.stage).1 with failure | _
        · rw [hran] at hfails
          cases hfails
          exact ⟨routine, failure, hestablished, rfl, hran, rfl⟩
        · rw [hran] at hfails
          simp [Except.mapError] at hfails
    · intro identifier' parts' hchecked'
      have hsame := hchecked'.found.symm.trans hchecked.found
      cases hsame
      exact ⟨desk₁, hestablished, hrun⟩
  · constructor
    · intro e desk' hfails
      rw [hrun] at hfails
      cases hfails
      refine .inl ⟨rfl, ?_⟩
      unfold start
      rw [withScope_eq _ _ hscope, hrun]
      dsimp only
      rw [putBack_desk hscope]
      rfl
    · exact fun identifier parts hchecked => absurd ⟨identifier, parts, hchecked⟩ hunchecked

/-- A list with two items, of which the second has a sequence mark without digits. -/
def unreadyMarkup : List ParseNode :=
  [.element "div" [⟨"stamper", "list"⟩] [] [
    .element "template" [⟨"s-temp", "list"⟩] [.element "li" [⟨"s-sequence", "0"⟩] [] []] [],
    .element "ul" [⟨"s-crate", "list"⟩] [] [
      .element "li" [⟨"s-sequence", "0"⟩] [] [.text "x"],
      .element "li" [⟨"s-sequence", ""⟩] [] [.text "y"]],
    .element "button" [⟨"s-cast", "list"⟩] [] []]]

/-- The second item is not ready, so the first one is not stamped either. -/
theorem failed_start_unready :
    let page := (ofMarkup unreadyMarkup).discover.1
    Tree.empty.Edited page.tree ∧ ∃ scope, page.scopes[0]? = some scope ∧
      page.start 0 = page.log
        (failureLine (.missingAttribute .sequence) "initialize" scope.label) := by
  intro page
  have hone : (page.scopes[0]?).any fun scope => scope.afterStart.isNone &&
      decide ((exec (Scope.start page.equipment) (page.desk scope)).1 =
        .error (.missingAttribute .sequence)) := by decide +kernel
  obtain ⟨scope, hscope, hfacts⟩ := (Option.any_eq_true _ _).1 hone
  simp only [Bool.and_eq_true, decide_eq_true_eq] at hfacts
  obtain ⟨hnone, hfails⟩ := hfacts
  have hsame : page.tree = (ofMarkup unreadyMarkup).tree := by decide +kernel
  have hdocument : Tree.empty.Edited page.tree := hsame ▸ (new_ofMarkup unreadyMarkup).document
  refine ⟨hdocument, scope, hscope, ?_⟩
  have hrun : exec (Scope.start page.equipment) (page.desk scope) =
      (.error (.missingAttribute .sequence), _) := Prod.ext hfails rfl
  rcases (failed_start hdocument hscope).1 _ _ hrun with ⟨-, hstart⟩ |
    ⟨_, _, _, routine, _, _, hroutine, -⟩
  · exact hstart
  · simp [hroutine] at hnone

end Page

end Repeater
