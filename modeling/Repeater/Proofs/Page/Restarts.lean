/-
  Repeater/Proofs/Page/Restarts.lean
  ==================================
  **Starting a scope once more.**

  A start drops listeners and wires new ones, and which ones depends on the tree, on the container
  and on the owner. All the same, a scope that has been started again without a failure can be
  started any number of times more, and nothing changes but the numbers of the listeners and the log
  (`Page.start_again`): what the first start has retained is retained again, what it has wired for
  the items in the container is dropped and wired anew, in the same order.
-/
import Repeater.Proofs.Page.Refusals
import Repeater.Proofs.Scope.Bindings

namespace Repeater

open Dom Hook Markup Scope Tree

namespace Page

variable {σ : Type} {start page : Page σ} {n : Nat} {scope : Scope σ}

theorem start_of_ok (hscope : page.scopes[n]? = some scope) {desk' : Desk σ}
    (hrun : exec (Scope.start page.equipment) (page.desk scope) = (.ok (), desk')) :
    page.start n = page.putBack n desk' := by
  unfold Page.start
  rw [withScope_eq _ _ hscope, hrun]

/-- However a page has been used and its document edited: when a scope that has been started and has
    no hook after the start can be started again, it can be started once more, and this changes
    neither the tree nor a scope nor what is done on any node, but only the numbers of the listeners
    and the log. -/
theorem start_again (hnew : start.New) (hreaches : start.Reaches page)
    (hscope : page.scopes[n]? = some scope) (hstarted : scope.started = true)
    (hafter : scope.afterStart = none)
    (hgoes : (exec (Scope.start page.equipment) (page.desk scope)).1 = .ok ()) :
    ∃ scope₁ : Scope σ, (page.start n).scopes[n]? = some scope₁ ∧
      (exec (Scope.start page.equipment) ((page.start n).desk scope₁)).1 = .ok () ∧
      ∃ ls outside, (page.start n).start n = { page.start n with listeners := ls, outside } ∧
        ls.bindings = (page.start n).listeners.bindings ∧
        ∀ target kind, (ls.on target kind).map (·.handler) =
          ((page.start n).listeners.on target kind).map (·.handler) := by
  have hkept := hreaches.kept hnew.kept
  obtain ⟨desk₁, hrun₁⟩ : ∃ desk₁, exec (Scope.start page.equipment) (page.desk scope) =
      (.ok (), desk₁) := ⟨_, Prod.ext hgoes rfl⟩
  obtain ⟨desk₂, hrun₂, htree, hsame, hbindings⟩ :=
    exec_start_again hkept.wellFormed hstarted hafter hrun₁
  have hpage₁ := start_of_ok hscope hrun₁
  have hscope₁ : (page.start n).scopes[n]? = some desk₁.scope := by
    rw [hpage₁, scopes_putBack page hscope, if_pos rfl]
  -- what the first start has put back is what the second one finds
  have hdesk₁ : (page.start n).desk desk₁.scope = desk₁ := by rw [hpage₁]; rfl
  have hrun : exec (Scope.start (page.start n).equipment) ((page.start n).desk desk₁.scope) =
      (.ok (), desk₂) := by
    rw [hdesk₁, hpage₁]
    exact hrun₂
  refine ⟨desk₁.scope, hscope₁, by rw [hdesk₁, hrun₂], desk₂.listeners, desk₂.stage.outside, ?_, ?_,
    ?_⟩
  · rw [start_of_ok hscope₁ hrun]
    have hscopes : (page.start n).scopes.setIfInBounds n desk₂.scope = (page.start n).scopes :=
      scopes_putBack_same hscope₁ hsame
    have htree₁ : (page.start n).document.tree = desk₁.stage.tree := by rw [hpage₁]; rfl
    unfold putBack
    rw [hscopes, htree, ← htree₁]
  · rw [hpage₁]
    exact hbindings
  · rw [hpage₁]
    exact Listeners.map_on_eq_of_bindings hbindings

/-- An item with a delete control. -/
def heldItem : ParseNode :=
  .element "li" [] [] [.element "button" [⟨"s-delete", "list"⟩] [] []]

/-- Of two items, the first has been moved out of the container: its listener stays where it is, and
    that of the second item goes and comes back with each start. -/
theorem start_again_list :
    let first := ofMarkup (listMarkup [heldItem] [])
    let clicks := [.startAll, .click (.slot 7), .click (.slot 7)]
    let moving := .edit (.insert (.slot 1) (.slot 9) none)
    let page := (clicks ++ [moving]).foldl Operation.apply first
    first.New ∧ first.Reaches page ∧
      (page.start 0).listeners.bindings = [⟨.slot 10, .click, .delete 0 (.slot 9)⟩,
        ⟨.slot 13, .click, .delete 0 (.slot 12)⟩, ⟨.slot 7, .click, .add 0⟩] ∧
      ((page.start 0).start 0).listeners.bindings = (page.start 0).listeners.bindings := by
  intro first clicks moving page
  have hreaches : first.Reaches page := by
    refine Reaches.foldl Relation.ReflTransGen.refl fun operation hoperation => ?_
    simp only [clicks, moving, List.cons_append, List.nil_append, List.mem_cons, List.not_mem_nil,
      or_false] at hoperation
    rcases hoperation with rfl | rfl | rfl | rfl <;> trivial
  have hone : (page.scopes[0]?).any fun scope => scope.started && scope.afterStart.isNone &&
      decide ((exec (Scope.start page.equipment) (page.desk scope)).1 = .ok ()) := by decide +kernel
  obtain ⟨scope, hscope, hfacts⟩ := (Option.any_eq_true _ _).1 hone
  simp only [Bool.and_eq_true, decide_eq_true_eq] at hfacts
  obtain ⟨⟨hstarted, hafter⟩, hgoes⟩ := hfacts
  obtain ⟨-, -, -, ls, outside, hpage, hbindings, -⟩ := start_again (new_ofMarkup _) hreaches hscope
    hstarted (Option.isNone_iff_eq_none.1 hafter) hgoes
  refine ⟨new_ofMarkup _, hreaches, by decide +kernel, ?_⟩
  rw [hpage]
  exact hbindings

end Page

end Repeater
