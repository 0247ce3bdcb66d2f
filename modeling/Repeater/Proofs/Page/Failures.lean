/-
  Repeater/Proofs/Page/Failures.lean
  ==================================
  **Additions that fail.**

  When an addition fails and the hooks leave the tree alone, the scopes, the listeners and all nodes
  but the container are as before. The container is as before as well if the addition has failed
  before the draft was in it. After that, only the elements of the draft are taken out again: copies
  of the texts and comments that the template holds beside its element stay in the container
  (`failed_addition`).
-/
import Repeater.Proofs.Page.Runs
import Repeater.Proofs.Scope.Inserting

namespace Repeater

open Dom Hook Scope Stamp Tree

variable {σ : Type}

namespace Page

variable {page page' : Page σ} {n : Nat} {scope : Scope σ} {event : Event} {parts : Parts}
  {identifier : String}

/-- The flow of a scope that inserts an item, up to the hooks after the addition. -/
def insertion (page : Page σ) (scope : Scope σ) (parts : Parts) (identifier : String)
    (event : Event) : Except Error (Option Program × List NodeId) :=
  (exec (insertItem page.equipment parts identifier event) ((page.desk scope).doing .adding)).1

theorem failed_addition {start : Page σ} (hnew : start.New) (hreaches : start.Reaches page)
    (hscope : page.scopes[n]? = some scope) (hresolved : scope.resolved = .ok (parts, identifier))
    (hstill : StillHooks page.equipment scope page.tree parts.trigger) {e : Error}
    (hfails : (exec (handleAdd page.equipment event) (page.desk scope)).1 = .error e) :
    (page.perform event (.add n)).scopes = page.scopes ∧ scope.activity = .idle ∧
      (page.perform event (.add n)).listeners = page.listeners ∧
      ∃ leftovers, GotLast page.tree parts.container leftovers (page.perform event (.add n)).tree ∧
        (leftovers = [] ↔ (∃ e, page.insertion scope parts identifier event = .error e) ∨
          looseContents page.tree parts.template = []) ∧
        ((∃ found, page.insertion scope parts identifier event = .ok found) →
          List.Forall₂ (fun original copy => ¬ page.tree.Has copy ∧
              (page.perform event (.add n)).tree.content? copy = page.tree.content? original)
            (looseContents page.tree parts.template) leftovers) := by
  have hkept := hreaches.kept hnew.kept
  have hsettled := hkept.settled n scope hscope
  have hcontainer := (hsettled.elements parts (resolved_eq_ok hresolved).1).2.2
  have hrun : exec (handleAdd page.equipment event) (page.desk scope) = (_, _) :=
    exec_handleAdd hsettled.idle hresolved event
  obtain ⟨result, desk', haddItem, hend⟩ := StillHooks.exec_addItem ((page.desk scope).doing .adding)
    ⟨hstill.routines, hstill.code⟩ hkept.wellFormed hcontainer identifier event
  rw [haddItem] at hrun
  rw [hrun] at hfails
  obtain ⟨htree, hlisteners, hscopes⟩ :=
    withScope_shows "add" (handleAdd · event) hscope hrun
  change result = .error e at hfails
  subst hfails
  rcases hend with ⟨-, hscope', hlisteners', hend⟩ | ⟨hok, -⟩
  swap
  · simp at hok
  refine ⟨?_, hsettled.idle, hlisteners.trans hlisteners', ?_⟩
  · apply Array.ext_getElem?
    intro m
    refine (hscopes m).trans ?_
    split
    · next hm =>
      rw [hm, hscope]
      show some { desk'.scope with activity := .idle } = some scope
      rw [hscope']
      show some { scope with activity := .idle } = some scope
      rw [← hsettled.idle]
    · rfl
  rw [show (page.perform event (.add n)).tree = desk'.stage.tree from htree]
  rcases hend with ⟨herror, hwf, hext⟩ | ⟨hfound, t₁, f, htaken⟩
  · have hlast : GotLast page.tree parts.container [] desk'.stage.tree :=
      ⟨hwf, fun x hx _ => hext.old hx, hext.content? hcontainer, hext.parent? hcontainer,
        by rw [List.append_nil]; exact hext.children hcontainer⟩
    refine ⟨[], hlast, by simp [insertion, herror], ?_⟩
    rintro ⟨found, hfound⟩
    obtain ⟨e', herror⟩ := herror
    unfold insertion at hfound
    rw [herror] at hfound
    simp at hfound
  · obtain ⟨t₂, hinserted, hgone⟩ := htaken
    have hdrafted := hinserted.1
    have hloose := loose_of_drafted hkept.wellFormed hdrafted
    refine ⟨_, TakenOut.gotLast hkept.wellFormed ⟨t₂, hinserted, hgone⟩ hcontainer, ?_, ?_⟩
    · constructor
      · intro hnil
        rw [hnil] at hloose
        exact .inr (List.forall₂_nil_right_iff.1 hloose)
      · rintro (⟨e', herror⟩ | hnil)
        · obtain ⟨found, hfound⟩ := hfound
          unfold insertion at herror
          rw [hfound] at herror
          simp at herror
        · change looseContents _ _ = [] at hnil
          change List.Forall₂ _ (looseContents page.tree parts.template) _ at hloose
          rw [hnil] at hloose
          exact List.forall₂_nil_left_iff.1 hloose
    · intro _
      refine hloose.imp ?_
      rintro original copy ⟨hfresh, hcontent⟩
      refine ⟨hfresh, ?_⟩
      rw [hgone.content, hinserted.2.content, hcontent]

/-- A text beside the item stays in the container when the hook after the addition fails. -/
theorem failed_addition_list :
    let start := ofMarkup (listMarkup [.text "loose", .element "li" [] [] []]
      [⟨"s-postadd", "nope()"⟩])
    let page' := start.startAll.perform (Event.click (.slot 7)) (.add 0)
    page'.listeners = start.startAll.listeners ∧
      ∃ leftovers, GotLast start.startAll.tree (.slot 6) leftovers page'.tree ∧ leftovers ≠ [] := by
  intro start page'
  have hreaches : start.Reaches start.startAll :=
    Reaches.step Relation.ReflTransGen.refl .startAll trivial
  have hone : (start.startAll.scopes[0]?).any fun scope =>
      decide (scope.resolved = .ok (⟨.slot 2, .slot 7, .slot 6⟩, "list")) &&
        (Phase.all.all fun phase => (scope.routines.on phase).isNone) &&
        decide ((exec (handleAdd start.startAll.equipment (Event.click (.slot 7)))
          (start.startAll.desk scope)).1 = .error (.unknownCallback "nope")) := by decide +kernel
  obtain ⟨scope, hscope, hfacts⟩ := (Option.any_eq_true _ _).1 hone
  simp only [Bool.and_eq_true, decide_eq_true_eq] at hfacts
  obtain ⟨⟨hresolved, hroutines⟩, hfails⟩ := hfacts
  have hcallbacks : start.startAll.callbacks.Within Eq := by
    have hnone : start.startAll.callbacks.entries.isEmpty = true := by decide +kernel
    intro entry hentry
    simp [List.isEmpty_iff.1 hnone] at hentry
  have hcode : ∀ phase program, compileHook start.startAll.tree (.slot 7) phase = .ok (some program) →
      program = ⟨Vocabulary.parameters, [⟨.callback "nope", []⟩]⟩ := by
    intro phase program hprogram
    have hcompile : compileHook start.startAll.tree (.slot 7) phase = if phase = .postAdd then
        .ok (some ⟨Vocabulary.parameters, [⟨.callback "nope", []⟩]⟩) else .ok none := by
      cases phase <;> decide +kernel
    rw [hcompile] at hprogram
    split at hprogram <;> simp_all
  have hstill : StillHooks start.startAll.equipment scope start.startAll.tree (.slot 7) := by
    refine ⟨Routines.within_of_none hroutines, ?_⟩
    intro phase program hprogram
    rw [hcode phase program hprogram]
    exact Program.within_of_no_methods hcallbacks _ (by simp)
  obtain ⟨-, -, hlisteners, leftovers, hlast, -⟩ :=
    failed_addition (new_ofMarkup _) hreaches hscope hresolved hstill hfails
  refine ⟨hlisteners, leftovers, hlast, ?_⟩
  rintro rfl
  have hfilled : page'.tree.children (.slot 6) = [.slot 9] := by decide +kernel
  have hempty : start.startAll.tree.children (.slot 6) = [] := by decide +kernel
  have hsame : page'.tree.children (.slot 6) = start.startAll.tree.children (.slot 6) ++ [] :=
    hlast.children
  rw [hfilled, hempty] at hsame
  cases hsame

end Page

end Repeater
