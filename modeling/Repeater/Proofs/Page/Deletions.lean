/-
  Repeater/Proofs/Page/Deletions.lean
  ===================================
  **What the click on a delete control does to a page.**

  A delete listener runs on the page that the listeners before it have left, which may have taken
  its own item out already, or may have changed the tag of its control. Still its scope has its
  elements then and its item is in the arena (`Kept.of_passages`), so that the deletion has one of
  the ends of `Scope.Removing`: refused without a question, or stopped after one question, with
  nothing changed but the world outside, or gone through. Then the item is without its parent, its
  listeners are gone, and nothing else has changed (`delete_ends`).
-/
import Repeater.Proofs.Page.Deeds
import Repeater.Proofs.Page.Refusals
import Repeater.Proofs.Scope.Removing

namespace Repeater

open Dom Hook Markup Scope Tree

variable {σ : Type}

theorem Scope.AddedOrStaged.frame {desk desk' : Desk σ} {equipment : Equipment σ}
    (h : AddedOrStaged equipment desk desk') :
    desk.stage.tree.Grown desk'.stage.tree ∧ desk'.scope.parts = desk.scope.parts := by
  rcases h with hstaged | ⟨-, hgrown, items, hcounted, -⟩
  · exact ⟨hstaged.tree, by rw [hstaged.scope]⟩
  · exact ⟨hgrown, by rw [hcounted.scope]⟩

namespace Page

variable {start page page' page'' now : Page σ} {n : Nat} {scope : Scope σ} {event : Event}
  {target item : NodeId} {path : List NodeId} {before rest : List Deed}

/-! ## What a listener can rely on when it runs -/

/-- The nodes of the page are still there, and its scopes still have their elements. -/
structure Follows (page page' : Page σ) : Prop where
  has : ∀ x, page.tree.Has x → page'.tree.Has x
  ready : ∀ m, (page.triggerOf m).isSome → (page'.triggerOf m).isSome

theorem Follows.refl (page : Page σ) : page.Follows page := ⟨fun _ => id, fun _ => id⟩

theorem Follows.trans (h : page.Follows page') (h' : page'.Follows page'') : page.Follows page'' :=
  ⟨fun x hx => h'.has x (h.has x hx), fun m hm => h'.ready m (h.ready m hm)⟩

theorem Kept.follows_withScope (h : page.Kept) (operation : String)
    (flow : Equipment σ → Flow σ Unit)
    (hflow : ∀ scope, page.scopes[n]? = some scope →
      page.tree.Grown (exec (flow page.equipment) (page.desk scope)).2.stage.tree ∧
        (exec (flow page.equipment) (page.desk scope)).2.scope.parts = scope.parts) :
    page.Follows (page.withScope n operation flow) := by
  rcases hscope : page.scopes[n]? with _ | scope
  · obtain ⟨line, hline⟩ := withScope_of_none operation flow hscope
    rw [hline]
    exact ⟨fun _ => id, fun _ => id⟩
  obtain ⟨hgrown, hparts⟩ := hflow scope hscope
  obtain ⟨htree, -, hscopes⟩ := withScope_shows operation flow hscope (Prod.mk.eta).symm
  refine ⟨fun x hx => ?_, fun m hm => ?_⟩
  · rw [htree]
    exact hgrown.has h.wellFormed hx
  · have hsame : (page.withScope n operation flow).triggerOf m = page.triggerOf m := by
      unfold triggerOf
      rw [hscopes]
      split
      · next hmn =>
        rw [hmn, hscope, Option.bind_some, Option.bind_some, hparts]
      · rfl
    rwa [hsame]

theorem Kept.follows_act (h : page.Kept) (event : Event) (action : Action) :
    page.Follows (Deed.carryOut page (.act event action)) := by
  cases action with
  | add n =>
    apply h.follows_withScope
    intro scope hscope
    exact (TameHooks.handleAdd (page.desk scope) (h.tameHooks hscope) h.wellFormed
      (h.settled n scope hscope).idle event).frame
  | delete n item =>
    apply h.follows_withScope
    intro scope hscope
    have hdeleted := TameHooks.handleDelete (page.desk scope) (h.tameHooks hscope)
      (h.settled n scope hscope).idle event item
    exact ⟨hdeleted.grown, congrArg Scope.parts hdeleted.scope⟩

theorem Kept.follows_acts (h : page.Kept) {deeds : List Deed}
    (hacts : ∀ deed ∈ deeds, ∃ event action, deed = .act event action) :
    (deeds.foldl Deed.carryOut page).Kept ∧ page.Follows (deeds.foldl Deed.carryOut page) := by
  induction deeds generalizing page with
  | nil => exact ⟨h, .refl page⟩
  | cons deed rest ih =>
    obtain ⟨event, action, rfl⟩ := hacts deed (by simp)
    obtain ⟨hkept, hfollows⟩ := ih (h.carryOut (.act event action))
      fun other hother => hacts other (by simp [hother])
    exact ⟨hkept, (h.follows_act event action).trans hfollows⟩

/-- What a listener that deletes an item of a scope needs. -/
structure ReadyFor (page : Page σ) (n : Nat) (item : NodeId) : Prop where
  kept : page.Kept
  scope : (page.triggerOf n).isSome
  item : page.tree.Has item

/-- When a delete listener runs, its scope has its elements and its item is in the arena, whatever
    the listeners before it have done. -/
theorem Kept.ready_of_passages {page : Page σ} {climbing : Event} (h : page.Kept)
    (hdeeds : page.passages climbing path = before ++ .act event (.delete n item) :: rest) :
    (before.foldl Deed.carryOut page).ReadyFor n item ∧ event.current.isSome := by
  induction path generalizing page before with
  | nil => simp [passages] at hdeeds
  | cons here path ih =>
    have hlater : ∀ before', before = page.arrivals climbing here ++ before' →
        (page.arrive climbing here).passages climbing path =
          before' ++ .act event (.delete n item) :: rest →
        (before.foldl Deed.carryOut page).ReadyFor n item ∧ event.current.isSome := by
      rintro before' rfl hpath
      rw [List.foldl_append, foldl_arrivals]
      exact ih (h.arrive climbing here) hpath
    rw [passages, List.append_eq_append_iff] at hdeeds
    rcases hdeeds with ⟨before', hbefore, hpath⟩ | ⟨arrived, hhere, hrest⟩
    · exact hlater before' hbefore hpath
    cases arrived with
    | nil => exact hlater [] (by simpa using hhere.symm) (by simpa using hrest.symm)
    | cons deed arrived =>
      rw [List.cons_append, List.cons.injEq] at hrest
      obtain ⟨rfl, -⟩ := hrest
      have hacts : ∀ deed ∈ before, ∃ event action, deed = .act event action := by
        intro deed hdeed
        have hmem : deed ∈ page.arrivals climbing here := by
          rw [hhere]
          exact List.mem_append_left _ hdeed
        obtain ⟨l, -, -, hact⟩ := eq_act_of_mem_arrivals hmem
        exact ⟨_, _, hact⟩
      obtain ⟨hkept, hfollows⟩ := h.follows_acts hacts
      have hmem : .act event (.delete n item) ∈ page.arrivals climbing here := by
        rw [hhere]
        simp
      obtain ⟨l, hl, -, hact⟩ := eq_act_of_mem_arrivals hmem
      rw [Deed.act.injEq] at hact
      obtain ⟨rfl, hhandler⟩ := hact
      obtain ⟨hready, hitem⟩ := h.wired.onItem l hl n item hhandler.symm
      exact ⟨⟨hkept, hfollows.ready n hready, hfollows.has item hitem⟩, rfl⟩

/-! ## The ends of a deletion -/

theorem Kept.resolved_of_ready (h : page.Kept) (hready : (page.triggerOf n).isSome) :
    ∃ scope parts identifier, page.scopes[n]? = some scope ∧
      scope.resolved = .ok (parts, identifier) ∧ scope.activity = .idle := by
  obtain ⟨scope, hscope, hparts⟩ := isSome_triggerOf.1 hready
  have hsettled := h.settled n scope hscope
  obtain ⟨parts, identifier, hresolved⟩ := hsettled.resolved (hsettled.parts ▸ hparts)
  exact ⟨scope, parts, identifier, hscope, hresolved, hsettled.idle⟩

/-- **The ends of a deletion.** In a click on a reachable page, a delete listener runs on the page
    `now` that the listeners before it have left; the hooks may do anything but touch the tree. If
    the tag of the control is not accepted, a line is logged and nothing else happens. Else the host
    is asked. If it says no, or code does not compile, or a hook before the deletion fails, the tree,
    the listeners and the scopes are as they were. In all other cases the item is detached, with
    everything else in the tree as it was, the listeners that delete this item are gone, and the
    scopes are as they were. Whatever records the questions has got one, or none in the first case. -/
theorem delete_ends (hnew : start.New) (hreaches : start.Reaches page)
    (hdeeds : page.passages (Event.click target) (target :: page.tree.ancestors target) =
      before ++ .act event (.delete n item) :: rest)
    (hnow : now = before.foldl Deed.carryOut page)
    (hstill : ∀ scope control, now.scopes[n]? = some scope → event.current = some control →
      StillHooks now.equipment scope now.tree control) :
    let after := now.perform event (.delete n item)
    ∃ scope parts identifier control, now.scopes[n]? = some scope ∧
      scope.resolved = .ok (parts, identifier) ∧ event.current = some control ∧
      let yes := (answer now.equipment control (now.desk scope)).1
      let asked := (answer now.equipment control (now.desk scope)).2.doing .deleting
      (accepted now.equipment now.tree control = false →
        after = now.log (failureLine (.invalidElement (.notAControl now.config.controlTags
          ((now.tree.tag? control).getD ""))) "delete" scope.label)) ∧
      (accepted now.equipment now.tree control = true →
        (yes = false ∨ Stopped now.equipment parts control item event asked →
          after.tree = now.tree ∧ after.listeners = now.listeners ∧ after.scopes = now.scopes) ∧
        (yes = true → ¬ Stopped now.equipment parts control item event asked →
          now.tree.Detached [item] after.tree ∧
            after.listeners.entries =
              now.listeners.entries.filter (fun l => l.handler.deletes? ≠ some item) ∧
            after.scopes = now.scopes)) ∧
      ∀ questions, now.host.Records questions → SilentHooks now.equipment scope questions →
        questions after.outside = questions now.outside ++
          if accepted now.equipment now.tree control then [question now.equipment now.tree control]
          else [] := by
  intro after
  obtain ⟨hnowReady, hcurrent⟩ := (hreaches.kept hnew.kept).ready_of_passages hdeeds
  rw [← hnow] at hnowReady
  obtain ⟨hkept, hready, hitem⟩ := hnowReady
  obtain ⟨scope, parts, identifier, hscope, hresolved, hidle⟩ := hkept.resolved_of_ready hready
  obtain ⟨control, hcontrol⟩ := Option.isSome_iff_exists.1 hcurrent
  have hgetD : event.current.getD event.target = control := by rw [hcontrol]; rfl
  refine ⟨scope, parts, identifier, control, hscope, hresolved, hcontrol, ?_⟩
  intro yes asked
  have hperform : after = _ := withScope_eq "delete" (handleDelete · event item) hscope
  have hstill := hstill scope control hscope hcontrol
  rcases haccepted : accepted now.equipment now.tree control with _ | _
  · have hrefused : accepted now.equipment (now.desk scope).stage.tree
        (event.current.getD event.target) = false := by rw [hgetD]; exact haccepted
    rw [exec_handleDelete_refused hresolved hrefused item, hgetD] at hperform
    dsimp only at hperform
    rw [putBack_desk hscope] at hperform
    refine ⟨fun _ => hperform, by simp, fun questions hrecords _ => ?_⟩
    rw [hperform]
    exact (hrecords.write _ _).trans (List.append_nil _).symm
  · have hstill' : StillHooks now.equipment (now.desk scope).scope (now.desk scope).stage.tree
        control := hstill
    obtain ⟨result, desk', hrun, hsame, hend⟩ :=
      hstill'.exec_handleDelete_ends hidle hresolved hgetD haccepted hitem
    obtain ⟨htree, hlisteners, -⟩ := withScope_shows "delete" (handleDelete · event item) hscope hrun
    have hback := withScope_of_scope "delete" (handleDelete · event item) hscope
    rw [hrun] at hback
    change after = now.putBack n desk' ∨ ∃ line, after = (now.putBack n desk').log line at hback
    have hscopes : after.scopes = now.scopes := by
      rcases hback with hback | ⟨line, hback⟩
      all_goals
        rw [hback]
        exact scopes_putBack_same hscope hsame
    refine ⟨by simp, fun _ => ⟨fun hstays => ?_, fun hyes hgoes => ?_⟩, fun questions hrecords
      hsilent => ?_⟩
    · rcases hend with ⟨-, hsametree, hsamels⟩ | ⟨hgoes, -⟩
      · exact ⟨htree.trans hsametree, hlisteners.trans hsamels, hscopes⟩
      · exact absurd hstays hgoes
    · rcases hend with ⟨hno | hstopped, -⟩ | ⟨-, hgone, hwithout⟩
      · exact absurd (hyes.symm.trans hno) (by decide)
      · exact absurd hstopped hgoes
      · refine ⟨?_, ?_, hscopes⟩
        · rw [show after.tree = _ from htree.trans hgone]
          exact detached_detachAll hkept.wellFormed [item]
        · rw [show after.listeners = _ from hlisteners.trans hwithout]
          apply List.filter_congr
          intro l _
          by_cases hl : l.handler.deletes? = some item <;> simp [hl]
    · have hsilent' : SilentHooks now.equipment (now.desk scope).scope questions := hsilent
      have haccepted' : accepted now.equipment (now.desk scope).stage.tree
          (event.current.getD event.target) = true := by rw [hgetD]; exact haccepted
      have hasked := hsilent'.exec_handleDelete hidle hresolved hrecords haccepted' item
      rw [hrun, hgetD] at hasked
      rcases hback with hback | ⟨line, hback⟩
      · rw [hback]
        exact hasked
      · rw [hback]
        exact (hrecords.write line _).trans hasked

/-- The page over markup, with a host that answers all questions alike and remembers them. -/
def scripted (top : List ParseNode) (answer : Bool) : Page Script where
  document := documentOf "about:blank" top
  host := .scripted
  outside := { state := { answer } }

theorem new_scripted (top : List ParseNode) (answer : Bool) : (scripted top answer).New :=
  ⟨edited_documentOf _ top, rfl, rfl, rfl⟩

/-- An item with a delete control whose hook after the deletion fails. -/
def failingItem : ParseNode :=
  .element "li" [] [] [.element "button" [⟨"s-delete", "list"⟩, ⟨"s-postdelete", "nope()"⟩] [] []]

/-- One question is asked, and the item goes although the hook after the deletion fails. -/
theorem delete_ends_list :
    let first := scripted (listMarkup [failingItem] []) true
    let operations := [.startAll, .click (.slot 7)]
    let page := operations.foldl Operation.apply first
    let event : Event := { Event.click (.slot 10) with current := some (.slot 10) }
    first.New ∧ first.Reaches page ∧
      page.passages (Event.click (.slot 10)) (.slot 10 :: page.tree.ancestors (.slot 10)) =
        [.act event (.delete 0 (.slot 9))] ∧
      let after := page.perform event (.delete 0 (.slot 9))
      page.tree.Detached [.slot 9] after.tree ∧ after.outside.state.confirms.toList =
        [question page.equipment page.tree (.slot 10)] := by
  intro first operations page event
  have hnew : first.New := new_scripted _ _
  have hreaches : first.Reaches page := by
    refine Reaches.foldl Relation.ReflTransGen.refl fun operation hoperation => ?_
    simp only [operations, List.mem_cons, List.not_mem_nil, or_false] at hoperation
    rcases hoperation with rfl | rfl <;> trivial
  have hdeeds : page.passages (Event.click (.slot 10)) (.slot 10 :: page.tree.ancestors (.slot 10)) =
      [] ++ .act event (.delete 0 (.slot 9)) :: [] := by decide +kernel
  have hone : (page.scopes[0]?).any fun scope =>
      (Phase.all.all fun phase => (scope.routines.on phase).isNone) &&
        (answer page.equipment (.slot 10) (page.desk scope)).1 &&
        decide (scope.resolved = .ok (⟨.slot 2, .slot 7, .slot 6⟩, "list")) &&
        decide ((exec (runHooks page.equipment .preDelete none
          ⟨⟨.slot 2, .slot 7, .slot 6⟩, [.slot 9], event⟩)
            ((answer page.equipment (.slot 10) (page.desk scope)).2.doing .deleting)).1 = .ok ()) := by
    decide +kernel
  obtain ⟨scope, hscope, hfacts⟩ := (Option.any_eq_true _ _).1 hone
  simp only [Bool.and_eq_true, decide_eq_true_eq] at hfacts
  obtain ⟨⟨⟨hroutines, hyes⟩, hresolved⟩, hquiet⟩ := hfacts
  have hnone : page.callbacks.entries = [] := by
    have hempty : page.callbacks.entries.isEmpty = true := by decide +kernel
    exact List.isEmpty_iff.1 hempty
  have hcompile : ∀ phase, compileHook page.tree (.slot 10) phase = if phase = .postDelete then
      .ok (some ⟨Vocabulary.parameters, [⟨.callback "nope", []⟩]⟩) else .ok none := by
    intro phase
    cases phase <;> decide +kernel
  have haccepted : accepted page.equipment page.tree (.slot 10) = true := by decide +kernel
  have hbefore : page.outside.state.confirms.toList = [] := by decide +kernel
  have hhost : page.host.Records fun out => out.state.confirms.toList := by
    rw [hreaches.host]
    exact Host.records_scripted
  have hstill : StillHooks page.equipment scope page.tree (.slot 10) := by
    refine ⟨Routines.within_of_none hroutines, fun phase program hprogram => ?_⟩
    apply Program.within_of_no_methods
    · intro entry hentry
      rw [show page.equipment.callbacks.entries = _ from hnone] at hentry
      cases hentry
    · rw [hcompile] at hprogram
      split at hprogram
      · cases hprogram
        simp
      · cases hprogram
  have hsilent : SilentHooks page.equipment scope fun out => out.state.confirms.toList := by
    refine ⟨fun phase routine hroutine => ?_, fun entry hentry => ?_⟩
    · have hphase := List.all_eq_true.1 hroutines phase (by cases phase <;> decide)
      simp [hroutine] at hphase
    · rw [show page.equipment.callbacks.entries = _ from hnone] at hentry
      cases hentry
  obtain ⟨scope', parts, identifier, control, hscope', hresolved', hcontrol, -, hends, hasked⟩ :=
    delete_ends hnew hreaches hdeeds (List.foldl_nil).symm fun scope' control hscope' hcontrol => by
      rw [hscope, Option.some.injEq] at hscope'
      rw [← hscope', ← Option.some.inj hcontrol]
      exact hstill
  rw [hscope, Option.some.injEq] at hscope'
  subst hscope'
  rw [hresolved, Except.ok.injEq, Prod.mk.injEq] at hresolved'
  rw [← Option.some.inj hcontrol] at hends hasked
  rw [← hresolved'.1] at hends
  have hgoes : ¬ Stopped page.equipment ⟨.slot 2, .slot 7, .slot 6⟩ (.slot 10) (.slot 9) event
      ((answer page.equipment (.slot 10) (page.desk scope)).2.doing .deleting) := by
    have htree := tree_answer page.equipment (.slot 10) (page.desk scope)
    exact not_stopped (by rw [htree]; exact hcompile .preDelete)
      (by rw [htree]; exact hcompile .postDelete) hquiet
  have hquestions := hasked _ hhost hsilent
  rw [if_pos haccepted, hbefore] at hquestions
  exact ⟨hnew, hreaches, hdeeds, ((hends haccepted).2 hyes hgoes).1, hquestions⟩

end Page

end Repeater
