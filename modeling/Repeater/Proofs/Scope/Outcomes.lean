/-
  Repeater/Proofs/Scope/Outcomes.lean
  ===================================
  **What flows with hooks that leave the tree alone do to containers.**

  Only a click on the trigger that goes through puts elements into a container: the items, last in
  the container of the scope, and stamped with the counter (`Delivered`). Any addition that goes
  through counts one, and nothing else counts. A deletion takes at most its item out of wherever it
  is, and starting a scope anew takes nothing in.
-/
import Repeater.Proofs.Scope.Deleting
import Repeater.Proofs.Scope.Inserting
import Repeater.Proofs.Scope.Starting
import Repeater.Proofs.Stamp.Display

namespace Repeater.Scope

open Dom Hook Stamp Tree

variable {σ : Type} {equipment : Equipment σ} {parts : Parts} {identifier : String} {event : Event}
  {desk desk' : Desk σ} {base t t₁ t' : Tree} {counter : Nat} {f x : NodeId} {items : List NodeId}

/-! ## Items in a container -/

/-- Some new elements are last in the container: stamped copies of the elements in the template. -/
structure Delivered (t : Tree) (parts : Parts) (identifier : String) (counter : Nat) (t' : Tree)
    (items : List NodeId) : Prop where
  container : t'.elementChildren parts.container = t.elementChildren parts.container ++ items
  elsewhere : ∀ x, t.Has x → x ≠ parts.container → t'.elementChildren x = t.elementChildren x
  new : ∀ item ∈ items, ¬ t.Has item ∧ t'.Has item
  parent : ∀ item ∈ items, t'.parent? item = some parts.container
  copies : ∃ g, t.contents? parts.template = some g ∧
    List.Forall₂ (fun original copy => StampedCopy t original identifier counter t' copy)
      (t.elementChildren g) items

theorem Inserted.delivered (h : t.WellFormed)
    (hinserted : Inserted t parts identifier counter t₁ f t') (hcontainer : t.Has parts.container) :
    Delivered t parts identifier counter t' (t₁.elementChildren f) := by
  have hlast := hinserted.gotLast h hcontainer
  obtain ⟨hdrafted, hspliced⟩ := hinserted
  have hext := hdrafted.extends_old
  have helement : t'.isElement = t₁.isElement :=
    funext fun y => isElement_congr (hspliced.content y)
  constructor
  case container =>
    unfold elementChildren
    rw [hlast.children, List.filter_append, helement]
    congr 1
    apply List.filter_congr
    intro y hy
    exact isElement_congr (hext.content? (h.has_of_child hy))
  case elsewhere =>
    exact fun x hx hne => hext.elementChildren_spliced h hdrafted.new hspliced hx hne
  case new =>
    intro item hitem
    obtain ⟨hnew, hhas⟩ := new_of_mem_elementChildren h hdrafted.wellFormed hext hdrafted.new hitem
    obtain ⟨content, hcontent⟩ := has_iff_content.1 hhas
    exact ⟨hnew, has_of_content ((hspliced.content item).trans hcontent)⟩
  case parent =>
    intro item hitem
    rw [hspliced.parent, if_pos (List.mem_of_mem_filter hitem)]
  case copies =>
    obtain ⟨g, hg, hkids⟩ := hdrafted.kids
    refine ⟨g, hg, (forall₂_filter hkids fun s c hkid => hkid.1).imp ?_⟩
    rintro s c ⟨-, hc, -, -, hcopy⟩
    exact hcopy.spliced h hext hdrafted.wellFormed hspliced hdrafted.new hcontainer hc

theorem Inserted.steady (h : t.WellFormed)
    (hinserted : Inserted t parts identifier counter t₁ f t') (hcontainer : base.Has parts.container) :
    Steady base t t' :=
  hinserted.1.extends_old.steady_spliced h hinserted.1.wellFormed hinserted.1.new hinserted.2
    hcontainer

/-- Taking the items out again leaves no element behind. -/
theorem TakenOut.steady (h : t.WellFormed)
    (htaken : TakenOut t parts identifier counter t₁ f t') (hcontainer : base.Has parts.container)
    (hhas : t.Has parts.container) :
    Steady base t t' ∧ ∀ x, t.Has x → t'.elementChildren x = t.elementChildren x := by
  obtain ⟨t₂, hinserted, hgone⟩ := htaken
  have hdelivered := hinserted.delivered h hhas
  have hwf := hinserted.2.wellFormed
  have hshallow : ∀ item ∈ t₁.elementChildren f, Shallow base t₂ item := by
    intro item hitem
    refine ⟨(hdelivered.new item hitem).2, fun p hp => ?_⟩
    rw [hdelivered.parent item hitem, Option.some.injEq] at hp
    exact hp ▸ hcontainer
  refine ⟨(hinserted.steady h hcontainer).trans (hgone.steady hshallow hwf), ?_⟩
  intro x hx
  have hold : (t.elementChildren x).filter (· ∉ t₁.elementChildren f) = t.elementChildren x := by
    apply List.filter_eq_self.2
    intro y hy
    rw [decide_eq_true_eq]
    intro hitem
    exact (hdelivered.new y hitem).1 (h.has_of_child (List.mem_of_mem_filter hy))
  rw [hgone.elementChildren]
  by_cases hxc : x = parts.container
  · have hnone : (t₁.elementChildren f).filter (· ∉ t₁.elementChildren f) = [] := by
      apply List.filter_eq_nil_iff.2
      simp
    rw [hxc, hdelivered.container, List.filter_append, hnone, List.append_nil, ← hxc, hold]
  · rw [hdelivered.elsewhere x hx hxc, hold]

/-! ## Whole flows -/

/-- What every flow leaves of a desk: the root and the parts of the scope, and a tree that has
    changed steadily; listeners that delete are only added for nodes with a parent that was there
    from the start. -/
structure Shifted (base : Tree) (desk desk' : Desk σ) : Prop where
  steady : Steady base desk.stage.tree desk'.stage.tree
  root : desk'.scope.root = desk.scope.root
  parts : desk'.scope.parts = desk.scope.parts
  identifier : desk'.scope.identifier = desk.scope.identifier
  listeners : ∀ l ∈ desk'.listeners.entries, l ∈ desk.listeners.entries ∨
    ∀ item, l.handler.deletes? = some item → Shallow base desk'.stage.tree item

/-- Whether the containers hold the elements they held. -/
def SameItems (t t' : Tree) : Prop := ∀ x, t.Has x → t'.elementChildren x = t.elementChildren x

theorem Shifted.of_counted (hcounted : Counted equipment items desk desk')
    (hsteady : Steady base desk.stage.tree desk'.stage.tree)
    (hitems : ∀ item ∈ items, Shallow base desk'.stage.tree item) : Shifted base desk desk' := by
  refine ⟨hsteady, ?_, ?_, ?_, ?_⟩
  · rw [hcounted.scope]
  · rw [hcounted.scope]
  · rw [hcounted.scope]
  · intro l hl
    obtain ⟨added, hentries, hsub⟩ := hcounted.entries
    rw [hentries, List.mem_append] at hl
    rcases hl with hl | hl
    · exact .inl hl
    · right
      intro item hitem
      obtain ⟨_, hmem, hhandler⟩ := List.mem_map.1 (hsub.subset (List.mem_map_of_mem hl))
      rw [← hhandler] at hitem
      cases hitem
      exact hitems _ hmem

theorem Shifted.of_same (hscope : desk'.scope = desk.scope)
    (hlisteners : ∀ l ∈ desk'.listeners.entries, l ∈ desk.listeners.entries)
    (hsteady : Steady base desk.stage.tree desk'.stage.tree) : Shifted base desk desk' := by
  refine ⟨hsteady, ?_, ?_, ?_, fun l hl => .inl (hlisteners l hl)⟩
  · rw [hscope]
  · rw [hscope]
  · rw [hscope]

/-- What has been counted in an activity counts after it. -/
theorem Counted.doing (h : Counted equipment items (desk.doing .adding) desk')
    (hidle : desk.scope.activity = .idle) : Counted equipment items desk (desk'.doing .idle) := by
  refine ⟨?_, h.listeners⟩
  show { desk'.scope with activity := .idle } = _
  rw [h.scope]
  exact congrArg (fun d => { d.scope with counter := desk.scope.counter + 1 })
    (doing_idle hidle .adding)

/-- How a click on the trigger ends, as a whole flow. -/
theorem StillHooks.exec_handleAdd (desk : Desk σ) (hidle : desk.scope.activity = .idle)
    (h : desk.stage.tree.WellFormed)
    (hstill : ∀ parts, desk.scope.parts = some parts →
      StillHooks equipment desk.scope desk.stage.tree parts.trigger)
    (hcontainer : ∀ parts, desk.scope.parts = some parts →
      desk.stage.tree.Has parts.container) (event : Event) :
    ∃ result desk', exec (Scope.handleAdd equipment event) desk = (result, desk') ∧
      ((∃ e, result = .error e) ∧ desk'.scope = desk.scope ∧ desk'.listeners = desk.listeners ∧
          (desk'.stage.tree.WellFormed ∧ desk.stage.tree.Extends desk'.stage.tree ∨
            ∃ parts identifier t₁ f, desk.scope.resolved = .ok (parts, identifier) ∧
              TakenOut desk.stage.tree parts identifier desk.scope.counter t₁ f desk'.stage.tree) ∨
        result = .ok ⟨⟩ ∧ ∃ parts identifier t₁ f, desk.scope.resolved = .ok (parts, identifier) ∧
          Inserted desk.stage.tree parts identifier desk.scope.counter t₁ f desk'.stage.tree ∧
          Counted equipment (t₁.elementChildren f) desk desk') := by
  rcases hresolved : desk.scope.resolved with e | ⟨parts, identifier⟩
  · refine ⟨.error e, desk, ?_, .inl ⟨⟨e, rfl⟩, rfl, rfl, .inl ⟨h, .refl _⟩⟩⟩
    unfold Scope.handleAdd
    rw [exec_get_bind, hresolved]
    exact exec_bind_error (exec_ofExcept _ _)
  have hparts := (resolved_eq_ok hresolved).1
  obtain ⟨hroutines, hcode⟩ := hstill parts hparts
  obtain ⟨result, desk₁, hrun, hend⟩ := StillHooks.exec_addItem (desk.doing .adding)
    ⟨hroutines, hcode⟩ h (hcontainer parts hparts) identifier event
  rw [Scope.exec_handleAdd hidle hresolved, hrun]
  refine ⟨result, desk₁.doing .idle, rfl, ?_⟩
  rcases hend with ⟨herror, hscope, hlisteners, hend⟩ | ⟨hok, t₁, f, hinserted, hcounted⟩
  · have hback : (desk₁.doing .idle).scope = desk.scope := by
      show { desk₁.scope with activity := .idle } = desk.scope
      rw [hscope]
      exact congrArg (·.scope) (doing_idle hidle .adding)
    refine .inl ⟨herror, hback, hlisteners, ?_⟩
    rcases hend with ⟨-, hwf, hext⟩ | ⟨-, t₁, f, htaken⟩
    · exact .inl ⟨hwf, hext⟩
    · exact .inr ⟨parts, identifier, t₁, f, rfl, htaken⟩
  · exact .inr ⟨hok, parts, identifier, t₁, f, rfl, hinserted, hcounted.doing hidle⟩

/-- The two ends of a click on the trigger. -/
theorem StillHooks.handleAdd (base : Tree) (desk : Desk σ) (hidle : desk.scope.activity = .idle)
    (h : desk.stage.tree.WellFormed)
    (hstill : ∀ parts, desk.scope.parts = some parts →
      StillHooks equipment desk.scope desk.stage.tree parts.trigger)
    (hcontainer : ∀ parts, desk.scope.parts = some parts →
      base.Has parts.container ∧ desk.stage.tree.Has parts.container) (event : Event) :
    ∃ result desk', exec (handleAdd equipment event) desk = (result, desk') ∧
      Shifted base desk desk' ∧
      ((∃ e, result = .error e) ∧ desk'.scope.counter = desk.scope.counter ∧
          SameItems desk.stage.tree desk'.stage.tree ∨
        result = .ok ⟨⟩ ∧ desk'.scope.counter = desk.scope.counter + 1 ∧
          ∃ parts identifier items, desk.scope.resolved = .ok (parts, identifier) ∧
            Delivered desk.stage.tree parts identifier desk.scope.counter desk'.stage.tree
              items) := by
  obtain ⟨result, desk', hrun, hend⟩ := StillHooks.exec_handleAdd desk hidle h hstill
    (fun parts hparts => (hcontainer parts hparts).2) event
  refine ⟨result, desk', hrun, ?_⟩
  rcases hend with ⟨herror, hscope, hlisteners, hend⟩ |
    ⟨hok, parts, identifier, t₁, f, hresolved, hinserted, hcounted⟩
  · have hstill : Steady base desk.stage.tree desk'.stage.tree ∧
        SameItems desk.stage.tree desk'.stage.tree := by
      rcases hend with ⟨hwf, hext⟩ | ⟨parts, identifier, t₁, f, hresolved, htaken⟩
      · exact ⟨hext.steady hwf base, fun x hx => hext.elementChildren h hx⟩
      · obtain ⟨hbase, hhas⟩ := hcontainer parts (resolved_eq_ok hresolved).1
        exact htaken.steady h hbase hhas
    exact ⟨.of_same hscope (fun l hl => hlisteners ▸ hl) hstill.1,
      .inl ⟨herror, by rw [hscope], hstill.2⟩⟩
  · obtain ⟨hbase, hhas⟩ := hcontainer parts (resolved_eq_ok hresolved).1
    have hdelivered := hinserted.delivered h hhas
    refine ⟨.of_counted hcounted (hinserted.steady h hbase) ?_,
      .inr ⟨hok, by rw [hcounted.scope], parts, identifier, _, hresolved, hdelivered⟩⟩
    intro item hitem
    refine ⟨(hdelivered.new item hitem).2, fun p hp => ?_⟩
    rw [hdelivered.parent item hitem, Option.some.injEq] at hp
    exact hp ▸ hbase

theorem exec_handleData (hidle : desk.scope.activity = .idle)
    (hresolved : desk.scope.resolved = .ok (parts, identifier)) (data : List (String × String)) :
    exec (handleData equipment data) desk =
      ((exec (addFilled equipment parts identifier data) (desk.doing .adding)).1,
        (exec (addFilled equipment parts identifier data) (desk.doing .adding)).2.doing .idle) := by
  unfold handleData
  rw [exec_get_bind, hresolved, exec_bind_ok (exec_ofExcept _ _)]
  exact Flow.exec_during hidle .adding _

theorem exec_handleData_unresolved {error : Error} (hresolved : desk.scope.resolved = .error error)
    (data : List (String × String)) :
    exec (handleData equipment data) desk = (.error error, desk) := by
  unfold handleData
  rw [exec_get_bind, hresolved]
  exact exec_bind_error (exec_ofExcept _ _)

/-- How an addition from data ends, as a whole flow. -/
theorem exec_handleData_ends (desk : Desk σ) (hidle : desk.scope.activity = .idle)
    (h : desk.stage.tree.WellFormed) (equipment : Equipment σ) (data : List (String × String)) :
    ∃ result desk', exec (handleData equipment data) desk = (result, desk') ∧
      ((∃ e, result = .error e) ∧ desk'.scope = desk.scope ∧ desk'.listeners = desk.listeners ∧
          desk'.stage.tree.WellFormed ∧ desk.stage.tree.Extends desk'.stage.tree ∨
        result = .ok ⟨⟩ ∧ ∃ parts p f t', desk.scope.parts = some parts ∧
          Filled equipment parts desk desk' p f t') := by
  rcases hresolved : desk.scope.resolved with e | ⟨parts, identifier⟩
  · exact ⟨.error e, desk, exec_handleData_unresolved hresolved data,
      .inl ⟨⟨e, rfl⟩, rfl, rfl, h, .refl _⟩⟩
  obtain ⟨result, desk₁, hrun, hend⟩ :=
    exec_addFilled (desk.doing .adding) h equipment parts identifier data
  rw [exec_handleData hidle hresolved, hrun]
  refine ⟨result, desk₁.doing .idle, rfl, ?_⟩
  rcases hend with ⟨herror, t', rfl, hwf, hext⟩ | ⟨hok, p, f, t', hfilled⟩
  · exact .inl ⟨herror, congrArg (·.scope) (doing_idle hidle .adding), rfl, hwf, hext⟩
  · exact .inr ⟨hok, parts, p, f, t', (resolved_eq_ok hresolved).1,
      { hfilled with counted := hfilled.counted.doing hidle }⟩

/-- The two ends of an addition from data: nothing goes into a container that does not have the
    trigger among its children. -/
theorem handleData_ends (base : Tree) (desk : Desk σ) (hidle : desk.scope.activity = .idle)
    (h : desk.stage.tree.WellFormed)
    (htrigger : ∀ parts p, desk.scope.parts = some parts →
      desk.stage.tree.parent? parts.trigger = some p → base.Has p)
    (equipment : Equipment σ) (data : List (String × String)) :
    ∃ result desk', exec (handleData equipment data) desk = (result, desk') ∧
      Shifted base desk desk' ∧
      ((∃ e, result = .error e) ∧ desk'.scope.counter = desk.scope.counter ∧
          SameItems desk.stage.tree desk'.stage.tree ∨
        result = .ok ⟨⟩ ∧ desk'.scope.counter = desk.scope.counter + 1 ∧
          ∃ parts, desk.scope.parts = some parts ∧ ∀ x, desk.stage.tree.Has x →
            desk.stage.tree.parent? parts.trigger ≠ some x →
            desk'.stage.tree.elementChildren x = desk.stage.tree.elementChildren x) := by
  obtain ⟨result, desk', hrun, hend⟩ := exec_handleData_ends desk hidle h equipment data
  refine ⟨result, desk', hrun, ?_⟩
  rcases hend with ⟨herror, hscope, hlisteners, hwf, hext⟩ | ⟨hok, parts, p, f, t', hparts, hfilled⟩
  · exact ⟨.of_same hscope (fun l hl => hlisteners ▸ hl) (hext.steady hwf base),
      .inl ⟨herror, by rw [hscope], fun x hx => hext.elementChildren h hx⟩⟩
  · have hp : base.Has p := htrigger parts p hparts hfilled.parent
    have hext := hfilled.extends_old
    have hsteady := hext.steady_spliced h hfilled.wellFormed hfilled.new hfilled.spliced hp
    refine ⟨.of_counted hfilled.counted hsteady ?_,
      .inr ⟨hok, by rw [hfilled.counted.scope], parts, hparts, ?_⟩⟩
    · intro item hitem
      have hhas := (new_of_mem_elementChildren h hfilled.wellFormed hext hfilled.new hitem).2
      obtain ⟨content, hcontent⟩ := has_iff_content.1 hhas
      refine ⟨has_of_content ((hfilled.spliced.content item).trans hcontent), fun q hq => ?_⟩
      have hparent := hfilled.spliced.parent item
      rw [if_pos (List.mem_of_mem_filter hitem), hq, Option.some.injEq] at hparent
      exact hparent ▸ hp
    · intro x hx hne
      apply hext.elementChildren_spliced h hfilled.new hfilled.spliced hx
      rintro rfl
      exact hne hfilled.parent

/-- A deletion takes its item out, or changes nothing. -/
theorem StillHooks.handleDelete (desk : Desk σ) (hidle : desk.scope.activity = .idle)
    (h : desk.stage.tree.WellFormed) {event : Event} {item : NodeId}
    (hstill : StillHooks equipment desk.scope desk.stage.tree (event.current.getD event.target))
    (hitem : Shallow base desk.stage.tree item) {result : Except Error Unit}
    (hrun : exec (handleDelete equipment event item) desk = (result, desk')) :
    Shifted base desk desk' ∧ desk'.scope.counter = desk.scope.counter ∧
      (desk'.stage.tree = desk.stage.tree ∨
        desk'.stage.tree = desk.stage.tree.detachAll [item]) := by
  have hdeleted := handleDelete_outcome (R := Eq) desk hidle hstill.routines event item hstill.code
  rw [hrun] at hdeleted
  obtain ⟨t₁, t₂, rfl, hremove, rfl⟩ := hdeleted.tree
  have hsteady : Steady base desk.stage.tree desk'.stage.tree := by
    rcases hremove with hsame | hdetached
    · rw [hsame]
      exact .refl h base
    · rw [hdetached]
      exact (detached_detachAll h [item]).steady (by simpa using hitem) h
  refine ⟨.of_same hdeleted.scope ?_ hsteady, by rw [hdeleted.scope], hremove⟩
  intro l hl
  rcases hdeleted.listeners with hls | hls
  · rwa [hls] at hl
  · rw [hls] at hl
    exact List.mem_of_mem_filter hl

theorem steady_marked (h : t.WellFormed) {root : NodeId} (hroot : base.Has root)
    (equipment : Equipment σ) : Steady base t (marked equipment root t) := by
  rcases he : t.element? root with _ | e
  · rw [marked_of_none equipment he]
    exact .refl h base
  · rw [marked_of_element equipment he]
    exact steady_setElement h he rfl rfl ((h.names_differ he).set _ _) hroot

theorem sameItems_marked (equipment : Equipment σ) (root : NodeId) :
    SameItems t (marked equipment root t) := fun x _ => elementChildren_marked equipment root t x

/-- Starting a scope anew takes nothing in. -/
theorem restart_ends (desk : Desk σ) (h : desk.stage.tree.WellFormed)
    (hresolved : desk.scope.resolved = .ok (parts, identifier)) (hstarted : desk.scope.started = true)
    (hfound : ∀ found, findParts desk.stage.tree desk.scope.root = .ok found →
      found = (identifier, parts))
    (hafter : ∀ routine, desk.scope.afterStart = some routine → routine.Within Eq)
    (hroot : base.Has desk.scope.root) (hcontainer : base.Has parts.container)
    {result : Except Error Unit} (hrun : exec (start equipment) desk = (result, desk')) :
    Shifted base desk desk' ∧ desk'.scope.counter = desk.scope.counter ∧
      SameItems desk.stage.tree desk'.stage.tree := by
  have houtcome := start_outcome (R := Eq) desk h equipment hafter
  rw [hrun] at houtcome
  rcases houtcome with rfl | ⟨identifier', parts', desk₁, hestablished, hstaged⟩
  · exact ⟨.of_same rfl (fun _ hl => hl) (.refl h base), rfl, fun _ _ => rfl⟩
  obtain ⟨rfl, rfl⟩ : identifier' = identifier ∧ parts' = parts := by
    simpa using hfound _ hestablished.found
  obtain ⟨hparts, hidentifier⟩ := resolved_eq_ok hresolved
  obtain ⟨hmarked, hcounter⟩ := hestablished.restarted hstarted
  have htree : desk'.stage.tree = marked equipment desk.scope.root desk.stage.tree :=
    hstaged.tree.symm.trans hmarked
  have hsteady : Steady base desk.stage.tree desk'.stage.tree := by
    rw [htree]
    exact steady_marked h hroot equipment
  refine ⟨⟨hsteady, ?_, ?_, ?_, ?_⟩, ?_, ?_⟩
  · rw [hstaged.scope, hestablished.scope]
  · rw [hstaged.scope, hestablished.scope, hparts]
  · rw [hstaged.scope, hestablished.scope, hidentifier]
  · intro l hl
    obtain ⟨ls, added, hlisteners, hentries, hsub⟩ := hestablished.listeners
    rw [hstaged.listeners, hlisteners] at hl
    rcases List.mem_append.1 hl with hl | hl
    · rw [hentries, List.mem_append] at hl
      rcases hl with hl | hl
      · exact .inl (List.mem_of_mem_filter hl)
      · right
        intro item hitem
        obtain ⟨_, hmem, hhandler⟩ := List.mem_map.1 (hsub.subset (List.mem_map_of_mem hl))
        rw [← hhandler] at hitem
        cases hitem
        have hparent := h.parent_of_child (List.mem_of_mem_filter hmem)
        apply hsteady.shallow
        refine ⟨has_of_parent hparent, fun p hp => ?_⟩
        rw [hparent, Option.some.injEq] at hp
        exact hp ▸ hcontainer
    · -- the listener of the trigger deletes nothing
      right
      rw [List.mem_singleton] at hl
      subst hl
      intro item hitem
      cases hitem
  · rw [hstaged.scope, hcounter]
  · rw [htree]
    exact sameItems_marked equipment desk.scope.root

end Repeater.Scope
