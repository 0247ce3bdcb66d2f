/-
  Repeater/Proofs/Page/Removals.lean
  ==================================
  **What still happens to an item after it has been removed.**

  A run of operations is a list of flows, each with the page it finds (`Page.history`). A deletion
  that takes its item out drops the listeners of all scopes for it, and only two things could bring
  one back: an addition, but its items are new, and a start, if it finds the item in the container.
  So from then on no listener waits for the item (`Gone`), and no flow deletes it, except for those
  that the click had copied together with the deletion when it arrived at the control. These run
  although their listeners are gone: where several scopes have wired one control for one item, the
  host is asked again for each (`deletions_after_removal`).
-/
import Repeater.Proofs.Lists
import Repeater.Proofs.Page.Deletions

namespace Repeater

open Dom Hook Markup Scope Tree

variable {σ : Type}

/-! ## Histories -/

/-- A deed with the page on which it is carried out. -/
structure Turn (σ : Type) where
  page : Page σ
  deed : Deed

namespace Page

namespace Operation

/-- The page when the first flow of an operation runs. -/
def ready (page : Page σ) : Operation σ → Page σ
  | start _ => page
  | startAll => page.discover.1
  | click _ => page
  | addFromData _ _ => page
  | operation => operation.apply page

/-- The flows that an operation runs. First starts count as restarts, which run the same flow. -/
def deeds (page : Page σ) : Operation σ → List Deed
  | start number => [.restart number]
  | startAll => page.discover.2.map .restart
  | click target => page.passages (Event.click target) (target :: page.tree.ancestors target)
  | addFromData number data => [.fill number data]
  | _ => []

theorem foldl_deeds (page : Page σ) (operation : Operation σ) :
    (operation.deeds page).foldl Deed.carryOut (operation.ready page) = operation.apply page := by
  cases operation with
  | startAll => exact List.foldl_map
  | click target => exact foldl_passages _ _ _
  | attach | discover | start | addFromData => rfl
  | registerRoutines | registerAfterStart | registerCallback | edit => rfl

end Operation

/-- Deeds that are carried out one after the other. -/
def turns : Page σ → List Deed → List (Turn σ)
  | _, [] => []
  | page, deed :: rest => ⟨page, deed⟩ :: turns (deed.carryOut page) rest

/-- All that is carried out in a run of operations. -/
def history : Page σ → List (Operation σ) → List (Turn σ)
  | _, [] => []
  | page, operation :: rest =>
    (operation.ready page).turns (operation.deeds page) ++ history (operation.apply page) rest

variable {start page now : Page σ} {n : Nat} {scope : Scope σ} {event climbing : Event}
  {item node : NodeId} {path : List NodeId} {deed : Deed} {deeds done rest : List Deed}
  {operation : Operation σ} {operations : List (Operation σ)} {before after : List (Turn σ)}
  {turn : Turn σ}

theorem turns_append (page : Page σ) (deeds rest : List Deed) :
    page.turns (deeds ++ rest) = page.turns deeds ++ (deeds.foldl Deed.carryOut page).turns rest := by
  induction deeds generalizing page with
  | nil => rfl
  | cons deed deeds ih => rw [List.cons_append, turns, turns, ih, List.cons_append, List.foldl_cons]

/-- The deeds before a turn lead to its page. -/
theorem turns_split (h : page.turns deeds = before ++ ⟨now, deed⟩ :: after) :
    ∃ done rest, deeds = done ++ deed :: rest ∧ now = done.foldl Deed.carryOut page ∧
      after = (deed.carryOut now).turns rest := by
  induction deeds generalizing page before with
  | nil => simp [turns] at h
  | cons first deeds ih =>
    cases before with
    | nil =>
      simp only [turns, List.nil_append, List.cons.injEq, Turn.mk.injEq] at h
      obtain ⟨⟨rfl, rfl⟩, rfl⟩ := h
      exact ⟨[], deeds, rfl, rfl, rfl⟩
    | cons turn before =>
      rw [turns, List.cons_append, List.cons.injEq] at h
      obtain ⟨done, rest, rfl, rfl, rfl⟩ := ih h.2
      exact ⟨first :: done, rest, rfl, rfl, rfl⟩

/-- A turn belongs to one of the operations, and the others come before or after. -/
theorem history_split (h : start.history operations = before ++ turn :: after) :
    ∃ earlier operation later first last,
      operations = earlier ++ operation :: later ∧
      let page := earlier.foldl Operation.apply start
      (operation.ready page).turns (operation.deeds page) = first ++ turn :: last ∧
      after = last ++ (operation.apply page).history later := by
  induction operations generalizing start before with
  | nil => simp [history] at h
  | cons operation operations ih =>
    rcases append_eq_append_cons h with ⟨before', -, h'⟩ | ⟨last, hturns, rfl⟩
    · obtain ⟨earlier, operation', later, first, last, rfl, hturns, hafter⟩ := ih h'
      exact ⟨operation :: earlier, operation', later, first, last, rfl, hturns, hafter⟩
    · exact ⟨[], operation, operations, before, last, rfl, hturns, rfl⟩

/-- A deed of a click belongs to the arrival at one of the nodes, and the others come before or
    after. -/
theorem passages_split (h : page.passages climbing path = done ++ deed :: rest) :
    ∃ arrived node above first last,
      arrived.arrivals climbing node = first ++ deed :: last ∧
      done.foldl Deed.carryOut page = first.foldl Deed.carryOut arrived ∧
      rest = last ++ (arrived.arrive climbing node).passages climbing above ∧
      (page.Kept → arrived.Kept) := by
  induction path generalizing page done with
  | nil => simp [passages] at h
  | cons here path ih =>
    rcases append_eq_append_cons h with ⟨done', rfl, h'⟩ | ⟨last, harrivals, rfl⟩
    · obtain ⟨arrived, node, above, first, last, harrivals, hnow, hrest, hkept⟩ := ih h'
      refine ⟨arrived, node, above, first, last, harrivals, ?_, hrest, fun h => hkept (h.arrive _ _)⟩
      rw [List.foldl_append, foldl_arrivals, hnow]
    · exact ⟨page, here, path, done, last, harrivals, rfl, rfl, id⟩

end Page

/-! ## Flows that wire no item again -/

namespace Scope

variable {equipment : Equipment σ} {desk desk' : Desk σ} {item : NodeId}

/-- Whether a flow adds no listener for the item; nodes stay where they are in the arena. -/
structure Spares (item : NodeId) (desk desk' : Desk σ) : Prop where
  grown : desk.stage.tree.Grown desk'.stage.tree
  listeners : ∀ l ∈ desk'.listeners.entries, l.handler.deletes? = some item →
    l ∈ desk.listeners.entries

theorem Spares.of_same (hgrown : desk.stage.tree.Grown desk'.stage.tree)
    (hlisteners : desk'.listeners = desk.listeners) : Spares item desk desk' :=
  ⟨hgrown, fun _ hl _ => hlisteners ▸ hl⟩

/-- An addition wires new items only. -/
theorem AddedOrStaged.spares (h : AddedOrStaged equipment desk desk')
    (hhas : desk.stage.tree.Has item) : Spares item desk desk' := by
  have hgrown := h.frame.1
  rcases h with hstaged | ⟨-, -, items, hcounted, -, hnew⟩
  · exact .of_same hgrown hstaged.listeners
  refine ⟨hgrown, fun l hl hitem => ?_⟩
  obtain ⟨added, hentries, hsub⟩ := hcounted.entries
  rw [hentries, List.mem_append] at hl
  refine hl.resolve_right fun hadded => ?_
  obtain ⟨other, hother, hhandler⟩ := Wired.handler_of_sublist hsub hadded
  obtain rfl : other = item := by simpa [hhandler, Action.deletes?] using hitem
  exact (hnew other hother).1 hhas

theorem Deleted.spares {gone : NodeId} (h : Deleted Grown gone desk desk') :
    Spares item desk desk' := by
  refine ⟨h.grown, fun l hl _ => ?_⟩
  rcases h.listeners with hsame | hwithout
  · rwa [hsame] at hl
  · rw [hwithout] at hl
    exact (Wired.mem_retain.1 hl).1

/-- A start wires the items in the container only. -/
theorem spares_start (desk : Desk σ) (h : desk.stage.tree.WellFormed) (equipment : Equipment σ)
    (hafter : ∀ routine, desk.scope.afterStart = some routine → routine.Tame)
    (hitem : ∀ identifier parts, findParts desk.stage.tree desk.scope.root = .ok (identifier, parts) →
      desk.stage.tree.parent? item ≠ some parts.container) :
    Spares item desk (exec (start equipment) desk).2 := by
  rcases start_outcome (R := Grown) desk h equipment fun routine hroutine =>
    Routine.Within.mono (fun _ _ hedited => Edited.grown hedited) (hafter routine hroutine) with
    hsame | ⟨identifier, parts, desk₁, hestablished, hstaged⟩
  · rw [hsame]
    exact .of_same (refl_of Grown _) rfl
  refine ⟨trans_of Grown hestablished.grown hstaged.tree, fun l hl hdeletes => ?_⟩
  obtain ⟨ls, added, hlisteners, hentries, hsub⟩ := hestablished.listeners
  rw [hstaged.listeners, hlisteners] at hl
  rcases List.mem_append.1 (show l ∈ ls.entries ++ [_] from hl) with hl | hl
  swap
  · simp [List.mem_singleton.1 hl, Action.deletes?] at hdeletes
  rw [hentries, List.mem_append] at hl
  rcases hl with hold | hadded
  · exact (Wired.mem_retain.1 hold).1
  obtain ⟨other, hother, hhandler⟩ := Wired.handler_of_sublist hsub hadded
  obtain rfl : other = item := by simpa [hhandler, Action.deletes?] using hdeletes
  exact absurd (h.parent_of_child (List.mem_of_mem_filter hother))
    (hitem identifier parts hestablished.found)

/-- What has been asked for, allowed and not stopped drops the listeners of the item, whatever the
    hooks do to the tree. -/
theorem TameHooks.listeners_handleDelete (hhooks : TameHooks equipment desk.scope)
    (h : desk.stage.tree.WellFormed) (hidle : desk.scope.activity = .idle) {parts : Parts}
    {identifier : String} (hresolved : desk.scope.resolved = .ok (parts, identifier)) {event : Event}
    (hitem : desk.stage.tree.Has item)
    (haccepted : accepted equipment desk.stage.tree (event.current.getD event.target) = true)
    (hyes : (answer equipment (event.current.getD event.target) desk).1 = true)
    (hgoes : ¬ Stopped equipment parts (event.current.getD event.target) item event
      ((answer equipment (event.current.getD event.target) desk).2.doing .deleting)) :
    (exec (Scope.handleDelete equipment event item) desk).2.listeners =
      without item desk.listeners := by
  rw [exec_handleDelete_asked hidle hresolved haccepted item]
  generalize event.current.getD event.target = control at haccepted hyes hgoes ⊢
  dsimp only
  rw [if_pos hyes]
  -- the question changes nothing but the world outside
  have hhooks₀ : TameHooks equipment ((answer equipment control desk).2.doing .deleting).scope :=
    ⟨hhooks.callbacks, hhooks.routines⟩
  have htree₀ := tree_answer equipment control desk
  have hsame : ((answer equipment control desk).2.doing .deleting).listeners = desk.listeners := rfl
  generalize (answer equipment control desk).2.doing .deleting = desk₀ at hgoes hhooks₀ htree₀ hsame ⊢
  rw [← hsame]
  rw [← htree₀] at h hitem
  rcases exec_deleteItem_cases equipment parts control item event desk₀ with
    ⟨phase, hphase, e, he, -⟩ | ⟨before, after, hbefore, -, hrun⟩
  · exact absurd (.code (by simpa using hphase) he) hgoes
  have hfirst := hhooks₀.staged_runHooks desk₀ .preDelete before ⟨parts, [item], event⟩
  rw [hrun]
  rcases hrun₁ : exec (runHooks equipment .preDelete before ⟨parts, [item], event⟩) desk₀
    with ⟨e | _, desk₁⟩
  · exact absurd (.hook hbefore (congrArg Prod.fst hrun₁)) hgoes
  rw [hrun₁] at hfirst
  rw [exec_bind_ok hrun₁, exec_bind_ok (exec_removeItem (hfirst.tree.has h hitem))]
  have hlast := TameHooks.staged_runHooks { desk₁.withTree (desk₁.stage.tree.detach item) with
    listeners := without item desk₁.listeners } (by exact hfirst.scope ▸ hhooks₀) .postDelete after
    ⟨parts, [item], event⟩
  exact hlast.listeners.trans (congrArg (without item) hfirst.listeners)

end Scope

/-- Whether a deed, if it is a start, finds the item in another place than the container, as it does
    when nobody has put the item anywhere. -/
def Deed.Misses (item : NodeId) (page : Page σ) : Deed → Prop
  | restart n => ∀ (scope : Scope σ) (identifier : String) (parts : Parts),
      page.scopes[n]? = some scope → findParts page.tree scope.root = .ok (identifier, parts) →
      page.tree.parent? item ≠ some parts.container
  | _ => True

theorem Deed.misses_of_loose {item : NodeId} {page : Page σ} (h : page.tree.parent? item = none)
    (deed : Deed) : deed.Misses item page := by
  cases deed with
  | restart n => simp [Misses, h]
  | act | fill => trivial

namespace Page

variable {start page now : Page σ} {n : Nat} {scope : Scope σ} {event climbing : Event}
  {item node : NodeId} {path : List NodeId} {deed : Deed} {deeds done rest : List Deed}
  {operation : Operation σ} {operations : List (Operation σ)} {before after : List (Turn σ)}
  {turn : Turn σ}

/-! ## Items that no listener waits for -/

/-- The item is known, and no scope has a listener for it. -/
structure Gone (page : Page σ) (item : NodeId) : Prop where
  kept : page.Kept
  has : page.tree.Has item
  unwired : ∀ l ∈ page.listeners.entries, l.handler.deletes? ≠ some item

theorem Kept.spares (h : page.Kept) (hhas : page.tree.Has item) (hmisses : deed.Misses item page)
    (hscope : page.scopes[deed.number]? = some scope) :
    Spares item (page.desk scope) (exec (deed.flow page.equipment) (page.desk scope)).2 := by
  have hsettled := h.settled _ scope hscope
  match deed with
  | .act event (.add n) =>
    exact (TameHooks.handleAdd (page.desk scope) (h.tameHooks hscope) h.wellFormed hsettled.idle
      event).spares hhas
  | .act event (.delete n other) =>
    exact (TameHooks.handleDelete (page.desk scope) (h.tameHooks hscope) hsettled.idle event
      other).spares
  | .fill n data =>
    exact (handleData_outcome (page.desk scope) h.wellFormed hsettled.idle page.equipment data).spares
      hhas
  | .restart n =>
    exact spares_start (page.desk scope) h.wellFormed page.equipment hsettled.afterStart
      fun identifier parts hfound => hmisses scope identifier parts hscope hfound

theorem Gone.carryOut (h : page.Gone item) (hmisses : deed.Misses item page) :
    (deed.carryOut page).Gone item := by
  have hkept := h.kept.carryOut deed
  rcases hscope : page.scopes[deed.number]? with _ | scope
  · obtain ⟨line, hline⟩ := Deed.carryOut_of_none hscope
    rw [hline] at hkept ⊢
    exact ⟨hkept, h.has, h.unwired⟩
  have hspares := h.kept.spares h.has hmisses hscope
  obtain ⟨htree, hlisteners, -⟩ := Deed.carryOut_shows hscope Prod.mk.eta.symm
  refine ⟨hkept, ?_, fun l hl hitem => ?_⟩
  · rw [htree]
    exact hspares.grown.has h.kept.wellFormed h.has
  · rw [hlisteners] at hl
    exact h.unwired l (hspares.listeners l hl hitem) hitem

theorem Gone.foldl (h : page.Gone item)
    (hmisses : ∀ turn ∈ page.turns deeds, turn.deed.Misses item turn.page) :
    (deeds.foldl Deed.carryOut page).Gone item := by
  induction deeds generalizing page with
  | nil => exact h
  | cons deed rest ih =>
    rw [turns, List.forall_mem_cons] at hmisses
    exact ih (h.carryOut hmisses.1) hmisses.2

theorem deed_of_mem_turns (h : turn ∈ page.turns deeds) : turn.deed ∈ deeds := by
  induction deeds generalizing page with
  | nil => simp [turns] at h
  | cons deed rest ih =>
    rcases List.mem_cons.1 h with rfl | h
    · exact List.mem_cons_self
    · exact List.mem_cons_of_mem deed (ih h)

/-- No click starts a scope. -/
theorem misses_of_passages (page page' : Page σ) (event : Event) (path : List NodeId) :
    ∀ deed ∈ page.passages event path, deed.Misses item page' := by
  induction path generalizing page with
  | nil => simp [passages]
  | cons here path ih =>
    intro deed hdeed
    rcases List.mem_append.1 hdeed with hhere | hlater
    · obtain ⟨l, -, -, rfl⟩ := eq_act_of_mem_arrivals hhere
      trivial
    · exact ih _ deed hlater

theorem Gone.arrive (h : page.Gone item) (event : Event) (node : NodeId) :
    (page.arrive event node).Gone item := by
  rw [← foldl_arrivals]
  refine h.foldl fun turn hturn => ?_
  obtain ⟨l, -, -, hact⟩ := eq_act_of_mem_arrivals (deed_of_mem_turns hturn)
  rw [hact]
  trivial

/-- No click deletes the item. -/
theorem Gone.passages (h : page.Gone item) (event : Event) (path : List NodeId) :
    ∀ deed ∈ page.passages event path, deed.deletes? ≠ some item := by
  induction path generalizing page with
  | nil => simp [Page.passages]
  | cons here path ih =>
    intro deed hdeed
    rcases List.mem_append.1 hdeed with hhere | hlater
    · obtain ⟨l, hl, -, rfl⟩ := eq_act_of_mem_arrivals hhere
      exact h.unwired l hl
    · exact ih (h.arrive event here) deed hlater

/-! ## Operations -/

theorem Gone.operation_spares (h : page.Gone item) (operation : Operation σ) :
    ∀ deed ∈ operation.deeds page, deed.deletes? ≠ some item := by
  cases operation with
  | click target => exact h.passages _ _
  | start => simp [Operation.deeds, Deed.deletes?]
  | startAll => simp [Operation.deeds, Deed.deletes?]
  | addFromData => simp [Operation.deeds, Deed.deletes?]
  | attach | discover | registerRoutines | registerAfterStart | registerCallback | edit =>
    simp [Operation.deeds]

theorem frame_attachAll (page : Page σ) (roots : List NodeId) :
    (page.attachAll roots).1.listeners = page.listeners ∧
      (page.attachAll roots).1.tree = page.tree := by
  induction roots generalizing page with
  | nil => exact ⟨rfl, rfl⟩
  | cons root rest ih =>
    have hone : (page.attach root).1.listeners = page.listeners ∧
        (page.attach root).1.tree = page.tree := by
      unfold attach
      split <;> exact ⟨rfl, rfl⟩
    obtain ⟨hlisteners, htree⟩ := ih (page.attach root).1
    exact ⟨hlisteners.trans hone.1, htree.trans hone.2⟩

theorem frame_changeScope (page : Page σ) (n : Nat) (f : Scope σ → Scope σ) :
    (page.changeScope n f).listeners = page.listeners ∧ (page.changeScope n f).tree = page.tree := by
  unfold changeScope
  split <;> exact ⟨rfl, rfl⟩

/-- Before its flows an operation wires nothing. -/
theorem Operation.frame_ready (page : Page σ) (operation : Operation σ) :
    (operation.ready page).listeners = page.listeners ∧
      page.tree.Grown (operation.ready page).tree := by
  have hsame : ∀ page' : Page σ, page'.listeners = page.listeners ∧ page'.tree = page.tree →
      page'.listeners = page.listeners ∧ page.tree.Grown page'.tree :=
    fun page' h => ⟨h.1, h.2 ▸ refl_of Grown _⟩
  cases operation with
  | attach root => exact hsame _ (frame_attachAll page [root])
  | discover => exact hsame _ (frame_attachAll page _)
  | startAll => exact hsame _ (frame_attachAll page _)
  | start | click | addFromData => exact ⟨rfl, refl_of Grown _⟩
  | registerRoutines n routines => exact hsame _ (frame_changeScope page n _)
  | registerAfterStart n routine => exact hsame _ (frame_changeScope page n _)
  | registerCallback name callback => exact ⟨rfl, refl_of Grown _⟩
  | edit operation => exact ⟨rfl, (Edited.one page.tree operation).grown⟩

theorem Kept.ready (h : page.Kept) (htame : operation.Tame) : (operation.ready page).Kept := by
  cases operation with
  | start | click | addFromData => exact h
  | startAll => exact h.discover
  | attach | discover | registerRoutines | registerAfterStart | registerCallback | edit =>
    exact h.apply _ htame

theorem Gone.ready (h : page.Gone item) (htame : operation.Tame) :
    (operation.ready page).Gone item := by
  obtain ⟨hlisteners, hgrown⟩ := Operation.frame_ready page operation
  refine ⟨h.kept.ready htame, hgrown.has h.kept.wellFormed h.has, ?_⟩
  rw [hlisteners]
  exact h.unwired

theorem Gone.history (h : page.Gone item) (htame : ∀ operation ∈ operations, operation.Tame)
    (hmisses : ∀ turn ∈ page.history operations, turn.deed.Misses item turn.page) :
    ∀ turn ∈ page.history operations, turn.deed.deletes? ≠ some item := by
  induction operations generalizing page with
  | nil => simp [Page.history]
  | cons operation operations ih =>
    rw [List.forall_mem_cons] at htame
    rw [Page.history, List.forall_mem_append] at hmisses ⊢
    have hnext : (operation.apply page).Gone item := by
      rw [← Operation.foldl_deeds]
      exact (h.ready htame.1).foldl hmisses.1
    exact ⟨fun turn hturn => h.operation_spares operation _ (deed_of_mem_turns hturn),
      ih hnext htame.2 hmisses.2⟩

/-! ## Removals -/

/-- Whether a deletion takes its item out: the tag of the control is accepted, the host says yes, and
    neither code nor a hook stops the deletion before. -/
def Removes (page : Page σ) (event : Event) (n : Nat) (item : NodeId) : Prop :=
  ∃ scope parts identifier, page.scopes[n]? = some scope ∧
    scope.resolved = .ok (parts, identifier) ∧
    let control := event.current.getD event.target
    let (yes, asked) := answer page.equipment control (page.desk scope)
    accepted page.equipment page.tree control = true ∧ yes = true ∧
      ¬ Stopped page.equipment parts control item event (asked.doing .deleting)

theorem Removes.gone (h : page.Removes event n item) (hready : page.ReadyFor n item) :
    (page.perform event (.delete n item)).Gone item := by
  obtain ⟨scope, parts, identifier, hscope, hresolved, haccepted, hyes, hgoes⟩ := h
  have hkept := hready.kept
  have hlisteners : (page.perform event (.delete n item)).listeners = without item page.listeners :=
    (withScope_shows "delete" (handleDelete · event item) hscope Prod.mk.eta.symm).2.1.trans
      ((hkept.tameHooks hscope).listeners_handleDelete (by exact hkept.wellFormed)
        (hkept.settled n scope hscope).idle hresolved (by exact hready.item) haccepted hyes hgoes)
  refine ⟨hkept.perform event _, (hkept.follows_act event (.delete n item)).has item hready.item,
    fun l hl => ?_⟩
  rw [hlisteners] at hl
  simpa using (Wired.mem_retain.1 hl).2

/-- No two listeners that an arrival calls do the same. -/
theorem Kept.nodup_arrivals (h : page.Kept) (event : Event) (node : NodeId) :
    (page.arrivals event node).Nodup := by
  have hhandlers : ((page.listeners.on node event.kind).map (·.handler)).Nodup :=
    h.wired.distinct.sublist (List.filter_sublist.map _)
  have hdeeds := hhandlers.map fun action action' =>
    show Deed.act { event with current := some node } action = .act _ action' → action = action' from
      fun heq => (Deed.act.inj heq).2
  rwa [List.map_map] at hdeeds

/-- Of the listeners that an arrival calls, those for one item belong to different scopes. -/
theorem Kept.other_deletion (h : page.Kept) {first last : List Deed}
    (harrivals : page.arrivals climbing node = first ++ .act event (.delete n item) :: last)
    (hdeed : deed ∈ last) (hdeletes : deed.deletes? = some item) :
    ∃ m, m ≠ n ∧ deed = .act event (.delete m item) := by
  have hmem : .act event (.delete n item) ∈ page.arrivals climbing node ∧
      deed ∈ page.arrivals climbing node := by simp [harrivals, hdeed]
  obtain ⟨_, -, -, hremoval⟩ := eq_act_of_mem_arrivals hmem.1
  obtain ⟨l, -, -, rfl⟩ := eq_act_of_mem_arrivals hmem.2
  rw [← (Deed.act.inj hremoval).1] at hdeed ⊢
  cases hhandler : l.handler with
  | add m => simp [Deed.deletes?, hhandler, Action.deletes?] at hdeletes
  | delete m other =>
    obtain rfl : other = item := by simpa [Deed.deletes?, hhandler, Action.deletes?] using hdeletes
    refine ⟨m, ?_, rfl⟩
    rintro rfl
    have hnodup := h.nodup_arrivals climbing node
    rw [harrivals, List.nodup_append, List.nodup_cons] at hnodup
    rw [hhandler] at hdeed
    exact hnodup.2.1.1 hdeed

/-- What a click still does to an item after it has been removed: the listeners copied together with
    the one that has removed it run, and nothing that the click meets later is for the item. -/
theorem Kept.passages_after_removal (h : page.Kept)
    (hpassages : page.passages climbing path = done ++ .act event (.delete n item) :: rest)
    (hremoves : (done.foldl Deed.carryOut page).Removes event n item) :
    let now := done.foldl Deed.carryOut page
    let next := now.perform event (.delete n item)
    (rest.foldl Deed.carryOut next).Gone item ∧
    ∃ arrived node first last later,
      arrived.arrivals climbing node = first ++ .act event (.delete n item) :: last ∧
      now = first.foldl Deed.carryOut arrived ∧ rest = last ++ later ∧
      (∀ turn ∈ next.turns last, turn.deed.deletes? = some item →
        ∃ m, m ≠ n ∧ turn.deed = .act event (.delete m item) ∧ turn.page.ReadyFor m item) ∧
      ∀ deed ∈ later, deed.deletes? ≠ some item := by
  intro now next
  have hgone : next.Gone item := hremoves.gone (h.ready_of_passages hpassages).1
  have hmisses : ∀ deeds, deeds ⊆ rest → ∀ turn ∈ next.turns deeds,
      turn.deed.Misses item turn.page := by
    intro deeds hsub turn hturn
    refine misses_of_passages page turn.page climbing path turn.deed ?_
    rw [hpassages]
    exact List.mem_append_right _ (List.mem_cons_of_mem _ (hsub (deed_of_mem_turns hturn)))
  refine ⟨hgone.foldl (hmisses rest (List.Subset.refl rest)), ?_⟩
  obtain ⟨arrived, node, above, first, last, harrivals, hnow, rfl, hkept⟩ :=
    passages_split hpassages
  refine ⟨arrived, node, first, last, _, harrivals, hnow, rfl, ?_, ?_⟩
  · rintro ⟨page', deed⟩ hturn hdeletes
    obtain ⟨m, hother, rfl⟩ :=
      (hkept h).other_deletion harrivals (deed_of_mem_turns hturn) hdeletes
    refine ⟨m, hother, rfl, ?_⟩
    obtain ⟨before, after, hsplit⟩ := List.append_of_mem hturn
    obtain ⟨copied, others, rfl, rfl, -⟩ := turns_split hsplit
    have hcopied : page.passages climbing path = (done ++ .act event (.delete n item) :: copied) ++
        .act event (.delete m item) :: (others ++ (arrived.arrive climbing node).passages climbing
          above) := by simpa using hpassages
    have hready := (h.ready_of_passages hcopied).1
    rwa [List.foldl_append] at hready
  · have hnext : arrived.arrive climbing node = last.foldl Deed.carryOut next := by
      rw [← foldl_arrivals, harrivals, List.foldl_append, ← hnow]
      rfl
    rw [hnext]
    exact (hgone.foldl (hmisses last (List.subset_append_left _ _))).passages climbing above

/-- **What is left of an item.** In a run on a new page, whatever the hooks and the caller do to the
    tree: after a deletion that has taken its item out, and as long as no start finds the item in the
    container of its scope, the item is deleted again by nothing but the listeners that the click had
    copied when it arrived at the control. Each of these belongs to another scope; the scope still has
    its elements then, and the host is asked again. In the rest of the click and in all that follows,
    no listener and no flow is for the item. -/
theorem deletions_after_removal (hnew : start.New)
    (htame : ∀ operation ∈ operations, operation.Tame)
    (hhistory : start.history operations = before ++ ⟨now, .act event (.delete n item)⟩ :: after)
    (hremoves : now.Removes event n item)
    (hmisses : ∀ turn ∈ after, turn.deed.Misses item turn.page) :
    ∃ arrived climbing node first last later,
      arrived.arrivals climbing node = first ++ .act event (.delete n item) :: last ∧
      now = first.foldl Deed.carryOut arrived ∧
      after = (now.perform event (.delete n item)).turns last ++ later ∧
      (∀ turn ∈ (now.perform event (.delete n item)).turns last, turn.deed.deletes? = some item →
        ∃ m, m ≠ n ∧ turn.deed = .act event (.delete m item) ∧ turn.page.ReadyFor m item) ∧
      ∀ turn ∈ later, turn.deed.deletes? ≠ some item := by
  obtain ⟨earlier, operation, laterOperations, _, _, rfl, hturns, rfl⟩ := history_split hhistory
  have hkept : (earlier.foldl Operation.apply start).Kept := by
    refine (Reaches.foldl Relation.ReflTransGen.refl fun operation hoperation => ?_).kept hnew.kept
    exact htame operation (List.mem_append_left _ hoperation)
  obtain ⟨done, rest, hdeeds, hnow, rfl⟩ := turns_split hturns
  generalize earlier.foldl Operation.apply start = page at hturns hkept hdeeds hnow hmisses ⊢
  -- only a click has a listener do what it is for
  obtain ⟨target, rfl⟩ : ∃ target, operation = .click target := by
    have hmem : .act event (.delete n item) ∈ operation.deeds page := by rw [hdeeds]; simp
    cases operation with
    | click target => exact ⟨target, rfl⟩
    | _ => simp [Operation.deeds] at hmem
  change now = done.foldl Deed.carryOut page at hnow
  subst hnow
  obtain ⟨hgone, arrived, node, first, last, later, harrivals, hfirst, rfl, hlast, hlater⟩ :=
    hkept.passages_after_removal hdeeds hremoves
  let next := (done.foldl Deed.carryOut page).perform event (.delete n item)
  refine ⟨arrived, Event.click target, node, first, last,
    (last.foldl Deed.carryOut next).turns later ++
      ((Operation.click target).apply page).history laterOperations,
    harrivals, hfirst, ?_, hlast, ?_⟩
  · rw [turns_append, List.append_assoc]
    rfl
  rw [List.forall_mem_append] at hmisses ⊢
  refine ⟨fun turn hturn => hlater turn.deed (deed_of_mem_turns hturn), ?_⟩
  have hafter : ((Operation.click target).apply page).Gone item := by
    rw [← Operation.foldl_deeds, hdeeds, List.foldl_append]
    exact hgone
  refine hafter.history (fun operation hoperation => htame operation ?_) hmisses.2
  exact List.mem_append_right _ (List.mem_cons_of_mem _ hoperation)

/-- Two scopes that share all their elements, and so wire the control of the one item twice. -/
def sharedMarkup : List ParseNode :=
  [.element "div" [⟨"stamper", "list"⟩] [] [.element "div" [⟨"stamper", "list"⟩] [] [
    .element "template" [⟨"s-temp", "list"⟩] [] [],
    .element "ul" [⟨"s-crate", "list"⟩] [] [
      .element "li" [] [] [.element "button" [⟨"s-delete", "list"⟩] [] []]],
    .element "button" [⟨"s-cast", "list"⟩] [] []]]]

/-- One click asks twice whether the one item is to be deleted, for either scope once. After that
    neither a start nor a click on the control asks again. -/
theorem deletions_after_removal_shared :
    let first := scripted sharedMarkup true
    let page := first.startAll
    let event : Event := { Event.click (.slot 7) with current := some (.slot 7) }
    let next := page.perform event (.delete 0 (.slot 6))
    let operations := [.startAll, .click (.slot 7), .start 0, .click (.slot 7)]
    first.New ∧ page.Removes event 0 (.slot 6) ∧
      first.history operations =
        [⟨first.discover.1, .restart 0⟩, ⟨first.discover.1.start 0, .restart 1⟩] ++
          ⟨page, .act event (.delete 0 (.slot 6))⟩ ::
          [⟨next, .act event (.delete 1 (.slot 6))⟩, ⟨(page.click (.slot 7)).1, .restart 0⟩] ∧
      next.ReadyFor 1 (.slot 6) ∧
      (operations.foldl Operation.apply first).outside.state.confirms.size = 2 := by
  intro first page event next operations
  have hnew : first.New := new_scripted _ _
  have hstarts : Operation.startAll.deeds first = [.restart 0, .restart 1] := by decide +kernel
  have htwice : (Operation.click (.slot 7)).deeds page =
      [.act event (.delete 0 (.slot 6)), .act event (.delete 1 (.slot 6))] := by decide +kernel
  have hnever : (Operation.click (.slot 7)).deeds ((page.click (.slot 7)).1.start 0) = [] := by
    decide +kernel
  have hhistory : first.history operations =
      [⟨first.discover.1, .restart 0⟩, ⟨first.discover.1.start 0, .restart 1⟩] ++
        ⟨page, .act event (.delete 0 (.slot 6))⟩ ::
        [⟨next, .act event (.delete 1 (.slot 6))⟩, ⟨(page.click (.slot 7)).1, .restart 0⟩] := by
    clear_value first
    show first.history [.startAll, .click (.slot 7), .start 0, .click (.slot 7)] = _
    rw [history, history, history, history, history,
      show Operation.apply first .startAll = page from rfl,
      show Operation.apply page (.click (.slot 7)) = (page.click (.slot 7)).1 from rfl,
      show Operation.apply (page.click (.slot 7)).1 (.start 0) = (page.click (.slot 7)).1.start 0
        from rfl, hstarts, htwice, hnever]
    rfl
  have hcompile : ∀ phase, compileHook page.tree (.slot 7) phase = .ok none := by
    intro phase
    cases phase <;> decide +kernel
  have hone : (page.scopes[0]?).any fun scope =>
      decide (scope.resolved = .ok (⟨.slot 3, .slot 8, .slot 5⟩, "list")) &&
        (answer page.equipment (.slot 7) (page.desk scope)).1 &&
        decide ((exec (runHooks page.equipment .preDelete none
          ⟨⟨.slot 3, .slot 8, .slot 5⟩, [.slot 6], event⟩)
            ((answer page.equipment (.slot 7) (page.desk scope)).2.doing .deleting)).1 = .ok ()) := by
    decide +kernel
  obtain ⟨scope, hscope, hfacts⟩ := (Option.any_eq_true _ _).1 hone
  simp only [Bool.and_eq_true, decide_eq_true_eq] at hfacts
  obtain ⟨⟨hresolved, hyes⟩, hquiet⟩ := hfacts
  have hremoves : page.Removes event 0 (.slot 6) :=
    ⟨scope, _, _, hscope, hresolved, by decide +kernel, hyes,
      not_stopped (hcompile .preDelete) (hcompile .postDelete) hquiet⟩
  have hloose : (page.click (.slot 7)).1.tree.parent? (.slot 6) = none := by decide +kernel
  have htame : ∀ operation ∈ operations, operation.Tame := by simp [operations, Operation.Tame]
  obtain ⟨-, -, -, -, copied, later, -, -, hafter, hcopied, hlater⟩ :=
    deletions_after_removal hnew htame hhistory hremoves (List.forall_mem_cons.2
      ⟨trivial, List.forall_mem_singleton.2 (Deed.misses_of_loose hloose _)⟩)
  refine ⟨hnew, hremoves, hhistory, ?_, by decide +kernel⟩
  have hagain : ⟨next, .act event (.delete 1 (.slot 6))⟩ ∈ next.turns copied ++ later := by
    rw [← hafter]
    exact List.mem_cons_self
  obtain ⟨m, -, hdeed, hready⟩ := hcopied _
    ((List.mem_append.1 hagain).resolve_right fun hmem => hlater _ hmem rfl) rfl
  cases hdeed
  exact hready

end Page

end Repeater
