/-
  Repeater/Proofs/Scope/Starting.lean
  ===================================
  **What starting a scope does.**

  A start is refused before anything is changed, or it goes through up to the hook after the start
  (`exec_start`): once the elements have been found and the items that are to be taken in are ready,
  nothing before that hook can fail. `Established` says what has been done by then.
-/
import Repeater.Proofs.Dom.Steady
import Repeater.Proofs.Scope.Adding
import Repeater.Proofs.Stamp.Seeding

namespace Repeater.Scope

open Dom Hook Stamp Tree

variable {σ : Type} {equipment : Equipment σ} {desk desk' : Desk σ} {identifier : String}
  {parts : Parts} {items : List NodeId}

/-! ## The elements of a scope -/

theorem selectFirst_of_findPart {t : Tree} {root part : NodeId} {directive : Directive}
    (h : findPart t root identifier directive = .ok part) :
    t.selectFirst? root (.attributeIs directive.name identifier) = some part := by
  unfold findPart at h
  split at h
  · next hselect =>
    cases h
    exact hselect
  · cases h

theorem has_findPart {t : Tree} {root part : NodeId} {directive : Directive}
    (h : findPart t root identifier directive = .ok part) : t.Has part := by
  have hsat := List.find?_some (selectFirst_of_findPart h)
  obtain ⟨e, he, -⟩ := Option.any_eq_true _ _ |>.1 hsat
  exact has_of_element he

theorem above_findPart {t : Tree} (ht : t.WellFormed) {root part : NodeId} {directive : Directive}
    (h : findPart t root identifier directive = .ok part) : t.Above root part :=
  (mem_descendants ht).1 (List.mem_of_find?_eq_some (selectFirst_of_findPart h))

/-- What finding the elements of a scope tells. -/
structure Found (t : Tree) (root : NodeId) (identifier : String) (parts : Parts) : Prop where
  named : t.attribute? root Directive.root.name = some identifier
  template : findPart t root identifier .template = .ok parts.template
  trigger : findPart t root identifier .trigger = .ok parts.trigger
  container : findPart t root identifier .container = .ok parts.container
  valid : checkTemplate t parts.template = .ok ()

theorem Found.isElement_root {t : Tree} {root : NodeId} (h : Found t root identifier parts) :
    t.isElement root = true := isElement_of_attribute (by rw [h.named]; rfl)

theorem findParts_eq_ok {t : Tree} {root : NodeId}
    (h : findParts t root = .ok (identifier, parts)) : Found t root identifier parts := by
  unfold findParts at h
  split at h
  · next found hroot =>
    obtain ⟨template, htemplate, h⟩ := bind_eq_ok.1 h
    obtain ⟨trigger, htrigger, h⟩ := bind_eq_ok.1 h
    obtain ⟨container, hcontainer, h⟩ := bind_eq_ok.1 h
    obtain ⟨_, hvalid, h⟩ := bind_eq_ok.1 h
    cases h
    exact ⟨(Option.filter_eq_some_iff.1 hroot).1, htemplate, htrigger, hcontainer, hvalid⟩
  · simp [throw, throwThe, MonadExceptOf.throw] at h

/-! ## Taking in -/

theorem exec_takeIn (h : desk.stage.tree.WellFormed) {item : NodeId}
    (hready : sequencesReady desk.stage.tree item = true) (identifier : String) :
    ∃ t', exec (takeIn identifier item) desk = (.ok ⟨⟩,
      { desk.withTree t' with scope := { desk.scope with counter := desk.scope.counter + 1 } }) ∧
      TakenIn identifier desk.scope.counter desk.stage.tree item t' := by
  obtain ⟨t₁, hrun₁, hset, -⟩ := exec_stampSequences_ready h hready desk.scope.counter
  have hstep₁ : exec (Flow.stamp (stampSequences item desk.scope.counter)) desk =
      (.ok _, desk.withTree t₁) := Flow.exec_stamp hrun₁
  obtain ⟨n, t₂, hrun₂, hreworded⟩ :=
    exec_stampIndex_reworded hset.wellFormed item identifier desk.scope.counter
  have hstep₂ : exec (Flow.stamp (stampIndex item identifier desk.scope.counter))
      (desk.withTree t₁) = (.ok n, desk.withTree t₂) := Flow.exec_stamp hrun₂
  refine ⟨t₂, ?_, t₁, hset, hreworded, fun hg => ?_⟩
  · unfold takeIn
    rw [exec_get_bind, exec_bind_ok hstep₁, exec_bind_ok hstep₂, Flow.exec_updateScope]
    rfl
  · obtain ⟨n', t₂', hrun₂', hstamped⟩ := exec_stampIndex hset.wellFormed
      (hg.groundedFrom item) identifier desk.scope.counter
    rw [hrun₂, Prod.mk.injEq] at hrun₂'
    exact hrun₂'.2 ▸ hstamped

/-- Items that are all ready are all taken in. -/
theorem exec_takeInAll (desk : Desk σ) (h : desk.stage.tree.WellFormed)
    (hready : ∀ item ∈ items, sequencesReady desk.stage.tree item = true) (identifier : String) :
    ∃ desk', exec (items.forM (takeIn identifier)) desk = (.ok ⟨⟩, desk') ∧
      desk'.scope = { desk.scope with counter := desk.scope.counter + items.length } ∧
      desk'.listeners = desk.listeners ∧
      Seeded identifier desk.scope.counter desk.stage.tree items desk'.stage.tree := by
  induction items generalizing desk with
  | nil => exact ⟨desk, rfl, rfl, rfl, .nil _ _⟩
  | cons item rest ih =>
    obtain ⟨t₁, hrun₁, htaken⟩ := exec_takeIn h (hready item (by simp)) identifier
    obtain ⟨desk', hrun, hscope, hlisteners, hseeded⟩ := @ih { desk.withTree t₁ with
      scope := { desk.scope with counter := desk.scope.counter + 1 } } htaken.wellFormed
      fun other hother => htaken.sequencesReady h (hready other (by simp [hother]))
    refine ⟨desk', ?_, ?_, hlisteners, .cons htaken hseeded⟩
    · rw [exec_forM_cons, exec_bind_ok hrun₁, hrun]
    · rw [hscope, List.length_cons, Nat.add_comm rest.length 1, ← Nat.add_assoc]

/-! ## The last steps -/

/-- Runs the registered hook after the start. -/
def runAfterStart (equipment : Equipment σ) (parts : Parts) (items : List NodeId) :
    Flow σ Unit := do
  let scope := (← get).scope
  if let some routine := scope.afterStart then
    Flow.act (ExceptT.adapt Failure.toError (routine (context equipment scope parts items none)))

/-- Wires the items and the trigger and marks the scope as started. -/
def conclude (equipment : Equipment σ) (number : Nat) (root : NodeId) (identifier : String)
    (parts : Parts) (items : List NodeId) : Flow σ Unit := do
  items.forM (wireDelete equipment)
  Flow.updateListeners (·.add parts.trigger .click (.add number))
  Flow.edit (Edit.setAttribute root Directive.started.name equipment.config.startedValue)
  Flow.updateScope fun scope => { scope with started := true }
  Flow.act (Act.log ⟨.info, .engine, "scope initialized",
    [("scope", .text identifier), ("items", .count items.length)]⟩)
  runAfterStart equipment parts items

/-- The tree with the mark of a started scope on the root. -/
def marked (equipment : Equipment σ) (root : NodeId) (t : Tree) : Tree :=
  match t.element? root with
  | none => t
  | some e => t.setContent root
      (.element (e.set Directive.started.name equipment.config.startedValue))

theorem marked_of_none (equipment : Equipment σ) {root : NodeId} {t : Tree}
    (h : t.element? root = none) : marked equipment root t = t := by
  unfold marked
  rw [h]

theorem marked_of_element (equipment : Equipment σ) {root : NodeId} {t : Tree} {e : Element}
    (h : t.element? root = some e) : marked equipment root t = t.setContent root
      (.element (e.set Directive.started.name equipment.config.startedValue)) := by
  unfold marked
  rw [h]

section marked

variable (equipment : Equipment σ) (root : NodeId) (t : Tree)

theorem content?_marked {x : NodeId} (hx : x ≠ root) :
    (marked equipment root t).content? x = t.content? x := by
  rcases he : t.element? root with _ | e
  · rw [marked_of_none equipment he]
  · rw [marked_of_element equipment he, content?_setContent, if_neg fun hroot => hx hroot.1]

theorem element?_marked (x : NodeId) : (marked equipment root t).element? x =
    (t.element? x).map fun e =>
      if x = root then e.set Directive.started.name equipment.config.startedValue else e := by
  by_cases hx : x = root
  · subst hx
    rcases he : t.element? x with _ | e
    · rw [marked_of_none equipment he, he, Option.map_none]
    · rw [marked_of_element equipment he, element?_setContent (has_of_element he),
        Option.map_some, if_pos rfl]
  · rw [element?_congr (content?_marked equipment root t hx)]
    simp only [hx, if_false, Option.map_id']

theorem isElement_marked (x : NodeId) :
    (marked equipment root t).isElement x = t.isElement x := by
  unfold Tree.isElement
  rw [element?_marked, Option.isSome_map]

theorem contents?_marked (x : NodeId) : (marked equipment root t).contents? x = t.contents? x := by
  unfold Tree.contents?
  rw [element?_marked, Option.bind_map]
  congr 1
  funext e
  dsimp only [Function.comp]
  split <;> rfl

theorem parent?_marked (x : NodeId) : (marked equipment root t).parent? x = t.parent? x := by
  unfold marked
  split
  · rfl
  · exact parent?_setContent ..

theorem children_marked (x : NodeId) : (marked equipment root t).children x = t.children x := by
  unfold marked
  split
  · rfl
  · exact children_setContent ..

theorem size_marked : (marked equipment root t).size = t.size := by
  unfold marked
  split
  · rfl
  · exact size_setContent ..

theorem elementChildren_marked (x : NodeId) :
    (marked equipment root t).elementChildren x = t.elementChildren x :=
  elementChildren_congr (children_marked equipment root t x)
    fun y _ => isElement_marked equipment root t y

theorem grown_marked : t.Grown (marked equipment root t) := by
  rcases he : t.element? root with _ | e
  · rw [marked_of_none equipment he]
    exact refl_of Grown t
  · rw [marked_of_element equipment he]
    exact Edit.grown_setElement he rfl rfl fun h => h.set _ _

end marked

theorem exec_conclude (equipment : Equipment σ) (number : Nat) {root : NodeId}
    (hroot : desk.stage.tree.isElement root = true) (identifier : String) (parts : Parts)
    (items : List NodeId) :
    ∃ desk₁, exec (conclude equipment number root identifier parts items) desk =
        exec (runAfterStart equipment parts items) desk₁ ∧
      desk₁.scope = { desk.scope with started := true } ∧
      desk₁.stage.tree = marked equipment root desk.stage.tree ∧
      desk₁.listeners = (items.foldl (fun ls item =>
        wired equipment desk.stage.tree desk.scope item ls) desk.listeners).add parts.trigger
          .click (.add number) := by
  obtain ⟨e, he⟩ := Option.isSome_iff_exists.1 hroot
  have hmark : ∀ desk' : Desk σ, desk'.stage.tree = desk.stage.tree →
      exec (Flow.edit (Edit.setAttribute root Directive.started.name equipment.config.startedValue))
        desk' = (.ok ⟨⟩, desk'.withTree (marked equipment root desk.stage.tree)) := by
    intro desk' hsame
    rw [marked_of_element equipment he]
    exact Flow.exec_edit_ok (by rw [hsame]; exact Edit.exec_setAttribute he ..)
  unfold conclude
  rw [exec_bind_ok (exec_wireAll ..), exec_bind_ok (Flow.exec_updateListeners ..),
    exec_bind_ok (hmark _ ?same), exec_bind_ok (Flow.exec_updateScope ..),
    exec_bind_ok (Flow.exec_act ..)]
  case same => rfl
  exact ⟨_, rfl, rfl, rfl, rfl⟩

/-! ## Starts -/

/-- The items that a start takes in: those in the container, at the first start. -/
def pending (t : Tree) (scope : Scope σ) (parts : Parts) : List NodeId :=
  if scope.started then [] else t.elementChildren parts.container

/-- Takes in, wires and marks everything that has been found and checked. -/
def establish (equipment : Equipment σ) (t : Tree) (scope : Scope σ) (identifier : String)
    (parts : Parts) : Flow σ Unit := do
  Flow.updateListeners (·.retain (outlivesStart t scope.number parts.container))
  Flow.updateScope fun scope => { scope with identifier := some identifier, parts := some parts }
  (pending t scope parts).forM (takeIn identifier)
  conclude equipment scope.number scope.root identifier parts (t.elementChildren parts.container)

theorem exec_start_eq (equipment : Equipment σ) (desk : Desk σ) : exec (start equipment) desk =
    match findParts desk.stage.tree desk.scope.root with
    | .error e => (.error e, desk)
    | .ok (identifier, parts) =>
      if desk.scope.started || (desk.stage.tree.elementChildren parts.container).all
          (sequencesReady desk.stage.tree) then
        exec (establish equipment desk.stage.tree desk.scope identifier parts) desk
      else (.error (.missingAttribute .sequence), desk) := by
  unfold start
  rw [exec_get_bind]
  dsimp only
  rcases findParts desk.stage.tree desk.scope.root with e | ⟨identifier, parts⟩
  · rw [exec_bind_error (exec_ofExcept ..)]
  rw [exec_bind_ok (exec_ofExcept ..)]
  dsimp only
  split
  · unfold establish conclude runAfterStart pending
    split <;> rfl
  · rw [exec_throw_bind]

/-- What a start that was not refused has done when the hook after it runs. -/
structure Established (equipment : Equipment σ) (desk : Desk σ) (identifier : String)
    (parts : Parts) (desk₁ : Desk σ) : Prop where
  found : findParts desk.stage.tree desk.scope.root = .ok (identifier, parts)
  scope : desk₁.scope = { desk.scope with
    identifier := some identifier
    parts := some parts
    counter := desk.scope.counter + (pending desk.stage.tree desk.scope parts).length
    started := true }
  listeners : ∃ (ls : Listeners Action) (added : List (Listener Action)),
    desk₁.listeners = ls.add parts.trigger .click (.add desk.scope.number) ∧
    ls.entries = (desk.listeners.retain (outlivesStart desk.stage.tree desk.scope.number
      parts.container)).entries ++ added ∧
    (added.map (·.handler)).Sublist
      ((desk.stage.tree.elementChildren parts.container).map (.delete desk.scope.number))
  tree : ∃ t₁, Seeded identifier desk.scope.counter desk.stage.tree
      (pending desk.stage.tree desk.scope parts) t₁ ∧
    desk₁.stage.tree = marked equipment desk.scope.root t₁

/-- What a start has done when the hook after it runs, with the exact listeners; `t₁` is the tree in
    which they have been wired. -/
structure Concluded (equipment : Equipment σ) (desk : Desk σ) (identifier : String) (parts : Parts)
    (t₁ : Tree) (desk₁ : Desk σ) : Prop where
  scope : desk₁.scope = { desk.scope with
    identifier := some identifier
    parts := some parts
    counter := desk.scope.counter + (pending desk.stage.tree desk.scope parts).length
    started := true }
  seeded : Seeded identifier desk.scope.counter desk.stage.tree
    (pending desk.stage.tree desk.scope parts) t₁
  tree : desk₁.stage.tree = marked equipment desk.scope.root t₁
  listeners : desk₁.listeners =
    ((desk.stage.tree.elementChildren parts.container).foldl
      (fun ls item => wired equipment t₁ desk₁.scope item ls)
      (desk.listeners.retain (outlivesStart desk.stage.tree desk.scope.number
        parts.container))).add parts.trigger .click (.add desk.scope.number)

/-- What has been found and checked is concluded without fail. -/
theorem exec_establish (h : desk.stage.tree.WellFormed) (equipment : Equipment σ)
    (hfound : findParts desk.stage.tree desk.scope.root = .ok (identifier, parts))
    (hready : ∀ item ∈ pending desk.stage.tree desk.scope parts,
      sequencesReady desk.stage.tree item = true) :
    ∃ t₁ desk₁, Concluded equipment desk identifier parts t₁ desk₁ ∧
      exec (establish equipment desk.stage.tree desk.scope identifier parts) desk =
        exec (runAfterStart equipment parts
          (desk.stage.tree.elementChildren parts.container)) desk₁ := by
  obtain ⟨desk₁, hrun₁, hscope₁, hlisteners₁, hseeded⟩ := exec_takeInAll ({ desk with
    listeners := desk.listeners.retain (outlivesStart desk.stage.tree desk.scope.number
      parts.container)
    scope := { desk.scope with identifier := some identifier, parts := some parts } }) h hready
    identifier
  have hroot : desk₁.stage.tree.isElement desk.scope.root = true := by
    rw [hseeded.isElement]
    exact (findParts_eq_ok hfound).isElement_root
  obtain ⟨desk₂, hrun₂, hscope₂, htree₂, hlisteners₂⟩ := exec_conclude equipment
    desk.scope.number hroot identifier parts (desk.stage.tree.elementChildren parts.container)
  refine ⟨desk₁.stage.tree, desk₂, ⟨?_, hseeded, htree₂, ?_⟩, ?_⟩
  · rw [hscope₂, hscope₁]
  · rw [hlisteners₂, hlisteners₁, hscope₂]
    rfl
  · unfold establish
    rw [exec_bind_ok (Flow.exec_updateListeners ..), exec_bind_ok (Flow.exec_updateScope ..),
      exec_bind_ok hrun₁, hrun₂]

theorem Concluded.established {t₁ : Tree} {desk₁ : Desk σ}
    (h : Concluded equipment desk identifier parts t₁ desk₁)
    (hfound : findParts desk.stage.tree desk.scope.root = .ok (identifier, parts)) :
    Established equipment desk identifier parts desk₁ := by
  obtain ⟨added, hadded, hsub⟩ := wireAll_entries equipment t₁ desk₁.scope
    (desk.stage.tree.elementChildren parts.container) (desk.listeners.retain
      (outlivesStart desk.stage.tree desk.scope.number parts.container))
  refine ⟨hfound, h.scope, ⟨_, added, h.listeners, hadded, ?_⟩, t₁, h.seeded, h.tree⟩
  rwa [h.scope] at hsub

/-- What a start checks before it changes anything. -/
structure Checked (scope : Scope σ) (t : Tree) (identifier : String) (parts : Parts) :
    Prop where
  found : findParts t scope.root = .ok (identifier, parts)
  ready : scope.started = true ∨
    ∀ item ∈ t.elementChildren parts.container, sequencesReady t item = true

/-- A start concludes what it has checked, or changes nothing. -/
theorem exec_start_concluded (desk : Desk σ) (h : desk.stage.tree.WellFormed)
    (equipment : Equipment σ) :
    (∃ identifier parts t₁ desk₁, desk.scope.Checked desk.stage.tree identifier parts ∧
      Concluded equipment desk identifier parts t₁ desk₁ ∧
      exec (start equipment) desk = exec (runAfterStart equipment parts
        (desk.stage.tree.elementChildren parts.container)) desk₁) ∨
    (¬ ∃ identifier parts, desk.scope.Checked desk.stage.tree identifier parts) ∧
      ∃ e, exec (start equipment) desk = (.error e, desk) := by
  rw [exec_start_eq]
  split
  · next e hfound =>
    refine .inr ⟨?_, e, rfl⟩
    rintro ⟨identifier, parts, hchecked⟩
    rw [hchecked.found] at hfound
    cases hfound
  next identifier parts hfound =>
  split
  · next hready =>
    have hchecked : desk.scope.Checked desk.stage.tree identifier parts :=
      ⟨hfound, by simpa [Bool.or_eq_true] using hready⟩
    obtain ⟨t₁, desk₁, hconcluded, hrun⟩ := exec_establish h equipment hfound (by
      unfold pending
      split
      · simp
      · next hfirst => exact hchecked.ready.resolve_left (by simpa using hfirst))
    exact .inl ⟨identifier, parts, t₁, desk₁, hchecked, hconcluded, hrun⟩
  · next hnot =>
    refine .inr ⟨?_, _, rfl⟩
    rintro ⟨identifier', parts', hchecked⟩
    have hsame := hchecked.found.symm.trans hfound
    cases hsame
    exact hnot (by simpa [Bool.or_eq_true] using hchecked.ready)

/-- A start does what it has checked, and nothing else. -/
theorem exec_start_cases (desk : Desk σ) (h : desk.stage.tree.WellFormed)
    (equipment : Equipment σ) :
    (∃ identifier parts desk₁, desk.scope.Checked desk.stage.tree identifier parts ∧
      Established equipment desk identifier parts desk₁ ∧
      exec (start equipment) desk = exec (runAfterStart equipment parts
        (desk.stage.tree.elementChildren parts.container)) desk₁) ∨
    (¬ ∃ identifier parts, desk.scope.Checked desk.stage.tree identifier parts) ∧
      ∃ e, exec (start equipment) desk = (.error e, desk) := by
  refine (exec_start_concluded desk h equipment).imp_left ?_
  rintro ⟨identifier, parts, t₁, desk₁, hchecked, hconcluded, hrun⟩
  exact ⟨identifier, parts, desk₁, hchecked, hconcluded.established hchecked.found, hrun⟩

/-- Nothing but the search for the elements, the check of the items that are taken in and the hook
    after the start can make a start fail. -/
theorem exec_start (h : desk.stage.tree.WellFormed) (equipment : Equipment σ) :
    (∃ e, exec (start equipment) desk = (.error e, desk)) ∨
      ∃ identifier parts desk₁, Established equipment desk identifier parts desk₁ ∧
        exec (start equipment) desk = exec (runAfterStart equipment parts
          (desk.stage.tree.elementChildren parts.container)) desk₁ := by
  rcases exec_start_cases desk h equipment with
    ⟨identifier, parts, desk₁, -, hestablished, hrun⟩ | ⟨-, hrefused⟩
  · exact .inr ⟨identifier, parts, desk₁, hestablished, hrun⟩
  · exact .inl hrefused

theorem Established.grown {desk₁ : Desk σ}
    (h : Established equipment desk identifier parts desk₁) :
    desk.stage.tree.Grown desk₁.stage.tree := by
  obtain ⟨t₁, hseeded, htree⟩ := h.tree
  rw [htree]
  exact trans_of Grown hseeded.grown (grown_marked equipment desk.scope.root t₁)

/-- A start of a scope that has been started before takes nothing in. -/
theorem Established.restarted {desk₁ : Desk σ}
    (h : Established equipment desk identifier parts desk₁) (hstarted : desk.scope.started = true) :
    desk₁.stage.tree = marked equipment desk.scope.root desk.stage.tree ∧
      desk₁.scope.counter = desk.scope.counter := by
  have hpending : pending desk.stage.tree desk.scope parts = [] := by
    unfold pending
    rw [if_pos hstarted]
  obtain ⟨t₁, hseeded, htree⟩ := h.tree
  rw [hpending] at hseeded
  cases hseeded
  refine ⟨htree, ?_⟩
  rw [h.scope, hpending]
  rfl

/-- The result of the registered hook after the start, and the desk it leaves. -/
theorem exec_runAfterStart (equipment : Equipment σ) (parts : Parts) (items : List NodeId)
    (desk : Desk σ) :
    exec (runAfterStart equipment parts items) desk =
      match desk.scope.afterStart with
      | none => (.ok (), desk)
      | some routine =>
        let ran := exec (routine (context equipment desk.scope parts items none)) desk.stage
        (ran.1.mapError Failure.toError, { desk with stage := ran.2 }) := by
  unfold runAfterStart
  rw [exec_get_bind]
  dsimp only
  rcases desk.scope.afterStart with _ | routine
  · rfl
  · rw [Flow.exec_act, exec_adapt]

theorem frame_runAfterStart (equipment : Equipment σ) (parts : Parts) (items : List NodeId)
    (desk : Desk σ) : (exec (runAfterStart equipment parts items) desk).2.scope = desk.scope ∧
      (exec (runAfterStart equipment parts items) desk).2.listeners = desk.listeners := by
  rw [exec_runAfterStart]
  split
  all_goals exact ⟨rfl, rfl⟩

/-- The hook after the start changes nothing but the stage. -/
theorem staged_runAfterStart {R : Tree → Tree → Prop} [IsPreorder Tree R]
    (h : ∀ routine, desk.scope.afterStart = some routine → routine.Within R) (parts : Parts)
    (items : List NodeId) :
    desk.Staged R (exec (runAfterStart equipment parts items) desk).2 := by
  unfold runAfterStart
  rw [exec_get_bind]
  dsimp only
  rcases hafter : desk.scope.afterStart with _ | routine
  · exact refl_of (Desk.Staged R) desk
  · exact Flow.staged_act (keeps_adapt _ (h routine hafter _)) desk

/-- However a start ends, either nothing has been changed, or everything has been established and
    only the hook after the start has changed the stage any further. -/
theorem start_outcome {R : Tree → Tree → Prop} [IsPreorder Tree R] (desk : Desk σ)
    (h : desk.stage.tree.WellFormed) (equipment : Equipment σ)
    (hafter : ∀ routine, desk.scope.afterStart = some routine → routine.Within R) :
    (exec (start equipment) desk).2 = desk ∨ ∃ identifier parts desk₁,
      Established equipment desk identifier parts desk₁ ∧
        desk₁.Staged R (exec (start equipment) desk).2 := by
  rcases exec_start h equipment with ⟨e, hrun⟩ | ⟨identifier, parts, desk₁, hestablished, hrun⟩
  · exact .inl (by rw [hrun])
  · refine .inr ⟨identifier, parts, desk₁, hestablished, ?_⟩
    rw [hrun]
    refine staged_runAfterStart (fun routine hroutine => hafter routine ?_) _ _
    rw [hestablished.scope] at hroutine
    exact hroutine

end Repeater.Scope
