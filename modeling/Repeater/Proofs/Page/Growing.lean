/-
  Repeater/Proofs/Page/Growing.lean
  =================================
  **A page that only gets items.**

  On a page without hooks, clicks on triggers and additions from data bring in one item each, or
  fail. As long as nothing else is done, the page can be told from what it was and from the plans of
  the additions, in their order (`Growing`): its document is laden with the items that could be
  made, the counters have advanced by their numbers, and listeners have come to new nodes only. Each
  addition appends its plan (`Growing.carryOut`), and a click appends the plans for all triggers
  that it meets (`Growing.arrive_path`).
-/
import Repeater.Proofs.Page.Deeds
import Repeater.Proofs.Page.Upkeep
import Repeater.Proofs.Scope.Bindings
import Repeater.Proofs.Scope.Laden
import Repeater.Proofs.Scope.PlainAdditions

namespace Repeater

open Dom Hook Markup Scope Stamp Tree

variable {σ : Type}

namespace Page

variable {base page : Page σ} {plans : List Plan} {plan : Plan} {deed : Deed} {n : Nat}
  {scope : Scope σ} {x : NodeId}

/-! ## What is to come in -/

/-- Whether no hook is registered for a scope of the page, and none is written on a trigger. -/
def Unhooked (page : Page σ) : Prop :=
  ∀ scope ∈ page.scopes.toList, ∀ parts ∈ scope.parts,
    Scope.unhooked scope page.tree parts.trigger = true

instance (page : Page σ) : Decidable page.Unhooked := inferInstanceAs (Decidable (∀ _ ∈ _, _))

theorem Unhooked.on_trigger (h : page.Unhooked) (hscope : page.scopes[n]? = some scope)
    {parts : Parts} (hparts : scope.parts = some parts) :
    Scope.unhooked scope page.tree parts.trigger = true :=
  h scope (List.mem_of_getElem? ((Array.getElem?_toList ..).trans hscope)) parts hparts

/-- The plan by which a deed adds an item: after a click, the item is to be the last in the
    container; from data, it is to come right before the trigger. -/
inductive Planned (page : Page σ) : Deed → Plan → Prop where
  | click {n : Nat} {scope : Scope σ} {parts : Parts} {identifier : String} {source : NodeId}
      (event : Event) (hscope : page.scopes[n]? = some scope)
      (hresolved : scope.resolved = .ok (parts, identifier))
      (hsource : page.tree.contents? parts.template = some source) :
      Planned page (.act event (.add n)) ⟨n, identifier, source, [], parts.container, none⟩
  | fill {n : Nat} {scope : Scope σ} {parts : Parts} {identifier : String} {source place : NodeId}
      (data : List (String × String)) (hscope : page.scopes[n]? = some scope)
      (hresolved : scope.resolved = .ok (parts, identifier))
      (hsource : page.tree.contents? parts.template = some source)
      (hplace : page.tree.parent? parts.trigger = some place) :
      Planned page (.fill n data) ⟨n, identifier, source, data, place, some parts.trigger⟩

theorem Planned.fits (h : page.Planned deed plan) (hkept : page.Kept) : plan.Fits page.tree := by
  cases h with
  | @click n scope parts identifier source event hscope hresolved hsource =>
    exact ⟨hkept.wellFormed.has_contents hsource,
      ((hkept.settled n scope hscope).elements parts (resolved_eq_ok hresolved).1).2.2, by simp⟩
  | @fill n scope parts identifier source place data hscope hresolved hsource hplace =>
    exact ⟨hkept.wellFormed.has_contents hsource, hkept.wellFormed.has_parent hplace,
      by rintro r ⟨⟩; exact hplace⟩

/-- How far a scope has counted. -/
def counter (page : Page σ) (n : Nat) : Nat := page.scopes[n]?.elim 0 (·.counter)

/-- The plans by which an item can be made. -/
def feasible (page : Page σ) (plans : List Plan) : List Plan :=
  plans.filter fun plan => canGain page.tree plan.source plan.place

/-- What holds of a page that was `base` when the first of some additions was made, with these
    plans. -/
structure Growing (base : Page σ) (plans : List Plan) (page : Page σ) : Prop where
  kept : page.Kept
  laden : ∃ items, items.map Item.order = numbered base.counter (base.feasible plans) ∧
    Laden base.tree items page.tree
  scopes : ∀ n : Nat, page.scopes[n]? = base.scopes[n]?.map fun scope =>
    { scope with counter := scope.counter + (base.feasible plans).countP (·.number = n) }
  listeners : ∃ added, page.listeners.bindings = base.listeners.bindings ++ added ∧
    ∀ b ∈ added, ¬ base.tree.Has b.target

theorem feasible_concat (page : Page σ) (plans : List Plan) (plan : Plan) :
    page.feasible (plans ++ [plan]) = page.feasible plans ++
      if canGain page.tree plan.source plan.place then [plan] else [] := by
  unfold feasible
  rw [List.filter_append]
  by_cases hcan : canGain page.tree plan.source plan.place <;> simp [hcan]

namespace Growing

theorem refl (hbase : base.Kept) : base.Growing [] base where
  kept := hbase
  laden := ⟨[], rfl, .nil hbase.wellFormed⟩
  scopes n := by simp [feasible]
  listeners := ⟨[], by simp, by simp⟩

/-- What an addition finds is what it found at first, but for the counter. -/
theorem attempted (h : base.Growing plans page) (hbase : base.Kept)
    (hgrounded : base.tree.Grounded) (hunhooked : base.Unhooked) (hplanned : base.Planned deed plan)
    (hclear : ∀ other ∈ plans, ¬ base.tree.AtOrEncloses plan.source other.place) :
    ∃ scope, page.scopes[deed.number]? = some scope ∧ plan.number = deed.number ∧
      scope.identifier = some plan.identifier ∧
      Untouched base.tree plan.source page.tree ∧
      Attempted page.equipment plan.source plan.data plan.identifier plan.place plan.reference
        (page.desk scope) (exec (deed.flow page.equipment) (page.desk scope)) := by
  obtain ⟨items, horders, hladen⟩ := h.laden
  have hfits := hplanned.fits hbase
  have huntouched : Untouched base.tree plan.source page.tree := by
    refine hladen.untouched hbase.wellFormed hfits.source fun item hitem => hclear _ ?_
    have horder : item.order ∈ numbered base.counter (base.feasible plans) :=
      horders ▸ List.mem_map_of_mem hitem
    have hplan := List.mem_map_of_mem (f := Prod.fst) horder
    rw [map_fst_numbered] at hplan
    exact List.mem_of_mem_filter hplan
  have hgroundedFrom : page.tree.GroundedFrom plan.source :=
    hladen.groundedFrom hbase.wellFormed (hgrounded.groundedFrom _)
  have hcontents : ∀ {x f}, base.tree.contents? x = some f → page.tree.contents? x = some f :=
    fun hx => (contents?_congr (hladen.content _ (has_of_contents hx))).trans hx
  cases hplanned with
  | @click n scope parts identifier source event hscope hresolved hsource =>
    have hscope' := h.scopes n
    rw [hscope, Option.map_some] at hscope'
    refine ⟨_, hscope', rfl, (resolved_eq_ok hresolved).2, huntouched, ?_⟩
    have hparts := (resolved_eq_ok hresolved).1
    have helements := (hbase.settled n scope hscope).elements parts hparts
    have hunhooked' : Scope.unhooked { scope with
        counter := scope.counter + (base.feasible plans).countP (·.number = n) } page.tree
        parts.trigger = true :=
      (unhooked_congr rfl (hladen.content _ helements.2.1)).trans
        (hunhooked.on_trigger hscope hparts)
    exact exec_handleAdd_unhooked (page.desk _) (h.kept.settled n _ hscope').idle hresolved
      hunhooked' h.kept.wellFormed (hcontents hsource) hgroundedFrom (hladen.has helements.2.2)
      page.equipment event
  | @fill n scope parts identifier source place data hscope hresolved hsource hplace =>
    have hscope' := h.scopes n
    rw [hscope, Option.map_some] at hscope'
    refine ⟨_, hscope', rfl, (resolved_eq_ok hresolved).2, huntouched, ?_⟩
    have hplace' : page.tree.parent? parts.trigger = some place :=
      (hladen.parent _ (has_of_parent hplace)).trans hplace
    exact exec_handleData_attempted (page.desk _) (h.kept.settled n _ hscope').idle hresolved
      hplace' h.kept.wellFormed (hcontents hsource) hgroundedFrom page.equipment data

theorem counter_eq (h : base.Growing plans page) (hscope : page.scopes[n]? = some scope) :
    scope.counter = base.counter n + (base.feasible plans).countP (·.number = n) := by
  rw [h.scopes, Option.map_eq_some_iff] at hscope
  obtain ⟨scope₀, hscope₀, rfl⟩ := hscope
  rw [Page.counter, hscope₀]
  rfl

/-- An addition that goes through. -/
theorem gain (h : base.Growing plans page) (hbase : base.Kept) (hfits : plan.Fits base.tree)
    (hcan : canGain base.tree plan.source plan.place = true)
    (huntouched : Untouched base.tree plan.source page.tree) {page' : Page σ} {desk' : Desk σ}
    (hscope : page.scopes[plan.number]? = some scope)
    (hidentifier : scope.identifier = some plan.identifier) (hkept : page'.Kept)
    (htree : page'.tree = desk'.stage.tree) (hlisteners : page'.listeners = desk'.listeners)
    (hscopes : ∀ m : Nat, page'.scopes[m]? =
      if m = plan.number then some desk'.scope else page.scopes[m]?)
    (hgains : Gains page.equipment plan.source
      (itemTexts page.tree plan.source scope.counter plan.data) plan.identifier plan.place
      plan.reference (page.desk scope) desk') :
    base.Growing (plans ++ [plan]) page' := by
  obtain ⟨items, horders, hladen⟩ := h.laden
  obtain ⟨φ, hgained, -, hcounted⟩ := hgains
  have hladen' : Laden base.tree (items ++ [⟨plan, scope.counter, φ⟩]) desk'.stage.tree :=
    hladen.gain hbase.wellFormed hfits huntouched hgained
  have hcounter := h.counter_eq hscope
  have hfeasible : base.feasible (plans ++ [plan]) = base.feasible plans ++ [plan] := by
    rw [feasible_concat, if_pos hcan]
  constructor
  case kept => exact hkept
  case laden =>
    refine ⟨_, ?_, htree ▸ hladen'⟩
    rw [hfeasible, numbered_concat, List.map_append, horders]
    exact congrArg (fun k => _ ++ [(plan, k)]) hcounter
  case scopes =>
    intro m
    rw [hscopes, hfeasible, List.countP_append]
    by_cases hm : m = plan.number
    · subst hm
      obtain ⟨scope₀, hscope₀, hsame⟩ := Option.map_eq_some_iff.1 ((h.scopes _).symm.trans hscope)
      rw [if_pos rfl, hscope₀, hcounted.scope, ← hsame]
      simp [desk, Nat.add_assoc]
    · simp [hm, Ne.symm hm, h.scopes]
  case listeners =>
    obtain ⟨added, hbindings, hnew⟩ := h.listeners
    refine ⟨added ++ deletions page.equipment.config desk'.stage.tree plan.identifier scope.number
      ((page.tree.elementChildren plan.source).map φ), ?_, ?_⟩
    · rw [hlisteners, hcounted.bindings hidentifier, ← List.append_assoc, ← hbindings]
      rfl
    · intro b hb
      rcases List.mem_append.1 hb with hb | hb
      · exact hnew b hb
      obtain ⟨item, hitem, control, hcontrol, rfl⟩ := mem_deletions.1 hb
      obtain ⟨s, hs, rfl⟩ := List.mem_map.1 hitem
      have hsource : s ∈ base.tree.children plan.source := by
        rw [← (huntouched plan.source (.refl _ _)).2]
        exact List.mem_of_mem_filter hs
      have hmem : (⟨plan, scope.counter, φ⟩ : Item) ∈ items ++ [⟨plan, scope.counter, φ⟩] := by simp
      exact hladen'.new_below hbase.wellFormed ((hladen'.made _ hmem s hsource).new s .refl)
        (atOrAbove_of_control? hladen'.wellFormed hcontrol)

/-- An addition that fails. -/
theorem failed (h : base.Growing plans page) (hbase : base.Kept)
    (hcan : canGain base.tree plan.source plan.place = false) {page' : Page σ} {t' : Tree}
    (hscope : page.scopes[n]? = some scope) (hkept : page'.Kept) (htree : page'.tree = t')
    (hlisteners : page'.listeners = page.listeners)
    (hscopes : ∀ m : Nat, page'.scopes[m]? = if m = n then some scope else page.scopes[m]?)
    (hext : page.tree.Extends t') : base.Growing (plans ++ [plan]) page' := by
  obtain ⟨items, horders, hladen⟩ := h.laden
  have hfeasible : base.feasible (plans ++ [plan]) = base.feasible plans := by
    rw [feasible_concat, if_neg (by simp [hcan]), List.append_nil]
  subst htree
  constructor
  case kept => exact hkept
  case laden =>
    exact ⟨items, hfeasible.symm ▸ horders,
      hladen.of_extends hbase.wellFormed hext hkept.wellFormed⟩
  case scopes =>
    intro m
    rw [hscopes, hfeasible, ← h.scopes m]
    split
    · next hm => rw [hm, hscope]
    · rfl
  case listeners =>
    rw [hlisteners]
    exact h.listeners

/-- Each addition appends its plan. -/
theorem carryOut (h : base.Growing plans page) (hbase : base.Kept)
    (hgrounded : base.tree.Grounded) (hunhooked : base.Unhooked) (hplanned : base.Planned deed plan)
    (hclear : ∀ other ∈ plans, ¬ base.tree.AtOrEncloses plan.source other.place) :
    base.Growing (plans ++ [plan]) (deed.carryOut page) := by
  have hfits := hplanned.fits hbase
  obtain ⟨scope, hscope, hnumber, hidentifier, huntouched, hattempted⟩ :=
    h.attempted hbase hgrounded hunhooked hplanned hclear
  obtain ⟨items, -, hladen⟩ := h.laden
  have hcan : canGain page.tree plan.source plan.place =
      canGain base.tree plan.source plan.place := by
    rw [canGain, canGain, hladen.content _ hfits.place,
      huntouched.sequencesReady hbase.wellFormed h.kept.wellFormed hfits.source]
  obtain ⟨htree, hlisteners, hscopes⟩ := Deed.carryOut_shows hscope
    Prod.mk.eta.symm
  have hkept := h.kept.carryOut deed
  rw [← hnumber] at hscope
  change if canGain page.tree plan.source plan.place then _ else _ at hattempted
  rw [hcan] at hattempted
  split at hattempted
  · next hcan =>
    obtain ⟨-, hgains⟩ := hattempted
    exact h.gain hbase hfits hcan huntouched hscope hidentifier hkept htree hlisteners
      (hnumber ▸ hscopes) hgains
  · next hcan =>
    obtain ⟨-, t', hdesk, -, hext⟩ := hattempted
    rw [hdesk] at htree hlisteners hscopes
    exact h.failed hbase (by simpa using hcan) hscope hkept htree hlisteners (hnumber ▸ hscopes)
      hext

/-- A deed that changes nothing but the log. -/
theorem idle (h : base.Growing plans page) (deed : Deed)
    (hscope : page.scopes[deed.number]? = some scope) {e : Error}
    (hrun : exec (deed.flow page.equipment) (page.desk scope) = (.error e, page.desk scope)) :
    base.Growing plans (deed.carryOut page) := by
  obtain ⟨htree, hlisteners, hscopes⟩ := Deed.carryOut_shows hscope hrun
  obtain ⟨items, horders, hladen⟩ := h.laden
  constructor
  case kept => exact h.kept.carryOut deed
  case laden => exact ⟨items, horders, htree ▸ hladen⟩
  case scopes =>
    intro m
    rw [hscopes m, ← h.scopes m]
    split
    · next hm => rw [hm, hscope]; rfl
    · rfl
  case listeners =>
    rw [hlisteners]
    exact h.listeners

/-! ## Clicks -/

/-- The listeners on nodes that were there are what they were. -/
theorem arrivals_eq (h : base.Growing plans page) (hx : base.tree.Has x) (event : Event) :
    page.arrivals event x = base.arrivals event x := by
  obtain ⟨added, hbindings, hnew⟩ := h.listeners
  have hnone : added.filter (fun b => b.target = x && b.kind = event.kind) = [] := by
    refine List.filter_eq_nil_iff.2 fun b hb hmatch => hnew b hb ?_
    simp only [Bool.and_eq_true, decide_eq_true_eq] at hmatch
    exact hmatch.1 ▸ hx
  have hhandlers : (page.listeners.on x event.kind).map (·.handler) =
      (base.listeners.on x event.kind).map (·.handler) := by
    rw [Listeners.map_on, Listeners.map_on, hbindings, List.filter_append, hnone, List.append_nil]
  have hdeeds : ∀ page : Page σ, page.arrivals event x =
      ((page.listeners.on x event.kind).map (·.handler)).map
        (.act { event with current := some x }) := by
    intro page
    rw [List.map_map]
    rfl
  rw [hdeeds, hdeeds, hhandlers]

end Growing

/-- Whether no plan brings in something where another takes its items from. -/
def Clear (t : Tree) (plans : List Plan) : Prop :=
  ∀ plan ∈ plans, ∀ other ∈ plans, ¬ t.AtOrEncloses plan.source other.place

theorem Clear.of_subset {t : Tree} {more : List Plan} (h : Clear t plans) (hsub : more ⊆ plans) :
    Clear t more :=
  fun plan hplan other hother => h plan (hsub hplan) other (hsub hother)

theorem forall₂_append_left {α β : Type} {R : α → β → Prop} {l₁ l₂ : List α} {l : List β}
    (h : List.Forall₂ R (l₁ ++ l₂) l) :
    ∃ m₁ m₂, l = m₁ ++ m₂ ∧ List.Forall₂ R l₁ m₁ ∧ List.Forall₂ R l₂ m₂ :=
  ⟨l.take l₁.length, l.drop l₁.length, (List.take_append_drop _ l).symm,
    (List.forall₂_take_append _ _ _ h.flip).flip, (List.forall₂_drop_append _ _ _ h.flip).flip⟩

namespace Growing

variable {deeds : List Deed} {more : List Plan}

theorem foldl (h : base.Growing plans page) (hbase : base.Kept) (hgrounded : base.tree.Grounded)
    (hunhooked : base.Unhooked) (hplanned : List.Forall₂ base.Planned deeds more)
    (hclear : Clear base.tree (plans ++ more)) :
    base.Growing (plans ++ more) (deeds.foldl Deed.carryOut page) := by
  induction hplanned generalizing plans page with
  | nil => rwa [List.append_nil]
  | @cons deed plan deeds more hplan _ ih =>
    have hone := h.carryOut hbase hgrounded hunhooked hplan fun other hother =>
      hclear plan (by simp) other (by simp [hother])
    rw [← List.singleton_append, ← List.append_assoc] at hclear ⊢
    exact ih hone hclear

/-- What a click does on its way is settled by the listeners that were there. -/
theorem arrive_path (h : base.Growing plans page) (hbase : base.Kept)
    (hgrounded : base.tree.Grounded) (hunhooked : base.Unhooked) (event : Event)
    {path : List NodeId} (hpath : ∀ x ∈ path, base.tree.Has x)
    (hplanned : List.Forall₂ base.Planned (path.flatMap (base.arrivals event)) more)
    (hclear : Clear base.tree (plans ++ more)) :
    base.Growing (plans ++ more) (path.foldl (arrive event) page) := by
  induction path generalizing plans page more with
  | nil =>
    cases hplanned
    rwa [List.append_nil]
  | cons x path ih =>
    rw [List.flatMap_cons] at hplanned
    obtain ⟨here, beyond, rfl, hfirst, hrest⟩ := forall₂_append_left hplanned
    rw [← List.append_assoc] at hclear ⊢
    have hone : base.Growing (plans ++ here) (page.arrive event x) := by
      rw [← foldl_arrivals, h.arrivals_eq (hpath x (by simp)) event]
      exact h.foldl hbase hgrounded hunhooked hfirst
        (hclear.of_subset (List.subset_append_left _ _))
    exact ih hone (fun y hy => hpath y (by simp [hy])) hrest hclear

/-- A click appends the plans for all triggers that it meets. -/
theorem click (h : base.Growing plans page) (hbase : base.Kept) (hgrounded : base.tree.Grounded)
    (hunhooked : base.Unhooked) {target : NodeId} (htarget : base.tree.Has target)
    (hplanned : List.Forall₂ base.Planned ((target :: base.tree.ancestors target).flatMap
      (base.arrivals (Event.click target))) more)
    (hclear : Clear base.tree (plans ++ more)) :
    base.Growing (plans ++ more) (page.click target).1 := by
  obtain ⟨items, -, hladen⟩ := h.laden
  have hhas : ∀ x, base.tree.AtOrAbove x target → base.tree.Has x := by
    intro x hx
    rcases atOrAbove_iff.1 hx with rfl | hx
    · exact htarget
    · exact hbase.wellFormed.has_above hx
  have hpath : page.tree.ancestors target = base.tree.ancestors target :=
    ancestors_congr hbase.wellFormed htarget hladen.size_le fun a ha => hladen.parent a (hhas a ha)
  have hmeets : ∀ x ∈ target :: base.tree.ancestors target, base.tree.Has x := fun x hx =>
    hhas x ((mem_cons_ancestors hbase.wellFormed).1 hx)
  have hrun := h.arrive_path hbase hgrounded hunhooked (Event.click target) hmeets hplanned hclear
  rw [← hpath] at hrun
  exact hrun

end Growing

end Page

end Repeater
