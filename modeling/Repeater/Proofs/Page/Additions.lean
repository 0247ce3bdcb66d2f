/-
  Repeater/Proofs/Page/Additions.lean
  ===================================
  **What an addition brings in.**

  An addition to a scope is a click on its trigger or an addition from data. Either has its plans,
  which are settled before it is made (`InPlay.exists_brought`): an addition from data brings in one
  item at most, while a click climbs and brings in an item for every trigger that it meets. Where
  the page only gets items, an addition appends its plans to those that have been carried out before
  it (`Brought.growing`).
-/
import Repeater.Proofs.Page.Growing

namespace Repeater

open Dom Hook Markup Scope Stamp Tree

variable {σ : Type}

namespace Page

variable {page : Page σ} {n m : Nat} {parts partsA : Parts} {use : Use} {plan other : Plan}
  {plans : List Plan}

/-! ## Additions -/

/-- The elements that the start of a scope has found. -/
def parts? (page : Page σ) (n : Nat) : Option Parts := page.scopes[n]?.bind (·.parts)

/-- A scope that has been started, with its trigger and its container in the document, where no
    control that deletes an item is at or above the trigger. -/
structure InPlay (page : Page σ) (n : Nat) (parts : Parts) : Prop where
  found : page.parts? n = some parts
  trigger : page.tree.isConnected parts.trigger = true
  container : page.tree.isConnected parts.container = true
  free : ∀ l ∈ page.listeners.entries, l.handler.deletes?.isSome →
    page.tree.isInclusiveAncestor l.target parts.trigger = false

instance (page : Page σ) (n : Nat) (parts : Parts) : Decidable (page.InPlay n parts) :=
  decidable_of_iff (_ ∧ _ ∧ _ ∧ _)
    ⟨fun ⟨found, trigger, container, free⟩ => ⟨found, trigger, container, free⟩,
      fun ⟨found, trigger, container, free⟩ => ⟨found, trigger, container, free⟩⟩

/-- Whether a use is an addition to a scope, by a click on its trigger or from data. -/
def AddsTo (use : Use) (n : Nat) (parts : Parts) : Prop :=
  use = .click parts.trigger ∨ ∃ data, use = .addFromData n data

/-- Whether a use clicks on the trigger of a scope or below it. -/
def Clicks (page : Page σ) (use : Use) (n : Nat) : Prop :=
  ∃ target parts, use = .click target ∧ page.parts? n = some parts ∧
    page.tree.AtOrAbove parts.trigger target

/-- Whether a use adds to a scope from data. -/
def Fills (use : Use) (n : Nat) : Prop := ∃ data, use = .addFromData n data

theorem not_clicks_of_fills (hfills : Fills use n) : ¬ page.Clicks use m := by
  rintro ⟨target, parts, huse, -, -⟩
  obtain ⟨data, hdata⟩ := hfills
  cases huse.symm.trans hdata

/-- What is filled from data is the scope that the addition is aimed at. -/
theorem AddsTo.parts_eq {data : List (String × String)} (hadds : AddsTo use m partsA)
    (hplay : page.InPlay m partsA) (huse : use = .addFromData n data)
    (hparts : page.parts? n = some parts) : parts = partsA := by
  rcases hadds with rfl | ⟨data', rfl⟩
  · cases huse
  · cases huse
    exact Option.some.inj (hparts.symm.trans hplay.found)

/-! ## What is planned -/

theorem parts?_of_resolved {scope : Scope σ} {identifier : String}
    (hscope : page.scopes[n]? = some scope) (hresolved : scope.resolved = .ok (parts, identifier)) :
    page.parts? n = some parts := by
  rw [parts?, hscope]
  exact (resolved_eq_ok hresolved).1

theorem Kept.resolved_of_parts? (h : page.Kept) (hparts : page.parts? n = some parts) :
    ∃ scope identifier, page.scopes[n]? = some scope ∧
      scope.resolved = .ok (parts, identifier) := by
  obtain ⟨scope, hscope, hscopeParts⟩ := Option.bind_eq_some_iff.1 hparts
  have hsettled := h.settled n scope hscope
  have hstarted : scope.started = true := by rw [← hsettled.parts, hscopeParts]; rfl
  obtain ⟨parts', identifier, hresolved⟩ := hsettled.resolved hstarted
  obtain rfl : parts = parts' :=
    Option.some.inj (hscopeParts.symm.trans (resolved_eq_ok hresolved).1)
  exact ⟨scope, identifier, hscope, hresolved⟩

/-- What a listener adds to has its trigger where the listener is. -/
theorem Kept.parts?_of_listener (h : page.Kept) {l : Listener Action}
    (hl : l ∈ page.listeners.entries) (hadd : l.handler = .add n) :
    ∃ parts, page.parts? n = some parts ∧ parts.trigger = l.target := by
  obtain ⟨htrigger, -⟩ := h.wired.onTrigger l hl n hadd
  obtain ⟨scope, hscope, hmap⟩ := Option.bind_eq_some_iff.1 htrigger
  obtain ⟨parts, hparts, htarget⟩ := Option.map_eq_some_iff.1 hmap
  exact ⟨parts, by rw [parts?, hscope, Option.bind_some, hparts], htarget⟩

/-- A click that reaches a started scope has a plan. -/
theorem Kept.exists_planned (h : page.Kept) (hstocked : page.Stocked)
    (hparts : page.parts? n = some parts) (event : Event) :
    ∃ plan, page.Planned (.act event (.add n)) plan := by
  obtain ⟨scope, identifier, hscope, hresolved⟩ := h.resolved_of_parts? hparts
  obtain ⟨source, hsource⟩ := hstocked n scope parts hscope (resolved_eq_ok hresolved).1
  exact ⟨_, .click event hscope hresolved hsource⟩

theorem Planned.source {deed : Deed} (h : page.Planned deed plan) :
    ∃ parts, page.parts? plan.number = some parts ∧
      page.tree.contents? parts.template = some plan.source := by
  cases h with
  | click event hscope hresolved hsource =>
    exact ⟨_, parts?_of_resolved hscope hresolved, hsource⟩
  | fill data hscope hresolved hsource hplace =>
    exact ⟨_, parts?_of_resolved hscope hresolved, hsource⟩

theorem Planned.of_click {event : Event} (h : page.Planned (.act event (.add n)) plan) :
    plan.number = n ∧ ∃ parts, page.parts? n = some parts ∧
      plan.spot = (parts.container, none) := by
  cases h with
  | click _ hscope hresolved _ => exact ⟨rfl, _, parts?_of_resolved hscope hresolved, rfl⟩

theorem Planned.of_fill {data : List (String × String)} (h : page.Planned (.fill n data) plan) :
    plan.number = n ∧ ∃ parts place, page.parts? n = some parts ∧
      page.tree.parent? parts.trigger = some place ∧ plan.spot = (place, some parts.trigger) := by
  cases h with
  | fill _ hscope hresolved _ hplace =>
    exact ⟨rfl, _, _, parts?_of_resolved hscope hresolved, hplace, rfl⟩

/-- All clicks that reach a scope have one plan. -/
theorem Planned.click_unique {event event' : Event} {action : Action}
    (h : page.Planned (.act event action) plan) (h' : page.Planned (.act event' action) other) :
    plan = other := by
  cases h with
  | click _ hscope hresolved hsource =>
    cases h' with
    | click _ hscope' hresolved' hsource' =>
      cases hscope.symm.trans hscope'
      cases hresolved.symm.trans hresolved'
      cases hsource.symm.trans hsource'
      rfl

/-! ## What clicks bring in on their way -/

theorem forall₂_exists_left {α β : Type} {R : α → β → Prop} {l : List α} {l' : List β}
    (h : List.Forall₂ R l l') {b : β} (hb : b ∈ l') : ∃ a ∈ l, R a b := by
  induction h with
  | nil => simp at hb
  | cons hR _ ih =>
    rcases List.mem_cons.1 hb with rfl | hb
    · exact ⟨_, by simp, hR⟩
    · obtain ⟨a, ha, hab⟩ := ih hb
      exact ⟨a, by simp [ha], hab⟩

theorem exists_forall₂ {α β : Type} {R : α → β → Prop} {l : List α} (h : ∀ a ∈ l, ∃ b, R a b) :
    ∃ l', List.Forall₂ R l l' := by
  induction l with
  | nil => exact ⟨[], .nil⟩
  | cons a rest ih =>
    obtain ⟨b, hb⟩ := h a (by simp)
    obtain ⟨l', hrest⟩ := ih fun c hc => h c (by simp [hc])
    exact ⟨b :: l', .cons hb hrest⟩

/-- Each of the items comes in for a trigger on the way. -/
theorem Kept.planned_on_way (h : page.Kept) {event : Event} {way : List NodeId}
    (hplanned : List.Forall₂ page.Planned (way.flatMap (page.arrivals event)) plans)
    (hplan : plan ∈ plans) : ∃ event n parts, page.Planned (.act event (.add n)) plan ∧
      page.parts? n = some parts ∧ parts.trigger ∈ way := by
  obtain ⟨deed, hdeed, hone⟩ := forall₂_exists_left hplanned hplan
  obtain ⟨node, hnode, hdeed⟩ := List.mem_flatMap.1 hdeed
  obtain ⟨l, hl, htarget, rfl⟩ := eq_act_of_mem_arrivals hdeed
  rcases hhandler : l.handler with n | ⟨n, item⟩
  · rw [hhandler] at hone
    obtain ⟨parts, hparts, htrigger⟩ := h.parts?_of_listener hl hhandler
    exact ⟨_, n, parts, hone, hparts, htrigger ▸ htarget ▸ hnode⟩
  · rw [hhandler] at hone
    cases hone

/-- What comes in on the way of a click does not depend on where it comes from. -/
theorem plans_unique {event event' : Event} {way : List NodeId} {plans' : List Plan}
    (h : List.Forall₂ page.Planned (way.flatMap (page.arrivals event)) plans)
    (h' : List.Forall₂ page.Planned (way.flatMap (page.arrivals event')) plans')
    (hkind : event.kind = event'.kind) : plans = plans' := by
  have hdeeds : List.Forall₂ (fun deed deed' => ∃ event event' action,
      deed = Deed.act event action ∧ deed' = Deed.act event' action)
      (way.flatMap (page.arrivals event)) (way.flatMap (page.arrivals event')) := by
    refine List.rel_flatMap (List.forall₂_same.2 fun x _ => (rfl : x = x)) ?_
    rintro x _ rfl
    unfold arrivals
    rw [← hkind]
    exact List.forall₂_map_left_iff.2 (List.forall₂_map_right_iff.2
      (List.forall₂_same.2 fun l _ => ⟨_, _, l.handler, rfl, rfl⟩))
  generalize way.flatMap (page.arrivals event) = deeds at h hdeeds
  generalize way.flatMap (page.arrivals event') = deeds' at h' hdeeds
  induction hdeeds generalizing plans plans' with
  | nil =>
    cases h
    cases h'
    rfl
  | cons hsame _ ih =>
    obtain ⟨_, _, _, rfl, rfl⟩ := hsame
    cases h with
    | cons hplan hrest =>
      cases h' with
      | cons hplan' hrest' => rw [hplan.click_unique hplan', ih hrest hrest']

/-! ## What an addition brings in -/

/-- The plans of an addition, in their order. Without a parent of the trigger, an addition from data
    has none. -/
inductive Brought (page : Page σ) : Use → List Plan → Prop where
  | click {target : NodeId} {plans : List Plan} (htarget : page.tree.Has target)
      (hplanned : List.Forall₂ page.Planned ((target :: page.tree.ancestors target).flatMap
        (page.arrivals (Event.click target))) plans) : Brought page (.click target) plans
  | fill {n : Nat} {data : List (String × String)} {plan : Plan}
      (hplanned : page.Planned (.fill n data) plan) : Brought page (.addFromData n data) [plan]
  | stray {n : Nat} {data : List (String × String)} {scope : Scope σ} {parts : Parts}
      {identifier : String} (hscope : page.scopes[n]? = some scope)
      (hresolved : scope.resolved = .ok (parts, identifier))
      (hroot : page.tree.parent? parts.trigger = none) : Brought page (.addFromData n data) []

/-- What is known of one plan of an addition. -/
inductive Brings (page : Page σ) (use : Use) (plan : Plan) : Prop where
  | click (event : Event) (n : Nat) (hclicks : page.Clicks use n)
      (hplanned : page.Planned (.act event (.add n)) plan)
  | fill (n : Nat) (data : List (String × String)) (huse : use = .addFromData n data)
      (hplanned : page.Planned (.fill n data) plan)

theorem Brought.brings (hbrought : page.Brought use plans) (h : page.Kept) (hplan : plan ∈ plans) :
    page.Brings use plan := by
  cases hbrought with
  | @click target _ htarget hplanned =>
    obtain ⟨event, n, parts, hone, hparts, hway⟩ := h.planned_on_way hplanned hplan
    exact .click event n ⟨target, parts, rfl, hparts, (mem_cons_ancestors h.wellFormed).1 hway⟩ hone
  | @fill n data _ hplanned =>
    rw [List.mem_singleton.1 hplan]
    exact .fill n data rfl hplanned
  | stray => simp at hplan

/-- An addition to a scope that is in play has its plans. -/
theorem InPlay.exists_brought (hplay : page.InPlay n parts) (h : page.Kept)
    (hstocked : page.Stocked) (hadds : AddsTo use n parts) : ∃ plans, page.Brought use plans := by
  obtain ⟨scope, identifier, hscope, hresolved⟩ := h.resolved_of_parts? hplay.found
  have hparts := (resolved_eq_ok hresolved).1
  rcases hadds with rfl | ⟨data, rfl⟩
  · have hplanned : ∀ deed ∈ (parts.trigger :: page.tree.ancestors parts.trigger).flatMap
        (page.arrivals (Event.click parts.trigger)), ∃ plan, page.Planned deed plan := by
      intro deed hdeed
      obtain ⟨node, hnode, hdeed⟩ := List.mem_flatMap.1 hdeed
      obtain ⟨l, hl, rfl, rfl⟩ := eq_act_of_mem_arrivals hdeed
      rcases hhandler : l.handler with m | ⟨m, item⟩
      · obtain ⟨parts', hparts', -⟩ := h.parts?_of_listener hl hhandler
        exact h.exists_planned hstocked hparts' _
      · have habove := (isInclusiveAncestor_iff h.wellFormed).2
          ((mem_cons_ancestors h.wellFormed).1 hnode)
        rw [hplay.free l hl (by rw [hhandler]; rfl)] at habove
        cases habove
    obtain ⟨plans, hall⟩ := exists_forall₂ hplanned
    exact ⟨plans, .click ((h.settled n scope hscope).elements parts hparts).2.1 hall⟩
  · obtain ⟨source, hsource⟩ := hstocked n scope parts hscope hparts
    rcases hplace : page.tree.parent? parts.trigger with _ | place
    · exact ⟨[], .stray hscope hresolved hplace⟩
    · exact ⟨_, .fill (.fill data hscope hresolved hsource hplace)⟩

/-- An addition appends its plans. -/
theorem Brought.growing {earlier : List Plan} {now : Page σ} (hbrought : page.Brought use plans)
    (h : page.Kept) (hgrounded : page.tree.Grounded) (hunhooked : page.Unhooked)
    (hgrowing : page.Growing earlier now) (hclear : Clear page.tree (earlier ++ plans)) :
    page.Growing (earlier ++ plans) (use.apply now) := by
  cases hbrought with
  | click htarget hplanned =>
    exact hgrowing.click h hgrounded hunhooked htarget hplanned hclear
  | fill hplanned =>
    exact hgrowing.carryOut h hgrounded hunhooked hplanned fun other hother =>
      hclear _ (by simp) other (by simp [hother])
  | @stray n data scope parts identifier hscope hresolved hroot =>
    rw [List.append_nil]
    obtain ⟨items, -, hladen⟩ := hgrowing.laden
    have hscope' := hgrowing.scopes n
    rw [hscope, Option.map_some] at hscope'
    have helements := (h.settled n scope hscope).elements parts (resolved_eq_ok hresolved).1
    exact hgrowing.idle (.fill n data) hscope' (exec_handleData_parentless (now.desk _)
      (hgrowing.kept.settled n _ hscope').idle hresolved
      ((hladen.parent _ helements.2.1).trans hroot) now.equipment data)

end Page

end Repeater
