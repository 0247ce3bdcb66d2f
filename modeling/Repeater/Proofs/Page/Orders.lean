/-
  Repeater/Proofs/Page/Orders.lean
  ================================
  **Two additions in either order.**

  On a page without hooks, additions to two scopes can be made in either order: the document is
  printed alike and the scopes have counted alike (`additions_commute`). But a click climbs, so it
  may bring in items of more scopes than the one it is aimed at, and then the order can matter
  (`not_additions_commute`): when a scope gets an item from a click of the one and from data of the
  other, when the two clicks reach different scopes with one container, and when an item goes to
  where another is made from.
-/
import Repeater.Proofs.Page.Additions

namespace Repeater

open Dom Hook Markup Scope Stamp Tree

variable {σ : Type}

namespace Page

variable {page : Page σ} {n m a b : Nat} {parts partsA partsB : Parts} {f g : Use}
  {plan other : Plan} {F G : List Plan} {event event' : Event} {source : NodeId}

/-- Whether a use brings in an item of a scope. -/
def Serves (page : Page σ) (use : Use) (n : Nat) : Prop := page.Clicks use n ∨ Fills use n

/-- The contents of the templates from which items of `f` and `g` are made. -/
def Source (page : Page σ) (f g : Use) (source : NodeId) : Prop :=
  ∃ n parts, (page.Serves f n ∨ page.Serves g n) ∧ page.parts? n = some parts ∧
    page.tree.contents? parts.template = some source

/-- Whether additions to the scopes `a` and `b` do not get into each other's way: no scope gets an
    item from a click of the one and from data of the other; where both are clicks that reach scopes
    with one container, they reach the same ones of these; and neither the document nor the
    container of a further scope that gets an item is in the contents of a template from which an
    item is made. -/
structure Apart (page : Page σ) (a b : Nat) (f g : Use) : Prop where
  mixed : ∀ n, ¬ (page.Clicks f n ∧ Fills g n) ∧ ¬ (Fills f n ∧ page.Clicks g n)
  containers : ∀ m n parts parts', page.Clicks f m → page.Clicks g n → m ≠ n → (m, n) ≠ (a, b) →
    page.parts? m = some parts → page.parts? n = some parts' →
      parts.container = parts'.container → page.Clicks f n ∧ page.Clicks g m
  document : ∀ source, page.Source f g source → ¬ page.tree.AtOrEncloses source .document
  sheltered : ∀ source n parts, page.Source f g source → n ≠ a → n ≠ b →
    page.Clicks f n ∨ page.Clicks g n → page.parts? n = some parts →
      ¬ page.tree.AtOrEncloses source parts.container

/-! ## Spots -/

/-- Items of one scope go to one spot, as long as all come from clicks or all from data. -/
theorem Brings.spot_eq (hplan : page.Brings f plan) (hother : page.Brings g other)
    (hmixed : ∀ n, ¬ (page.Clicks f n ∧ Fills g n) ∧ ¬ (Fills f n ∧ page.Clicks g n))
    (hnumber : plan.number = other.number) : plan.spot = other.spot := by
  rcases hplan with ⟨_, n, hclicks, hplanned⟩ | ⟨n, data, huse, hplanned⟩ <;>
    rcases hother with ⟨_, m, hclicks', hplanned'⟩ | ⟨m, data', huse', hplanned'⟩
  · obtain rfl : n = m :=
      hplanned.of_click.1.symm.trans (hnumber.trans hplanned'.of_click.1)
    rw [hplanned.click_unique hplanned']
  · obtain rfl : n = m := hplanned.of_click.1.symm.trans (hnumber.trans hplanned'.of_fill.1)
    exact absurd ⟨hclicks, data', huse'⟩ (hmixed n).1
  · obtain rfl : n = m := hplanned.of_fill.1.symm.trans (hnumber.trans hplanned'.of_click.1)
    exact absurd ⟨⟨data, huse⟩, hclicks'⟩ (hmixed n).2
  · obtain ⟨hn, parts, place, hparts, hplace, hspot⟩ := hplanned.of_fill
    obtain ⟨hm, parts', place', hparts', hplace', hspot'⟩ := hplanned'.of_fill
    obtain rfl : n = m := hn.symm.trans (hnumber.trans hm)
    cases hparts.symm.trans hparts'
    cases hplace.symm.trans hplace'
    rw [hspot, hspot']

theorem click_spot_ne_fill_spot {data : List (String × String)}
    (h : page.Planned (.act event (.add n)) plan) (h' : page.Planned (.fill m data) other) :
    plan.spot ≠ other.spot := by
  obtain ⟨-, _, -, hspot⟩ := h.of_click
  obtain ⟨-, _, _, -, -, hspot'⟩ := h'.of_fill
  rw [hspot, hspot']
  simp

/-- Clicks that bring in items at one spot reach the scopes of both. -/
theorem Apart.clicks_both (hapart : page.Apart a b f g) (hA : page.InPlay a partsA)
    (hB : page.InPlay b partsB) (hcontainers : partsA.container ≠ partsB.container)
    (hm : page.Clicks f m) (hn : page.Clicks g n) (h : page.Planned (.act event (.add m)) plan)
    (h' : page.Planned (.act event' (.add n)) other) (hspot : plan.spot = other.spot) :
    page.Clicks f n ∧ page.Clicks g m := by
  obtain ⟨-, parts, hparts, hplanSpot⟩ := h.of_click
  obtain ⟨-, parts', hparts', hotherSpot⟩ := h'.of_click
  rw [hplanSpot, hotherSpot, Prod.mk.injEq] at hspot
  by_cases hmn : m = n
  · subst hmn
    exact ⟨hm, hn⟩
  refine hapart.containers m n parts parts' hm hn hmn (fun hab => ?_) hparts hparts' hspot.1
  cases hab
  cases hparts.symm.trans hA.found
  cases hparts'.symm.trans hB.found
  exact hcontainers hspot.1

/-- Two clicks bring in the same from where their ways meet, and serve different spots before. -/
theorem Apart.parted_clicks {target target' : NodeId}
    (hapart : page.Apart a b (.click target) (.click target')) (h : page.Kept)
    (hA : page.InPlay a partsA) (hB : page.InPlay b partsB)
    (hcontainers : partsA.container ≠ partsB.container)
    (hF : List.Forall₂ page.Planned ((target :: page.tree.ancestors target).flatMap
      (page.arrivals (Event.click target))) F)
    (hG : List.Forall₂ page.Planned ((target' :: page.tree.ancestors target').flatMap
      (page.arrivals (Event.click target'))) G) :
    Parted F G := by
  have hclicks : ∀ {way : List NodeId} {target n parts},
      way ⊆ target :: page.tree.ancestors target → page.parts? n = some parts →
        parts.trigger ∈ way → page.Clicks (.click target) n :=
    fun hway hparts htrigger =>
      ⟨_, _, rfl, hparts, (mem_cons_ancestors h.wellFormed).1 (hway htrigger)⟩
  have hmissed : ∀ {way : List NodeId} {target n parts}, page.parts? n = some parts →
      parts.trigger ∈ way → (∀ x ∈ way, ¬ page.tree.AtOrAbove x target) →
        ¬ page.Clicks (.click target) n := by
    rintro way target n parts hparts htrigger hway ⟨_, parts', ⟨⟩, hparts', habove⟩
    cases hparts.symm.trans hparts'
    exact hway _ htrigger habove
  obtain ⟨way, way', common, hfork, hfork', hway, hway'⟩ :=
    ancestors_fork h.wellFormed target target'
  have hwhole := hF
  have hwhole' := hG
  rw [hfork, List.flatMap_append] at hF
  rw [hfork', List.flatMap_append] at hG
  obtain ⟨front, rest, rfl, hfront, hrest⟩ := forall₂_append_left hF
  obtain ⟨front', rest', rfl, hfront', hrest'⟩ := forall₂_append_left hG
  obtain rfl := plans_unique hrest hrest' rfl
  refine ⟨front, front', rest, rfl, rfl, fun plan hplan other hother hspot => ?_,
    fun plan hplan other hother hspot => ?_⟩
  · obtain ⟨_, m, parts, hplanned, hparts, htrigger⟩ := h.planned_on_way hfront hplan
    obtain ⟨_, n, parts', hplanned', hparts', htrigger'⟩ := h.planned_on_way hwhole' hother
    exact hmissed hparts htrigger hway (hapart.clicks_both hA hB hcontainers
      (hclicks (by simp [hfork]) hparts htrigger) (hclicks (List.Subset.refl _) hparts' htrigger')
      hplanned hplanned' hspot).2
  · obtain ⟨_, m, parts, hplanned, hparts, htrigger⟩ := h.planned_on_way hwhole hother
    obtain ⟨_, n, parts', hplanned', hparts', htrigger'⟩ := h.planned_on_way hfront' hplan
    exact hmissed hparts' htrigger' hway' (hapart.clicks_both hA hB hcontainers
      (hclicks (List.Subset.refl _) hparts htrigger) (hclicks (by simp [hfork']) hparts' htrigger')
      hplanned hplanned' hspot.symm).1

theorem Apart.parted (hapart : page.Apart a b f g) (h : page.Kept) (hA : page.InPlay a partsA)
    (hB : page.InPlay b partsB) (hcontainers : partsA.container ≠ partsB.container)
    (htriggers : partsA.trigger ≠ partsB.trigger) (hf : AddsTo f a partsA)
    (hg : AddsTo g b partsB) (hF : page.Brought f F) (hG : page.Brought g G) :
    Parted F G := by
  -- unless both are clicks, they serve no common spot
  cases hF with
  | click htarget hplanned =>
    cases hG with
    | click htarget' hplanned' =>
      exact hapart.parted_clicks h hA hB hcontainers hplanned hplanned'
    | fill hfill =>
      refine .of_ne fun plan hplan other hother => ?_
      obtain ⟨_, n, _, hplan, -⟩ := h.planned_on_way hplanned hplan
      exact List.mem_singleton.1 hother ▸ click_spot_ne_fill_spot hplan hfill
    | stray => exact .of_ne (by simp)
  | @fill n data plan hfill =>
    cases hG with
    | click htarget' hplanned' =>
      refine .of_ne fun plan hplan other hother => ?_
      obtain ⟨_, n, _, hother, -⟩ := h.planned_on_way hplanned' hother
      exact List.mem_singleton.1 hplan ▸ (click_spot_ne_fill_spot hother hfill).symm
    | @fill m data' other hfill' =>
      refine .of_ne fun plan hplan other hother hspot => ?_
      rw [List.mem_singleton.1 hplan, List.mem_singleton.1 hother] at hspot
      obtain ⟨-, parts, place, hparts, -, hfillSpot⟩ := hfill.of_fill
      obtain ⟨-, parts', place', hparts', -, hfillSpot'⟩ := hfill'.of_fill
      obtain rfl := hf.parts_eq hA rfl hparts
      obtain rfl := hg.parts_eq hB rfl hparts'
      rw [hfillSpot, hfillSpot', Prod.mk.injEq, Option.some.injEq] at hspot
      exact htriggers hspot.2
    | stray => exact .of_ne (by simp)
  | stray => exact .of_ne (by simp)

theorem not_clicks_and_fills (page : Page σ) (use : Use) (n : Nat) :
    ¬ (page.Clicks use n ∧ Fills use n) ∧ ¬ (Fills use n ∧ page.Clicks use n) :=
  ⟨fun h => not_clicks_of_fills h.2 h.1, fun h => not_clicks_of_fills h.1 h.2⟩

theorem Apart.exchangeable (hapart : page.Apart a b f g) (h : page.Kept)
    (hA : page.InPlay a partsA) (hB : page.InPlay b partsB)
    (hcontainers : partsA.container ≠ partsB.container)
    (htriggers : partsA.trigger ≠ partsB.trigger) (hf : AddsTo f a partsA)
    (hg : AddsTo g b partsB) (hF : page.Brought f F) (hG : page.Brought g G) :
    Exchangeable F G where
  spot_eq plan hplan other hother hnumber := by
    have hmixed' : ∀ n, ¬ (page.Clicks g n ∧ Fills f n) ∧ ¬ (Fills g n ∧ page.Clicks f n) :=
      fun n => ⟨fun hn => (hapart.mixed n).2 hn.symm, fun hn => (hapart.mixed n).1 hn.symm⟩
    rcases List.mem_append.1 hplan with hplan | hplan <;>
      rcases List.mem_append.1 hother with hother | hother
    · exact (hF.brings h hplan).spot_eq (hF.brings h hother) (not_clicks_and_fills page f) hnumber
    · exact (hF.brings h hplan).spot_eq (hG.brings h hother) hapart.mixed hnumber
    · exact (hG.brings h hplan).spot_eq (hF.brings h hother) hmixed' hnumber
    · exact (hG.brings h hplan).spot_eq (hG.brings h hother) (not_clicks_and_fills page g) hnumber
  parted := hapart.parted h hA hB hcontainers htriggers hf hg hF hG

/-! ## Where items are made from -/

theorem Brings.source_serves {use : Use} (hplan : page.Brings use plan) :
    page.Serves use plan.number := by
  rcases hplan with ⟨_, n, hclicks, hplanned⟩ | ⟨n, data, huse, hplanned⟩
  · exact .inl (hplanned.of_click.1 ▸ hclicks)
  · exact .inr (hplanned.of_fill.1 ▸ ⟨data, huse⟩)

theorem source_of_brings (hplan : page.Brings f plan ∨ page.Brings g plan) :
    page.Source f g plan.source := by
  obtain ⟨parts, hparts, hsource⟩ : ∃ parts, page.parts? plan.number = some parts ∧
      page.tree.contents? parts.template = some plan.source := by
    rcases hplan with (⟨_, _, _, hplanned⟩ | ⟨_, _, _, hplanned⟩) |
      (⟨_, _, _, hplanned⟩ | ⟨_, _, _, hplanned⟩) <;> exact hplanned.source
  exact ⟨_, parts, hplan.imp Brings.source_serves Brings.source_serves, hparts, hsource⟩

/-- No item goes to where another is made from. -/
theorem Apart.place_sheltered (hapart : page.Apart a b f g) (h : page.Kept)
    (hA : page.InPlay a partsA) (hB : page.InPlay b partsB) (hf : AddsTo f a partsA)
    (hg : AddsTo g b partsB) (hplan : page.Brings f plan ∨ page.Brings g plan)
    (hsource : page.Source f g source) : ¬ page.tree.AtOrEncloses source plan.place := by
  have hconnected : ∀ {y}, page.tree.isConnected y = true → ¬ page.tree.AtOrEncloses source y := by
    intro y hy henclosed
    have ⟨_, _, _, _, hcontents⟩ := hsource
    exact hapart.document source hsource (h.wellFormed.atOrEncloses_of_detached
      (h.wellFormed.fragment_parent (h.wellFormed.contents_fragment hcontents))
      ((isInclusiveAncestor_iff h.wellFormed).1 hy) henclosed)
  have hclick : ∀ {n event}, page.Clicks f n ∨ page.Clicks g n →
      page.Planned (.act event (.add n)) plan → ¬ page.tree.AtOrEncloses source plan.place := by
    intro n event hclicks hplanned
    obtain ⟨-, parts, hparts, hspot⟩ := hplanned.of_click
    rw [show plan.place = parts.container from congrArg Prod.fst hspot]
    by_cases hna : n = a
    · cases (hna ▸ hparts).symm.trans hA.found
      exact hconnected hA.container
    by_cases hnb : n = b
    · cases (hnb ▸ hparts).symm.trans hB.found
      exact hconnected hB.container
    exact hapart.sheltered source n parts hsource hna hnb hclicks hparts
  have hfill : ∀ {n data}, page.Planned (.fill n data) plan →
      (∀ parts, page.parts? n = some parts → page.tree.isConnected parts.trigger = true) →
        ¬ page.tree.AtOrEncloses source plan.place := by
    intro n data hplanned htrigger henclosed
    obtain ⟨-, parts, place, hparts, hplace, hspot⟩ := hplanned.of_fill
    rw [show plan.place = place from congrArg Prod.fst hspot] at henclosed
    exact hconnected (htrigger parts hparts)
      (henclosed.trans (encloses_of_parent hplace).atOrEncloses)
  rcases hplan with (⟨_, _, hclicks, hplanned⟩ | ⟨_, _, huse, hplanned⟩) |
    (⟨_, _, hclicks, hplanned⟩ | ⟨_, _, huse, hplanned⟩)
  · exact hclick (.inl hclicks) hplanned
  · exact hfill hplanned fun parts hparts => hf.parts_eq hA huse hparts ▸ hA.trigger
  · exact hclick (.inr hclicks) hplanned
  · exact hfill hplanned fun parts hparts => hg.parts_eq hB huse hparts ▸ hB.trigger

theorem Apart.clear (hapart : page.Apart a b f g) (h : page.Kept) (hA : page.InPlay a partsA)
    (hB : page.InPlay b partsB) (hf : AddsTo f a partsA) (hg : AddsTo g b partsB)
    (hF : page.Brought f F) (hG : page.Brought g G) : Clear page.tree (F ++ G) := by
  have hbrings : ∀ plan ∈ F ++ G, page.Brings f plan ∨ page.Brings g plan := fun plan hplan =>
    (List.mem_append.1 hplan).imp (hF.brings h) (hG.brings h)
  exact fun plan hplan other hother =>
    hapart.place_sheltered h hA hB hf hg (hbrings other hother)
      (source_of_brings (hbrings plan hplan))

/-! ## Both orders -/

theorem Growing.both {use use' : Use} (hF : page.Brought use F) (hG : page.Brought use' G)
    (h : page.Kept) (hgrounded : page.tree.Grounded) (hunhooked : page.Unhooked)
    (hclear : Clear page.tree (F ++ G)) : page.Growing (F ++ G) (use'.apply (use.apply page)) :=
  hG.growing h hgrounded hunhooked (hF.growing h hgrounded hunhooked (Growing.refl h)
    (hclear.of_subset (by simp))) hclear

/-- Two additions to different scopes give the same document and the same counters in either
    order, unless they get into each other's way. -/
theorem additions_commute {start page : Page σ} (hnew : start.New) (hreaches : start.Reaches page)
    (hgrounded : page.tree.Grounded) (hunhooked : page.Unhooked) {a b : Nat} {partsA partsB : Parts}
    (hA : page.InPlay a partsA) (hB : page.InPlay b partsB)
    (hcontainers : partsA.container ≠ partsB.container)
    (htriggers : partsA.trigger ≠ partsB.trigger) {f g : Use} (hf : AddsTo f a partsA)
    (hg : AddsTo g b partsB) (hapart : page.Apart a b f g) :
    (∀ style, outer (g.apply (f.apply page)).tree .document style =
      outer (f.apply (g.apply page)).tree .document style) ∧
      (g.apply (f.apply page)).scopes = (f.apply (g.apply page)).scopes := by
  have h := hreaches.kept hnew.kept
  obtain ⟨F, hF⟩ := hA.exists_brought h (hreaches.stocked hnew) hf
  obtain ⟨G, hG⟩ := hB.exists_brought h (hreaches.stocked hnew) hg
  have hclear := hapart.clear h hA hB hf hg hF hG
  have hfirst := Growing.both hF hG h hgrounded hunhooked hclear
  have hsecond := Growing.both hG hF h hgrounded hunhooked (hclear.of_subset (by simp))
  have hfeasible : ∀ F G : List Plan, page.feasible (F ++ G) = page.feasible F ++ page.feasible G :=
    fun _ _ => List.filter_append ..
  constructor
  · intro style
    obtain ⟨items, horders, hladen⟩ := hfirst.laden
    obtain ⟨items', horders', hladen'⟩ := hsecond.laden
    rw [hfeasible] at horders horders'
    have hsame : SameOrders items items' :=
      ((hapart.exchangeable h hA hB hcontainers htriggers hf hg hF hG).filter _).sameOrders
        horders horders'
    have hdocument : page.tree.Has .document := (hreaches.edited hnew).grown.has
      hnew.kept.wellFormed (hnew.document.grown.has wellFormed_empty (by decide))
    exact (hladen.outer_eq hladen' h.wellFormed hgrounded hsame hdocument style).symm
  · refine Array.ext_getElem? fun n => ?_
    rw [hfirst.scopes, hsecond.scopes, hfeasible, hfeasible, List.countP_append,
      List.countP_append, Nat.add_comm (List.countP _ _)]

/-! ## Clicks that climb -/

/-- The markup of a scope. -/
def scopeNode (identifier : String) (item : ParseNode) : ParseNode :=
  .element "div" [⟨"stamper", identifier⟩] [] [
    .element "template" [⟨"s-temp", identifier⟩] [item] [],
    .element "ul" [⟨"s-crate", identifier⟩] [] [],
    .element "button" [⟨"s-cast", identifier⟩] [] []]

/-- The markup of a scope whose trigger is around `inside`. -/
def wrapNode (identifier : String) (item : ParseNode) (inside rest : List ParseNode) : ParseNode :=
  .element "div" [⟨"stamper", identifier⟩] [] (
    .element "template" [⟨"s-temp", identifier⟩] [item] [] ::
    .element "div" [⟨"s-cast", identifier⟩] [] inside :: rest)

/-- A list that counts its items, whose trigger is around another list. -/
def nestedLists : List ParseNode :=
  [wrapNode "b" (.element "li" [⟨"s-sequence", "0"⟩] [] []) [scopeNode "a" (.element "li" [] [] [])]
    [.element "ul" [⟨"s-crate", "b"⟩] [] []]]

/-- A click on the trigger of the inner list and one on the trigger around it. -/
theorem additions_commute_nested :
    let start := ofMarkup nestedLists
    let page := start.startAll
    let f : Use := .click (.slot 11)
    let g : Use := .click (.slot 5)
    start.New ∧ start.Reaches page ∧ page.tree.Grounded ∧ page.Unhooked ∧
      page.InPlay 1 ⟨.slot 7, .slot 11, .slot 10⟩ ∧ page.InPlay 0 ⟨.slot 2, .slot 5, .slot 12⟩ ∧
      page.Clicks f 0 ∧ page.Apart 1 0 f g ∧
      (∀ style, outer (g.apply (f.apply page)).tree .document style =
        outer (f.apply (g.apply page)).tree .document style) ∧
      (f.apply (g.apply page)).scopes.toList.map (·.counter) = [2, 1] := by
  intro start page f g
  have hnew : start.New := new_ofMarkup _
  have hreaches : start.Reaches page := Reaches.step Relation.ReflTransGen.refl .startAll trivial
  have h : page.Kept := hreaches.kept hnew.kept
  have horder : page.tree.InOrder := by decide +kernel
  have hunhooked : page.Unhooked := by decide +kernel
  have hA : page.InPlay 1 ⟨.slot 7, .slot 11, .slot 10⟩ := by decide +kernel
  have hB : page.InPlay 0 ⟨.slot 2, .slot 5, .slot 12⟩ := by decide +kernel
  have hclicks : page.Clicks f 0 :=
    ⟨_, _, rfl, hB.found, (isInclusiveAncestor_iff h.wellFormed).1 (by decide +kernel)⟩
  have hclicks' : page.Clicks g 0 := ⟨_, _, rfl, hB.found, .refl _ _⟩
  have hnumber : ∀ n parts, page.parts? n = some parts → n = 0 ∨ n = 1 := by
    intro n parts hparts
    obtain ⟨scope, hscope, -⟩ := Option.bind_eq_some_iff.1 hparts
    have hlt : n < 2 := by
      have hsize : page.scopes.size = 2 := by decide +kernel
      exact hsize ▸ (Array.getElem?_eq_some_iff.1 hscope).1
    omega
  have hmissed : ∀ n, page.Clicks g n → n = 0 := by
    rintro n ⟨target, parts, huse, hparts, habove⟩
    obtain rfl : NodeId.slot 5 = target := Use.click.inj huse
    refine (hnumber n parts hparts).resolve_right ?_
    rintro rfl
    cases hparts.symm.trans hA.found
    exact absurd ((isInclusiveAncestor_iff h.wellFormed).2 habove) (by decide +kernel)
  have hapart : page.Apart 1 0 f g := by
    constructor
    case mixed =>
      exact fun n => ⟨fun hn => not_clicks_of_fills hn.2 hclicks',
        fun hn => not_clicks_of_fills hn.1 hclicks⟩
    case containers =>
      intro m n parts parts' _ hn hmn hab hparts
      obtain rfl := hmissed n hn
      exact absurd (by rw [(hnumber m parts hparts).resolve_left hmn]) hab
    case document =>
      rintro source ⟨_, _, -, -, hcontents⟩ henclosed
      exact horder.not_encloses_document
        ((encloses_of_contents hcontents).trans_atOrEncloses henclosed)
    case sheltered =>
      exact fun _ n parts _ hna hnb _ hparts _ => (hnumber n parts hparts).elim hnb hna
  obtain ⟨houter, hscopes⟩ := additions_commute hnew hreaches horder.grounded hunhooked hA hB
    (by decide) (by decide) (.inl rfl) (.inl rfl) hapart
  refine ⟨hnew, hreaches, horder.grounded, hunhooked, hA, hB, hclicks, hapart, houter, ?_⟩
  decide +kernel

/-! ## Where the order matters -/

/-- Two additions to a page that has been started and edited. -/
structure Clash where
  top : List ParseNode
  edits : List Dom.Operation
  a : Nat
  partsA : Parts
  f : Use
  b : Nat
  partsB : Parts
  g : Use

namespace Clash

def start (c : Clash) : Page Unit := ofMarkup c.top

def ready (c : Clash) : Page Unit :=
  (.startAll :: c.edits.map .edit : List (Operation Unit)).foldl Operation.apply c.start

/-- Ranks the nodes of the template that has been taken out before the document. -/
def rank : NodeId → Nat
  | .slot i => if i ∈ [2, 3, 4] then i else i + 5
  | .none => 0

end Clash

/-- A click reaches a scope that gets an item from data as well; the clicks reach a third scope that
    puts its items into the container of the first; they reach a third scope whose container has
    been moved to what the first makes its items from; and the document itself has been moved there,
    after the template has been taken out of it. -/
def clashes : List Clash :=
  let item : ParseNode := .element "li" [] [] []
  [⟨nestedLists, [],
    1, ⟨.slot 7, .slot 11, .slot 10⟩, .click (.slot 11),
    0, ⟨.slot 2, .slot 5, .slot 12⟩, .addFromData 0 []⟩,
   ⟨[wrapNode "k" (.element "i" [] [] [])
      [scopeNode "k" (.element "b" [] [] []), scopeNode "b" item] []], [],
    1, ⟨.slot 7, .slot 11, .slot 10⟩, .click (.slot 11),
    2, ⟨.slot 13, .slot 17, .slot 16⟩, .click (.slot 17)⟩,
   ⟨[wrapNode "c" (.element "i" [] [] []) [scopeNode "a" item, scopeNode "b" item]
      [.element "ul" [⟨"s-crate", "c"⟩] [] []]], [.insert (.slot 9) (.slot 18) none],
    1, ⟨.slot 7, .slot 11, .slot 10⟩, .click (.slot 11),
    2, ⟨.slot 13, .slot 17, .slot 16⟩, .click (.slot 17)⟩,
   ⟨[scopeNode "a" item, scopeNode "b" item],
    [.remove (.slot 2), .insert (.slot 4) .document none],
    0, ⟨.slot 2, .slot 6, .slot 5⟩, .click (.slot 6),
    1, ⟨.slot 8, .slot 12, .slot 11⟩, .click (.slot 12)⟩]

/-- Unless the additions stay out of each other's way, the order can matter. -/
theorem not_additions_commute : clashes.Forall fun c =>
    c.start.New ∧ c.start.Reaches c.ready ∧ c.ready.tree.Grounded ∧ c.ready.Unhooked ∧
      c.ready.InPlay c.a c.partsA ∧ c.ready.InPlay c.b c.partsB ∧
      c.partsA.container ≠ c.partsB.container ∧ c.partsA.trigger ≠ c.partsB.trigger ∧
      AddsTo c.f c.a c.partsA ∧ AddsTo c.g c.b c.partsB ∧
      outer (c.g.apply (c.f.apply c.ready)).tree .document .compact ≠
        outer (c.f.apply (c.g.apply c.ready)).tree .document .compact := by
  have hchecked : ∀ c ∈ clashes, c.ready.Unhooked ∧ c.ready.InPlay c.a c.partsA ∧
      c.ready.InPlay c.b c.partsB ∧ c.partsA.container ≠ c.partsB.container ∧
      c.partsA.trigger ≠ c.partsB.trigger ∧ c.f = .click c.partsA.trigger ∧
      (c.g = .click c.partsB.trigger ∨ c.g = .addFromData c.b []) ∧
      outer (c.g.apply (c.f.apply c.ready)).tree .document .compact ≠
        outer (c.f.apply (c.g.apply c.ready)).tree .document .compact := by
    decide +kernel
  have hgrounded : clashes.Forall (·.ready.tree.Grounded) := by
    refine ⟨InOrder.grounded ?_, InOrder.grounded ?_, InOrder.grounded ?_,
      grounded_of_rank Clash.rank ?_⟩
    all_goals decide +kernel
  refine List.forall_iff_forall_mem.2 fun c hc => ?_
  obtain ⟨hunhooked, hA, hB, hcontainers, htriggers, hf, hg, hdiffer⟩ := hchecked c hc
  have htame : ∀ operation ∈ (.startAll :: c.edits.map .edit : List (Operation Unit)),
      operation.Tame := by
    simp only [List.forall_mem_cons, List.forall_mem_map]
    exact ⟨trivial, fun _ _ => trivial⟩
  exact ⟨new_ofMarkup _, Reaches.foldl Relation.ReflTransGen.refl htame,
    List.forall_iff_forall_mem.1 hgrounded c hc, hunhooked, hA, hB, hcontainers, htriggers,
    .inl hf, hg.imp id fun h => ⟨_, h⟩, hdiffer⟩

end Page

end Repeater
