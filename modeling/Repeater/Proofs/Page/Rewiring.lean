/-
  Repeater/Proofs/Page/Rewiring.lean
  ==================================
  **Starting a scope again after its page has been used.**

  A start wires the items in the container to the delete controls that it finds in them. What it
  finds first in an item may have changed since the item was wired: an addition may have put another
  item into it, and a deletion may have taken one out of it. In items that are `Undisturbed` nothing
  of the kind happens, and while no scope is started, they stay wired to what a start would find
  (`Faithful`). So starting the scope again leaves their wiring as it is (`start_keeps_wires`).
-/
import Repeater.Proofs.Page.Bystanders
import Repeater.Proofs.Page.Restarts
import Repeater.Proofs.Scope.Rewiring

namespace Repeater

open Dom Hook Markup Scope Stamp Tree

variable {σ : Type}

theorem Deed.Quiet.still {page : Page σ} {deed : Deed} (h : deed.Quiet page)
    (hnot : ∀ m, deed ≠ .restart m) : deed.Still page := by
  match deed with
  | .act _ (.add _) => exact h
  | .act _ (.delete _ _) => exact h
  | .fill _ _ => trivial
  | .restart m => exact absurd rfl (hnot m)

namespace Page

variable {start page page' : Page σ} {m n number : Nat} {scope scope₀ : Scope σ}
  {identifier : String} {parts : Parts} {control inner item p x : NodeId} {deed : Deed}
  {desk' : Desk σ} {event : Event} {mark : Attribute} {struck : List NodeId} {t' : Tree}

/-- What a deed does to the wiring, if it is not a start. -/
theorem Kept.rewired (h : page.Kept) (hnot : ∀ m, deed ≠ .restart m) (hquiet : deed.Quiet page)
    (hitem : ∀ item, deed.deletes? = some item → page.tree.Has item)
    (hscope : page.scopes[deed.number]? = some scope) :
    ∃ items gone, Rewired page.equipment items gone (page.desk scope)
      ((deed.carryOut page).desk scope) := by
  obtain ⟨result, desk', hrun⟩ : ∃ result desk', exec (deed.flow page.equipment)
      (page.desk scope) = (result, desk') := ⟨_, _, rfl⟩
  obtain ⟨htree, hlisteners, -⟩ := Deed.carryOut_shows hscope hrun
  suffices ∃ items gone, Rewired page.equipment items gone (page.desk scope) desk' by
    obtain ⟨items, gone, hrewired⟩ := this
    exact ⟨items, gone, hrewired.congr htree hlisteners⟩
  have hsettled := h.settled _ scope hscope
  have hwf : (page.desk scope).stage.tree.WellFormed := h.wellFormed
  match deed with
  | .act event (.add n) =>
    obtain ⟨items, hrewired⟩ := StillHooks.rewired_handleAdd (page.desk scope) hsettled.idle hwf
      (fun parts hparts => hquiet scope parts hscope hparts)
      (fun parts hparts => (hsettled.elements parts hparts).2.2) hrun
    exact ⟨items, [], hrewired⟩
  | .act event (.delete n item) =>
    obtain ⟨gone, hrewired⟩ := StillHooks.rewired_handleDelete (page.desk scope) hsettled.idle hwf
      (hquiet scope hscope) (hitem item rfl) hrun
    exact ⟨[], gone, hrewired⟩
  | .fill n data =>
    obtain ⟨items, hrewired⟩ := rewired_handleData (page.desk scope) hsettled.idle hwf
      (fun hparts => hsettled.identifier.trans (hsettled.parts.symm.trans hparts)) hrun
    exact ⟨items, [], hrewired⟩
  | .restart m => exact absurd rfl (hnot m)

theorem Kept.has_wired (h : page.Kept) (hwired : page.listeners.Wires number control item) :
    page.tree.Has item := by
  obtain ⟨l, hl, -, hhandler⟩ := Listeners.wires_iff.1 hwired
  exact (h.wired.onItem l hl number item hhandler).2

/-! ## Items that keep what they hold -/

/-- Whether nothing can be put into the item or taken out of it: no scope puts items into it, and no
    other wired item is in it. -/
structure Undisturbed (page : Page σ) (item : NodeId) : Prop where
  places : ∀ scope ∈ page.scopes, ∀ p, scope.PutsInto page.tree p → ¬ page.tree.AtOrAbove item p
  items : ∀ number control inner, page.listeners.Wires number control inner →
    ¬ page.tree.Above item inner

/-- Whether no other scope puts items into the node. -/
def Owns (page : Page σ) (n : Nat) (p : NodeId) : Prop :=
  ∀ (m : Nat) (scope : Scope σ), page.scopes[m]? = some scope → scope.PutsInto page.tree p → m = n

theorem Since.putsInto (h : start.Since page) (hstart : start.Kept)
    (hscope : page.scopes[m]? = some scope) (hp : scope.PutsInto page.tree p) :
    start.tree.Has p ∧ ∃ scope₀ : Scope σ, start.scopes[m]? = some scope₀ ∧
      scope₀.PutsInto start.tree p := by
  obtain ⟨parts, hparts, hplace⟩ := hp
  obtain ⟨scope₀, hscope₀, -, hsame, -⟩ := h.scopes m scope hscope
  have hparts₀ : scope₀.parts = some parts := hsame.symm.trans hparts
  rcases hplace with rfl | hparent
  · exact ⟨(h.has_parts hstart hscope hparts).2.2, scope₀, hscope₀, parts, hparts₀, .inl rfl⟩
  · obtain ⟨hparent₀, hhas⟩ := h.parent_trigger hstart hscope hparts hparent
    exact ⟨hhas, scope₀, hscope₀, parts, hparts₀, .inr hparent₀⟩

theorem Kept.undisturbed_of_new (h : page.Kept) (hnew : ¬ page.tree.Has item) :
    page.Undisturbed item where
  places scope hscope p hplace habove := by
    obtain ⟨m, hm⟩ := Array.mem_iff_getElem?.1 hscope
    obtain ⟨hhas, -⟩ := (Since.refl h).putsInto h hm hplace
    rcases atOrAbove_iff.1 habove with rfl | habove
    · exact hnew hhas
    · exact hnew (h.wellFormed.has_above habove)
  items _ _ _ _ habove := hnew (h.wellFormed.has_above habove)

theorem Since.not_atOrAbove_place (h : start.Since page) (hstart : start.Kept)
    (hitem : start.Undisturbed item) (hscope : page.scopes[m]? = some scope)
    (hp : scope.PutsInto page.tree p) : ¬ page.tree.AtOrAbove item p := by
  obtain ⟨hhas, scope₀, hscope₀, hp₀⟩ := h.putsInto hstart hscope hp
  intro habove
  exact hitem.places scope₀ (Array.mem_of_getElem? hscope₀) p hp₀
    (hstart.wellFormed.atOrAbove_of_old h.steady.parent hhas habove)

/-- Whether no undisturbed item holds the node. -/
def Free (start page : Page σ) (x : NodeId) : Prop :=
  ∀ item, start.Undisturbed item → ¬ page.tree.Above item x

/-- Whether the node is in an undisturbed item. -/
def Sheltered (start page : Page σ) (x : NodeId) : Prop :=
  ∃ item, start.Undisturbed item ∧ page.tree.AtOrAbove item x

/-- An undisturbed item keeps its control as long as only free nodes are struck out. -/
theorem control?_of_lasting (hwf : page.tree.WellFormed)
    (h : page.tree.Lasting mark (fun _ => False) (start.Sheltered page) struck t')
    (hstruck : ∀ x ∈ struck, start.Free page x) (hitem : start.Undisturbed item)
    (hhas : page.tree.Has item) (config : Config) (identifier : String) :
    control? config t' identifier item = control? config page.tree identifier item := by
  refine control?_congr hwf hhas h.size_le (fun x hx => ?_) identifier
  have hx' : page.tree.Has x := by
    rcases atOrAbove_iff.1 hx with rfl | hbelow
    · exact hhas
    · exact hbelow.has_below
  refine ⟨?_, (h.content x hx').resolve_right fun hmarked => hmarked.1⟩
  rw [h.apart x hx' ⟨item, hitem, hx⟩]
  apply List.filter_eq_self.2
  intro y hy
  rw [decide_eq_true_eq]
  exact fun hmem => hstruck y hmem item hitem
    (hx.trans_above (above_of_parent (hwf.parent_of_child hy)))

/-! ## What holds while no scope is started -/

/-- What holds of a page that was `start` right after a start of the scope: wired items are free, and
    the undisturbed items in the container are wired to the controls in them. Where other scopes put
    items into the container as well, this is so for the items that were there from the start. -/
structure Faithful (start : Page σ) (n : Nat) (parts : Parts) (identifier : String)
    (page : Page σ) : Prop where
  since : start.Since page
  scope : (page.scopes[n]?).isSome
  config : page.config = start.config
  free : ∀ number control inner, page.listeners.Wires number control inner → start.Free page inner
  wires : ∀ item, start.Undisturbed item → page.tree.parent? item = some parts.container →
    (start.tree.Has item ∨ start.Owns n parts.container) → ∀ control,
      page.listeners.Wires n control item ↔ page.tree.isElement item = true ∧
        control? start.config page.tree identifier item = some control

/-- Whether a deed is not a start, and can only delete a free node. -/
structure Mild (start page : Page σ) (deed : Deed) : Prop where
  notStart : ∀ m, deed ≠ .restart m
  item : ∀ item, deed.deletes? = some item →
    Shallow start.tree page.tree item ∧ start.Free page item

theorem Free.step (h : start.Free page x) (hwf : page.tree.WellFormed)
    (hsteady : Steady start.tree page.tree page'.tree) (hx : page.tree.Has x) :
    start.Free page' x :=
  fun item hitem habove => h item hitem (hwf.above_of_old hsteady.parent hx habove)

theorem Mild.step (h : start.Mild page deed) (hwf : page.tree.WellFormed)
    (hsteady : Steady start.tree page.tree page'.tree) : start.Mild page' deed where
  notStart := h.notStart
  item item hitem :=
    have ⟨hshallow, hfree⟩ := h.item item hitem
    ⟨hsteady.shallow hshallow, hfree.step hwf hsteady hshallow.1⟩

namespace Faithful

variable (h : start.Faithful n parts identifier page) (hstart : start.Kept)
  (hscope₀ : start.scopes[n]? = some scope₀) (hresolved : scope₀.resolved = .ok (parts, identifier))
  {items gone : List NodeId}
include h hstart

/-- Items that are put in come where no undisturbed item is above them. -/
theorem free_of_rewired (hsteady : Steady start.tree page.tree page'.tree)
    (hscope : page.scopes[m]? = some scope)
    (hrewired : Rewired page.equipment items gone (page.desk scope) (page'.desk scope))
    (hwired : page'.listeners.Wires number control inner) : start.Free page' inner := by
  have hwf := h.since.kept.wellFormed
  rcases (hrewired.wires number control inner).1 hwired with ⟨hold, -⟩ | ⟨-, hmem, -⟩
  · exact (h.free number control inner hold).step hwf hsteady (h.since.kept.has_wired hold)
  · obtain ⟨-, -, p, hplace, hparent⟩ := hrewired.put inner hmem
    obtain ⟨hhas, -⟩ := h.since.putsInto hstart hscope hplace
    intro item hitem habove
    obtain ⟨q, hq, hitemq⟩ := above_iff_parent.1 habove
    obtain rfl := Option.some.inj (hparent.symm.trans hq)
    exact h.since.not_atOrAbove_place hstart hitem hscope hplace
      (hwf.atOrAbove_of_old hsteady.parent (h.since.steady.has hhas) hitemq)

/-- An undisturbed item that stays in the container stays wired to the same control, which is still
    the one in it. -/
theorem wires_of_old (hquiet : deed.Quiet page) (hmild : start.Mild page deed)
    (hscope : page.scopes[deed.number]? = some scope)
    (hrewired : Rewired page.equipment items gone (page.desk scope)
      ((deed.carryOut page).desk scope))
    (hitem : start.Undisturbed item)
    (hwhose : start.tree.Has item ∨ start.Owns n parts.container) (hold : page.tree.Has item)
    (hparent : (deed.carryOut page).tree.parent? item = some parts.container) :
    (deed.carryOut page).listeners.Wires n control item ↔
      (deed.carryOut page).tree.isElement item = true ∧
        control? start.config (deed.carryOut page).tree identifier item = some control := by
  have hkept := h.since.kept
  have hsteady := h.since.steady_carryOut hstart (hquiet.still hmild.notStart)
    fun item hitem => (hmild.item item hitem).1
  have hlasting : Lasting start.startMark (fun _ => False) (start.Sheltered page)
      (deed.struck page) page.tree (deed.carryOut page).tree := by
    obtain ⟨result, desk', hrun⟩ : ∃ result desk', exec (deed.flow page.equipment)
        (page.desk scope) = (result, desk') := ⟨_, _, rfl⟩
    rw [show (deed.carryOut page).tree = _ from
      (Deed.carryOut_shows hscope hrun).1]
    refine (hkept.lasts hmild.notStart hquiet hscope ?_ hrun).tree
    rintro p hplace ⟨other, hother, habove⟩
    exact h.since.not_atOrAbove_place hstart hother hscope hplace habove
  have hfree : ∀ x ∈ deed.struck page, start.Free page x := by
    intro x hx
    exact (hmild.item x (Option.mem_toList.1 (List.mem_of_mem_filter hx))).2
  have hbefore := h.wires item hitem (hsteady.parent item _ hold hparent) hwhose control
  rw [control?_of_lasting hkept.wellFormed hlasting hfree hitem hold, hsteady.isElement item hold,
    ← hbefore]
  have hput : item ∉ items := fun hmem => (hrewired.put item hmem).1 hold
  have hstays : item ∉ gone := by
    intro hmem
    have hnone := hrewired.gone item hmem
    rw [show ((deed.carryOut page).desk scope).stage.tree.parent? item = _ from hparent] at hnone
    cases hnone
  have hwires := hrewired.wires n control item
  simp only [hput, hstays, not_false_eq_true, and_true, false_and, and_false, or_false] at hwires
  exact hwires

include hscope₀ hresolved

/-- A new item in the container has been put there by the scope, which has wired it. -/
theorem wires_of_new (hscope : page.scopes[m]? = some scope)
    (hrewired : Rewired page.equipment items gone (page.desk scope) (page'.desk scope))
    (hnew : ¬ page.tree.Has item) (hparent : page'.tree.parent? item = some parts.container)
    (howns : start.Owns n parts.container) :
    page'.listeners.Wires n control item ↔ page'.tree.isElement item = true ∧
      control? start.config page'.tree identifier item = some control := by
  have hcontainer : page.tree.Has parts.container := by
    have hhas := (hstart.settled n scope₀ hscope₀).elements parts (resolved_eq_ok hresolved).1
    exact h.since.steady.has hhas.2.2
  have hunwired : ¬ page.listeners.Wires n control item :=
    fun hold => hnew (h.since.kept.has_wired hold)
  -- whatever scope has put it in is the scope itself
  have hself : ∀ p, scope.PutsInto page.tree p → page'.tree.parent? item = some p →
      scope.number = n ∧ scope.identifier = some identifier := by
    intro p hplace hp
    obtain rfl := Option.some.inj (hparent.symm.trans hp)
    obtain ⟨-, scope₁, hscope₁, hplace₁⟩ := h.since.putsInto hstart hscope hplace
    obtain rfl := howns m scope₁ hscope₁ hplace₁
    exact ⟨h.since.kept.number _ scope hscope,
      (resolved_eq_ok ((h.since.resolved hscope₀ hscope).trans hresolved)).2⟩
  constructor
  · intro hwired
    rcases (hrewired.wires n control item).1 hwired with ⟨hold, -⟩ |
      ⟨-, hmem, other, hother, hcontrol⟩
    · exact absurd hold hunwired
    obtain ⟨-, he, p, hplace, hp⟩ := hrewired.put item hmem
    obtain ⟨-, hidentifier⟩ := hself p hplace hp
    obtain rfl := Option.some.inj (hidentifier.symm.trans hother)
    rw [← h.config]
    exact ⟨he, hcontrol⟩
  · rintro ⟨he, hcontrol⟩
    have hmem := (hrewired.others _ item hcontainer hparent he).resolve_left hnew
    obtain ⟨-, -, p, hplace, hp⟩ := hrewired.put item hmem
    obtain ⟨hnumber, hidentifier⟩ := hself p hplace hp
    rw [← h.config] at hcontrol
    exact (hrewired.wires n control item).2
      (.inr ⟨hnumber.symm, hmem, identifier, hidentifier, hcontrol⟩)

theorem carryOut (hquiet : deed.Quiet page) (hmild : start.Mild page deed) :
    start.Faithful n parts identifier (deed.carryOut page) := by
  have hstill := hquiet.still hmild.notStart
  have hshallow := fun item hitem => (hmild.item item hitem).1
  have hsince := h.since.carryOut hstart hstill hshallow
  rcases hscope : page.scopes[deed.number]? with _ | scope
  · obtain ⟨line, hline⟩ := Deed.carryOut_of_none hscope
    rw [hline] at hsince ⊢
    exact ⟨hsince, h.scope, h.config, h.free, h.wires⟩
  have hsteady := h.since.steady_carryOut hstart hstill hshallow
  obtain ⟨items, gone, hrewired⟩ := h.since.kept.rewired hmild.notStart hquiet
    (fun item hitem => (hshallow item hitem).1) hscope
  refine ⟨hsince, ?_, (config_withScope ..).trans h.config, fun number control inner =>
    h.free_of_rewired hstart hsteady hscope hrewired, ?_⟩
  · obtain ⟨-, -, hscopes⟩ := Deed.carryOut_shows hscope Prod.mk.eta.symm
    rw [hscopes n]
    split
    · rfl
    · exact h.scope
  · intro item hitem hparent hwhose control
    by_cases hold : page.tree.Has item
    · exact h.wires_of_old hstart hquiet hmild hscope hrewired hitem hwhose hold hparent
    · -- only a place that is the scope's own gets new items
      have howns := hwhose.resolve_left fun hhas => hold (h.since.steady.has hhas)
      exact h.wires_of_new hstart hscope₀ hresolved hscope hrewired hold hparent howns

/-! ## Runs -/

theorem after_deeds {deeds : List Deed} (hquiet : Deed.AllQuiet page deeds)
    (hmild : ∀ deed ∈ deeds, start.Mild page deed) :
    start.Faithful n parts identifier (deeds.foldl Deed.carryOut page) := by
  induction deeds generalizing page with
  | nil => exact h
  | cons deed rest ih =>
    have hone := hmild deed List.mem_cons_self
    have hsteady := h.since.steady_carryOut hstart (hquiet.1.still hone.notStart)
      fun item hitem => (hone.item item hitem).1
    exact ih (h.carryOut hstart hscope₀ hresolved hquiet.1 hone) hquiet.2 fun other hother =>
      (hmild other (List.mem_cons_of_mem _ hother)).step h.since.kept.wellFormed hsteady

theorem after_arrive {node : NodeId} (hquiet : Deed.AllQuiet page (page.arrivals event node)) :
    start.Faithful n parts identifier (page.arrive event node) := by
  rw [← foldl_arrivals]
  -- what the listeners delete was shallow and free when the event arrived
  refine h.after_deeds hstart hscope₀ hresolved hquiet fun deed hdeed => ?_
  obtain ⟨l, hl, -, rfl⟩ := eq_act_of_mem_arrivals hdeed
  refine ⟨fun m => by simp, fun item hitem => ⟨h.since.shallow l hl item hitem, ?_⟩⟩
  cases hhandler : l.handler with
  | add m =>
    rw [hhandler] at hitem
    cases hitem
  | delete m inner =>
    rw [hhandler] at hitem
    cases hitem
    exact h.free m l.target item (Listeners.wires_iff.2 ⟨l, hl, rfl, hhandler⟩)

theorem after_passages {path : List NodeId} (hquiet : Deed.AllQuiet page (page.passages event path)) :
    start.Faithful n parts identifier (path.foldl (arrive event) page) := by
  induction path generalizing page with
  | nil => exact h
  | cons node path ih =>
    rw [Page.passages, Deed.allQuiet_append, foldl_arrivals] at hquiet
    exact ih (h.after_arrive hstart hscope₀ hresolved hquiet.1) hquiet.2

theorem after_use {use : Use} (hnot : ∀ m, use ≠ .start m)
    (hquiet : Deed.AllQuiet page (use.deeds page)) :
    start.Faithful n parts identifier (use.apply page) := by
  cases use with
  | click target => exact h.after_passages hstart hscope₀ hresolved hquiet
  | addFromData m data =>
    exact h.carryOut hstart hscope₀ hresolved hquiet.1
      ⟨fun m => by simp, fun item hitem => by cases hitem⟩
  | start m => exact absurd rfl (hnot m)

theorem after_uses {uses : List Use} (hnot : ∀ m, .start m ∉ uses)
    (hquiet : Deed.AllQuiet page (page.deeds uses)) :
    start.Faithful n parts identifier (uses.foldl Use.apply page) := by
  induction uses generalizing page with
  | nil => exact h
  | cons use uses ih =>
    rw [deeds, Deed.allQuiet_append, foldl_use] at hquiet
    have hone := h.after_use hstart hscope₀ hresolved
      (fun m hm => hnot m (hm ▸ List.mem_cons_self)) hquiet.1
    exact ih hone (fun m hm => hnot m (List.mem_cons_of_mem _ hm)) hquiet.2

end Faithful

/-! ## Starts -/

/-- A start concludes what it has checked, or changes nothing but the log. -/
theorem Kept.start_ends (h : page.Kept) (hscope : page.scopes[n]? = some scope) :
    (∃ identifier parts t₁ desk₁, scope.Checked page.tree identifier parts ∧
      Concluded page.equipment (page.desk scope) identifier parts t₁ desk₁ ∧
      (page.start n).listeners = desk₁.listeners ∧
      (page.start n).scopes[n]? = some desk₁.scope ∧
      ((∀ routine, scope.afterStart = some routine → routine.Still) →
        (page.start n).tree = desk₁.stage.tree)) ∨
    (¬ ∃ identifier parts, scope.Checked page.tree identifier parts) ∧
      (page.start n).listeners = page.listeners ∧
      ∃ e, exec (Scope.start page.equipment) (page.desk scope) = (.error e, page.desk scope) := by
  have hwf : (page.desk scope).stage.tree.WellFormed := h.wellFormed
  obtain ⟨htree, hlisteners, hscopes⟩ :=
    withScope_shows "initialize" Scope.start hscope Prod.mk.eta.symm
  have hscope' := hscopes n
  rw [if_pos rfl] at hscope'
  rcases exec_start_concluded (page.desk scope) hwf page.equipment with
    ⟨identifier, parts, t₁, desk₁, hchecked, hconcluded, hrun⟩ | ⟨hnot, e, hrun⟩
  · rw [hrun] at htree hlisteners hscope'
    obtain ⟨hsame, hsamels⟩ := frame_runAfterStart page.equipment parts
      ((page.desk scope).stage.tree.elementChildren parts.container) desk₁
    refine .inl ⟨identifier, parts, t₁, desk₁, hchecked, hconcluded, hlisteners.trans hsamels,
      hscope'.trans (congrArg some hsame), fun hafter => htree.trans ?_⟩
    have hafter₁ : ∀ routine, desk₁.scope.afterStart = some routine → routine.Within Eq := by
      rw [hconcluded.scope]
      exact hafter
    exact (staged_runAfterStart hafter₁ parts _).tree.symm
  · rw [hrun] at hlisteners
    exact .inr ⟨hnot, hlisteners, e, hrun⟩

theorem Kept.faithful (h : page.Kept) {t₁ : Tree} {desk₁ : Desk σ}
    (hscope : page.scopes[n]? = some scope)
    (hconcluded : Concluded page.equipment (page.desk scope) identifier parts t₁ desk₁)
    (hlisteners : (page.start n).listeners = desk₁.listeners)
    (hscope₁ : (page.start n).scopes[n]? = some desk₁.scope)
    (htree : (page.start n).tree = desk₁.stage.tree) :
    (page.start n).Faithful n parts identifier (page.start n) where
  since := .refl (h.start n)
  scope := Option.isSome_of_eq_some hscope₁
  config := rfl
  free number control inner hwired item hitem := hitem.items number control inner hwired
  wires item _ hparent _ control := by
    have hconfig : (page.start n).config = page.config := config_withScope ..
    have hnumber : (page.desk scope).scope.number = n := h.number n scope hscope
    rw [htree] at hparent ⊢
    rw [hlisteners, hconfig, ← hnumber]
    exact hconcluded.wires_inside h.wellFormed (fun _ => h.has_wired) hparent

/-- The root of a scope, with nodes in it. -/
def rootNode (identifier : String) (nodes : List ParseNode) : ParseNode :=
  .element "div" [⟨"stamper", identifier⟩] [] nodes

def templateNode (identifier : String) (items : List ParseNode) : ParseNode :=
  .element "template" [⟨"s-temp", identifier⟩] items []

def containerNode (identifier : String) (items : List ParseNode) : ParseNode :=
  .element "ul" [⟨"s-crate", identifier⟩] [] items

def itemNode (nodes : List ParseNode) : ParseNode := .element "li" [] [] nodes

def buttonNode (directive identifier : String) : ParseNode :=
  .element "button" [⟨directive, identifier⟩] [] []

/-- A list whose only item holds another list. -/
def nestedMarkup (inner : List ParseNode) : List ParseNode :=
  [rootNode "outer" [templateNode "outer" [],
    containerNode "outer" [itemNode (rootNode "inner" inner :: [buttonNode "s-delete" "outer"])],
    buttonNode "s-cast" "outer"]]

/-- A page, a scope on it, what is done with the page once its scopes have been started, and a control
    and an item. -/
structure Rewiring where
  top : List ParseNode
  number : Nat
  uses : List Use
  control : NodeId
  item : NodeId

/-- In each of these, the control deletes the item either before or after the scope is started again,
    but not both. -/
def rewirings : List Rewiring := [
  -- an item beside the trigger of the inner list goes with the item of the outer list
  ⟨nestedMarkup [templateNode "inner" [itemNode [buttonNode "s-delete" "inner"]],
      containerNode "inner" [], buttonNode "s-cast" "inner"],
    1, [.addFromData 1 [], .click (.slot 13)], .slot 17, .slot 16⟩,
  -- the trigger is in an item, where a new item with a control comes before it
  ⟨[rootNode "list" [templateNode "list" [itemNode [buttonNode "s-delete" "list"]],
      containerNode "list" [itemNode [buttonNode "s-cast" "list", buttonNode "s-delete" "list"]]]],
    0, [.addFromData 0 []], .slot 12, .slot 7⟩,
  -- an item holds another container, which comes before the first one
  ⟨[rootNode "list" [templateNode "list" [itemNode [containerNode "list"
      [itemNode [buttonNode "s-delete" "list"]]]], buttonNode "s-cast" "list",
      containerNode "list" []]],
    0, [.addFromData 0 []], .slot 14, .slot 13⟩,
  -- two scopes have one container, and a click adds an item for each
  ⟨[rootNode "list" [rootNode "list" [templateNode "list" [itemNode [buttonNode "s-delete" "list"]],
      containerNode "list" [], buttonNode "s-cast" "list"]]],
    0, [.click (.slot 8)], .slot 14, .slot 13⟩,
  -- the control of the outer item is in an item of the inner list that is deleted
  ⟨nestedMarkup [templateNode "inner" [], containerNode "inner"
      [itemNode [buttonNode "s-delete" "inner", buttonNode "s-delete" "outer"]],
      buttonNode "s-cast" "inner"],
    0, [.click (.slot 11)], .slot 14, .slot 5⟩]

end Page

end Repeater
