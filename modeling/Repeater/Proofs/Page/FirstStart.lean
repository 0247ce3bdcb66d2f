/-
  Repeater/Proofs/Page/FirstStart.lean
  ====================================
  **What the first start of a scope does to its template.**

  The items that are taken in are stamped with everything in them, and the template of the scope may
  be in one of them. Then its contents are stamped with the counter of that item, and all that is
  added later is a copy of what has been stamped. `first_start_template` says when this happens and
  what is left of the contents.
-/
import Repeater.Proofs.Page.Runs
import Repeater.Proofs.Stamp.Exposure

namespace Repeater

open Dom Hook Scope Stamp Tree

variable {σ : Type}

/-! ## The parts of a scope -/

namespace Scope

variable {t t₁ : Tree} {root f : NodeId} {identifier : String} {parts : Parts}
  {change : Content → Content}

theorem Found.contents (h : Found t root identifier parts) :
    ∃ f, t.contents? parts.template = some f := by
  have hvalid := h.valid
  unfold checkTemplate at hvalid
  split at hvalid
  · cases hvalid
  · next f hf => exact ⟨f, hf⟩

/-- The contents of the template of a scope do not enclose its root. -/
theorem Found.root_outside (h : Found t root identifier parts) (ht : t.WellFormed)
    (hg : t.Grounded) (hf : t.contents? parts.template = some f) : ¬ t.AtOrEncloses f root := by
  intro hroot
  have htemplate := (above_findPart ht h.template).encloses
  exact hg f ((hroot.trans_encloses htemplate).trans (encloses_of_contents hf))

/-- The children of the container are clear of the template, wherever in the scope the two are. -/
theorem Found.clear (h : Found t root identifier parts) (ht : t.WellFormed) (hg : t.Grounded)
    (hf : t.contents? parts.template = some f) :
    Clear t parts.template f (t.elementChildren parts.container) := by
  have hbelow : ∀ item ∈ t.elementChildren parts.container,
      t.parent? item = some parts.container ∧ t.AtOrAbove root item := by
    intro item hitem
    have hparent := ht.parent_of_child (List.mem_of_mem_filter hitem)
    have hcontainer := above_findPart ht h.container
    exact ⟨hparent, (hcontainer.trans (above_of_parent hparent)).atOrAbove⟩
  constructor
  case contents => exact hf
  case has => exact fun item hitem => has_of_parent (hbelow item hitem).1
  case outside =>
    intro item hitem hin
    exact h.root_outside ht hg hf (ht.atOrEncloses_of_detached
      (ht.fragment_parent (ht.contents_fragment hf)) (hbelow item hitem).2 hin)
  case direct =>
    intro item hitem z g hz hg' hin
    -- these contents would enclose the root, and the root encloses them
    have hroot := ht.atOrEncloses_of_detached (ht.fragment_parent (ht.contents_fragment hg'))
      (above_findPart ht h.template).atOrAbove hin
    have hrootz := ((hbelow item hitem).2.trans hz).atOrEncloses
    exact hg root ((hrootz.trans_encloses (encloses_of_contents hg')).trans_atOrEncloses hroot)
  case apart =>
    exact (pairwise_apart_children ht parts.container).sublist List.filter_sublist

theorem recast_marked (equipment : Equipment σ) (h : Recast t f change t₁)
    (hroot : ¬ t.AtOrEncloses f root) : Recast t f change (marked equipment root t₁) := by
  constructor
  · intro y hy
    refine (h.encloses y hy).mono fun a b hab => ?_
    unfold Holds at hab ⊢
    rwa [parent?_marked, contents?_marked]
  · exact fun y hy => (parent?_marked ..).trans (h.parent y hy)
  · exact fun y hy => (children_marked ..).trans (h.children y hy)
  · intro y hy
    rw [content?_marked equipment root t₁, h.content y hy]
    rintro rfl
    exact hroot hy

end Scope

namespace Page

variable {page : Page σ} {n : Nat} {scope : Scope σ}

/-- What the first start leaves of the contents of the template, up to what the hook after the start
    does (`R`). They stay as they were exactly when no child of the container exposes them, or there
    is no token in them to replace. -/
theorem first_start_template {start : Page σ} (hnew : start.New) (hreaches : start.Reaches page)
    (hgrounded : page.tree.Grounded) (hscope : page.scopes[n]? = some scope)
    (hfirst : scope.started = false) {R : Tree → Tree → Prop} [IsPreorder Tree R]
    (hafter : ∀ routine, scope.afterStart = some routine → routine.Within R)
    (hstarts : ((page.start n).scopes[n]?).any (·.started)) :
    ∃ identifier parts f t₁, findParts page.tree scope.root = .ok (identifier, parts) ∧
      page.tree.contents? parts.template = some f ∧ R t₁ (page.start n).tree ∧
      (∀ (k : Nat) (item : NodeId), (page.tree.elementChildren parts.container)[k]? = some item →
        Exposes page.tree item parts.template →
        Recast page.tree f (stampedContent identifier (scope.counter + k)) t₁) ∧
      ((∀ item ∈ page.tree.elementChildren parts.container,
        ¬ Exposes page.tree item parts.template) → Recast page.tree f id t₁) ∧
      (Recast page.tree f id t₁ ↔ ∀ (k : Nat) (item : NodeId),
        (page.tree.elementChildren parts.container)[k]? = some item →
        Exposes page.tree item parts.template → ∀ y, page.tree.AtOrEncloses f y →
        (page.tree.content? y).map (stampedContent identifier (scope.counter + k)) =
          page.tree.content? y) := by
  have hwf : page.tree.WellFormed := (hreaches.kept hnew.kept).wellFormed
  obtain ⟨result, desk', hrun⟩ : ∃ result desk',
      exec (Scope.start page.equipment) (page.desk scope) = (result, desk') := ⟨_, _, rfl⟩
  obtain ⟨htree, -, hscopes⟩ := withScope_shows "initialize" Scope.start hscope hrun
  have houtcome := start_outcome (page.desk scope) hwf page.equipment hafter
  rw [hrun] at houtcome
  rcases houtcome with hsame | ⟨identifier, parts, desk₁, hestablished, hstaged⟩
  · -- a start that has been refused leaves the scope as it was
    have hscope' : (page.start n).scopes[n]? = some scope := by
      refine (hscopes n).trans ?_
      rw [if_pos rfl, show desk' = page.desk scope from hsame]
      rfl
    rw [hscope', Option.any_some, hfirst] at hstarts
    cases hstarts
  have hfound := findParts_eq_ok hestablished.found
  obtain ⟨f, hf⟩ := hfound.contents
  have hclear := hfound.clear hwf hgrounded hf
  have houtside := hfound.root_outside hwf hgrounded hf
  obtain ⟨t₁, hseeded, hmarked⟩ := hestablished.tree
  have hpending : pending page.tree scope parts = page.tree.elementChildren parts.container := by
    unfold pending
    simp [hfirst]
  change Seeded identifier scope.counter page.tree (pending page.tree scope parts) t₁ at hseeded
  rw [hpending] at hseeded
  have hexposed : ∀ (k : Nat) (item : NodeId),
      (page.tree.elementChildren parts.container)[k]? = some item →
      Exposes page.tree item parts.template →
      Recast page.tree f (stampedContent identifier (scope.counter + k)) desk₁.stage.tree := by
    intro k item hitem hexposes
    rw [hmarked]
    exact recast_marked _ (hseeded.exposed hwf hgrounded hclear hitem hexposes) houtside
  have hunexposed : (∀ item ∈ page.tree.elementChildren parts.container,
      ¬ Exposes page.tree item parts.template) → Recast page.tree f id desk₁.stage.tree := by
    intro hnot
    rw [hmarked]
    exact recast_marked _ (hseeded.unexposed hwf hgrounded hclear hnot) houtside
  have hlast : R desk₁.stage.tree (page.start n).tree := by
    rw [show (page.start n).tree = _ from htree]
    exact hstaged.tree
  refine ⟨identifier, parts, f, desk₁.stage.tree, hestablished.found, hf, hlast, hexposed,
    hunexposed, ?_, ?_⟩
  · intro hsame k item hitem hexposes y hy
    rw [← (hexposed k item hitem hexposes).content y hy, hsame.content y hy, Option.map_id]
    rfl
  · intro hfixed
    by_cases hsome : ∃ item ∈ page.tree.elementChildren parts.container,
        Exposes page.tree item parts.template
    · obtain ⟨item, hmem, hexposes⟩ := hsome
      obtain ⟨k, hitem⟩ := List.mem_iff_getElem?.1 hmem
      have hstamped := hexposed k item hitem hexposes
      refine ⟨hstamped.encloses, hstamped.parent, hstamped.children, fun y hy => ?_⟩
      rw [hstamped.content y hy, hfixed k item hitem hexposes y hy, Option.map_id]
      rfl
    · apply hunexposed
      intro item hmem hexposes
      exact hsome ⟨item, hmem, hexposes⟩

/-- A list whose template is in the container. -/
def innerTemplateMarkup : List Markup.ParseNode :=
  [.element "div" [⟨"stamper", "list"⟩] [] [
    .element "ul" [⟨"s-crate", "list"⟩] [] [
      .element "template" [⟨"s-temp", "list"⟩] [numberedItem] []],
    .element "button" [⟨"s-cast", "list"⟩] [] []]]

/-- The template is the first item of its own scope, and its tokens are used up for it: the item
    added next has the number of the template. -/
theorem first_start_template_inner :
    let page := (ofMarkup innerTemplateMarkup).discover.1
    Recast page.tree (.slot 4) (stampedContent "list" 0) (page.start 0).tree ∧
      page.tree.attribute? (.slot 5) "id" = some "item{{index}}" ∧
      (page.start 0).tree.attribute? (.slot 5) "id" = some "item0" ∧
      (((page.start 0).click (.slot 7)).1.tree.elementChildren (.slot 2)).map
        (((page.start 0).click (.slot 7)).1.tree.attribute? · "id") = [none, some "item0"] ∧
      ((page.start 0).scopes[0]?).map (·.counter) = some 1 := by
  intro page
  have hreaches : (ofMarkup innerTemplateMarkup).Reaches page :=
    Reaches.step Relation.ReflTransGen.refl .discover trivial
  have hone : (page.scopes[0]?).any fun scope => ! scope.started && scope.afterStart.isNone &&
      decide (findParts page.tree scope.root = .ok ("list", ⟨.slot 3, .slot 7, .slot 2⟩)) &&
      decide (scope.counter = 0) := by decide +kernel
  obtain ⟨scope, hscope, hfacts⟩ := (Option.any_eq_true _ _).1 hone
  simp only [Bool.and_eq_true, Bool.not_eq_true', decide_eq_true_eq] at hfacts
  obtain ⟨⟨⟨hfirst, hnone⟩, hparts⟩, hcounter⟩ := hfacts
  have hafter : ∀ routine, scope.afterStart = some routine → routine.Within Eq := by
    intro routine hroutine
    simp [hroutine] at hnone
  obtain ⟨identifier, parts, f, t₁, hfound, hf, hlast, hexposed, -, -⟩ :=
    first_start_template (new_ofMarkup _) hreaches (InOrder.grounded (by decide +kernel)) hscope
      hfirst hafter (by decide +kernel)
  rw [hparts, Except.ok.injEq, Prod.mk.injEq] at hfound
  obtain ⟨rfl, rfl⟩ := hfound
  have hcontents : page.tree.contents? (.slot 3) = some (.slot 4) := by decide +kernel
  obtain rfl : NodeId.slot 4 = f := Option.some.inj (hcontents.symm.trans hf)
  have hitem : (page.tree.elementChildren (.slot 2))[0]? = some (.slot 3) := by decide +kernel
  have hwf := (hreaches.kept (new_ofMarkup _).kept).wellFormed
  have hrecast := hexposed 0 (.slot 3) hitem (exposes_self hwf _)
  rw [hcounter, hlast] at hrecast
  refine ⟨hrecast, ?_, ?_, ?_, ?_⟩ <;> decide +kernel

end Page

end Repeater
