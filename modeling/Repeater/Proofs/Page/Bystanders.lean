/-
  Repeater/Proofs/Page/Bystanders.lean
  ====================================
  **What using a page leaves alone.**

  On a page whose scopes have all been started, a run of clicks, additions from data and new starts
  works on copies. No node that was there before is reworded, but for the mark on the roots of the
  scopes; nodes that were there before lose their place only by a deletion, and next to them come
  new nodes only (`lasting_of_uses`).

  New nodes go below containers and next to triggers. The contents of a template hold neither as
  long as they hold neither the document nor the root of a scope: a start only finds what is below
  its root. Such contents are `Withdrawn`, and stay as they are but for items that are deleted from
  them. Contents that hold a root may be given items like any other part of the document, once the
  scope has been started anew (`not_shape_stranded`).
-/
import Repeater.Proofs.Page.Ledger
import Repeater.Proofs.Scope.Lasting

namespace Repeater

open Dom Hook Markup Scope Stamp Tree

variable {σ : Type}

/-! ## Hooks that leave the tree alone -/

namespace Deed

/-- The hooks that may run leave the tree alone. -/
def Quiet (page : Page σ) : Deed → Prop
  | act _ (.add n) => ∀ (scope : Scope σ) (parts : Parts), page.scopes[n]? = some scope →
      scope.parts = some parts → StillHooks page.equipment scope page.tree parts.trigger
  | act event (.delete n _) => ∀ scope : Scope σ, page.scopes[n]? = some scope →
      StillHooks page.equipment scope page.tree (event.current.getD event.target)
  | fill _ _ => True
  | restart n => ∀ (scope : Scope σ) (routine : Routine σ), page.scopes[n]? = some scope →
      scope.afterStart = some routine → routine.Still

/-- Whether each of the deeds is quiet on the page on which it is carried out. -/
def AllQuiet : Page σ → List Deed → Prop
  | _, [] => True
  | page, deed :: rest => deed.Quiet page ∧ AllQuiet (deed.carryOut page) rest

/-- Whether a deed has no hooks to run. -/
def hookless (page : Page σ) (deed : Deed) : Bool :=
  page.scopes[deed.number]?.all fun scope =>
    match deed with
    | act _ (.add _) => scope.parts.all fun parts => Scope.unhooked scope page.tree parts.trigger
    | act event (.delete _ _) =>
      Scope.unhooked scope page.tree (event.current.getD event.target)
    | fill _ _ => true
    | restart _ => scope.afterStart.isNone

def allHookless : Page σ → List Deed → Bool
  | _, [] => true
  | page, deed :: rest => deed.hookless page && allHookless (deed.carryOut page) rest

theorem quiet_of_hookless {page : Page σ} {deed : Deed} (h : deed.hookless page = true) :
    deed.Quiet page := by
  have hall : ∀ scope, page.scopes[deed.number]? = some scope → _ :=
    fun scope hscope => Option.all_eq_true _ _ |>.1 h scope hscope
  match deed with
  | act event (.add n) =>
    intro scope parts hscope hparts
    have hone := hall scope hscope
    dsimp only at hone
    rw [hparts] at hone
    exact .of_unhooked hone
  | act event (.delete n item) => exact fun scope hscope => .of_unhooked (hall scope hscope)
  | fill n data => trivial
  | restart n =>
    intro scope routine hscope hroutine
    have hone := hall scope hscope
    dsimp only at hone
    rw [hroutine] at hone
    cases hone

theorem allQuiet_append (page : Page σ) (deeds rest : List Deed) : AllQuiet page (deeds ++ rest) ↔
    AllQuiet page deeds ∧ AllQuiet (deeds.foldl carryOut page) rest := by
  induction deeds generalizing page with
  | nil => simp [AllQuiet]
  | cons deed deeds ih => simp only [List.cons_append, AllQuiet, List.foldl_cons, ih, and_assoc]

theorem allQuiet_of_allHookless {page : Page σ} {deeds : List Deed}
    (h : allHookless page deeds = true) : AllQuiet page deeds := by
  induction deeds generalizing page with
  | nil => trivial
  | cons deed rest ih =>
    rw [allHookless, Bool.and_eq_true] at h
    exact ⟨quiet_of_hookless h.1, ih h.2⟩

end Deed

namespace Page

variable {start page : Page σ} {n : Nat} {scope : Scope σ} {desk' : Desk σ} {deed : Deed}
  {struck : List NodeId} {x p f : NodeId}

/-- What is not a start lets the nodes last. Among the children of what lies apart of the places where
    the scope puts items, nothing new comes. -/
theorem Kept.lasts (h : page.Kept) (hstart : ∀ m, deed ≠ .restart m) (hquiet : deed.Quiet page)
    (hscope : page.scopes[deed.number]? = some scope) {mark : Attribute}
    {roots apart : NodeId → Prop} (hplaces : ∀ p, scope.PutsInto page.tree p → ¬ apart p)
    {result : Except Error Unit}
    (hrun : exec (deed.flow page.equipment) (page.desk scope) = (result, desk')) :
    Lasts mark roots apart (deed.struck page) (page.desk scope) desk' := by
  have hsettled := h.settled _ scope hscope
  have hwf : (page.desk scope).stage.tree.WellFormed := h.wellFormed
  match deed with
  | .act event (.add n) =>
    rw [struck_of_none rfl]
    exact StillHooks.lasts_handleAdd (page.desk scope) hsettled.idle hwf
      (fun parts hparts => hquiet scope parts hscope hparts)
      (fun parts hparts => ⟨(hsettled.elements parts hparts).2.2,
        hplaces _ ⟨parts, hparts, .inl rfl⟩⟩) hrun
  | .act event (.delete n item) =>
    have hlasts : Lasts mark roots apart _ (page.desk scope) desk' :=
      StillHooks.lasts_handleDelete (page.desk scope) hsettled.idle hwf (hquiet scope hscope) hrun
    have htree := (withScope_shows (Deed.act event (.delete n item)).operation
      (Deed.act event (.delete n item)).flow hscope hrun).1
    rw [← htree] at hlasts
    exact hlasts
  | .fill n data =>
    rw [struck_of_none rfl]
    exact lasts_handleData (page.desk scope) hsettled.idle hwf
      (fun parts p hparts hp => hplaces p ⟨parts, hparts, .inr hp⟩) hrun
  | .restart n => exact absurd rfl (hstart n)

/-! ## Contents that are out of reach -/

/-- Whether all scopes have been started and have their triggers and containers in the document. -/
def Ready (page : Page σ) : Prop := ∀ scope ∈ page.scopes, scope.started = true ∧
  ∀ parts ∈ scope.parts, page.tree.isConnected parts.trigger = true ∧
    page.tree.isConnected parts.container = true

instance (page : Page σ) : Decidable page.Ready :=
  inferInstanceAs (Decidable (∀ scope ∈ page.scopes, _ ∧ _))

/-- Whether the node is the root of a scope. -/
def IsRoot (page : Page σ) (x : NodeId) : Prop := ∃ scope ∈ page.scopes, scope.root = x

/-- What a start puts on the root of its scope. -/
def startMark (page : Page σ) : Attribute := ⟨Directive.started.name, page.config.startedValue⟩

/-- A node without a parent that holds neither the document nor the root of a scope. -/
structure Withdrawn (page : Page σ) (f : NodeId) : Prop where
  has : page.tree.Has f
  parent : page.tree.parent? f = none
  document : ¬ page.tree.AtOrEncloses f .document
  roots : ∀ root, page.IsRoot root → ¬ page.tree.AtOrEncloses f root

/-- Whether a node is withdrawn or held by one that is. -/
def Secluded (page : Page σ) (x : NodeId) : Prop :=
  ∃ f, page.Withdrawn f ∧ page.tree.AtOrEncloses f x

namespace Secluded

theorem has (h : page.Secluded x) (hwf : page.tree.WellFormed) : page.tree.Has x := by
  obtain ⟨f, hf, hfx⟩ := h
  exact hwf.has_atOrEnclosed hfx hf.has

theorem not_root (h : page.Secluded x) : ¬ page.IsRoot x := by
  obtain ⟨f, hf, hfx⟩ := h
  exact fun hx => hf.roots x hx hfx

theorem up (h : page.Secluded x) (hwf : page.tree.WellFormed) (hp : page.tree.parent? x = some p) :
    page.Secluded p := by
  obtain ⟨f, hf, hfx⟩ := h
  rcases atOrEncloses_iff.1 hfx with rfl | hfx
  · simp [hf.parent] at hp
  · exact ⟨f, hf, hwf.atOrEncloses_parent hfx hp⟩

theorem down (h : page.Secluded p) (hwf : page.tree.WellFormed) (hx : x ∈ page.tree.children p) :
    page.Secluded x := by
  obtain ⟨f, hf, hfp⟩ := h
  exact ⟨f, hf, hfp.trans (encloses_of_parent (hwf.parent_of_child hx)).atOrEncloses⟩

/-- What is in the document is not secluded. -/
theorem not_connected (h : page.Secluded x) (hwf : page.tree.WellFormed) :
    page.tree.isConnected x ≠ true := by
  obtain ⟨f, hf, hfx⟩ := h
  intro hconnected
  exact hf.document (hwf.atOrEncloses_of_detached hf.parent
    ((isInclusiveAncestor_iff hwf).1 hconnected) hfx)

end Secluded

/-! ## What holds from some point on -/

/-- What holds of a page that was `start` when its scopes were ready, after `struck` has been taken
    out: all nodes have lasted, and no scope works on secluded nodes. -/
structure Outlasts (start page : Page σ) (struck : List NodeId) : Prop where
  kept : page.Kept
  config : page.config = start.config
  lasting : Lasting start.startMark start.IsRoot start.Secluded struck start.tree page.tree
  scopes : ∀ scope ∈ page.scopes, scope.started = true ∧ start.IsRoot scope.root
  parts : ∀ scope ∈ page.scopes, ∀ parts, scope.parts = some parts →
    ¬ start.Secluded parts.trigger ∧ ¬ start.Secluded parts.container

theorem Ready.outlasts (h : start.Ready) (hkept : start.Kept) : start.Outlasts start [] where
  kept := hkept
  config := rfl
  lasting := .refl hkept.wellFormed
  scopes scope hscope := ⟨(h scope hscope).1, scope, hscope, rfl⟩
  parts scope hscope parts hparts := by
    obtain ⟨htrigger, hcontainer⟩ := (h scope hscope).2 parts hparts
    exact ⟨fun hsecluded => hsecluded.not_connected hkept.wellFormed htrigger,
      fun hsecluded => hsecluded.not_connected hkept.wellFormed hcontainer⟩

namespace Outlasts

/-- What is found below the root of a scope is not secluded. -/
theorem not_secluded_found (h : start.Outlasts page struck) (hstart : start.tree.WellFormed)
    {root : NodeId} (hroot : start.IsRoot root) {part : NodeId} {identifier : String}
    {directive : Directive} (hfound : findPart page.tree root identifier directive = .ok part) :
    ¬ start.Secluded part := by
  intro hpart
  have habove := (above_findPart h.kept.wellFormed hfound).atOrAbove
  have hsecluded : start.Secluded root := h.lasting.apart_of_above (fun x hx => hx.has hstart)
    (fun x p hx hp => hx.up hstart hp) habove hpart
  exact hsecluded.not_root hroot

/-- A node with a child that is not secluded is not secluded. -/
theorem not_secluded_parent (h : start.Outlasts page struck) (hstart : start.tree.WellFormed)
    (hx : ¬ start.Secluded x) (hp : page.tree.parent? x = some p) : ¬ start.Secluded p := by
  intro hsecluded
  apply hx
  have hkids := h.lasting.apart p (hsecluded.has hstart) hsecluded
  have hchild := h.kept.wellFormed.child_of_parent hp
  rw [hkids] at hchild
  exact hsecluded.down hstart (List.mem_of_mem_filter hchild)

/-- Whatever is carried out on such a page lets the nodes last. -/
theorem lasts (h : start.Outlasts page struck) (hstart : start.tree.WellFormed)
    (hquiet : deed.Quiet page) (hscope : page.scopes[deed.number]? = some scope)
    {result : Except Error Unit}
    (hrun : exec (deed.flow page.equipment) (page.desk scope) = (result, desk')) :
    Lasts start.startMark start.IsRoot start.Secluded (deed.struck page) (page.desk scope) desk' := by
  have hmem : scope ∈ page.scopes := Array.mem_of_getElem? hscope
  by_cases hrestart : ∀ m, deed ≠ .restart m
  · refine h.kept.lasts hrestart hquiet hscope ?_ hrun
    rintro p ⟨parts, hparts, rfl | hp⟩
    · exact (h.parts scope hmem parts hparts).2
    · exact h.not_secluded_parent hstart (h.parts scope hmem parts hparts).1 hp
  · obtain ⟨m, rfl⟩ := by simpa using hrestart
    rw [struck_of_none rfl]
    have hmark : start.startMark =
        ⟨Directive.started.name, page.equipment.config.startedValue⟩ :=
      congrArg (fun config : Config => (⟨_, config.startedValue⟩ : Attribute)) h.config.symm
    rw [hmark]
    exact lasts_restart (page.desk scope) h.kept.wellFormed (h.scopes scope hmem).1 (h.scopes scope hmem).2
      (fun routine hroutine => hquiet scope routine hscope hroutine) hrun

theorem carryOut (h : start.Outlasts page struck) (hstart : start.tree.WellFormed)
    (hquiet : deed.Quiet page) :
    start.Outlasts (deed.carryOut page) (struck ++ deed.struck page) := by
  rcases hscope : page.scopes[deed.number]? with _ | scope
  · obtain ⟨line, hline⟩ := Deed.carryOut_of_none hscope
    rw [struck_of_same (by rw [hline]; rfl), List.append_nil, hline]
    exact ⟨h.kept.log line, h.config, h.lasting, h.scopes, h.parts⟩
  obtain ⟨result, desk', hrun⟩ : ∃ result desk', exec (deed.flow page.equipment)
      (page.desk scope) = (result, desk') := ⟨_, _, rfl⟩
  obtain ⟨htree, -, hscopes⟩ := Deed.carryOut_shows hscope hrun
  have hlasts := h.lasts hstart hquiet hscope hrun
  have hmem : scope ∈ page.scopes := Array.mem_of_getElem? hscope
  have hroot := (h.scopes scope hmem).2
  -- only the scope of the deed has changed
  have hcases : ∀ scope' ∈ (deed.carryOut page).scopes,
      scope' = desk'.scope ∨ scope' ∈ page.scopes := by
    intro scope' hscope'
    obtain ⟨m, hm⟩ := Array.mem_iff_getElem?.1 hscope'
    rw [hscopes m] at hm
    split at hm
    · exact .inl (Option.some.inj hm).symm
    · exact .inr (Array.mem_of_getElem? hm)
  constructor
  case kept => exact h.kept.carryOut deed
  case config => exact (config_withScope ..).trans h.config
  case lasting =>
    rw [htree]
    exact h.lasting.trans hlasts.tree
  case scopes =>
    intro scope' hscope'
    rcases hcases scope' hscope' with rfl | hold
    · exact ⟨hlasts.started (h.scopes scope hmem).1, hlasts.root ▸ hroot⟩
    · exact h.scopes scope' hold
  case parts =>
    intro scope' hscope' parts hparts
    rcases hcases scope' hscope' with rfl | hold
    swap
    · exact h.parts scope' hold parts hparts
    rcases hlasts.parts with hsame | ⟨identifier, found, hfound, hfresh⟩
    · exact h.parts scope hmem parts (hsame.symm.trans hparts)
    · rw [hfresh, Option.some.injEq] at hparts
      subst hparts
      have hparts := findParts_eq_ok hfound
      exact ⟨h.not_secluded_found hstart hroot hparts.trigger,
        h.not_secluded_found hstart hroot hparts.container⟩

theorem carryAll (h : start.Outlasts page struck) (hstart : start.tree.WellFormed)
    {deeds : List Deed} (hquiet : Deed.AllQuiet page deeds) :
    start.Outlasts (deeds.foldl Deed.carryOut page) (struck ++ page.struck deeds) := by
  induction deeds generalizing page struck with
  | nil => simpa [Page.struck] using h
  | cons deed rest ih =>
    rw [Page.struck, ← List.append_assoc]
    exact ih (h.carryOut hstart hquiet.1) hquiet.2

end Outlasts

/-- Whatever is done with a page whose scopes have been started, as long as the hooks leave the tree
    alone: all nodes last, but for the items that deletions strike out and the mark on the roots of
    the scopes. A template keeps its contents. What these hold, if they hold neither the document
    nor the root of a scope, stays as it is but for items that are struck out, and entirely if none
    of these is in it. -/
theorem lasting_of_uses (hnew : start.New) (hreaches : start.Reaches page) (hready : page.Ready)
    {uses : List Use} (hquiet : Deed.AllQuiet page (page.deeds uses)) :
    let struck := page.struck (page.deeds uses)
    let page' := uses.foldl Use.apply page
    page.tree.Lasting page.startMark page.IsRoot page.Secluded struck page'.tree ∧
      ∀ x f, page.tree.contents? x = some f → page'.tree.contents? x = some f ∧
        (¬ page.tree.AtOrEncloses f .document →
          (∀ root, page.IsRoot root → ¬ page.tree.AtOrEncloses f root) →
          (∀ y, page.tree.AtOrEncloses f y → page'.tree.content? y = page.tree.content? y ∧
            page'.tree.children y = (page.tree.children y).filter (· ∉ struck)) ∧
          ((∀ item ∈ struck, ¬ page.tree.AtOrEncloses f item) →
            (∀ y, page.tree.AtOrEncloses f y → page'.tree.get? y = page.tree.get? y) ∧
              page'.tree.shape f = page.tree.shape f)) := by
  intro struck page'
  have hkept := hreaches.kept hnew.kept
  have hwf := hkept.wellFormed
  have houtlasts := (hready.outlasts hkept).carryAll hwf hquiet
  rw [foldl_deeds, List.nil_append] at houtlasts
  have hlasting := houtlasts.lasting
  refine ⟨hlasting, fun x f hf => ⟨(hlasting.contents (has_of_contents hf)).trans hf, ?_⟩⟩
  intro hdocument hroots
  have hsecluded : ∀ y, page.tree.AtOrEncloses f y → page.Secluded y := fun y hy =>
    ⟨f, ⟨hwf.has_contents hf, hwf.fragment_parent (hwf.contents_fragment hf), hdocument, hroots⟩, hy⟩
  have hhas : ∀ y, page.tree.AtOrEncloses f y → page.tree.Has y :=
    fun y hy => (hsecluded y hy).has hwf
  have hunmarked : ∀ y, page.tree.AtOrEncloses f y → ¬ page.IsRoot y :=
    fun y hy => (hsecluded y hy).not_root
  refine ⟨fun y hy => ⟨?_, hlasting.apart y (hhas y hy) (hsecluded y hy)⟩, fun hstruck => ?_⟩
  · exact (hlasting.content y (hhas y hy)).resolve_right fun hmarked => hunmarked y hy hmarked.1
  · have hclosed := hwf.closed_atOrEncloses f
    have hsame := hlasting.region hclosed hhas hsecluded hunmarked hstruck
    refine ⟨hsame, shape_congr hclosed ?_ ?_ (.refl _ f)⟩
    · intro y hy
      unfold Tree.children
      rw [hsame y hy]
    · intro y hy
      unfold Tree.content?
      rw [hsame y hy]

/-- A run of all kinds of uses puts an item into the container; the template shows in the end what it
    has shown. -/
theorem lasting_of_uses_list :
    let page := (ofMarkup (listMarkup [deletableItem] [])).startAll
    let uses := [.addFromData 0 [], .click (.slot 8), .click (.slot 17), .click (.slot 8), .start 0]
    let page' := uses.foldl Use.apply page
    page'.tree.elementChildren (.slot 7) = [.slot 20] ∧
      page.tree.Lasting page.startMark page.IsRoot page.Secluded [.slot 15] page'.tree ∧
      page'.tree.shape (.slot 3) = page.tree.shape (.slot 3) := by
  intro page uses page'
  have hreaches : (ofMarkup (listMarkup [deletableItem] [])).Reaches page :=
    Reaches.step Relation.ReflTransGen.refl .startAll trivial
  have hready : page.Ready := by decide +kernel
  have hquiet : Deed.AllQuiet page (page.deeds uses) :=
    Deed.allQuiet_of_allHookless (by decide +kernel)
  have hstruck : page.struck (page.deeds uses) = [.slot 15] := by decide +kernel
  obtain ⟨hlasting, htemplates⟩ := lasting_of_uses (new_ofMarkup _) hreaches hready hquiet
  rw [hstruck] at hlasting htemplates
  refine ⟨by decide +kernel, hlasting, ?_⟩
  -- nodes that have not been moved hold only what was made after them
  have horder : page.tree.InOrder := by decide +kernel
  have hprecedes : ∀ x, page.tree.AtOrEncloses (.slot 3) x → x = .slot 3 ∨
      NodeId.Precedes (.slot 3) x := fun x hx =>
    (atOrEncloses_iff.1 hx).imp Eq.symm horder.precedes
  refine ((htemplates (.slot 2) (.slot 3) (by decide +kernel)).2 ?_ ?_).2 ?_ |>.2
  · exact fun hdocument => absurd (hprecedes _ hdocument) (by decide)
  · intro root hroot hencloses
    have hone : ∀ scope ∈ page.scopes, scope.root = .slot 1 := by decide +kernel
    obtain ⟨scope, hscope, rfl⟩ := hroot
    rw [hone scope hscope] at hencloses
    exact absurd (hprecedes _ hencloses) (by decide)
  · intro item hitem hencloses
    rw [List.mem_singleton] at hitem
    subst hitem
    have hgone : ¬ page.tree.Has (.slot 15) := by decide +kernel
    rcases atOrEncloses_iff.1 hencloses with hsame | hencloses
    · cases hsame
    · exact hgone ((hreaches.kept (new_ofMarkup _).kept).wellFormed.has_enclosed hencloses)

/-! ## Contents that hold a root -/

/-- A list with two containers and two triggers, beside a template without contents. -/
def spareMarkup : List ParseNode :=
  [.element "div" [⟨"stamper", "list"⟩] [] [
    .element "template" [⟨"s-temp", "list"⟩] [.element "li" [] [] []] [],
    .element "ul" [⟨"s-crate", "list"⟩] [] [
      .element "li" [] [] [.element "button" [⟨"s-delete", "list"⟩] [] []]],
    .element "button" [⟨"s-cast", "list"⟩] [] [],
    .element "ul" [⟨"s-crate", "list"⟩] [] [],
    .element "button" [⟨"s-cast", "list"⟩] [] []],
  .element "template" [] [] []]

/-- The list is started and then moved into the template, and so is its item; only the container and
    the trigger it works with are put back into the document. -/
def stranded : Page Unit :=
  [.startAll, .edit (.insert (.slot 12) (.slot 1) none), .edit (.insert .document (.slot 5) none),
    .edit (.insert .document (.slot 8) none), .edit (.insert (.slot 12) (.slot 6) none)].foldl
      Operation.apply (ofMarkup spareMarkup)

theorem reaches_stranded : (ofMarkup spareMarkup).Reaches stranded := by
  apply Reaches.foldl Relation.ReflTransGen.refl
  simp [Operation.Tame]

/-- Contents of a template need not keep their shape: a click on the item in them takes it out, and
    when the list is started anew, it finds the container and the trigger in them. -/
theorem not_shape_stranded :
    (ofMarkup spareMarkup).New ∧ (ofMarkup spareMarkup).Reaches stranded ∧ stranded.Ready ∧
      ∀ uses ∈ [[Use.click (.slot 7)], [.start 0, .addFromData 0 []]],
        Deed.AllQuiet stranded (stranded.deeds uses) ∧
        ¬ ∀ x f, stranded.tree.contents? x = some f →
          (uses.foldl Use.apply stranded).tree.shape f = stranded.tree.shape f := by
  refine ⟨new_ofMarkup _, reaches_stranded, by decide +kernel, ?_⟩
  have hcontents : stranded.tree.contents? (.slot 11) = some (.slot 12) := by decide +kernel
  intro uses huses
  rw [List.mem_cons, List.mem_singleton] at huses
  rcases huses with rfl | rfl
  · refine ⟨Deed.allQuiet_of_allHookless (by decide +kernel), fun hall => ?_⟩
    -- the item was the second child of the contents
    have hitem := congrFun (hall _ _ hcontents) [.child 1]
    exact absurd hitem (by decide +kernel)
  · refine ⟨Deed.allQuiet_of_allHookless (by decide +kernel), fun hall => ?_⟩
    -- the second trigger was the third child of the list, and the new item is before it
    have htrigger := congrFun (hall _ _ hcontents) [.child 0, .child 3]
    exact absurd htrigger (by decide +kernel)

end Page

end Repeater
