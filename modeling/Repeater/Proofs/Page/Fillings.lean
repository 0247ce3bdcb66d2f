/-
  Repeater/Proofs/Page/Fillings.lean
  ==================================
  **Two additions from data, side by side.**

  Additions to one scope from data with the same names end alike, and leave pages that are printed
  as one frame, each with its own texts in the places where the slots of the template come out
  (`addFromData_framed`). Outside of scripts and styles the texts are escaped there, so that the
  data can put no tag into the page. In a script or a style a text is printed as it is, with the
  tags it may have (`not_escaped_script`).
-/
import Repeater.Proofs.Page.Additions
import Repeater.Proofs.Page.Ledger
import Repeater.Proofs.Scope.Filling

namespace Repeater

open Dom Hook Markup Scope Stamp Tree

variable {σ : Type}

namespace Page

variable {page : Page σ} {n : Nat} {data data' : List (String × String)} {x : NodeId}

/-- Whether an element has been made from the slot in the template of a scope that data fills under
    a name. -/
def SlotOf (page : Page σ) (n : Nat) (data : List (String × String)) (e : Element) (name : String) :
    Prop :=
  ∃ scope parts identifier g, page.scopes[n]? = some scope ∧
    scope.resolved = .ok (parts, identifier) ∧ page.tree.contents? parts.template = some g ∧
    FilledSlot page.tree g identifier scope.counter data e name

/-- What additions from data make of the tree: all of them fail and leave new nodes at most, or all
    of them bring an item in. -/
theorem addFromData_ends (h : page.Kept) (hstocked : page.Stocked)
    (hgrounded : ∀ parts g, page.parts? n = some parts →
      page.tree.contents? parts.template = some g → page.tree.GroundedFrom g) :
    (∀ data, (Deed.fill n data).succeeds page = false ∧
        (page.addFromData n data).tree.WellFormed ∧
        page.tree.Extends (page.addFromData n data).tree) ∨
      ∃ scope parts identifier g p, page.scopes[n]? = some scope ∧
        scope.resolved = .ok (parts, identifier) ∧
        page.tree.contents? parts.template = some g ∧
        page.tree.parent? parts.trigger = some p ∧
        ∀ data, (Deed.fill n data).succeeds page = true ∧
          ∃ φ, Gained page.tree g (itemTexts page.tree g scope.counter data) identifier
            scope.counter p (some parts.trigger) (page.addFromData n data).tree φ := by
  rcases hscope : page.scopes[n]? with _ | scope
  · refine .inl fun data => ⟨?_, ?_⟩
    · unfold Deed.succeeds
      rw [Deed.number, hscope]
    · obtain ⟨line, hline⟩ := withScope_of_none "add_item_using_data"
        (fun equipment => handleData equipment data) hscope
      unfold addFromData
      rw [hline]
      exact ⟨h.wellFormed, .refl page.tree⟩
  -- what a run of the flow leaves, whatever its end
  have hend : ∀ {data result desk'},
      exec (handleData page.equipment data) (page.desk scope) = (result, desk') →
        (Deed.fill n data).succeeds page = result.isOk ∧
          (page.addFromData n data).tree = desk'.stage.tree := fun hrun =>
    ⟨succeeds_eq hscope hrun, (withScope_shows "add_item_using_data" _ hscope hrun).1⟩
  rcases hresolved : scope.resolved with error | ⟨parts, identifier⟩
  · refine .inl fun data => ?_
    obtain ⟨hsucceeds, htree⟩ := hend (exec_handleData_unresolved hresolved data)
    rw [htree]
    exact ⟨hsucceeds, h.wellFormed, .refl page.tree⟩
  have hidle := (h.settled n scope hscope).idle
  rcases hp : page.tree.parent? parts.trigger with _ | p
  · refine .inl fun data => ?_
    obtain ⟨hsucceeds, htree⟩ :=
      hend (exec_handleData_parentless (page.desk scope) hidle hresolved hp page.equipment data)
    rw [htree]
    exact ⟨hsucceeds, h.wellFormed, .refl page.tree⟩
  have hparts := (resolved_eq_ok hresolved).1
  obtain ⟨g, hg⟩ := hstocked n scope parts hscope hparts
  have hground := hgrounded parts g (parts?_of_resolved hscope hresolved) hg
  have hattempted := exec_handleData_attempted (page.desk scope) hidle hresolved hp h.wellFormed hg
    hground page.equipment
  by_cases hcan : canGain (page.desk scope).stage.tree g p = true
  · refine .inr ⟨scope, parts, identifier, g, p, rfl, hresolved, hg, hp, fun data => ?_⟩
    have hended := hattempted data
    rw [Attempted, if_pos hcan] at hended
    obtain ⟨hok, φ, hgained, -⟩ := hended
    obtain ⟨hsucceeds, htree⟩ := hend (Prod.ext hok rfl)
    rw [htree]
    exact ⟨hsucceeds, φ, hgained⟩
  · refine .inl fun data => ?_
    have hended := hattempted data
    rw [Attempted, if_neg hcan] at hended
    obtain ⟨⟨error, herror⟩, t', hdesk, hwf, hext⟩ := hended
    obtain ⟨hsucceeds, htree⟩ := hend (Prod.ext herror hdesk)
    rw [htree]
    exact ⟨hsucceeds, hwf, hext⟩

/-- Two additions from data with the same names, on one page: both go through or both fail, and then
    the page is printed as one frame, each time with the texts of the data in its places. The places
    are elements made from slots of the template, and unless it is a script or a style, no text
    shows a bracket of a tag there. -/
theorem addFromData_framed {start : Page σ} (hnew : start.New) (hreaches : start.Reaches page)
    (hgrounded : page.tree.GroundedFrom x)
    (htemplate : ∀ parts g, page.parts? n = some parts →
      page.tree.contents? parts.template = some g →
        page.tree.GroundedFrom g ∧ SlotsApart page.tree g)
    (hdata : (data.map (·.1)).Nodup) (hnames : (data.map (·.1)).Perm (data'.map (·.1)))
    (hx : page.tree.Has x) :
    (Deed.fill n data').succeeds page = (Deed.fill n data).succeeds page ∧
      ∃ frame : List Segment,
        (∀ e name, .slot e name ∈ frame → page.SlotOf n data e name) ∧
        outer (page.addFromData n data).tree x .compact = frameText (valueOf data) frame ∧
        outer (page.addFromData n data').tree x .compact = frameText (valueOf data') frame ∧
        (∀ e name, .slot e name ∈ frame → rawTags.contains e.tag = false →
          ∀ text, ∀ c ∈ (innerText e text).toList, c ≠ '<' ∧ c ≠ '>') ∧
        ((∀ e name, .slot e name ∈ frame → rawTags.contains e.tag = false) →
          brackets (outer (page.addFromData n data').tree x .compact) =
            brackets (outer (page.addFromData n data).tree x .compact)) := by
  have hkept := hreaches.kept hnew.kept
  have hwf := hkept.wellFormed
  have hboth : (Deed.fill n data').succeeds page = (Deed.fill n data).succeeds page ∧
      Framed (page.SlotOf n data) (valueOf data) (valueOf data')
        (outer (page.addFromData n data).tree x .compact)
        (outer (page.addFromData n data').tree x .compact) := by
    rcases addFromData_ends hkept (hreaches.stocked hnew)
      (fun parts g hparts hg => (htemplate parts g hparts hg).1) with
      hfails | ⟨scope, parts, identifier, g, p, hscope, hresolved, hg, hp, hgains⟩
    · have hsame : ∀ data, outer (page.addFromData n data).tree x .compact =
          outer page.tree x .compact := by
        intro data
        obtain ⟨-, hwf', hext⟩ := hfails data
        exact outer_isomorphic hwf hgrounded hx hext.size_le (hext.isomorphism hwf hwf' hx) .compact
      rw [(hfails data).1, (hfails data').1, hsame data, hsame data']
      exact ⟨rfl, .fixed _ _ _ _⟩
    · obtain ⟨hsucceeds, φ, hgained⟩ := hgains data
      obtain ⟨hsucceeds', ψ, hgained'⟩ := hgains data'
      have hparts := parts?_of_resolved hscope hresolved
      refine ⟨hsucceeds'.trans hsucceeds.symm, ?_⟩
      refine (framed_of_gained hwf hgrounded (hwf.has_contents hg) (hwf.has_parent hp) ?_
        (htemplate parts g hparts hg).2 hdata hnames hgained hgained' hx).mono ?_
      · rintro r ⟨⟩
        exact hp
      · exact fun e name hslot => ⟨scope, parts, identifier, g, hscope, hresolved, hg, hslot⟩
  obtain ⟨hsucceeds, frame, hslots, htext, htext'⟩ := hboth
  refine ⟨hsucceeds, frame, hslots, htext, htext', fun e name _ hplain => innerText_plain hplain,
    fun hplain => ?_⟩
  rw [htext, htext']
  exact brackets_frameText hplain _ _

/-- An item with a slot in an element with this tag. -/
def slottedItem (tag : String) : ParseNode :=
  .element "p" [] [] [.element tag [⟨"s-slot", "text"⟩] [] []]

/-- A tag in the data comes out as a text. -/
theorem addFromData_framed_tag :
    let start := ofMarkup (listMarkup [slottedItem "i"] [])
    let page := start.startAll
    let data := [("text", "<b>x</b>")]
    let data' := [("text", "")]
    start.New ∧ start.Reaches page ∧ page.tree.Grounded ∧ page.tree.Has .document ∧
      (∀ parts g, page.parts? 0 = some parts → page.tree.contents? parts.template = some g →
        SlotsApart page.tree g) ∧
      (data.map (·.1)).Nodup ∧ (data.map (·.1)).Perm (data'.map (·.1)) ∧
      (Deed.fill 0 data).succeeds page = true ∧ (Deed.fill 0 data').succeeds page = true ∧
      (∃ frame : List Segment,
        (∀ e name, .slot e name ∈ frame → page.SlotOf 0 data e name) ∧
        outer (page.addFromData 0 data).tree .document .compact =
          frameText (valueOf data) frame ∧
        outer (page.addFromData 0 data').tree .document .compact =
          frameText (valueOf data') frame) ∧
      outer (page.addFromData 0 data).tree (.slot 9) .compact =
        "<p><i s-slot=\"text\">&lt;b&gt;x&lt;/b&gt;</i></p>" ∧
      outer (page.addFromData 0 data').tree (.slot 9) .compact =
        "<p><i s-slot=\"text\"></i></p>" := by
  intro start page data data'
  have hnew : start.New := new_ofMarkup _
  have hreaches : start.Reaches page := Reaches.step Relation.ReflTransGen.refl .startAll trivial
  have hgrounded : page.tree.Grounded := InOrder.grounded (by decide +kernel)
  have hcontents : (page.parts? 0).bind (page.tree.contents? ·.template) = some (.slot 3) := by
    decide +kernel
  have hslots : ∀ parts g, page.parts? 0 = some parts →
      page.tree.contents? parts.template = some g → SlotsApart page.tree g := by
    intro parts g hparts hg
    rw [hparts, Option.bind_some, hg] at hcontents
    cases hcontents
    decide +kernel
  have hdata : (data.map (·.1)).Nodup := by decide
  have hnames : (data.map (·.1)).Perm (data'.map (·.1)) := by decide
  have hhas : page.tree.Has .document := by decide +kernel
  have hsucceeds : (Deed.fill 0 data).succeeds page = true := by decide +kernel
  obtain ⟨hsame, frame, hslot, htext, htext', -⟩ := addFromData_framed hnew hreaches
    (hgrounded.groundedFrom .document)
    (fun parts g hparts hg => ⟨hgrounded.groundedFrom g, hslots parts g hparts hg⟩) hdata hnames
    hhas
  exact ⟨hnew, hreaches, hgrounded, hhas, hslots, hdata, hnames, hsucceeds,
    hsame.trans hsucceeds, ⟨frame, hslot, htext, htext'⟩, by decide +kernel, by decide +kernel⟩

/-- The list with one item, a script that has this between its tags. -/
def scriptList (text : String) : String :=
  "<div stamper=\"list\" s-inited=\"true\"><template s-temp=\"list\"><p>" ++
    "<script s-slot=\"text\"></script></p></template><ul s-crate=\"list\"></ul><p>" ++
    "<script s-slot=\"text\">" ++ text ++ "</script></p><button s-cast=\"list\"></button></div>"

theorem brackets_scriptList :
    ∃ before after, ∀ text, brackets (scriptList text) = before ++ brackets text ++ after :=
  ⟨_, _, fun _ => (brackets_append _ _).trans (congrArg (· ++ _) (brackets_append _ _))⟩

/-- In a script a tag in the data comes out as a tag. -/
theorem not_escaped_script :
    let start := ofMarkup (listMarkup [slottedItem "script"] [])
    let page := start.startAll
    let data := [("text", "</script><b>x</b>")]
    let data' := [("text", "")]
    start.New ∧ start.Reaches page ∧ page.tree.Grounded ∧
      (∀ parts g, page.parts? 0 = some parts → page.tree.contents? parts.template = some g →
        SlotsApart page.tree g ∧
          ((slotMarks page.tree g).map (page.tree.attribute? · Directive.slot.name)).Nodup) ∧
      (Deed.fill 0 data).succeeds page = true ∧ (Deed.fill 0 data').succeeds page = true ∧
      outer (page.addFromData 0 data).tree .document .compact = scriptList "</script><b>x</b>" ∧
      outer (page.addFromData 0 data').tree .document .compact = scriptList "" ∧
      brackets (outer (page.addFromData 0 data').tree .document .compact) ≠
        brackets (outer (page.addFromData 0 data).tree .document .compact) := by
  intro start page data data'
  have hcontents : (page.parts? 0).bind (page.tree.contents? ·.template) = some (.slot 3) := by
    decide +kernel
  have htext : outer (page.addFromData 0 data).tree .document .compact =
      scriptList "</script><b>x</b>" := by decide +kernel
  have htext' : outer (page.addFromData 0 data').tree .document .compact = scriptList "" := by
    decide +kernel
  refine ⟨new_ofMarkup _, Reaches.step Relation.ReflTransGen.refl .startAll trivial,
    InOrder.grounded (by decide +kernel), ?_, by decide +kernel, by decide +kernel, htext, htext',
    ?_⟩
  · intro parts g hparts hg
    rw [hparts, Option.bind_some, hg] at hcontents
    cases hcontents
    exact ⟨by decide +kernel, by decide +kernel⟩
  · have hnone : (brackets "").length = 0 := by decide +kernel
    have htags : (brackets "</script><b>x</b>").length = 6 := by decide +kernel
    intro hsame
    have hlength := congrArg List.length
      ((congrArg brackets htext').symm.trans (hsame.trans (congrArg brackets htext)))
    obtain ⟨before, after, hsplit⟩ := brackets_scriptList
    rw [hsplit, hsplit, List.length_append, List.length_append, List.length_append,
      List.length_append] at hlength
    omega

end Page

end Repeater
