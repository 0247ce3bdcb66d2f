/-
  Repeater/Proofs/Scope/Filling.lean
  ==================================
  **One template filled twice.**

  Two items that are made from one template, each with data of its own, are alike up to the texts in
  the slots that the data fills, as long as the data has the same names and no slot stands in
  another (`framing_of_gained`). So the trees they come into are printed alike up to these texts
  (`framed_of_gained`).
-/
import Repeater.Proofs.Markup.Frames
import Repeater.Proofs.Scope.Laden
import Repeater.Proofs.Stamp.Slots

namespace Repeater

open Dom Markup Stamp Tree

theorem Dom.Tree.forall₂_listWithRun {R : NodeId → NodeId → Prop} {ids run run' : List NodeId}
    (hids : ∀ c ∈ ids, R c c) (hrun : List.Forall₂ R run run') (reference : Option NodeId) :
    List.Forall₂ R (listWithRun run reference ids) (listWithRun run' reference ids) := by
  have hsame : ∀ part : List NodeId, (∀ c ∈ part, c ∈ ids) → List.Forall₂ R part part :=
    fun part hpart => List.forall₂_same.2 fun c hc => hids c (hpart c hc)
  cases reference with
  | none => exact List.rel_append (hsame ids fun _ => id) hrun
  | some r =>
    have hfront := hsame _ fun c hc => (List.takeWhile_sublist (· ≠ r)).subset hc
    have hback := hsame _ fun c hc => (List.dropWhile_sublist (· ≠ r)).subset hc
    exact List.rel_append (List.rel_append hfront hrun) hback

/-- What shows of a template depends on where the texts are, not on what they say. -/
theorem Stamp.Shows.congr {t : Tree} {texts texts' : List (NodeId × String)} {s x : NodeId}
    (h : ∀ a, lastText? texts a = none → lastText? texts' a = none) (hx : Shows t texts s x) :
    Shows t texts' s x :=
  Relation.ReflTransGen.mono (fun _ _ hab => hab.imp (And.imp_left (h _)) id) _ _ hx

namespace Scope

variable {t t₁ t₂ : Tree} {g p s x y : NodeId} {identifier : String} {counter : Nat}
  {reference : Option NodeId} {φ ψ : NodeId → NodeId} {data data' : List (String × String)}

/-- Whether an element has been made from the slot that data fills under a name: its tag and its
    attributes are those of the slot, with the tokens replaced. -/
def FilledSlot (t : Tree) (g : NodeId) (identifier : String) (counter : Nat)
    (data : List (String × String)) (e : Element) (name : String) : Prop :=
  name ∈ data.map (·.1) ∧ ∃ slot original,
    openSlot? t g (numbering t g counter) name = some slot ∧ t.element? slot = some original ∧
    e.tag = original.tag ∧ e.attributes = (stampedElement identifier counter original).attributes

/-- Pairs of nodes that look alike up to the texts of data: what was there, the copies of one node,
    and equal texts. -/
inductive Paired (t : Tree) (g : NodeId) (texts : List (NodeId × String)) (t₁ t₂ : Tree)
    (φ ψ : NodeId → NodeId) : NodeId → NodeId → Prop where
  | old {x : NodeId} (hx : t.Has x) : Paired t g texts t₁ t₂ φ ψ x x
  | copies {s x : NodeId} (hs : s ∈ t.children g) (hx : Shows t texts s x) :
      Paired t g texts t₁ t₂ φ ψ (φ x) (ψ x)
  | texts {x y : NodeId} {text : String} (hx : t₁.content? x = some (.text text))
      (hy : t₂.content? y = some (.text text)) : Paired t g texts t₁ t₂ φ ψ x y

section filling

variable (ht : t.WellFormed) (hslots : SlotsApart t g)
  (hdata : (data.map (·.1)).Nodup) (hnames : (data.map (·.1)).Perm (data'.map (·.1)))
  (h₁ : Gained t g (itemTexts t g counter data) identifier counter p reference t₁ φ)
  (h₂ : Gained t g (itemTexts t g counter data') identifier counter p reference t₂ ψ)
include ht

include h₁ h₂ in
/-- What was there has got the copies of the same nodes. -/
theorem forall₂_children_old (hx : t.Has x) :
    List.Forall₂ (Paired t g (itemTexts t g counter data) t₁ t₂ φ ψ) (t₁.children x)
      (t₂.children x) := by
  have hkids : ∀ c ∈ t.children x, Paired t g (itemTexts t g counter data) t₁ t₂ φ ψ c c :=
    fun c hc => .old (ht.has_of_child hc)
  by_cases hxp : x = p
  · subst hxp
    rw [h₁.children, h₂.children]
    refine forall₂_listWithRun hkids ?_ reference
    exact List.forall₂_map_left_iff.2 (List.forall₂_map_right_iff.2
      (List.forall₂_same.2 fun s hs => .copies hs .refl))
  · rw [(Widened.of_gained h₁).children x hx hxp, (Widened.of_gained h₂).children x hx hxp]
    exact List.forall₂_same.2 hkids

include hslots hdata hnames

/-- What shows of a template does not depend on the texts of data. -/
theorem shows_of_names (hx : Shows t (itemTexts t g counter data) s x) :
    Shows t (itemTexts t g counter data') s x := by
  refine hx.congr fun a hnone => ?_
  rcases hslots.lastText?_fillings ht hdata hnames (numbering t g counter) a with
    ⟨name, -, -, hsome, -⟩ | ⟨hsame, hsame'⟩
  · exact absurd (hsome.symm.trans hnone) (by simp)
  · exact hsame'.trans (hsame.symm.trans hnone)

include h₁ h₂

/-- The copies of a slot that is filled hold the texts of its name, and those of any other node hold
    the same one by one. -/
theorem children_copies (hs : s ∈ t.children g) (hx : Shows t (itemTexts t g counter data) s x) :
    List.Forall₂ (Paired t g (itemTexts t g counter data) t₁ t₂ φ ψ) (t₁.children (φ x))
        (t₂.children (ψ x)) ∨
      ∃ e name, t₁.element? (φ x) = some e ∧ FilledSlot t g identifier counter data e name ∧
        HoldsText t₁ (φ x) (valueOf data name) ∧ HoldsText t₂ (ψ x) (valueOf data' name) := by
  have hmade := (h₁.item s hs).2
  have hmade' := (h₂.item s hs).2
  have hx' := shows_of_names ht hslots hdata hnames hx
  rcases hslots.lastText?_fillings ht hdata hnames (numbering t g counter) x with
    ⟨name, hname, hopen, hsome, hsome'⟩ | ⟨hsame, hsame'⟩
  · refine .inr ?_
    obtain ⟨e, he⟩ := Option.isSome_iff_exists.1
      (isElement_of_satisfies ((mem_selectFrom ht).1 (mem_of_openSlot? hopen)).2)
    have hcontent := hmade.content x hx
    rw [element?_eq_some.1 he] at hcontent
    have htag := (sameBut_stampedElement identifier counter e).tag
    exact ⟨_, name, element?_eq_some.2 hcontent, ⟨hname, x, e, hopen, he, htag, rfl⟩,
      hmade.texts x _ hx hsome, hmade'.texts x _ hx' hsome'⟩
  · refine .inl ?_
    rcases htext : lastText? (numbering t g counter) x with _ | text
    · have hnone : lastText? (itemTexts t g counter data) x = none := hsame.trans htext
      rw [hmade.children x hx hnone, hmade'.children x hx' (hsame'.trans htext)]
      refine List.forall₂_map_left_iff.2 (List.forall₂_map_right_iff.2
        (List.forall₂_same.2 fun y hy => ?_))
      exact .copies hs (hx.tail (.inl ⟨hnone, ht.parent_of_child hy⟩))
    · exact (hmade.texts x text hx (hsame.trans htext)).forall₂
        (hmade'.texts x text hx' (hsame'.trans htext)) fun _ _ => .texts

/-- Items that are made from one template are alike up to the texts of their data. -/
theorem framing_of_gained :
    Framing t₁ t₂ (FilledSlot t g identifier counter data) (valueOf data) (valueOf data')
      (Paired t g (itemTexts t g counter data) t₁ t₂ φ ψ) := by
  have hold₁ := Widened.of_gained h₁
  have hold₂ := Widened.of_gained h₂
  have hshows : ∀ {s x}, Shows t (itemTexts t g counter data) s x →
      Shows t (itemTexts t g counter data') s x := shows_of_names ht hslots hdata hnames
  constructor
  case bare =>
    rintro _ _ (hx | ⟨hs, hx⟩ | ⟨hx, hy⟩)
    · rw [hold₁.content _ hx, hold₂.content _ hx]
    · rw [(h₁.item _ hs).2.content _ hx, (h₂.item _ hs).2.content _ (hshows hx)]
      exact bare_madeContent _ _ _ _ _
    · rw [hx, hy]
  case contents =>
    rintro _ _ (hx | ⟨hs, hx⟩ | ⟨hx, hy⟩)
    · rw [contents?_congr (hold₁.content _ hx), contents?_congr (hold₂.content _ hx)]
      rcases hf : t.contents? _ with _ | f
      · exact .none
      · exact .some (.old (ht.has_contents hf))
    · rw [contents?_made (h₁.item _ hs).2 hx, contents?_made (h₂.item _ hs).2 (hshows hx)]
      rcases hf : t.contents? _ with _ | f
      · exact .none
      · exact .some (.copies hs (hx.tail (.inr hf)))
    · rw [(text_holds_nothing h₁.wellFormed hx).2, (text_holds_nothing h₂.wellFormed hy).2]
      exact .none
  case children =>
    rintro _ _ (hx | ⟨hs, hx⟩ | ⟨hx, hy⟩)
    · exact .inl (forall₂_children_old ht h₁ h₂ hx)
    · exact children_copies ht hslots hdata hnames h₁ h₂ hs hx
    · rw [(text_holds_nothing h₁.wellFormed hx).1, (text_holds_nothing h₂.wellFormed hy).1]
      exact .inl .nil

end filling

/-- No template holds itself for an item that has come in. -/
theorem groundedFrom_of_gained (ht : t.WellFormed) (hgrounded : t.GroundedFrom x) (hg : t.Has g)
    (hp : t.Has p) (hreference : ∀ r, reference = some r → t.parent? r = some p)
    (h : Gained t g (itemTexts t g counter data) identifier counter p reference t₁ φ) :
    t₁.GroundedFrom x := by
  have hfits : Plan.Fits ⟨0, identifier, g, data, p, reference⟩ t := ⟨hg, hp, hreference⟩
  have hladen := (Laden.nil ht).gain ht hfits (fun _ _ => ⟨rfl, rfl⟩) h
  exact hladen.groundedFrom ht hgrounded

/-- Trees into which items of one template have come are printed alike up to the texts of the
    data. -/
theorem framed_of_gained (ht : t.WellFormed) (hgrounded : t.GroundedFrom x) (hg : t.Has g)
    (hp : t.Has p) (hreference : ∀ r, reference = some r → t.parent? r = some p)
    (hslots : SlotsApart t g) (hdata : (data.map (·.1)).Nodup)
    (hnames : (data.map (·.1)).Perm (data'.map (·.1)))
    (h₁ : Gained t g (itemTexts t g counter data) identifier counter p reference t₁ φ)
    (h₂ : Gained t g (itemTexts t g counter data') identifier counter p reference t₂ ψ)
    (hx : t.Has x) :
    Framed (FilledSlot t g identifier counter data) (valueOf data) (valueOf data')
      (outer t₁ x .compact) (outer t₂ x .compact) := by
  have hcontent := (Widened.of_gained h₁).content x hx
  exact (framing_of_gained ht hslots hdata hnames h₁ h₂).outer_framed h₁.wellFormed h₂.wellFormed
    (groundedFrom_of_gained ht hgrounded hg hp hreference h₁)
    (groundedFrom_of_gained ht hgrounded hg hp hreference h₂) (.old hx)
    (has_iff_content.2 (hcontent ▸ has_iff_content.1 hx))

end Scope

end Repeater
