/-
  Repeater/Proofs/Stamp/Display.lean
  ==================================
  **What an item shows of the counter.**

  An item is a stamped copy of an element of the template. `Displays` spells out what this means to
  a reader of the page: the numbers in the places marked for them, and the attributes with their
  tokens replaced. As long as what is new stays as it was made, an item shows the same for ever
  after (`StampedCopy.steady`).
-/
import Repeater.Proofs.Dom.Steady
import Repeater.Proofs.Stamp.Drafts

namespace Repeater.Stamp

open Dom Tree

variable {base t t₁ t' : Tree} {s c x : NodeId} {identifier : String} {counter : Nat}

/-- What a stamped copy shows: each element of it stands where an element of the original stands. A
    mark for a sequence that is not within an inner template holds only the number after the
    counter, padded as the mark of the original says; an attribute that is listed once has its
    tokens replaced, and one that is not listed is that of the original. -/
def Displays (t : Tree) (original : NodeId) (identifier : String) (counter : Nat) (t' : Tree)
    (copy : NodeId) : Prop :=
  ∀ place x e', t'.follow? copy place = some x → t'.element? x = some e' →
    ∃ y e, t.follow? original place = some y ∧ t.element? y = some e ∧ e'.tag = e.tag ∧
      ((e'.get? Directive.sequence.name).isSome → Step.contents ∉ place →
        ∃ pattern text, e.get? Directive.sequence.name = some pattern ∧ t'.children x = [text] ∧
          t'.content? text = some (.text (sequenceText pattern (counter + 1)))) ∧
      ∀ name, ((indexedNames e).count name = 1 →
          e'.get? name = (e.get? name).map (substitute · identifier counter)) ∧
        (name ∉ indexedNames e → e'.get? name = e.get? name)

theorem StampedCopy.displays (h : StampedCopy t s identifier counter t' c) :
    Displays t s identifier counter t' c := by
  intro place x e' hx he'
  obtain ⟨y, e, hy, he, hstamped⟩ := h place x e' hx he'
  refine ⟨y, e, hy, he, hstamped.tag, ?_, ?_⟩
  · intro hmarked hlight
    rw [get?_congr hstamped.attributes,
      (sameBut_stampedElement identifier counter e).isSome_get?] at hmarked
    obtain ⟨pattern, hpattern⟩ := Option.isSome_iff_exists.1 hmarked
    obtain ⟨text, hkids, htext⟩ := hstamped.sequence pattern hlight hpattern
    exact ⟨pattern, text, hpattern, hkids, htext⟩
  · intro name
    rw [get?_congr hstamped.attributes]
    exact ⟨get?_stampedElement_once, get?_stampedElement_other⟩

/-- A copy shows what it did where a region around it has not changed. -/
theorem StampedCopy.congr (h : StampedCopy t s identifier counter t₁ c) {S : NodeId → Prop}
    (hS : t₁.Closed S) (hc : S c) (hchildren : ∀ x, S x → t'.children x = t₁.children x)
    (hcontent : ∀ x, S x → t'.content? x = t₁.content? x) :
    StampedCopy t s identifier counter t' c := by
  intro place x e' hx he'
  rw [follow?_congr hS hchildren (fun x hx => contents?_congr (hcontent x hx)) hc] at hx
  have hSx : S x := hS.follow? hc hx
  rw [element?_congr (hcontent x hSx)] at he'
  obtain ⟨y, e, hy, he, hstamped⟩ := h place x e' hx he'
  refine ⟨y, e, hy, he, hstamped.tag, hstamped.attributes, ?_⟩
  intro pattern hlight hpattern
  obtain ⟨n, hn, htext⟩ := hstamped.sequence pattern hlight hpattern
  refine ⟨n, (hchildren x hSx).trans hn, ?_⟩
  rw [hcontent n (hS.children hSx (by simp [hn])), htext]

theorem StampedCopy.steady (h : StampedCopy t s identifier counter t₁ c) (hbase : base.WellFormed)
    (hold : Steady base base t₁) (hsteady : Steady base t₁ t') (hc : t₁.Has c)
    (hnew : ¬ base.Has c) : StampedCopy t s identifier counter t' c := by
  apply h.congr (hold.closed_new hbase) ⟨hc, hnew⟩
  · exact fun x hx => hsteady.children x hx.2 hx.1
  · exact fun x hx => hsteady.content x hx.2 hx.1

/-- Where the children of something new go, they show what they did. -/
theorem StampedCopy.spliced (h : StampedCopy t s identifier counter t₁ c) (ht : t.WellFormed)
    (hext : t.Extends t₁) (h₁ : t₁.WellFormed) {p f : NodeId} {reference : Option NodeId}
    (hspliced : t₁.Spliced p f reference t') (hf : ¬ t.Has f) (hp : t.Has p)
    (hc : c ∈ t₁.children f) : StampedCopy t s identifier counter t' c := by
  have hparent := h₁.parent_of_child hc
  have hnew : ¬ t.Has c := hext.new_child ht hparent hf
  apply h.congr (h₁.closed_atOrEncloses c) (.refl t₁ c)
  · intro x hx
    apply hspliced.children_other x
    · rintro rfl
      exact hext.new_encloses ht h₁ hnew hx hp
    · rintro rfl
      -- a fragment that encloses its own child would hold itself
      exact hext.groundedFrom_new ht h₁ hf _ (.refl t₁ _)
        ((encloses_of_parent hparent).trans_atOrEncloses hx)
  · exact fun x _ => hspliced.content x

end Repeater.Stamp
