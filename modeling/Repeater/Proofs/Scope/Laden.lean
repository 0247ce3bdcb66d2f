/-
  Repeater/Proofs/Scope/Laden.lean
  ================================
  **A tree with items that have come in.**

  Items that come in one after the other, each among the children of a node that was there at the
  beginning, leave a tree that can be told from the beginning and from a list: for each item, the
  plan by which it was made and the counter that it was given (`Laden`). What counts of the list is
  the order of the items in each spot, and neither the order in which the spots were served nor the
  ids that the new nodes have got. Two trees laden in the same way from one beginning are therefore
  printed alike (`Laden.outer_eq`).
-/
import Repeater.Proofs.Markup.Printing
import Repeater.Proofs.Scope.DataAdditions
import Repeater.Proofs.Scope.Plans

namespace Repeater

open Dom Markup Stamp Tree

namespace Scope

/-! ## What has come in -/

namespace Item

def texts (t : Tree) (item : Item) : List (NodeId × String) :=
  itemTexts t item.plan.source item.counter item.plan.data

/-- The nodes that have come in for the item, as far as they are on top. -/
def nodes (t : Tree) (item : Item) : List NodeId := (t.children item.plan.source).map item.copy

end Item

/-- What has come in at a spot. -/
def newcomers (t : Tree) (items : List Item) (spot : NodeId × Option NodeId) : List NodeId :=
  (items.filter (·.plan.spot = spot)).flatMap (·.nodes t)

/-- The children of `p`, with everything that has come in among them. -/
def ladenChildren (t : Tree) (items : List Item) (p : NodeId) : List NodeId :=
  (t.children p).flatMap (fun c => newcomers t items (p, some c) ++ [c]) ++
    newcomers t items (p, none)

variable {t t₁ t₂ : Tree} {items items' : List Item} {item : Item} {plan : Plan}
  {g p s x y : NodeId} {spot : NodeId × Option NodeId} {counter : Nat} {φ : NodeId → NodeId}

theorem newcomers_concat : newcomers t (items ++ [item]) spot =
    newcomers t items spot ++ if item.plan.spot = spot then item.nodes t else [] := by
  unfold newcomers
  rw [List.filter_append, List.flatMap_append]
  by_cases hspot : item.plan.spot = spot <;> simp [hspot]

theorem newcomers_of_apart (h : ∀ item ∈ items, item.plan.spot ≠ spot) :
    newcomers t items spot = [] := by
  unfold newcomers
  rw [List.filter_eq_nil_iff.2 fun item hitem => by simpa using h item hitem]
  rfl

theorem ladenChildren_of_apart (h : ∀ item ∈ items, item.plan.place ≠ p) :
    ladenChildren t items p = t.children p := by
  have hnone : ∀ reference, newcomers t items (p, reference) = [] := fun reference =>
    newcomers_of_apart fun item hitem hspot => h item hitem (congrArg Prod.fst hspot)
  simp [ladenChildren, hnone]

theorem ladenChildren_concat_other (h : item.plan.place ≠ p) :
    ladenChildren t (items ++ [item]) p = ladenChildren t items p := by
  have hother : ∀ reference, item.plan.spot ≠ (p, reference) := fun _ hspot =>
    h (congrArg Prod.fst hspot)
  simp [ladenChildren, newcomers_concat, hother]

/-- One more item comes in where its plan says. -/
theorem ladenChildren_concat (item : Item) (ht : t.WellFormed)
    (hreference : ∀ r, item.plan.reference = some r → t.parent? r = some item.plan.place)
    (hnew : ∀ spot, ∀ x ∈ newcomers t items spot, ¬ t.Has x) :
    ladenChildren t (items ++ [item]) item.plan.place =
      listWithRun (item.nodes t) item.plan.reference
        (ladenChildren t items item.plan.place) := by
  rcases hr : item.plan.reference with _ | r
  · have hspot : item.plan.spot = (item.plan.place, none) := by rw [Plan.spot, hr]
    simp [ladenChildren, newcomers_concat, hspot, listWithRun]
  have hspot : ∀ reference, item.plan.spot = (item.plan.place, reference) ↔ reference = some r := by
    intro reference
    rw [Plan.spot, hr, Prod.mk.injEq]
    exact ⟨fun h => h.2.symm, fun h => ⟨rfl, h.symm⟩⟩
  obtain ⟨before, after, hids, hbefore⟩ :=
    List.eq_append_cons_of_mem (ht.child_of_parent (hreference r hr))
  have hafter : r ∉ after := by
    have hnodup := ht.nodup_children item.plan.place
    rw [hids, List.nodup_append] at hnodup
    exact (List.nodup_cons.1 hnodup.2.1).1
  -- among the children on either side of `r` nothing has come in
  have hside : ∀ ids : List NodeId, r ∉ ids →
      ids.flatMap (fun c => newcomers t (items ++ [item]) (item.plan.place, some c) ++ [c]) =
        ids.flatMap fun c => newcomers t items (item.plan.place, some c) ++ [c] := by
    intro ids hids
    refine List.flatMap_congr fun c hc => ?_
    have hne : ¬ some c = some r := fun hcr => hids (Option.some.inj hcr ▸ hc)
    rw [newcomers_concat, if_neg ((hspot _).not.2 hne), List.append_nil]
  have hout : r ∉ before.flatMap (fun c => newcomers t items (item.plan.place, some c) ++ [c]) ++
      newcomers t items (item.plan.place, some r) := by
    have hhas := has_of_parent (hreference r hr)
    simp only [List.mem_append, List.mem_flatMap, List.mem_singleton]
    rintro (⟨c, hc, hin | rfl⟩ | hin)
    · exact hnew _ r hin hhas
    · exact hbefore hc
    · exact hnew _ r hin hhas
  have hwith := listWithRun_append_cons hout (item.nodes t)
    (after.flatMap (fun c => newcomers t items (item.plan.place, some c) ++ [c]) ++
      newcomers t items (item.plan.place, none))
  unfold ladenChildren
  rw [hids, List.flatMap_append, List.flatMap_append, List.flatMap_cons, List.flatMap_cons,
    hside before hbefore, hside after hafter, newcomers_concat, newcomers_concat,
    if_pos ((hspot _).2 rfl), if_neg ((hspot _).not.2 (by simp)), List.append_nil]
  simpa [List.append_assoc] using hwith.symm

/-! ## New nodes -/

/-- What a tree shows that has got new nodes: those that were there are as they were, but for the
    children of nodes that satisfy `P`. -/
structure Widened (t : Tree) (P : NodeId → Prop) (t' : Tree) : Prop where
  wellFormed : t'.WellFormed
  content : ∀ x, t.Has x → t'.content? x = t.content? x
  parent : ∀ x, t.Has x → t'.parent? x = t.parent? x
  children : ∀ x, t.Has x → ¬ P x → t'.children x = t.children x
  contents_old : ∀ x y, t'.contents? x = some y → t.Has y → t.Has x
  ranked : ∀ a b, t'.Holds a b → t.Holds a b ∨ a.Precedes b

theorem Widened.of_extends (h : t₁.Extends t₂) (h₂ : t₂.WellFormed) :
    Widened t₁ (fun _ => False) t₂ where
  wellFormed := h₂
  content _ hx := h.content? hx
  parent _ hx := h.parent? hx
  children _ hx _ := h.children hx
  contents_old _ _ := h.contents_old
  ranked _ _ := h.ranked

theorem Widened.of_gained {texts : List (NodeId × String)} {identifier : String}
    {reference : Option NodeId}
    (h : Gained t₁ g texts identifier counter p reference t₂ φ) : Widened t₁ (· = p) t₂ where
  wellFormed := h.wellFormed
  content x hx := by
    by_cases hxp : x = p
    · rw [hxp, h.content]
    · unfold Tree.content?
      rw [h.old x hx hxp]
  parent x hx := by
    by_cases hxp : x = p
    · rw [hxp, h.parent]
    · unfold Tree.parent?
      rw [h.old x hx hxp]
  children x hx hxp := by
    unfold Tree.children
    rw [h.old x hx hxp]
  contents_old := h.contents_old
  ranked := h.ranked

/-- A node that was there is held by what held it. -/
theorem Widened.holds_old {P : NodeId → Prop} (h : Widened t₁ P t₂) (hy : t₁.Has y)
    (hxy : t₂.Holds x y) : t₁.Holds x y := by
  rcases hxy with hparent | hcontents
  · exact .inl ((h.parent y hy).symm.trans hparent)
  · have hx := h.contents_old x y hcontents hy
    exact .inr ((contents?_congr (h.content x hx)).symm.trans hcontents)

/-- What has been made stays as it is while only nodes that are older get children. -/
theorem Widened.made {P : NodeId → Prop} {texts : List (NodeId × String)} {identifier : String}
    (h : Widened t₁ P t₂) (hP : ∀ x, P x → t.Has x)
    (hmade : Made t s texts identifier counter t₁ φ) (ht : t.WellFormed) (hs : t.Has s) :
    Made t s texts identifier counter t₂ φ := by
  have hhas : ∀ {x}, Shows t texts s x → t₁.Has (φ x) := by
    intro x hx
    obtain ⟨content, hcontent⟩ := has_iff_content.1 (ht.has_atOrEnclosed hx.atOrEncloses hs)
    have hcopy := hmade.content x hx
    rw [hcontent] at hcopy
    exact has_of_content hcopy
  have hkids : ∀ {x}, Shows t texts s x → t₂.children (φ x) = t₁.children (φ x) := fun hx =>
    h.children _ (hhas hx) fun hPx => hmade.new _ hx (hP _ hPx)
  constructor
  case new => exact hmade.new
  case injective => exact hmade.injective
  case content => exact fun x hx => (h.content _ (hhas hx)).trans (hmade.content x hx)
  case children => exact fun x hx hnone => (hkids hx).trans (hmade.children x hx hnone)
  case texts =>
    intro x text hx htext
    exact (hmade.texts x text hx htext).congr (hkids hx) fun v hcontent =>
      (h.content v (has_of_content hcontent)).trans hcontent

/-! ## Laden trees -/

/-- What a tree shows after items have come in: each is made from what the beginning `t` holds, and
    all stand in their places; otherwise there are new nodes at most. -/
structure Laden (t : Tree) (items : List Item) (t' : Tree) : Prop where
  wellFormed : t'.WellFormed
  content : ∀ x, t.Has x → t'.content? x = t.content? x
  parent : ∀ x, t.Has x → t'.parent? x = t.parent? x
  children : ∀ x, t.Has x → t'.children x = ladenChildren t items x
  made : ∀ item ∈ items, ∀ s ∈ t.children item.plan.source,
    Made t s (item.texts t) item.plan.identifier item.counter t' item.copy
  holds : ∀ a b, t'.Holds a b → t.Holds a b ∨ ¬ t.Has b ∧ a.Precedes b

namespace Laden

theorem nil (ht : t.WellFormed) : Laden t [] t where
  wellFormed := ht
  content _ _ := rfl
  parent _ _ := rfl
  children x _ := (ladenChildren_of_apart (by simp)).symm
  made := by simp
  holds _ _ := .inl

theorem has (h : Laden t items t₁) (hx : t.Has x) : t₁.Has x := by
  obtain ⟨content, hcontent⟩ := has_iff_content.1 hx
  exact has_of_content ((h.content x hx).trans hcontent)

theorem size_le (h : Laden t items t₁) : t.size ≤ t₁.size := by
  by_contra hlt
  exact Nat.lt_irrefl _ (has_slot.1 (h.has (has_slot.2 (Nat.lt_of_not_le hlt))))

theorem new_of_newcomer (h : Laden t items t₁) (hx : x ∈ newcomers t items spot) : ¬ t.Has x := by
  obtain ⟨item, hitem, hx⟩ := List.mem_flatMap.1 hx
  obtain ⟨s, hs, rfl⟩ := List.mem_map.1 hx
  exact (h.made item (List.mem_of_mem_filter hitem) s hs).new s .refl

/-- Nothing that was there at the beginning is below a new node. -/
theorem new_below (h : Laden t items t₁) (ht : t.WellFormed) (hx : ¬ t.Has x)
    (hxy : t₁.AtOrAbove x y) : ¬ t.Has y := by
  induction hxy with
  | refl => exact hx
  | tail _ hparent ih => exact fun hy => ih (ht.has_parent ((h.parent _ hy).symm.trans hparent))

/-- New nodes hold no nodes that were there at the beginning, and are held in the order in which
    they have come. -/
theorem holds_widened {P : NodeId → Prop} (h : Laden t items t₁) (hwide : Widened t₁ P t₂)
    {a b : NodeId} (hab : t₂.Holds a b) : t.Holds a b ∨ ¬ t.Has b ∧ a.Precedes b := by
  by_cases hb : t.Has b
  · exact h.holds a b (hwide.holds_old (h.has hb) hab)
  · rcases hwide.ranked a b hab with hold | hprecedes
    · exact h.holds a b hold
    · exact .inr ⟨hb, hprecedes⟩

theorem made_widened {P : NodeId → Prop} (h : Laden t items t₁) (ht : t.WellFormed)
    (hwide : Widened t₁ P t₂) (hP : ∀ x, P x → t.Has x) (hitem : item ∈ items)
    (hs : s ∈ t.children item.plan.source) :
    Made t s (item.texts t) item.plan.identifier item.counter t₂ item.copy :=
  hwide.made hP (h.made item hitem s hs) ht (ht.has_of_child hs)

/-- An addition that fails brings nothing in. -/
theorem of_extends (h : Laden t items t₁) (ht : t.WellFormed) (hext : t₁.Extends t₂)
    (h₂ : t₂.WellFormed) : Laden t items t₂ where
  wellFormed := h₂
  content x hx := (hext.content? (h.has hx)).trans (h.content x hx)
  parent x hx := (hext.parent? (h.has hx)).trans (h.parent x hx)
  children x hx := (hext.children (h.has hx)).trans (h.children x hx)
  made _ hitem _ hs := h.made_widened ht (.of_extends hext h₂) (by simp) hitem hs
  holds _ _ := h.holds_widened (.of_extends hext h₂)

end Laden

/-! ## Where nothing has come in -/

/-- Whether a tree shows what `g` encloses as it was. -/
def Untouched (t : Tree) (g : NodeId) (t' : Tree) : Prop :=
  ∀ x, t.AtOrEncloses g x → t'.content? x = t.content? x ∧ t'.children x = t.children x

theorem Laden.untouched (h : Laden t items t₁) (ht : t.WellFormed) (hg : t.Has g)
    (hclear : ∀ item ∈ items, ¬ t.AtOrEncloses g item.plan.place) : Untouched t g t₁ := by
  intro x hx
  have hhas := ht.has_atOrEnclosed hx hg
  refine ⟨h.content x hhas, (h.children x hhas).trans (ladenChildren_of_apart ?_)⟩
  exact fun item hitem hplace => hclear item hitem (hplace ▸ hx)

namespace Untouched

theorem isomorphism (h : Untouched t g t₁) (ht : t.WellFormed) (h₁ : t₁.WellFormed) :
    t.Isomorphism g t₁ g id :=
  isomorphism_id ht h₁ (fun x hx => (h x hx).1) fun x hx => (h x hx).2

theorem sequencesReady (h : Untouched t g t₁) (ht : t.WellFormed) (h₁ : t₁.WellFormed)
    (hg : t.Has g) : sequencesReady t₁ g = sequencesReady t g :=
  CopyOf.sequencesReady_eq (h.isomorphism ht h₁) ht h₁ hg

/-- The texts of an item depend on its template only. -/
theorem itemTexts (h : Untouched t g t₁) (ht : t.WellFormed) (h₁ : t₁.WellFormed)
    (hg : t.Has g) (counter : Nat) (data : List (String × String)) :
    itemTexts t₁ g counter data = itemTexts t g counter data := by
  have hcarried : ∀ texts, carried id texts = texts := List.map_id
  have hwithin : Within t g (numbering t g counter) := within_numbering ht
  have hnumbering : numbering t₁ g counter = numbering t g counter :=
    (CopyOf.numbering_eq (h.isomorphism ht h₁) ht h₁ hg).trans (hcarried _)
  have hfillings := CopyOf.fillings_eq (h.isomorphism ht h₁) ht h₁ hg hwithin data
  rw [hcarried, hcarried] at hfillings
  rw [Scope.itemTexts, hnumbering, hfillings, Scope.itemTexts]

theorem shows {texts : List (NodeId × String)} (h : Untouched t g t₁) (ht : t.WellFormed)
    (h₁ : t₁.WellFormed) (hs : t.AtOrEncloses g s) (hx : Shows t texts s x) :
    Shows t₁ texts s x := by
  induction hx with
  | refl => exact .refl
  | @tail a b ha hstep ih =>
    obtain ⟨hcontent, hkids⟩ := h a (hs.trans (Shows.atOrEncloses ha))
    refine ih.tail (hstep.imp (fun hparent => ⟨hparent.1, h₁.parent_of_child ?_⟩) ?_)
    · rw [hkids]
      exact ht.child_of_parent hparent.2
    · exact (contents?_congr hcontent).trans

/-- What has been made from a template has been made from what it was. -/
theorem made {texts : List (NodeId × String)} {identifier : String} (h : Untouched t g t₁)
    (ht : t.WellFormed) (h₁ : t₁.WellFormed) (hhas : ∀ x, t.Has x → t₁.Has x)
    (hs : t.AtOrEncloses g s) (hmade : Made t₁ s texts identifier counter t₂ φ) :
    Made t s texts identifier counter t₂ φ := by
  have hshown : ∀ {x}, Shows t texts s x → Shows t₁ texts s x := h.shows ht h₁ hs
  constructor
  case new => exact fun x hx hold => hmade.new x (hshown hx) (hhas _ hold)
  case injective => exact fun x y hx hy => hmade.injective x y (hshown hx) (hshown hy)
  case content =>
    intro x hx
    rw [hmade.content x (hshown hx), (h x (hs.trans hx.atOrEncloses)).1]
  case children =>
    intro x hx hnone
    rw [hmade.children x (hshown hx) hnone, (h x (hs.trans hx.atOrEncloses)).2]
  case texts => exact fun x text hx => hmade.texts x text (hshown hx)

end Untouched

/-! ## One more item -/

/-- What a plan needs so that an item can come in by it. -/
structure Plan.Fits (plan : Plan) (t : Tree) : Prop where
  source : t.Has plan.source
  place : t.Has plan.place
  reference : ∀ r, plan.reference = some r → t.parent? r = some plan.place

/-- An addition that goes through brings its item in. -/
theorem Laden.gain (h : Laden t items t₁) (ht : t.WellFormed) (hfits : plan.Fits t)
    (huntouched : Untouched t plan.source t₁)
    (hgained : Gained t₁ plan.source (itemTexts t₁ plan.source counter plan.data) plan.identifier
      counter plan.place plan.reference t₂ φ) :
    Laden t (items ++ [⟨plan, counter, φ⟩]) t₂ := by
  have hwide := Widened.of_gained hgained
  have hplace : ∀ x, x = plan.place → t.Has x := fun x hx => hx ▸ hfits.place
  have hsources := (huntouched plan.source (.refl t _)).2
  constructor
  case wellFormed => exact hgained.wellFormed
  case content => exact fun x hx => (hwide.content x (h.has hx)).trans (h.content x hx)
  case parent => exact fun x hx => (hwide.parent x (h.has hx)).trans (h.parent x hx)
  case children =>
    intro x hx
    by_cases hxp : x = plan.place
    · subst hxp
      rw [hgained.children, hsources, h.children _ hx]
      exact (ladenChildren_concat ⟨plan, counter, φ⟩ ht hfits.reference
        fun spot x => h.new_of_newcomer).symm
    · rw [hwide.children x (h.has hx) hxp, h.children x hx]
      exact (ladenChildren_concat_other (Ne.symm hxp)).symm
  case made =>
    intro item hitem s hs
    rcases List.mem_append.1 hitem with hitem | hitem
    · exact h.made_widened ht hwide hplace hitem hs
    · obtain rfl := List.mem_singleton.1 hitem
      have hmade := (hgained.item s (hsources ▸ hs)).2
      rw [huntouched.itemTexts ht h.wellFormed hfits.source] at hmade
      exact huntouched.made ht h.wellFormed (fun x => h.has)
        (encloses_of_parent (ht.parent_of_child hs)).atOrEncloses hmade
  case holds => exact fun a b => h.holds_widened hwide

/-! ## What is printed -/

/-- What a node encloses that was there at the beginning it has enclosed at the beginning, and what
    has come in encloses only what came later. -/
theorem Laden.encloses (h : Laden t items t₁) (ht : t.WellFormed) (hxy : t₁.Encloses x y) :
    t.Encloses x y ∨ ¬ t.Has y ∧ (t.Has x ∨ x.Precedes y) := by
  induction hxy with
  | single hxy =>
    exact (h.holds _ _ hxy).imp Relation.TransGen.single fun hnew => ⟨hnew.1, .inr hnew.2⟩
  | tail _ hstep ih =>
    rcases h.holds _ _ hstep with hold | ⟨hnew, hprecedes⟩
    · rcases ih with hab | ⟨hb, -⟩
      · exact .inl (hab.tail hold)
      · exact absurd (ht.has_holder hold) hb
    · refine .inr ⟨hnew, ?_⟩
      rcases ih with hab | ⟨-, hb | hb⟩
      · exact .inl (ht.has_encloses hab)
      · exact .inl hb
      · exact .inr (hb.trans hprecedes)

/-- No template holds itself for an item that has come in. -/
theorem Laden.groundedFrom (h : Laden t items t₁) (ht : t.WellFormed)
    (hgrounded : t.GroundedFrom x) : t₁.GroundedFrom x := by
  intro y hxy hyy
  rcases h.encloses ht hyy with hold | ⟨hnew, hhas | hprecedes⟩
  · refine hgrounded y ?_ hold
    rcases Relation.reflTransGen_iff_eq_or_transGen.1 hxy with rfl | hxy
    · exact .refl t y
    · rcases h.encloses ht hxy with hxy | ⟨hnew, -⟩
      · exact hxy.atOrEncloses
      · exact absurd (ht.has_encloses hold) hnew
  · exact hnew hhas
  · exact NodeId.Precedes.irrefl y hprecedes

/-- Pairs of nodes that look alike in two trees laden in the same way: what was there at the
    beginning, the copies of one node, and the texts that two of these hold. -/
inductive Alike (t : Tree) (items : List Item) (t₁ : Tree) (items' : List Item) (t₂ : Tree) :
    NodeId → NodeId → Prop where
  | old {x : NodeId} (hx : t.Has x) : Alike t items t₁ items' t₂ x x
  | copies {plan : Plan} {counter : Nat} {φ ψ : NodeId → NodeId} {s x : NodeId}
      (hitem : ⟨plan, counter, φ⟩ ∈ items) (hitem' : ⟨plan, counter, ψ⟩ ∈ items')
      (hs : s ∈ t.children plan.source)
      (hx : Shows t (itemTexts t plan.source counter plan.data) s x) :
      Alike t items t₁ items' t₂ (φ x) (ψ x)
  | texts {x y : NodeId} {text : String} (hx : t₁.content? x = some (.text text))
      (hy : t₂.content? y = some (.text text)) : Alike t items t₁ items' t₂ x y

theorem forall₂_of_map_eq {α β : Type} {f : α → β} {l l' : List α} (h : l.map f = l'.map f) :
    List.Forall₂ (fun a b => a ∈ l ∧ b ∈ l' ∧ f a = f b) l l' := by
  have hsame : List.Forall₂ (fun a b => f a = f b) l l' := by
    rw [← List.forall₂_map_left_iff (R := fun a b => a = f b), ← List.forall₂_map_right_iff, h]
    exact List.forall₂_same.2 fun _ _ => rfl
  refine (List.forall₂_and_left l l').2 ⟨fun _ ha => ha, List.Forall₂.flip ?_⟩
  exact (List.forall₂_and_left l' l).2 ⟨fun _ hb => hb, hsame.flip⟩

theorem newcomers_alike (hsame : SameOrders items items') (spot : NodeId × Option NodeId) :
    List.Forall₂ (Alike t items t₁ items' t₂) (newcomers t items spot)
      (newcomers t items' spot) := by
  refine List.rel_flatMap (forall₂_of_map_eq (hsame spot)) ?_
  rintro ⟨plan, counter, φ⟩ ⟨_, _, ψ⟩ ⟨hitem, hitem', ⟨⟩⟩
  refine List.forall₂_map_left_iff.2 (List.forall₂_map_right_iff.2 (List.forall₂_same.2 ?_))
  exact fun s hs =>
    .copies (List.mem_of_mem_filter hitem) (List.mem_of_mem_filter hitem') hs .refl

theorem ladenChildren_alike (ht : t.WellFormed) (hsame : SameOrders items items') (x : NodeId) :
    List.Forall₂ (Alike t items t₁ items' t₂) (ladenChildren t items x)
      (ladenChildren t items' x) := by
  have hkids : List.Forall₂ (fun c c' => t.Has c ∧ c = c') (t.children x) (t.children x) :=
    List.forall₂_same.2 fun c hc => ⟨ht.has_of_child hc, rfl⟩
  refine List.rel_append (List.rel_flatMap hkids ?_) (newcomers_alike hsame _)
  rintro c _ ⟨hc, rfl⟩
  exact List.rel_append (newcomers_alike hsame _) (.cons (.old hc) .nil)

theorem bare_madeContent (identifier : String) (counter : Nat) (φ ψ : NodeId → NodeId)
    (content : Option Content) :
    (content.map (madeContent identifier counter φ)).map Content.bare =
      (content.map (madeContent identifier counter ψ)).map Content.bare := by
  rcases content with _ | ⟨_ | _ | e | s | s | s⟩ <;> rfl

theorem contents?_made {texts : List (NodeId × String)} {identifier : String}
    (h : Made t s texts identifier counter t₁ φ) (hx : Shows t texts s x) :
    t₁.contents? (φ x) = (t.contents? x).map φ := by
  unfold Tree.contents? Tree.element?
  rw [h.content x hx]
  rcases t.content? x with _ | content
  · rfl
  · cases content <;> rfl

/-- Trees that are laden in the same way look alike. -/
theorem Laden.likeness (h₁ : Laden t items t₁) (h₂ : Laden t items' t₂) (ht : t.WellFormed)
    (hsame : SameOrders items items') : Likeness t₁ t₂ (Alike t items t₁ items' t₂) := by
  constructor
  case bare =>
    rintro _ _ (hx | ⟨hitem, hitem', hs, hx⟩ | ⟨hx, hy⟩)
    · rw [h₁.content _ hx, h₂.content _ hx]
    · rw [(h₁.made _ hitem _ hs).content _ hx, (h₂.made _ hitem' _ hs).content _ hx]
      exact bare_madeContent _ _ _ _ _
    · rw [hx, hy]
  case children =>
    rintro _ _ (hx | @⟨plan, counter, φ, ψ, s, x, hitem, hitem', hs, hx⟩ | ⟨hx, hy⟩)
    · rw [h₁.children _ hx, h₂.children _ hx]
      exact ladenChildren_alike ht hsame _
    · have hmade := h₁.made _ hitem _ hs
      have hmade' := h₂.made _ hitem' _ hs
      rcases htext : lastText? (itemTexts t plan.source counter plan.data) x with _ | text
      · rw [hmade.children x hx htext, hmade'.children x hx htext]
        refine List.forall₂_map_left_iff.2 (List.forall₂_map_right_iff.2 (List.forall₂_same.2 ?_))
        exact fun y hy =>
          .copies hitem hitem' hs (hx.tail (.inl ⟨htext, ht.parent_of_child hy⟩))
      · exact (hmade.texts x text hx htext).forall₂ (hmade'.texts x text hx htext)
          fun _ _ => .texts
    · rw [(text_holds_nothing h₁.wellFormed hx).1, (text_holds_nothing h₂.wellFormed hy).1]
      exact .nil
  case contents =>
    rintro _ _ (hx | ⟨hitem, hitem', hs, hx⟩ | ⟨hx, hy⟩)
    · rw [contents?_congr (h₁.content _ hx), contents?_congr (h₂.content _ hx)]
      rcases hf : t.contents? _ with _ | f
      · exact .none
      · exact .some (.old (ht.has_contents hf))
    · rw [contents?_made (h₁.made _ hitem _ hs) hx, contents?_made (h₂.made _ hitem' _ hs) hx]
      rcases hf : t.contents? _ with _ | f
      · exact .none
      · exact .some (.copies hitem hitem' hs (hx.tail (.inr hf)))
    · rw [(text_holds_nothing h₁.wellFormed hx).2, (text_holds_nothing h₂.wellFormed hy).2]
      exact .none

/-- Trees that are laden in the same way are printed alike. -/
theorem Laden.outer_eq (h₁ : Laden t items t₁) (h₂ : Laden t items' t₂) (ht : t.WellFormed)
    (hgrounded : t.Grounded) (hsame : SameOrders items items') (hx : t.Has x) (style : Style) :
    outer t₂ x style = outer t₁ x style :=
  outer_of_shape h₁.wellFormed h₂.wellFormed (h₁.groundedFrom ht (hgrounded.groundedFrom x))
    (h₂.groundedFrom ht (hgrounded.groundedFrom x)) (h₁.has hx) (h₂.has hx)
    ((h₁.likeness h₂ ht hsame).shape_eq (.old hx)) style

end Scope

end Repeater
