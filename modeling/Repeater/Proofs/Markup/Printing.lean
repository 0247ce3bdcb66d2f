/-
  Repeater/Proofs/Markup/Printing.lean
  ====================================
  **What is printed of a copy.**

  The printer reads of a node what it says, its children and the contents of a template, and nothing
  else; in particular it never reads an id. Nodes with one inside therefore print alike
  (`nodePieces_isomorphic`). The limit on the depth plays no part as long as the node does not nest
  deeper, which is why two trees of different size can be compared.

  The last section puts together what a deep copy is: where no template holds itself it can always
  be made, it is new throughout and detached, has the inside of its original, leaves every node that
  was there alone, links included, and is printed as its original is (`Edit.copy_isomorphic`).
-/
import Repeater.Proofs.Dom.Isomorphisms
import Repeater.Proofs.Dom.Construction
import Repeater.Markup.Printer

namespace Repeater.Markup

open Dom Dom.Tree

variable {t t' : Tree} {s c x : NodeId} {φ : NodeId → NodeId} {limit limit' : Nat}

/-! ## Nodes with one inside -/

theorem texts_isomorphic (h : t.WellFormed) (hφ : t.Isomorphism s t' c φ)
    (hx : t.AtOrEncloses s x) :
    (t'.children (φ x)).filterMap t'.text? = (t.children x).filterMap t.text? := by
  rw [hφ.children hx, List.filterMap_map]
  refine List.filterMap_congr fun y hy => ?_
  exact hφ.text?_eq (hx.trans (encloses_of_parent (h.parent_of_child hy)).atOrEncloses)

theorem nodePieces_isomorphic (h : t.WellFormed) (hg : t.GroundedFrom s) (hs : t.Has s)
    (hφ : t.Isomorphism s t' c φ) (hx : t.AtOrEncloses s x) (hlimit : t.spread x ≤ limit)
    (hlimit' : t.spread x ≤ limit') (depth : Nat) :
    nodePieces t' limit' depth (φ x) = nodePieces t limit depth x := by
  have hpos : ∀ {y}, t.AtOrEncloses s y → 0 < t.spread y :=
    fun hy => spread_pos (h.has_atOrEnclosed hy hs)
  induction limit generalizing limit' x depth with
  | zero =>
    have := hpos hx
    omega
  | succ limit ih =>
    obtain _ | limit' := limit'
    · have := hpos hx
      omega
    -- the children of what `x` is or holds nest less deep than `x`
    have hkids : ∀ {y} (depth : Nat), t.AtOrEncloses x y →
        (t'.children (φ y)).flatMap (nodePieces t' limit' depth) =
          (t.children y).flatMap (nodePieces t limit depth) := by
      intro y depth hxy
      rw [hφ.children (hx.trans hxy), List.flatMap_map]
      refine List.flatMap_congr fun kid hkid => ?_
      have henclosed : t.Encloses x kid :=
        hxy.trans_encloses (encloses_of_parent (h.parent_of_child hkid))
      have hspread := spread_lt h (hg.enclosed hx) henclosed
      apply ih (hx.trans henclosed.atOrEncloses)
      · omega
      · omega
    obtain ⟨content, hcontent⟩ := has_iff_content.1 (h.has_atOrEnclosed hx hs)
    rcases he : t.element? x with _ | e
    · have hcontent' := (hφ.content_of_plain hx he).trans hcontent
      cases content with
      | element e =>
        rw [element?_eq_some.2 hcontent] at he
        cases he
      | document => simp only [nodePieces, hcontent, hcontent', hkids depth (.refl t x)]
      | fragment => simp only [nodePieces, hcontent, hcontent', hkids depth (.refl t x)]
      | text | comment | doctype => simp only [nodePieces, hcontent, hcontent']
    · obtain ⟨e', he', htag, hattributes, hcontents⟩ := hφ.element_of_element hx he
      have hholder : e'.contents.getD (φ x) = φ (e.contents.getD x) := by
        rw [hcontents]
        cases e.contents <;> rfl
      have hinside : t.AtOrEncloses x (e.contents.getD x) := by
        rcases hf : e.contents with _ | f
        · exact .refl t x
        · exact (encloses_of_contents
            (contents?_eq_some.2 ⟨e, element?_eq_some.1 he, hf⟩)).atOrEncloses
      have hstart : startTag e' = startTag e := by simp only [startTag, htag, hattributes]
      have hend : endTag e' = endTag e := by simp only [endTag, htag]
      simp only [nodePieces, element?_eq_some.1 he, element?_eq_some.1 he', htag, hstart, hend,
        hholder, hkids (depth + 1) hinside, texts_isomorphic h hφ (hx.trans hinside),
        hφ.elementChildren_eq h (hx.trans hinside), List.isEmpty_map]

/-- Nodes with one inside are printed alike. -/
theorem outer_isomorphic (h : t.WellFormed) (hg : t.GroundedFrom s) (hs : t.Has s)
    (hsize : t.size ≤ t'.size) (hφ : t.Isomorphism s t' c φ) (style : Style) :
    outer t' c style = outer t s style := by
  have hspread := spread_le_size t s
  rw [outer, outer, outerPieces, outerPieces, ← hφ.root,
    nodePieces_isomorphic h hg hs hφ (.refl t s) hspread (hspread.trans hsize)]

/-- Nodes of one shape are printed alike, whatever else there is in the two trees. -/
theorem outer_of_shape (h : t.WellFormed) (h' : t'.WellFormed) (hg : t.GroundedFrom s)
    (hg' : t'.GroundedFrom c) (hs : t.Has s) (hc : t'.Has c) (hshape : t'.shape c = t.shape s)
    (style : Style) : outer t' c style = outer t s style := by
  rcases Nat.le_total t.size t'.size with hsize | hsize
  · obtain ⟨φ, hφ⟩ := exists_isomorphism h h' hg hg' hs hc hshape
    exact outer_isomorphic h hg hs hsize hφ style
  · obtain ⟨φ, hφ⟩ := exists_isomorphism h' h hg' hg hc hs hshape.symm
    exact (outer_isomorphic h' hg' hc hsize hφ style).symm

end Repeater.Markup

namespace Repeater.Dom

open Tree

variable {t t' : Tree} {s c x : NodeId}

namespace Tree

/-! ## Deep copies -/

/-- Nodes that were there keep their links. -/
theorem Extends.links (h : t.Extends t') (ht : t.WellFormed) (hx : t.Has x) :
    t'.links.get? x = t.links.get? x := by
  have hsibling : ∀ arrange, t'.siblingIn? arrange x = t.siblingIn? arrange x := by
    intro arrange
    unfold siblingIn?
    rw [h.parent? hx]
    exact Option.bind_congr fun p hp => by rw [h.children (ht.has_parent hp)]
  have hprevious : t'.previousSibling? x = t.previousSibling? x := hsibling List.reverse
  have hnext : t'.nextSibling? x = t.nextSibling? x := hsibling id
  rw [get?_links, get?_links, h.old hx]
  refine Option.map_congr fun n _ => ?_
  rw [linkedNode, linkedNode, hprevious, hnext]

/-- A node that was there keeps its inside. -/
theorem Extends.isomorphism (h : t.Extends t') (ht : t.WellFormed) (ht' : t'.WellFormed)
    (hs : t.Has s) : t.Isomorphism s t' s id :=
  isomorphism_id ht ht' (fun _ hx => h.content? (ht.has_atOrEnclosed hx hs))
    fun _ hx => h.children (ht.has_atOrEnclosed hx hs)

/-- What a tree shows of a deep copy `c` of `s` that was made in the tree `t`. -/
structure Reproduced (t : Tree) (s : NodeId) (t' : Tree) (c : NodeId) : Prop where
  wellFormed : t'.WellFormed
  detached : t'.parent? c = none
  free : ∀ x, t'.contents? x ≠ some c
  new : ∀ x, t'.AtOrEncloses c x → ∃ i, t.size ≤ i ∧ x = .slot i
  inside : ∃ φ, t.Isomorphism s t' c φ
  old : ∀ x, t.Has x → t'.get? x = t.get? x
  links : ∀ x, t.Has x → t'.links.get? x = t.links.get? x

theorem reproduced_of_copied (h : t.WellFormed) (hg : t.GroundedFrom s) (h' : t'.WellFormed)
    (hext : t.Extends t') (hcopied : t.Copied s true t' c) : t.Reproduced s t' c := by
  have hc : ¬ t.Has c := hcopied.new ▸ not_has_new t
  constructor
  case wellFormed => exact h'
  case detached => exact hcopied.parent
  case free => exact hcopied.free
  case new =>
    intro x hx
    obtain ⟨i, -, rfl⟩ := has_iff_slot.1 (h'.has_atOrEnclosed hx hcopied.has)
    have hnew := hext.new_encloses h h' hc hx
    rw [has_slot] at hnew
    exact ⟨i, by omega, rfl⟩
  case inside =>
    exact exists_isomorphism h h' hg (hext.groundedFrom_new h h' hc) hcopied.original hcopied.has
      (hcopied.shape rfl)
  case old => exact fun x hx => hext.old hx
  case links => exact fun x hx => hext.links h hx

end Tree

/-- Where no template holds itself, every node can be copied with all it encloses. The copy is new
    throughout and detached and has the inside of its original; what was there before stays as it
    was. The copy and the original are printed as the original was before. -/
theorem Edit.copy_reproduces (h : t.WellFormed) (hg : t.Grounded) (hs : t.Has s) :
    ∃ c t', exec (Edit.copy s true) t = (.ok c, t') ∧
      exec (LinkEdit.copy s true) t.links = (.ok c, t'.links) ∧ t.Reproduced s t' c ∧
      ∀ style, Markup.outer t' c style = Markup.outer t s style ∧
        Markup.outer t' s style = Markup.outer t s style := by
  obtain ⟨c, t', hrun, -⟩ := exec_copy_grounded h (hg.groundedFrom s) hs true
  obtain ⟨_, _, hrun', hwf, hext, hcopied⟩ := exec_copy h s true
  obtain ⟨rfl, rfl⟩ := Prod.mk.injEq .. ▸ hrun.symm.trans hrun'
  have hreproduced := reproduced_of_copied h (hg.groundedFrom s) hwf hext (hcopied c rfl)
  refine ⟨c, t', hrun, ?_, hreproduced, fun style => ?_⟩
  · rw [(Mirrors.copy s true t h.tidy).2, hrun]
  · have hprinted : ∀ {c φ}, t.Isomorphism s t' c φ →
        Markup.outer t' c style = Markup.outer t s style :=
      fun hφ => Markup.outer_isomorphic h (hg.groundedFrom s) hs hext.size_le hφ style
    obtain ⟨φ, hφ⟩ := hreproduced.inside
    exact ⟨hprinted hφ, hprinted (hext.isomorphism h hwf hs)⟩

/-- A template in the contents of another, beside a text. -/
def nestEdits : List Operation :=
  [.createElement "template", .createElement "template", .createElement "li", .createText "item",
    .setAttribute (.slot 1) "id" "rows", .insert (.slot 2) (.slot 6) none,
    .insert (.slot 2) (.slot 3) none, .insert (.slot 4) (.slot 5) none]

theorem Edit.copy_reproduces_nest :
    let nest := Tree.empty.after nestEdits
    nest.WellFormed ∧ nest.Grounded ∧ nest.Has (.slot 1) ∧
      ∃ t', exec (Edit.copy (.slot 1) true) nest = (.ok (.slot 7), t') ∧
        nest.Reproduced (.slot 1) t' (.slot 7) ∧
        (∀ style, Markup.outer t' (.slot 7) style = Markup.outer nest (.slot 1) style ∧
          Markup.outer t' (.slot 1) style = Markup.outer nest (.slot 1) style) ∧
        t'.contents? (.slot 7) = some (.slot 8) ∧ t'.children (.slot 8) = [.slot 9, .slot 10] ∧
        t'.contents? (.slot 10) = some (.slot 11) ∧ t'.children (.slot 11) = [.slot 12] := by
  intro nest
  have hwf : nest.WellFormed := (edited_after Tree.empty nestEdits).wellFormed wellFormed_empty
  have hgrounded : nest.Grounded := InOrder.grounded (by decide +kernel)
  have hhas : nest.Has (.slot 1) := by decide +kernel
  have hafter : ∃ t', exec (Edit.copy (.slot 1) true) nest = (.ok (.slot 7), t') ∧
      t'.contents? (.slot 7) = some (.slot 8) ∧ t'.children (.slot 8) = [.slot 9, .slot 10] ∧
      t'.contents? (.slot 10) = some (.slot 11) ∧ t'.children (.slot 11) = [.slot 12] :=
    ⟨(exec (Edit.copy (.slot 1) true) nest).2, by decide +kernel⟩
  obtain ⟨t', hrun, hinside⟩ := hafter
  obtain ⟨c, _, hrun', -, hreproduced, hprinted⟩ := copy_reproduces hwf hgrounded hhas
  obtain ⟨⟨⟩, rfl⟩ := Prod.mk.injEq .. ▸ hrun.symm.trans hrun'
  exact ⟨hwf, hgrounded, hhas, t', hrun, hreproduced, hprinted, hinside⟩

end Repeater.Dom
