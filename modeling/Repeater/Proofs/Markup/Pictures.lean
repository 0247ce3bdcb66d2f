/-
  Repeater/Proofs/Markup/Pictures.lean
  ====================================
  **Parse trees as pictures of nodes.**

  A parse tree is a picture of a node when it says what the node says and has pictures of the
  children and of the contents of a template, in order (`ParseNode.Depicts`). Ids do not occur in a
  picture. Where no template holds itself and every template has contents, each node that is no
  document and no fragment has a picture (`exists_depicts`), and nodes with one picture have one
  shape (`shape_of_depicts`).
-/
import Repeater.Markup.ParseTree
import Repeater.Proofs.Dom.Shapes

namespace Repeater.Markup

open Dom Dom.Tree

variable {t t' : Tree} {x x' : NodeId} {ids ids' : List NodeId} {limit : Nat}

/-! ## Pictures -/

mutual

/-- The node says and holds what the parse tree says and holds. -/
def ParseNode.Depicts (t : Tree) : ParseNode → NodeId → Prop
  | .doctype name, x => t.content? x = some (.doctype name)
  | .text s, x => t.content? x = some (.text s)
  | .comment s, x => t.content? x = some (.comment s)
  | .instruction _, _ => False
  | .element name attributes contents children, x =>
    ∃ holder, t.content? x = some (.element ⟨name, attributes, holder⟩) ∧
      holder.isSome = (name == "template") ∧ DepictAll t contents (holder.elim [] t.children) ∧
      DepictAll t children (t.children x)

/-- The parse trees are pictures of the nodes, one by one. -/
def DepictAll (t : Tree) : List ParseNode → List NodeId → Prop
  | [], ids => ids = []
  | node :: nodes, ids => ∃ x rest, ids = x :: rest ∧ node.Depicts t x ∧ DepictAll t nodes rest

end

theorem depictAll_cons {node : ParseNode} {nodes : List ParseNode} :
    DepictAll t (node :: nodes) (x :: ids) ↔ node.Depicts t x ∧ DepictAll t nodes ids := by
  simp only [DepictAll, List.cons.injEq]
  constructor
  · rintro ⟨_, _, ⟨rfl, rfl⟩, hdepicts⟩
    exact hdepicts
  · exact fun hdepicts => ⟨x, ids, ⟨rfl, rfl⟩, hdepicts⟩

theorem depictAll_nil {nodes : List ParseNode} : DepictAll t nodes [] ↔ nodes = [] := by
  cases nodes <;> simp [DepictAll]

theorem ParseNode.Depicts.has {node : ParseNode} (h : node.Depicts t x) : t.Has x := by
  cases node with
  | doctype name | text s | comment s =>
    simp only [ParseNode.Depicts] at h
    exact has_of_content h
  | instruction s => simp only [ParseNode.Depicts] at h
  | element name attributes contents children =>
    simp only [ParseNode.Depicts] at h
    obtain ⟨holder, hcontent, -⟩ := h
    exact has_of_content hcontent

theorem exists_depictAll (h : ∀ x ∈ ids, ∃ node : ParseNode, node.Depicts t x) :
    ∃ nodes, DepictAll t nodes ids := by
  induction ids with
  | nil => exact ⟨[], rfl⟩
  | cons x ids ih =>
    obtain ⟨node, hnode⟩ := h x List.mem_cons_self
    obtain ⟨nodes, hnodes⟩ := ih fun y hy => h y (List.mem_cons_of_mem x hy)
    exact ⟨node :: nodes, depictAll_cons.2 ⟨hnode, hnodes⟩⟩

/-- Nothing inside a node lacks a picture: there is no document, and every template has
    contents. -/
def Drawable (t : Tree) (x : NodeId) : Prop :=
  ∀ y, t.AtOrEncloses x y → ∃ content, t.content? y = some content ∧ content ≠ .document ∧
    ∀ e, content = .element e → e.isTemplate → e.contents.isSome

theorem Drawable.enclosed (h : Drawable t x) {y : NodeId} (hxy : t.AtOrEncloses x y) :
    Drawable t y := fun z hyz => h z (hxy.trans hyz)

/-- A node that is no fragment has a picture. -/
theorem exists_depicts (h : t.WellFormed) (hg : t.GroundedFrom x) (hx : Drawable t x)
    (hfragment : t.content? x ≠ some .fragment) : ∃ node : ParseNode, node.Depicts t x := by
  generalize hlimit : t.spread x = limit
  induction limit using Nat.strong_induction_on generalizing x with
  | _ limit ih =>
    have hkids : ∀ y, t.AtOrEncloses x y → ∃ nodes, DepictAll t nodes (t.children y) := by
      intro y hxy
      refine exists_depictAll fun kid hkid => ?_
      have hparent := h.parent_of_child hkid
      have henclosed : t.Encloses x kid := hxy.trans_encloses (encloses_of_parent hparent)
      have hspread : t.spread kid < limit := hlimit ▸ spread_lt h hg henclosed
      refine ih _ hspread (hg.enclosed henclosed.atOrEncloses)
        (hx.enclosed henclosed.atOrEncloses) ?_ rfl
      intro hkid
      rw [h.fragment_parent hkid] at hparent
      cases hparent
    obtain ⟨content, hcontent, hdocument, hfurnished⟩ := hx x (.refl t x)
    cases content with
    | document => exact absurd rfl hdocument
    | fragment => exact absurd hcontent hfragment
    | doctype name => exact ⟨.doctype name, hcontent⟩
    | text s => exact ⟨.text s, hcontent⟩
    | comment s => exact ⟨.comment s, hcontent⟩
    | element e =>
      obtain ⟨children, hchildren⟩ := hkids x (.refl t x)
      obtain ⟨contents, hcontents⟩ :
          ∃ contents, DepictAll t contents (e.contents.elim [] t.children) := by
        rcases hf : e.contents with _ | f
        · exact ⟨[], rfl⟩
        · have hheld : t.contents? x = some f := contents?_eq_some.2 ⟨e, hcontent, hf⟩
          exact hkids f (encloses_of_contents hheld).atOrEncloses
      have htemplate : e.contents.isSome = (e.tag == "template") := by
        refine Bool.eq_iff_iff.2 ⟨?_, hfurnished e rfl⟩
        exact h.contents_template (element?_eq_some.2 hcontent)
      exact ⟨.element e.tag e.attributes contents children,
        ⟨e.contents, hcontent, htemplate, hcontents, hchildren⟩⟩

/-! ## Nodes with one picture -/

/-- Elements that say the same and have children of the same shapes, and contents with children of
    the same shapes, have one shape. -/
theorem shape_of_held (h : t.WellFormed) (h' : t'.WellFormed) {tag : String}
    {attributes : List Attribute} {holder holder' : Option NodeId}
    (hx : t.content? x = some (.element ⟨tag, attributes, holder⟩))
    (hx' : t'.content? x' = some (.element ⟨tag, attributes, holder'⟩))
    (hholder : holder.isSome = holder'.isSome)
    (hcontents : (holder.elim [] t.children).map t.shape =
      (holder'.elim [] t'.children).map t'.shape)
    (hchildren : (t.children x).map t.shape = (t'.children x').map t'.shape) :
    t.shape x = t'.shape x' := by
  -- nodes whose children have the same shapes are the same below their children
  have hbelow : ∀ {y y'}, (t.children y).map t.shape = (t'.children y').map t'.shape →
      ∀ i rest, t.shape y (.child i :: rest) = t'.shape y' (.child i :: rest) := by
    intro y y' hkids i rest
    have hkid := congrArg (·[i]?.bind (· rest)) hkids
    simp only [List.getElem?_map, Option.bind_map] at hkid
    rw [shape_child, shape_child]
    exact hkid
  have hheld : t.contents? x = holder := by
    rw [contents?, element?_eq_some.2 hx, Option.bind_some]
  have hheld' : t'.contents? x' = holder' := by
    rw [contents?, element?_eq_some.2 hx', Option.bind_some]
  funext place
  rcases place with _ | ⟨i | _, rest⟩
  · rw [shape_nil, shape_nil, hx, hx']
    rfl
  · exact hbelow hchildren i rest
  · rw [shape_contents, shape_contents, hheld, hheld']
    rcases holder with _ | f
    · obtain rfl := Option.isNone_iff_eq_none.1 (by simpa using hholder.symm)
      rfl
    · obtain ⟨f', rfl⟩ := Option.isSome_iff_exists.1 hholder.symm
      have hfragment := h.contents_fragment hheld
      have hfragment' := h'.contents_fragment hheld'
      rw [Option.bind_some, Option.bind_some]
      rcases rest with _ | ⟨i | _, rest⟩
      · rw [shape_nil, shape_nil, hfragment, hfragment']
      · exact hbelow hcontents i rest
      · have hplain : ∀ {u : Tree} {y}, u.content? y = some .fragment → u.contents? y = none := by
          intro u y hy
          simp [contents?, element?, hy, Content.element?]
        rw [shape_contents, shape_contents, hplain hfragment, hplain hfragment']
        rfl

/-- Nodes that say the same, are no elements and have no children have one shape. -/
theorem shape_of_plain (h : t.WellFormed) (h' : t'.WellFormed) {content : Content}
    (hx : t.content? x = some content) (hx' : t'.content? x' = some content)
    (helement : content.element? = none) (hholds : content.holdsChildren = false) :
    t.shape x = t'.shape x' := by
  have hnone : ∀ {u : Tree} {y}, u.content? y = some content → u.contents? y = none := by
    intro u y hy
    simp [contents?, element?, hy, helement]
  funext place
  rcases place with _ | ⟨i | _, rest⟩
  · rw [shape_nil, shape_nil, hx, hx']
  · rw [shape_child, shape_child, h.children_eq_nil hx hholds, h'.children_eq_nil hx' hholds]
    rfl
  · rw [shape_contents, shape_contents, hnone hx, hnone hx']
    rfl

mutual

/-- Nodes with one picture have one shape. -/
theorem shape_of_depicts (h : t.WellFormed) (h' : t'.WellFormed) (node : ParseNode) {x x' : NodeId}
    (hx : node.Depicts t x) (hx' : node.Depicts t' x') : t.shape x = t'.shape x' := by
  cases node with
  | doctype name =>
    simp only [ParseNode.Depicts] at hx hx'
    exact shape_of_plain h h' hx hx' rfl rfl
  | text s =>
    simp only [ParseNode.Depicts] at hx hx'
    exact shape_of_plain h h' hx hx' rfl rfl
  | comment s =>
    simp only [ParseNode.Depicts] at hx hx'
    exact shape_of_plain h h' hx hx' rfl rfl
  | instruction s => simp only [ParseNode.Depicts] at hx
  | element name attributes contents children =>
    simp only [ParseNode.Depicts] at hx hx'
    obtain ⟨holder, hcontent, htemplate, hcontents, hchildren⟩ := hx
    obtain ⟨holder', hcontent', htemplate', hcontents', hchildren'⟩ := hx'
    exact shape_of_held h h' hcontent hcontent' (htemplate.trans htemplate'.symm)
      (shapes_of_depictAll h h' contents hcontents hcontents')
      (shapes_of_depictAll h h' children hchildren hchildren')

theorem shapes_of_depictAll (h : t.WellFormed) (h' : t'.WellFormed) (nodes : List ParseNode)
    {ids ids' : List NodeId} (hids : DepictAll t nodes ids) (hids' : DepictAll t' nodes ids') :
    ids.map t.shape = ids'.map t'.shape := by
  cases nodes with
  | nil =>
    simp only [DepictAll] at hids hids'
    rw [hids, hids']
    rfl
  | cons node nodes =>
    simp only [DepictAll] at hids hids'
    obtain ⟨x, rest, rfl, hx, hrest⟩ := hids
    obtain ⟨x', rest', rfl, hx', hrest'⟩ := hids'
    rw [List.map_cons, List.map_cons, shape_of_depicts h h' node hx hx',
      shapes_of_depictAll h h' nodes hrest hrest']

end

end Repeater.Markup
