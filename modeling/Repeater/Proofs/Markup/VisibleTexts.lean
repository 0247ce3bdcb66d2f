/-
  Repeater/Proofs/Markup/VisibleTexts.lean
  ========================================
  **Texts of a parse tree that come into the document.**

  A text is planted unless every character of it has the property White_Space. What is planted
  stands at its place, counted without the nodes that are left out before it (`landing`), and the
  texts of the document are those of the parse tree less the ones left out, in order
  (`texts_documentOf`).

  HTML knows five characters of white space; a no-break space is not one of them, and a cell can
  hold one to be seen. A text of such characters alone is left out as well, so that all visible
  texts are there just where the parse tree holds none of this kind.
-/
import Repeater.Markup.Token
import Repeater.Proofs.Markup.Planting

namespace Repeater.Markup

open Dom Dom.Tree Text

variable {t : Tree} {x : NodeId} {ids : List NodeId} {node : ParseNode} {nodes : List ParseNode}
  {place : List Step} {s : String}

/-! ## The texts of parse trees and of documents -/

/-- Whether a text holds nothing but the white space that HTML knows. -/
def isAllSpace (s : String) : Bool := s.toList.all isSpace

/-- The position in a document that corresponds to one among parse trees: what is left out before it
    is not counted. -/
def landing (nodes : List ParseNode) (i : Nat) : Nat := (keptAll (nodes.take i)).length

/-- The text stands at a place in the parse trees, to which the second place corresponds in a
    document. -/
inductive Stands (s : String) : List ParseNode → List Step → List Step → Prop
  | text {nodes i} (h : nodes[i]? = some (.text s)) :
    Stands s nodes [.child i] [.child (landing nodes i)]
  | child {nodes i name attributes contents children place place'}
    (h : nodes[i]? = some (.element name attributes contents children))
    (hinside : Stands s children place place') :
    Stands s nodes (.child i :: place) (.child (landing nodes i) :: place')
  | contents {nodes i name attributes contents children place place'}
    (h : nodes[i]? = some (.element name attributes contents children))
    (hinside : Stands s contents place place') :
    Stands s nodes (.child i :: .contents :: place)
      (.child (landing nodes i) :: .contents :: place')

mutual

/-- The texts of a parse tree in the order of the source. -/
def ParseNode.texts : ParseNode → List String
  | .text s => [s]
  | .element _ _ contents children => textsAll contents ++ textsAll children
  | .doctype _ | .comment _ | .instruction _ => []

def textsAll : List ParseNode → List String
  | [] => []
  | node :: nodes => node.texts ++ textsAll nodes

end

/-- The texts of a tree in the order in which they were made. -/
def textsOf (t : Tree) : List String := (slots 0 t.size).filterMap t.text?

/-! ## What is left out -/

theorem keptAll_append (nodes nodes' : List ParseNode) :
    keptAll (nodes ++ nodes') = keptAll nodes ++ keptAll nodes' := by
  induction nodes with
  | nil => rfl
  | cons node nodes ih => rw [List.cons_append, keptAll, keptAll, ih, List.append_assoc]

theorem textsAll_append (nodes nodes' : List ParseNode) :
    textsAll (nodes ++ nodes') = textsAll nodes ++ textsAll nodes' := by
  induction nodes with
  | nil => rfl
  | cons node nodes ih => rw [List.cons_append, textsAll, textsAll, ih, List.append_assoc]

mutual

theorem ParseNode.textsAll_kept (node : ParseNode) :
    textsAll node.kept = node.texts.filter (! isAllBlank ·) := by
  cases node with
  | doctype name => rfl
  | comment s => rfl
  | instruction s => rfl
  | text s =>
    cases hblank : isAllBlank s <;>
      simp [ParseNode.kept, ParseNode.texts, textsAll, hblank]
  | element name attributes contents children =>
    simp only [ParseNode.kept, ParseNode.texts, textsAll, List.append_nil, List.filter_append,
      textsAll_keptAll contents, textsAll_keptAll children]

theorem textsAll_keptAll (nodes : List ParseNode) :
    textsAll (keptAll nodes) = (textsAll nodes).filter (! isAllBlank ·) := by
  cases nodes with
  | nil => rfl
  | cons node nodes =>
    rw [keptAll, textsAll_append, node.textsAll_kept, textsAll_keptAll nodes, textsAll,
      List.filter_append]

end

/-! ## Texts in order -/

theorem text?_of_content {content : Content} (h : t.content? x = some content) :
    t.text? x = content.text? := by
  rw [Tree.text?, h, Option.bind_some]

mutual

/-- A node has the texts of its picture, in order. -/
theorem ParseNode.Depicts.texts (hwf : t.WellFormed) (node : ParseNode) {x : NodeId}
    (hx : node.Depicts t x) : (node.order t x).filterMap t.text? = node.texts := by
  cases node with
  | doctype name | comment s | text s =>
    simp only [ParseNode.Depicts] at hx
    simp [ParseNode.order, ParseNode.texts, text?_of_content hx, Content.text?]
  | instruction s => simp only [ParseNode.Depicts] at hx
  | element name attributes contents children =>
    simp only [ParseNode.Depicts] at hx
    obtain ⟨holder, hx, -, hcontents, hchildren⟩ := hx
    have hheld : t.contents? x = holder := by
      rw [contents?, element?_eq_some.2 hx, Option.bind_some]
    have hself : t.text? x = none := text?_of_content hx
    have hinside : (holder.elim [] fun f => f :: orderAll t contents (t.children f)).filterMap
        t.text? = textsAll contents := by
      cases holder with
      | none =>
        rw [Option.elim_none, depictAll_nil] at hcontents
        rw [hcontents]
        rfl
      | some f =>
        have hf : t.text? f = none := text?_of_content (hwf.contents_fragment hheld)
        rw [Option.elim_some, List.filterMap_cons_none hf]
        exact depictAll_texts hwf contents hcontents
    rw [ParseNode.order, ParseNode.texts, hheld, List.filterMap_cons_none hself,
      List.filterMap_append, hinside, depictAll_texts hwf children hchildren]

theorem depictAll_texts (hwf : t.WellFormed) (nodes : List ParseNode) {ids : List NodeId}
    (h : DepictAll t nodes ids) : (orderAll t nodes ids).filterMap t.text? = textsAll nodes := by
  cases nodes with
  | nil => simp [orderAll, textsAll]
  | cons node nodes =>
    simp only [DepictAll] at h
    obtain ⟨x, rest, rfl, hx, hrest⟩ := h
    rw [orderAll, textsAll, List.filterMap_append, hx.texts hwf node,
      depictAll_texts hwf nodes hrest]

end

/-! ## Texts at their places -/

theorem depictAll_getElem? {k : Nat} (h : DepictAll t nodes ids) (hnode : nodes[k]? = some node) :
    ∃ x, ids[k]? = some x ∧ node.Depicts t x := by
  induction nodes generalizing ids k with
  | nil => cases hnode
  | cons first nodes ih =>
    simp only [DepictAll] at h
    obtain ⟨x, rest, rfl, hx, hrest⟩ := h
    cases k with
    | zero =>
      cases hnode
      exact ⟨x, rfl, hx⟩
    | succ k =>
      obtain ⟨y, hget, hy⟩ := ih hrest hnode
      exact ⟨y, hget, hy⟩

/-- What is kept of a node stands behind what is kept of the nodes before it. -/
theorem getElem?_keptAll {i : Nat} {left : ParseNode} (hnode : nodes[i]? = some node)
    (hkept : node.kept = [left]) : (keptAll nodes)[landing nodes i]? = some left := by
  obtain ⟨hi, hget⟩ := List.getElem?_eq_some_iff.1 hnode
  have hsplit : nodes = nodes.take i ++ node :: nodes.drop (i + 1) := by
    rw [← hget, ← List.drop_eq_getElem_cons hi, List.take_append_drop]
  have hall : keptAll nodes =
      keptAll (nodes.take i) ++ left :: keptAll (nodes.drop (i + 1)) := by
    conv_lhs => rw [hsplit]
    rw [keptAll_append, keptAll, hkept]
    rfl
  rw [hall, landing, List.getElem?_append_right (Nat.le_refl _), Nat.sub_self]
  rfl

/-- A text that is not left out stands where the picture of what is kept has it. -/
theorem Stands.shape {place' : List Step} (hs : Stands s nodes place place')
    (hblank : isAllBlank s = false) (h : DepictAll t (keptAll nodes) ids) :
    ∃ k x rest, place' = .child k :: rest ∧ ids[k]? = some x ∧
      t.shape x rest = some (.text s) := by
  induction hs generalizing ids with
  | text hnode =>
    have hkept : (ParseNode.text s).kept = [.text s] := by simp [ParseNode.kept, hblank]
    obtain ⟨x, hget, hx⟩ := depictAll_getElem? h (getElem?_keptAll hnode hkept)
    simp only [ParseNode.Depicts] at hx
    refine ⟨_, x, [], rfl, hget, ?_⟩
    rw [shape_nil, hx]
    rfl
  | child hnode _ ih =>
    obtain ⟨x, hget, hx⟩ := depictAll_getElem? h (getElem?_keptAll hnode rfl)
    simp only [ParseNode.Depicts] at hx
    obtain ⟨holder, hx, -, -, hchildren⟩ := hx
    obtain ⟨k, y, rest, rfl, hy, hshape⟩ := ih hchildren
    refine ⟨_, x, _, rfl, hget, ?_⟩
    rw [shape_child, hy, Option.bind_some, hshape]
  | contents hnode _ ih =>
    obtain ⟨x, hget, hx⟩ := depictAll_getElem? h (getElem?_keptAll hnode rfl)
    simp only [ParseNode.Depicts] at hx
    obtain ⟨holder, hx, -, hcontents, -⟩ := hx
    obtain ⟨k, y, rest, rfl, hy, hshape⟩ := ih hcontents
    refine ⟨_, x, _, rfl, hget, ?_⟩
    cases holder with
    | none => cases hy
    | some f =>
      have hheld : t.contents? x = some f := contents?_eq_some.2 ⟨_, hx, rfl⟩
      rw [shape_contents, hheld, Option.bind_some, shape_child]
      rw [Option.elim_some] at hy
      rw [hy, Option.bind_some, hshape]

/-! ## Each text has a place -/

mutual

/-- A text inside a node has a place, counted from the nodes that the node is among. -/
theorem ParseNode.exists_stands (node : ParseNode) {nodes : List ParseNode} {i : Nat}
    (hnode : nodes[i]? = some node) (hs : s ∈ node.texts) :
    ∃ place place', Stands s nodes place place' := by
  cases node with
  | doctype name | comment text | instruction text => simp [ParseNode.texts] at hs
  | text text =>
    rw [ParseNode.texts, List.mem_singleton] at hs
    subst hs
    exact ⟨_, _, .text hnode⟩
  | element name attributes contents children =>
    rw [ParseNode.texts, List.mem_append] at hs
    rcases hs with hs | hs
    · obtain ⟨_, _, hinside⟩ := exists_stands contents (List.drop_zero (l := contents)) hs
      exact ⟨_, _, .contents hnode hinside⟩
    · obtain ⟨_, _, hinside⟩ := exists_stands children (List.drop_zero (l := children)) hs
      exact ⟨_, _, .child hnode hinside⟩

/-- The same for the nodes from a position on, over which the induction runs. -/
theorem exists_stands (tail : List ParseNode) {nodes : List ParseNode} {k : Nat}
    (htail : nodes.drop k = tail) (hs : s ∈ textsAll tail) :
    ∃ place place', Stands s nodes place place' := by
  cases tail with
  | nil => simp [textsAll] at hs
  | cons node rest =>
    have hnode : nodes[k]? = some node := by
      rw [← List.head?_drop, htail]
      rfl
    have hrest : nodes.drop (k + 1) = rest := by
      rw [← List.tail_drop, htail]
      rfl
    rw [textsAll, List.mem_append] at hs
    rcases hs with hs | hs
    · exact node.exists_stands hnode hs
    · exact exists_stands rest hrest hs

end

theorem mem_textsAll_of_texts {i : Nat} (hnode : nodes[i]? = some node) (hs : s ∈ node.texts) :
    s ∈ textsAll nodes := by
  obtain ⟨before, after, rfl⟩ := List.append_of_mem (List.mem_of_getElem? hnode)
  rw [textsAll_append, textsAll]
  simp [hs]

/-- The texts that are listed are those that have a place. -/
theorem mem_textsAll : s ∈ textsAll nodes ↔ ∃ place place', Stands s nodes place place' := by
  constructor
  · exact exists_stands nodes List.drop_zero
  · rintro ⟨place, place', hstands⟩
    induction hstands with
    | text hnode => exact mem_textsAll_of_texts hnode (by simp [ParseNode.texts])
    | child hnode _ ih => exact mem_textsAll_of_texts hnode (by simp [ParseNode.texts, ih])
    | contents hnode _ ih => exact mem_textsAll_of_texts hnode (by simp [ParseNode.texts, ih])

/-! ## White space -/

theorem isBlank_of_isSpace {c : Char} (h : isSpace c) : isBlank c := by
  simp only [isSpace, Bool.or_eq_true, beq_iff_eq] at h
  rcases h with (((rfl | rfl) | rfl) | rfl) | hcode
  · decide
  · decide
  · decide
  · decide
  · rw [isBlank, CharSet.contains, hcode]
    decide

theorem isAllBlank_of_isAllSpace (h : isAllSpace s) : isAllBlank s := by
  rw [isAllSpace, List.all_eq_true] at h
  rw [isAllBlank, List.all_eq_true]
  intro c hc
  exact isBlank_of_isSpace (h c hc)

/-- Two rules to leave texts out, one stricter than the other, leave the same list where they agree
    on each text of it. -/
theorem filter_blank_eq_filter_space {texts : List String} :
    texts.filter (! isAllBlank ·) = texts.filter (! isAllSpace ·) ↔
      ∀ s ∈ texts, isAllBlank s → isAllSpace s := by
  constructor
  · intro hsame s hs hblank
    by_contra hspace
    have hmem : s ∈ texts.filter (! isAllSpace ·) := List.mem_filter.2 ⟨hs, by simpa using hspace⟩
    rw [← hsame, List.mem_filter, hblank] at hmem
    cases hmem.2
  · intro hagree
    apply List.filter_congr
    intro s hs
    have hiff : isAllBlank s = isAllSpace s :=
      Bool.eq_iff_iff.2 ⟨hagree s hs, isAllBlank_of_isAllSpace⟩
    rw [hiff]

/-! ## Documents -/

/-- **Texts come into the document.** A text that is not all white space stands at the place that
    corresponds to its own, and the texts of the document are these alone, in order. So no visible
    text is missing just where no text consists of white space that HTML does not know as such. -/
theorem texts_documentOf (url : String) {top : List ParseNode} (h : DeliveredAll top) :
    (∀ s place place', Stands s top place place' → isAllBlank s = false →
      (documentOf url top).tree.shape .document place' = some (.text s)) ∧
    textsOf (documentOf url top).tree = (textsAll top).filter (! isAllBlank ·) ∧
    (textsOf (documentOf url top).tree = (textsAll top).filter (! isAllSpace ·) ↔
      ∀ s place place', Stands s top place place' → isAllBlank s → isAllSpace s) := by
  obtain ⟨t, -, htree, hwf, hdocument, hdepicts, horder⟩ := documentOf_depicts url h
  have htexts : textsOf t = (textsAll top).filter (! isAllBlank ·) := by
    have hnone : t.text? .document = none := text?_of_content hdocument
    rw [textsOf, ← horder, List.filterMap_cons_none hnone, depictAll_texts hwf _ hdepicts,
      textsAll_keptAll]
  rw [htree]
  refine ⟨?_, htexts, ?_⟩
  · intro s place place' hs hblank
    obtain ⟨k, x, rest, rfl, hx, hshape⟩ := hs.shape hblank hdepicts
    rw [shape_child, hx, Option.bind_some, hshape]
  · rw [htexts, filter_blank_eq_filter_space]
    simp only [mem_textsAll, forall_exists_index]

/-- A row whose first cell holds a no-break space, and a template with a text behind a blank one. -/
theorem texts_documentOf_row :
    let row : List ParseNode :=
      [.element "tr" [] [] [.text "\n", .element "td" [] [] [.text "\u00a0"], .text "\t",
        .element "template" [] [.text " ", .text "shown"] []]]
    let t := (documentOf "about:blank" row).tree
    DeliveredAll row ∧
    Stands "shown" row [.child 0, .child 3, .contents, .child 1]
      [.child 0, .child 1, .contents, .child 0] ∧
    isAllBlank "shown" = false ∧
    t.shape .document [.child 0, .child 1, .contents, .child 0] = some (.text "shown") ∧
    textsOf t = ["shown"] ∧ (textsAll row).filter (! isAllSpace ·) = ["\u00a0", "shown"] := by
  intro row t
  have hdelivered : DeliveredAll row := by
    simp [row, DeliveredAll, ParseNode.Delivered]
  have hstands : Stands "shown" row [.child 0, .child 3, .contents, .child 1]
      [.child 0, .child 1, .contents, .child 0] :=
    .child rfl (.contents rfl (.text rfl))
  have hblank : isAllBlank "shown" = false := by decide
  obtain ⟨hplaces, htexts, -⟩ := texts_documentOf "about:blank" hdelivered
  refine ⟨hdelivered, hstands, hblank, hplaces _ _ _ hstands hblank, ?_, by decide +kernel⟩
  rw [htexts]
  decide +kernel

end Repeater.Markup
