/-
  Repeater/Proofs/Dom/Documents.lean
  ==================================
  **Documents are made by edits.**

  A new document and a document planted from a parse tree are reached from the empty tree by runs of
  edits, so all that holds of such runs holds of them (`edited_new`, `edited_documentOf`).
-/
import Repeater.Markup.ParseTree
import Repeater.Proofs.Hook.Effects

namespace Repeater.Dom

open Tree Hook Markup

/-- The empty tree is well-formed. -/
theorem Tree.wellFormed_empty : Tree.empty.WellFormed := by
  have hget : ∀ x, Tree.empty.get? x =
      if x = .document then some { content := .document } else none := by
    intro x
    cases x with
    | none => rfl
    | slot i => cases i <;> simp [Tree.empty, get?, NodeId.document]
  have hparent : ∀ x, Tree.empty.parent? x = none := by
    intro x
    unfold parent?
    rw [hget]
    split <;> rfl
  have hkids : ∀ x, Tree.empty.children x = [] := by
    intro x
    unfold children
    rw [hget]
    split <;> rfl
  have hcontent : ∀ x c, Tree.empty.content? x = some c → c = .document := by
    intro x c hc
    unfold content? at hc
    rw [hget] at hc
    split at hc <;> simp_all
  have helement : ∀ x e, Tree.empty.element? x ≠ some e := by
    intro x e he
    exact Content.noConfusion (hcontent x _ (element?_eq_some.1 he))
  have hcontents : ∀ x f, Tree.empty.contents? x ≠ some f := by
    intro x f hf
    obtain ⟨e, he, -⟩ := contents?_eq_some.1 hf
    exact helement x e (element?_eq_some.2 he)
  constructor
  case parent_of_child => simp [hkids]
  case child_of_parent => simp [hparent]
  case nodup_children => simp [hkids]
  case acyclic => exact fun x hx => not_above_of_parent_none (hparent x) hx
  case holder_of_parent => simp [hparent]
  case fragment_parent => exact fun _ => hparent _
  case contents_fragment => exact fun h => absurd h (hcontents _ _)
  case contents_injective => exact fun h => absurd h (hcontents _ _)
  case contents_template => exact fun h => absurd h (helement _ _)
  case names_differ => exact fun h => absurd h (helement _ _)

namespace Edit

variable {α : Type}

theorem edits_of_discard {change : Edit α} (operation : Operation)
    (h : operation.run = discard change) : Keeps Edited change :=
  edits_of_operation operation fun t => by
    unfold Operation.apply
    rw [h, exec_discard]

theorem edits_append (parent child : NodeId) : Keeps Edited (append parent child) :=
  edits_of_discard (.insert parent child none) rfl

theorem edits_createElement (tag : String) : Keeps Edited (createElement tag) :=
  edits_of_discard (.createElement tag) rfl

theorem edits_setAttribute (x : NodeId) (name value : String) :
    Keeps Edited (setAttribute x name value) :=
  edits_of_operation (.setAttribute x name value) fun _ => rfl

end Edit

end Repeater.Dom

namespace Repeater.Markup

open Dom Tree

/-- A new node that is put below another. -/
theorem edits_createBelow {content : Content} (operation : Operation) (parent : NodeId)
    (h : operation.run = discard (Edit.create content)) :
    Keeps Edited (do let id ← Edit.create content; discard (Edit.append parent id) : Edit Unit) :=
  Keeps.bind (Edit.edits_of_discard operation h) fun id => Keeps.map _ (Edit.edits_append parent id)

mutual

theorem ParseNode.edits_plant (parent : NodeId) (node : ParseNode) :
    Keeps Edited (node.plant parent) := by
  cases node with
  | doctype name =>
    simp only [ParseNode.plant]
    exact edits_createBelow (.createDoctype name) parent rfl
  | text s =>
    simp only [ParseNode.plant]
    split
    · exact Keeps.pure _
    · exact edits_createBelow (.createText s) parent rfl
  | comment s =>
    simp only [ParseNode.plant]
    exact edits_createBelow (.createComment s) parent rfl
  | instruction s =>
    simp only [ParseNode.plant]
    exact Keeps.pure _
  | element name attributes contents children =>
    simp only [ParseNode.plant]
    refine Keeps.bind (Edit.edits_createElement name) fun id =>
      Keeps.bind (Keeps.forM fun a _ => Edit.edits_setAttribute id a.name a.value) fun _ =>
        Keeps.bind (Edit.edits_append parent id) fun _ => Keeps.get_bind fun t => ?_
    split
    · next fragment _ =>
      exact Keeps.bind (edits_plantAll fragment contents) fun _ => edits_plantAll id children
    · exact edits_plantAll id children

theorem edits_plantAll (parent : NodeId) (nodes : List ParseNode) :
    Keeps Edited (plantAll parent nodes) := by
  cases nodes with
  | nil =>
    simp only [plantAll]
    exact Keeps.pure _
  | cons node rest =>
    simp only [plantAll]
    exact Keeps.bind (node.edits_plant parent) fun _ => edits_plantAll parent rest

end

/-- The tree of a document that was read from markup is made by edits. -/
theorem edited_documentOf (url : String) (top : List ParseNode) :
    Tree.empty.Edited (documentOf url top).tree := edits_plantAll .document top Tree.empty

end Repeater.Markup

namespace Repeater.Dom

open Tree

/-- The tree of a new document is made by edits. -/
theorem edited_new (url : String) : Tree.empty.Edited (Document.new url).tree := by
  have hskeleton : Keeps Edited Document.skeleton :=
    Keeps.bind (Edit.edits_createElement _) fun html =>
      Keeps.bind (Edit.edits_createElement _) fun head =>
        Keeps.bind (Edit.edits_createElement _) fun body =>
          Keeps.bind (Edit.edits_append _ html) fun _ =>
            Keeps.bind (Edit.edits_append html head) fun _ =>
              Keeps.bind (Edit.edits_append html body) fun _ => Keeps.pure _
  exact hskeleton Tree.empty

end Repeater.Dom
