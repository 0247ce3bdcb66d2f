/-
  Repeater/Proofs/Dom/TextContent.lean
  ====================================
  **Setting a text and reading it back.**

  The text of a node is what the texts below it say in a row. Setting it always succeeds for a node
  that is a text or may hold children, and what is then read is what was set
  (`Edit.setText_reads_back`). A text changes its own string and nothing else changes; any other
  node trades its children for one new text, or for nothing. The former children are left with all
  that was in them, detached, and no other node has another content or another link.
-/
import Repeater.Proofs.Dom.Documents
import Repeater.Proofs.Dom.LinkedEdits

namespace Repeater.Dom

open Tree

variable {t t' : Tree} {x y : NodeId} {text : String} {content : Content}

namespace Tree

/-! ## Reading -/

theorem textContent_of_text (h : t.content? x = some (.text text)) : t.textContent x = text := by
  have htext : t.text? x = some text := by rw [text?, h, Option.bind_some, Content.text?]
  rw [textContent, htext]

theorem textContent_of_holder (h : t.content? x = some content) (hholds : content.holdsChildren) :
    t.textContent x = String.join ((t.descendants x).filterMap t.text?) := by
  have htext : t.text? x = none := by
    rw [text?, h, Option.bind_some]
    cases content with
    | text s => cases hholds
    | _ => rfl
  rw [textContent, htext]

/-- Below a node whose only child has no children there is only this child. -/
theorem descendants_of_leaf (hx : t.children x = [y]) (hy : t.children y = []) :
    t.descendants x = [y] := by
  have hmem : y ∈ t.children x := by simp [hx]
  obtain ⟨i, hi, -⟩ := has_iff_slot.1 (has_of_mem_children hmem)
  obtain ⟨steps, hsteps⟩ : ∃ steps, t.size = steps + 1 := ⟨t.size - 1, by omega⟩
  rw [descendants, hx, hsteps, walk, hy]
  cases steps <;> rfl

/-! ## Links that stay -/

/-- The siblings of a node are the same where it has the same parent with the same children. -/
theorem siblings_congr (hparent : t'.parent? y = t.parent? y)
    (hkids : ∀ p, t.parent? y = some p → t'.children p = t.children p) :
    t'.previousSibling? y = t.previousSibling? y ∧ t'.nextSibling? y = t.nextSibling? y := by
  rw [previousSibling?, previousSibling?, nextSibling?, nextSibling?, hparent]
  cases hp : t.parent? y with
  | none => exact ⟨rfl, rfl⟩
  | some p =>
    rw [Option.bind_some, Option.bind_some, Option.bind_some, Option.bind_some, hkids p hp]
    exact ⟨rfl, rfl⟩

theorem siblings_of_detached (h : t.parent? y = none) :
    t.previousSibling? y = none ∧ t.nextSibling? y = none := by
  rw [previousSibling?, nextSibling?, h]
  exact ⟨rfl, rfl⟩

/-- What a node shows, with its links. -/
theorem get?_links_of_content (h : t.content? y = some content) :
    t.links.get? y = some
      { content
        parent := t.parent? y
        first := (t.children y).head?
        last := (t.children y).getLast?
        previous := t.previousSibling? y
        next := t.nextSibling? y } := by
  obtain ⟨n, hn, rfl⟩ := Option.map_eq_some_iff.1 h
  rw [get?_links, hn, Option.map_some, linkedNode, parent?, children, hn]
  rfl

/-! ## A node with another text -/

/-- What a tree shows, with its links, after a node that may hold children has got a text. -/
structure Refilled (t : Tree) (x : NodeId) (text : String) (t' : Tree) : Prop where
  size : t'.size = if text = "" then t.size else t.size + 1
  children : t'.children x = if text = "" then [] else [.slot t.size]
  /-- The new text is a child of the node and has nothing beside it and nothing in it. -/
  made : text ≠ "" →
    t'.links.get? (.slot t.size) = some { content := .text text, parent := some x }
  /-- The node stays what it is and where it is. -/
  self : t'.links.get? x = (t.links.get? x).map fun n =>
    { n with first := (t'.children x).head?, last := (t'.children x).getLast? }
  /-- The former children are detached and otherwise as they were. -/
  former : ∀ k ∈ t.children x, t'.links.get? k = (t.links.get? k).map fun n =>
    { n with parent := none, previous := none, next := none }
  /-- What is below them is as it was. -/
  below : ∀ k ∈ t.children x, t'.descendants k = t.descendants k ∧
    ∀ y ∈ t.descendants k, t'.links.get? y = t.links.get? y
  other : ∀ y, t.Has y → y ≠ x → y ∉ t.children x → t'.links.get? y = t.links.get? y

namespace TextSet

theorem content_old (hset : t.TextSet x text t') (hy : t.Has y) :
    t'.content? y = t.content? y := by
  rw [hset.content, if_neg]
  rintro ⟨-, rfl⟩
  exact not_has_new t hy

theorem parent_old (hset : t.TextSet x text t') (hy : t.Has y) (hkid : y ∉ t.children x) :
    t'.parent? y = t.parent? y := by
  rw [hset.parent, if_neg hkid, if_neg]
  rintro ⟨-, rfl⟩
  exact not_has_new t hy

/-- A node that was not a child of `x` has the siblings it had, for its parent is not `x`. -/
theorem siblings_old (hset : t.TextSet x text t') (h : t.WellFormed) (hy : t.Has y)
    (hkid : y ∉ t.children x) :
    t'.previousSibling? y = t.previousSibling? y ∧ t'.nextSibling? y = t.nextSibling? y := by
  apply siblings_congr (hset.parent_old hy hkid)
  intro p hp
  apply hset.children_other p
  rintro rfl
  exact hkid (h.child_of_parent hp)

theorem other (hset : t.TextSet x text t') (h : t.WellFormed) (hy : t.Has y) (hne : y ≠ x)
    (hkid : y ∉ t.children x) : t'.links.get? y = t.links.get? y := by
  obtain ⟨content, hcontent⟩ := has_iff_content.1 hy
  obtain ⟨hprevious, hnext⟩ := hset.siblings_old h hy hkid
  rw [get?_links_of_content hcontent,
    get?_links_of_content ((hset.content_old hy).trans hcontent), hset.parent_old hy hkid,
    hset.children_other y hne, hprevious, hnext]

theorem self (hset : t.TextSet x text t') (h : t.WellFormed) (hx : t.Has x) :
    t'.links.get? x = (t.links.get? x).map fun n =>
      { n with first := (t'.children x).head?, last := (t'.children x).getLast? } := by
  obtain ⟨content, hcontent⟩ := has_iff_content.1 hx
  have hkid : x ∉ t.children x := by
    intro hmem
    exact h.acyclic x (above_of_parent (h.parent_of_child hmem))
  obtain ⟨hprevious, hnext⟩ := hset.siblings_old h hx hkid
  rw [get?_links_of_content hcontent,
    get?_links_of_content ((hset.content_old hx).trans hcontent), hset.parent_old hx hkid,
    hprevious, hnext, Option.map_some]

theorem former (hset : t.TextSet x text t') (h : t.WellFormed) {k : NodeId}
    (hk : k ∈ t.children x) : t'.links.get? k = (t.links.get? k).map fun n =>
      { n with parent := none, previous := none, next := none } := by
  have hparent := h.parent_of_child hk
  have hhas : t.Has k := has_of_parent hparent
  obtain ⟨content, hcontent⟩ := has_iff_content.1 hhas
  have hdetached : t'.parent? k = none := by rw [hset.parent, if_pos hk]
  obtain ⟨hprevious, hnext⟩ := siblings_of_detached hdetached
  have hne : k ≠ x := (h.ne_of_above (above_of_parent hparent)).symm
  rw [get?_links_of_content hcontent,
    get?_links_of_content ((hset.content_old hhas).trans hcontent), hdetached,
    hset.children_other k hne, hprevious, hnext, Option.map_some]

theorem below (hset : t.TextSet x text t') (h : t.WellFormed) {k : NodeId}
    (hk : k ∈ t.children x) : t'.descendants k = t.descendants k ∧
      ∀ y ∈ t.descendants k, t'.links.get? y = t.links.get? y := by
  have hparent := h.parent_of_child hk
  -- `x` is above its former child, so it is not at or below it
  have hout : ¬ t.AtOrAbove k x := by
    intro hkx
    exact h.not_above_of_atOrAbove hkx (above_of_parent hparent)
  constructor
  · apply descendants_congr h (has_of_parent hparent)
    · rw [hset.size]
      split <;> omega
    · intro y hky
      apply hset.children_other y
      rintro rfl
      exact hout hky
  · intro y hy
    have hky := (mem_descendants h).1 hy
    apply hset.other h hky.has_below
    · rintro rfl
      exact hout hky.atOrAbove
    · intro hmem
      obtain ⟨p, hp, hkp⟩ := above_iff_parent.1 hky
      rw [h.parent_of_child hmem, Option.some.injEq] at hp
      exact hout (hp ▸ hkp)

theorem made (hset : t.TextSet x text t') (h : t.WellFormed) (hx : t.Has x) (htext : text ≠ "") :
    t'.links.get? (.slot t.size) = some { content := .text text, parent := some x } := by
  have hempty : text.isEmpty = false := by simpa using htext
  have hne : NodeId.slot t.size ≠ x := by
    rintro rfl
    exact not_has_new t hx
  have hkid : NodeId.slot t.size ∉ t.children x := by
    intro hmem
    exact not_has_new t (h.has_of_child hmem)
  have hcontent : t'.content? (.slot t.size) = some (.text text) := by
    rw [hset.content, if_pos ⟨hempty, rfl⟩]
  have hparent : t'.parent? (.slot t.size) = some x := by
    rw [hset.parent, if_neg hkid, if_pos ⟨hempty, rfl⟩]
  have hchildren : t'.children x = [.slot t.size] := by simp [hset.children_self, hempty]
  have hnone : t'.children (.slot t.size) = [] := by
    rw [hset.children_other _ hne, children_of_not_has (not_has_new t)]
  rw [get?_links_of_content hcontent, previousSibling?, nextSibling?, hparent, hnone]
  simp [hchildren, entryAfter?]

/-- Setting a text, told by the links. -/
theorem refilled (hset : t.TextSet x text t') (h : t.WellFormed) (hx : t.Has x) :
    t.Refilled x text t' where
  size := by simpa using hset.size
  children := by simpa using hset.children_self
  made := hset.made h hx
  self := hset.self h hx
  former _ hk := hset.former h hk
  below _ hk := hset.below h hk
  other _ hy hne hkid := hset.other h hy hne hkid

/-- What is read of a node that has got a text. -/
theorem textContent (hset : t.TextSet x text t')
    (hcontent : t.content? x = some content) (hholds : content.holdsChildren) :
    t'.textContent x = text := by
  have hx : t.Has x := has_of_content hcontent
  rw [textContent_of_holder ((hset.content_old hx).trans hcontent) hholds]
  by_cases htext : text = ""
  · have hnone : t'.children x = [] := by simp [hset.children_self, htext]
    rw [descendants_eq_nil hnone, htext]
    rfl
  · have hempty : text.isEmpty = false := by simpa using htext
    have hnew : t'.text? (.slot t.size) = some text := by
      rw [text?, hset.content, if_pos ⟨hempty, rfl⟩]
      rfl
    have hleaf : t'.children (.slot t.size) = [] := by
      rw [hset.children_other, children_of_not_has (not_has_new t)]
      rintro rfl
      exact not_has_new t hx
    rw [descendants_of_leaf (by simp [hset.children_self, hempty]) hleaf]
    simp [hnew, String.join]

end TextSet

end Tree

/-! ## Setting a text -/

/-- **Setting the text of a document, a fragment, an element or a text succeeds, and the text is
    read back.** A text changes its own string only. Any other node has one text for a child, or
    none when there is nothing to say; its former children are detached with what is in them, and
    every other node has the content and the links it had. -/
theorem Edit.setText_reads_back (h : t.WellFormed) (hx : t.content? x = some content)
    (hkind : content.holdsChildren ∨ content.text?.isSome) (text : String) :
    ∃ t', exec (Edit.setText x text) t = (.ok ⟨⟩, t') ∧
      exec (LinkEdit.setText x text) t.links = (.ok ⟨⟩, t'.links) ∧
      t'.WellFormed ∧ t'.textContent x = text ∧
      (content.text?.isSome → t'.links = t.links.setContent x (.text text)) ∧
      (content.holdsChildren → t.Refilled x text t') := by
  have hmirrors := (Mirrors.setText x text t h.tidy).2
  have hgrown := (keeps_setText x text t h).1
  by_cases hholds : content.holdsChildren
  · obtain ⟨t', hrun, hset⟩ := exec_setText_holder h hx hholds text
    rw [hrun] at hmirrors hgrown
    refine ⟨t', hrun, hmirrors, hgrown, hset.textContent hx hholds, ?_, ?_⟩
    · intro hsome
      cases content <;> simp [Content.text?, Content.holdsChildren] at hsome hholds
    · intro _
      exact hset.refilled h (has_of_content hx)
  · obtain ⟨s, hs⟩ : ∃ s, content = .text s := by
      cases content <;> simp [Content.text?, Content.holdsChildren] at hkind hholds ⊢
    subst hs
    have hrun := exec_setText_text hx text
    rw [hrun] at hmirrors hgrown
    refine ⟨t.setContent x (.text text), hrun, hmirrors, hgrown, ?_, ?_, ?_⟩
    · apply textContent_of_text
      rw [content?_setContent, if_pos ⟨rfl, has_of_content hx⟩]
    · intro _
      exact (links_setContent t x (.text text)).symm
    · intro htext
      exact absurd htext hholds

/-- The edits that make a list with an item, in which there is a text, and a rule. -/
def rosterEdits : List Operation :=
  [.createElement "ul", .createElement "li", .createText "one", .createElement "hr",
    .insert (.slot 2) (.slot 3) none, .insert (.slot 1) (.slot 2) none,
    .insert (.slot 1) (.slot 4) none, .insert .document (.slot 1) none]

/-- The list gets a text; the item keeps its own. -/
theorem Edit.setText_reads_back_roster :
    let roster := Tree.empty.after rosterEdits
    roster.WellFormed ∧
      roster.content? (.slot 1) = some (.element { tag := "ul" }) ∧
      ∃ t', exec (Edit.setText (.slot 1) "none") roster = (.ok ⟨⟩, t') ∧
        t'.textContent (.slot 1) = "none" ∧ t'.children (.slot 1) = [.slot 5] ∧
        t'.parent? (.slot 2) = none ∧ t'.textContent (.slot 2) = "one" := by
  intro roster
  have hwf : roster.WellFormed :=
    (edited_after Tree.empty rosterEdits).wellFormed wellFormed_empty
  have hcontent : roster.content? (.slot 1) = some (.element { tag := "ul" }) := by
    decide +kernel
  obtain ⟨t', hrun, -, -, htext, -, hrefilled⟩ :=
    setText_reads_back hwf hcontent (.inl rfl) "none"
  refine ⟨hwf, hcontent, t', hrun, htext, ?_, ?_⟩
  · have hsize : roster.size = 5 := by decide +kernel
    rw [(hrefilled rfl).children, if_neg (by decide), hsize]
  · have hafter : (exec (Edit.setText (.slot 1) "none") roster).2.parent? (.slot 2) = none ∧
        (exec (Edit.setText (.slot 1) "none") roster).2.textContent (.slot 2) = "one" := by
      decide +kernel
    rwa [hrun] at hafter

end Repeater.Dom
