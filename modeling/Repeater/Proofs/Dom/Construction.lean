/-
  Repeater/Proofs/Dom/Construction.lean
  =====================================
  **What edits build from the empty document.**

  Any edits may be applied to the empty document, in any order and with any ids, and some of them
  are refused. As long as no template is made to hold itself, the links that are mended by hand stay
  sound: the children of each node are read both ways, each once, and nothing else has the node as
  its parent (`Links.sound_after`). They are at all times the links that the tree of the running
  library shows.
-/
import Repeater.Proofs.Dom.Documents
import Repeater.Proofs.Dom.LinkedEdits
import Repeater.Proofs.Dom.Templates

namespace Repeater.Dom

open Tree

/-- What holds of links that are mended without a slip. -/
structure Links.Sound (a : Links) : Prop where
  /-- Every link leads to a node of the arena. -/
  inside : ∀ {x y}, a.parent? x = some y ∨ a.first? x = some y ∨ a.last? x = some y ∨
    a.previous? x = some y ∨ a.next? x = some y → a.Has y
  /-- The children of a node are read forwards and backwards, and are the nodes whose parent it
      is, each listed once. -/
  lists : ∀ p, ∃ ids, Reads a.next? (a.first? p) ids ∧ Reads a.previous? (a.last? p) ids.reverse ∧
    ids.Nodup ∧ ∀ x, x ∈ ids ↔ a.parent? x = some p
  /-- Going from parent to parent ends. -/
  climbs : ∀ x, ∃ ids, Reads a.parent? (a.parent? x) ids
  holders : ∀ {x p}, a.parent? x = some p →
    ∃ content, a.content? p = some content ∧ content.holdsChildren
  fragments : ∀ {x}, a.content? x = some .fragment → a.parent? x = none
  names : ∀ {x e}, a.content? x = some (.element e) → e.NamesDiffer
  templates : ∀ {x e}, a.content? x = some (.element e) →
    (e.contents.isSome ↔ e.tag = "template")
  contents : ∀ {x e f}, a.content? x = some (.element e) → e.contents = some f →
    a.content? f = some .fragment
  owners : ∀ {x y e e' f}, a.content? x = some (.element e) → e.contents = some f →
    a.content? y = some (.element e') → e'.contents = some f → x = y

variable {t : Tree} {x y p : NodeId}

namespace Tree

theorem mem_of_entryAfter? {ids : List NodeId} (h : entryAfter? x ids = some y) : y ∈ ids := by
  induction ids with
  | nil => simp [entryAfter?] at h
  | cons z rest ih =>
    rw [entryAfter?] at h
    split at h
    · exact List.mem_cons_of_mem _ (List.mem_of_head? h)
    · exact List.mem_cons_of_mem _ (ih h)

/-- A node has its siblings for brothers. -/
theorem Tidy.parent_of_sibling (h : t.Tidy) {arrange : List NodeId → List NodeId}
    (harrange : ∀ p, (arrange (t.children p)).Perm (t.children p))
    (hy : t.siblingIn? arrange x = some y) : t.parent? y = t.parent? x := by
  obtain ⟨p, hp, hentry⟩ := Option.bind_eq_some_iff.1 hy
  rw [hp]
  exact h.parent_of_child ((harrange p).mem_iff.1 (mem_of_entryAfter? hentry))

/-- The links of a well-formed tree whose templates have contents are sound. -/
theorem sound_links (h : t.WellFormed) (hfurnished : t.Furnished) : t.links.Sound where
  inside := by
    intro x y hxy
    simp only [parent?_links, first?_links, last?_links, previous?_links, next?_links] at hxy
    have hsibling : ∀ arrange : List NodeId → List NodeId,
        (∀ p, (arrange (t.children p)).Perm (t.children p)) →
        t.siblingIn? arrange x = some y → t.Has y := by
      intro arrange harrange hy
      obtain ⟨p, hp, -⟩ := Option.bind_eq_some_iff.1 hy
      exact has_of_parent ((h.tidy.parent_of_sibling harrange hy).trans hp)
    rw [has_links]
    rcases hxy with hxy | hxy | hxy | hxy | hxy
    · exact h.has_parent hxy
    · exact h.has_of_child (List.mem_of_head? hxy)
    · exact h.has_of_child (List.mem_of_getLast? hxy)
    · exact hsibling List.reverse (fun p => List.reverse_perm _) hxy
    · exact hsibling id (fun p => .refl _) hxy
  lists := by
    intro p
    refine ⟨t.children p, reads_children h.tidy p, reads_children_reverse h.tidy p,
      h.nodup_children p, fun x => ?_⟩
    rw [parent?_links]
    exact ⟨h.parent_of_child, h.child_of_parent⟩
  climbs := fun x => ⟨t.ancestors x, reads_ancestors h x⟩
  holders := by
    intro x p hx
    simpa using h.holder_of_parent (by simpa using hx)
  fragments := by
    intro x hx
    simpa using h.fragment_parent (by simpa using hx)
  names := by
    intro x e hx
    exact h.names_differ (element?_eq_some.2 (by simpa using hx))
  templates := by
    intro x e hx
    rw [content?_links] at hx
    constructor
    · intro hsome
      simpa [Element.isTemplate] using h.contents_template (element?_eq_some.2 hx) hsome
    · intro htag
      rw [Option.isSome_iff_ne_none]
      exact fun hnone => hfurnished x ⟨e, hx, by simp [Element.isTemplate, htag], hnone⟩
  contents := by
    intro x e f hx hf
    rw [content?_links] at hx ⊢
    exact h.contents_fragment (contents?_eq_some.2 ⟨e, hx, hf⟩)
  owners := by
    intro x y e e' f hx hf hy hf'
    rw [content?_links] at hx hy
    exact h.contents_injective (contents?_eq_some.2 ⟨e, hx, hf⟩) (contents?_eq_some.2 ⟨e', hy, hf'⟩)

theorem furnished_empty : Tree.empty.Furnished := by
  rintro x ⟨e, he, -⟩
  have hhas := has_of_content he
  obtain ⟨i, hi, rfl⟩ := has_iff_slot.1 hhas
  obtain rfl : i = 0 := by simpa [size, empty] using hi
  simp [content?, get?, empty] at he

/-- A run of edits that keeps the tree grounded furnishes every template it makes. -/
theorem furnished_after (h : t.WellFormed) (hfurnished : t.Furnished) {operations : List Operation}
    (hgrounded : ∀ before, before <+: operations → (t.after before).Grounded) :
    (t.after operations).Furnished := by
  induction operations generalizing t with
  | nil => exact hfurnished
  | cons operation rest ih =>
    have hwf := (Edited.one t operation).wellFormed h
    refine ih hwf (operation.furnished_apply h (hgrounded [] List.nil_prefix) hfurnished) ?_
    exact fun before hbefore =>
      hgrounded (operation :: before) (List.cons_prefix_cons.2 ⟨rfl, hbefore⟩)

end Tree

/-- Whatever edits are applied to the empty document, its links stay sound as long as no template is
    made to hold itself. They are the links of the tree that the same edits build, and the next edit
    succeeds or fails alike on both. -/
theorem Links.sound_after (operations : List Operation)
    (hgrounded : ∀ before, before <+: operations → (Tree.empty.after before).Grounded) :
    (Links.empty.after operations).Sound ∧
      Links.empty.after operations = (Tree.empty.after operations).links ∧
      ∀ operation : Operation,
        (exec operation.linkedRun (Links.empty.after operations)).1 =
          (exec operation.run (Tree.empty.after operations)).1 := by
  have hempty : Links.empty = Tree.empty.links := by decide
  have hwf := (edited_after Tree.empty operations).wellFormed wellFormed_empty
  have hlinks : Links.empty.after operations = (Tree.empty.after operations).links := by
    rw [hempty]
    exact links_after wellFormed_empty.tidy operations
  have hfurnished := furnished_after wellFormed_empty furnished_empty hgrounded
  refine ⟨hlinks ▸ sound_links hwf hfurnished, hlinks, fun operation => ?_⟩
  rw [hlinks, (operation.mirrors_run _ hwf.tidy).2]

/-- A list with a template for its items, copied and put beside the first through a fragment; one
    node is put before itself, and the last three edits are refused. -/
def listEdits : List Operation :=
  [.createElement "ul", .createElement "Template", .createText "item",
    .insert (.slot 3) (.slot 4) none, .insert (.slot 1) (.slot 2) none,
    .insert .document (.slot 1) none, .createFragment, .copy (.slot 1) true,
    .insert (.slot 5) (.slot 6) none, .insert .document (.slot 5) (some (.slot 1)),
    .insert .document (.slot 1) (some (.slot 1)), .setAttribute (.slot 6) "id" "second",
    .insert (.slot 1) .document none, .removeChild .document (.slot 99), .remove .none]

theorem grounded_listEdits (before : List Operation) (h : before <+: listEdits) :
    (Tree.empty.after before).Grounded := by
  have hall : ∀ before ∈ listEdits.inits, (Tree.empty.after before).InOrder := by decide +kernel
  exact (hall before ((List.mem_inits _ _).2 h)).grounded

theorem Links.sound_after_listEdits :
    (∀ before, before <+: listEdits → (Tree.empty.after before).Grounded) ∧
      (Links.empty.after listEdits).Sound ∧
      Links.empty.after listEdits = (Tree.empty.after listEdits).links ∧
      (Links.empty.after listEdits).children .document = [.slot 6, .slot 1] := by
  obtain ⟨hsound, hlinks, -⟩ := Links.sound_after listEdits grounded_listEdits
  exact ⟨grounded_listEdits, hsound, hlinks, by decide +kernel⟩

end Repeater.Dom
