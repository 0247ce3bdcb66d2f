/-
  Repeater/Proofs/Dom/Nodes.lean
  ==============================
  **What the changes of single nodes show.**

  A tree shows of each node whether it exists, its content, its parent and its children. Detaching,
  placing and moving a node leave the contents alone and change the other two as the equations here
  say; together with the equations for a new node and for a new content they are all that the rest
  of the theory uses of the arena.
-/
import Repeater.Proofs.Run
import Repeater.Dom.Edit

namespace Repeater.Dom.Tree

/-! ## Existing nodes -/

/-- Whether the id names a node of the tree. -/
def Has (t : Tree) (id : NodeId) : Prop := (t.get? id).isSome

instance (t : Tree) (id : NodeId) : Decidable (t.Has id) := inferInstanceAs (Decidable (_ = true))

/-- A node shows all there is to it. -/
theorem get?_eq_of_shown {t t' : Tree} {x : NodeId} (hhas : t.Has x ↔ t'.Has x)
    (hcontent : t'.content? x = t.content? x) (hparent : t'.parent? x = t.parent? x)
    (hchildren : t'.children x = t.children x) : t'.get? x = t.get? x := by
  unfold Has content? parent? children at *
  rcases h : t.get? x with _ | n <;> rcases h' : t'.get? x with _ | n'
  · rfl
  · simp [h, h'] at hhas
  · simp [h, h'] at hhas
  · rcases n with ⟨content, parent, kids⟩
    rcases n' with ⟨content', parent', kids'⟩
    simp_all

theorem has_iff_content {t : Tree} {x : NodeId} : t.Has x ↔ ∃ c, t.content? x = some c := by
  unfold Has content?
  cases t.get? x <;> simp

theorem has_of_content {t : Tree} {x : NodeId} {c : Content} (h : t.content? x = some c) :
    t.Has x := has_iff_content.2 ⟨c, h⟩

theorem has_of_parent {t : Tree} {x p : NodeId} (h : t.parent? x = some p) : t.Has x := by
  unfold Has
  unfold parent? at h
  cases hx : t.get? x <;> simp_all

theorem has_of_mem_children {t : Tree} {x p : NodeId} (h : x ∈ t.children p) : t.Has p := by
  unfold Has
  unfold children at h
  cases hp : t.get? p <;> simp_all

theorem has_of_element {t : Tree} {x : NodeId} {e : Element} (h : t.element? x = some e) :
    t.Has x := by
  obtain ⟨c, hc, -⟩ := Option.bind_eq_some_iff.1 h
  exact has_of_content hc

theorem content?_of_not_has {t : Tree} {x : NodeId} (h : ¬ t.Has x) : t.content? x = none := by
  rcases hc : t.content? x with _ | c
  · rfl
  · exact absurd (has_of_content hc) h

theorem parent?_of_not_has {t : Tree} {x : NodeId} (h : ¬ t.Has x) : t.parent? x = none := by
  rcases hp : t.parent? x with _ | p
  · rfl
  · exact absurd (has_of_parent hp) h

theorem children_of_not_has {t : Tree} {x : NodeId} (h : ¬ t.Has x) : t.children x = [] := by
  refine List.eq_nil_iff_forall_not_mem.2 fun y hy => h (has_of_mem_children hy)

theorem element?_of_not_has {t : Tree} {x : NodeId} (h : ¬ t.Has x) : t.element? x = none := by
  unfold element?
  rw [content?_of_not_has h]
  rfl

theorem isElement_of_not_has {t : Tree} {x : NodeId} (h : ¬ t.Has x) : t.isElement x = false := by
  unfold isElement
  rw [element?_of_not_has h]
  rfl

theorem element?_eq_some {t : Tree} {x : NodeId} {e : Element} :
    t.element? x = some e ↔ t.content? x = some (.element e) := by
  unfold element?
  rcases t.content? x with _ | c
  · simp
  · cases c <;> simp [Content.element?]

theorem element?_of_content {t : Tree} {x : NodeId} {c : Content} (h : t.content? x = some c) :
    t.element? x = c.element? := by
  unfold element?
  rw [h, Option.bind_some]

theorem isElement_of_content {t : Tree} {x : NodeId} {c : Content} (h : t.content? x = some c) :
    t.isElement x = c.element?.isSome := by
  unfold isElement
  rw [element?_of_content h]

theorem contents?_of_content {t : Tree} {x : NodeId} {c : Content} (h : t.content? x = some c) :
    t.contents? x = c.element?.bind (·.contents) := by
  unfold contents?
  rw [element?_of_content h]

theorem contents?_eq_some {t : Tree} {x f : NodeId} :
    t.contents? x = some f ↔ ∃ e, t.content? x = some (.element e) ∧ e.contents = some f := by
  unfold contents?
  simp only [Option.bind_eq_some_iff, element?_eq_some]

theorem has_of_contents {t : Tree} {x f : NodeId} (h : t.contents? x = some f) : t.Has x := by
  obtain ⟨e, he, -⟩ := contents?_eq_some.1 h
  exact has_of_content he

/-! What a node says is all in its content. -/

theorem element?_congr {t t' : Tree} {x : NodeId} (h : t'.content? x = t.content? x) :
    t'.element? x = t.element? x := by
  unfold element?
  rw [h]

theorem contents?_congr {t t' : Tree} {x : NodeId} (h : t'.content? x = t.content? x) :
    t'.contents? x = t.contents? x := by
  unfold contents?
  rw [element?_congr h]

theorem attribute?_congr {t t' : Tree} {x : NodeId} (h : t'.content? x = t.content? x)
    (name : String) : t'.attribute? x name = t.attribute? x name := by
  unfold attribute?
  rw [element?_congr h]

theorem isElement_congr {t t' : Tree} {x : NodeId} (h : t'.content? x = t.content? x) :
    t'.isElement x = t.isElement x := by
  unfold isElement
  rw [element?_congr h]

theorem isElement_of_attribute {t : Tree} {x : NodeId} {name : String}
    (h : (t.attribute? x name).isSome = true) : t.isElement x = true := by
  unfold attribute? at h
  unfold isElement
  cases he : t.element? x <;> simp_all

theorem has_slot {t : Tree} {i : Nat} : t.Has (.slot i) ↔ i < t.size := by
  simp [Has, get?, size]

@[simp] theorem not_has_none (t : Tree) : ¬ t.Has .none := by simp [Has, get?]

theorem has_iff_slot {t : Tree} {x : NodeId} : t.Has x ↔ ∃ i < t.size, x = .slot i := by
  cases x with
  | none => simp
  | slot i => simp [has_slot]

/-! ## A new node -/

section push

variable (t : Tree) (content : Content) (x : NodeId)

theorem not_has_new : ¬ t.Has (.slot t.size) := by simp [has_slot]

@[simp] theorem has_push : (t.push content).2.Has x ↔ x = .slot t.size ∨ t.Has x := by
  unfold Has
  rw [get?_push]
  split <;> simp_all

@[simp] theorem content?_push : (t.push content).2.content? x =
    if x = .slot t.size then some content else t.content? x := by
  unfold content?
  rw [get?_push]
  split <;> rfl

@[simp] theorem parent?_push : (t.push content).2.parent? x = t.parent? x := by
  unfold parent?
  rw [get?_push]
  split
  · next h =>
    have := parent?_of_not_has (h ▸ not_has_new t)
    unfold parent? at this
    rw [this]
    rfl
  · rfl

@[simp] theorem children_push : (t.push content).2.children x = t.children x := by
  unfold children
  rw [get?_push]
  split
  · next h =>
    have := children_of_not_has (h ▸ not_has_new t)
    unfold children at this
    rw [this]
    rfl
  · rfl

end push

/-! ## A new content -/

/-- The tree in which a node has another content. -/
def setContent (t : Tree) (id : NodeId) (content : Content) : Tree :=
  t.modify id fun n => { n with content }

section setContent

variable (t : Tree) (id : NodeId) (content : Content) (x : NodeId)

@[simp] theorem has_setContent : (t.setContent id content).Has x ↔ t.Has x := by
  unfold Has setContent
  rw [get?_modify]
  split <;> simp

@[simp] theorem content?_setContent : (t.setContent id content).content? x =
    if x = id ∧ t.Has id then some content else t.content? x := by
  unfold content? setContent Has
  rw [get?_modify]
  by_cases h : id = x
  · subst h
    rcases Option.eq_none_or_eq_some (t.get? id) with hn | ⟨n, hn⟩ <;> simp [hn]
  · rw [if_neg h, if_neg fun hx => h hx.1.symm]

@[simp] theorem parent?_setContent : (t.setContent id content).parent? x = t.parent? x := by
  unfold parent? setContent
  rw [get?_modify]
  split
  · cases t.get? x <;> rfl
  · rfl

@[simp] theorem children_setContent : (t.setContent id content).children x = t.children x := by
  unfold children setContent
  rw [get?_modify]
  split
  · cases t.get? x <;> rfl
  · rfl

@[simp] theorem size_setContent : (t.setContent id content).size = t.size := size_modify ..

/-- A tree is what its arena holds. -/
theorem ext_get? {t t' : Tree} (h : ∀ x, t'.get? x = t.get? x) : t' = t := by
  obtain ⟨nodes⟩ := t
  obtain ⟨nodes'⟩ := t'
  congr 1
  exact Array.ext_getElem? fun i => h (.slot i)

variable {t} {x content} in
theorem setContent_of_content (h : t.content? x = some content) : t.setContent x content = t := by
  refine ext_get? fun y => ?_
  unfold setContent
  rw [get?_modify]
  split
  · next hxy =>
    subst hxy
    obtain ⟨n, hn, rfl⟩ := Option.map_eq_some_iff.1 h
    rw [hn]
    rfl
  · rfl

theorem setContent_setContent (first second : Content) :
    (t.setContent x first).setContent x second = t.setContent x second := by
  refine ext_get? fun y => ?_
  unfold setContent
  simp only [get?_modify]
  split
  · cases t.get? y <;> rfl
  · rfl

end setContent

/-! ## Detaching -/

section detach

variable (t : Tree) (x y : NodeId)

theorem get?_detach : (t.detach x).get? y = (t.get? y).map fun n =>
    { content := n.content
      parent := if y = x then none else n.parent
      children := if t.parent? x = some y then n.children.erase x else n.children } := by
  unfold detach
  rcases hp : t.parent? x with _ | p
  · simp only [reduceCtorEq, if_false]
    rcases hy : t.get? y with _ | n
    · rfl
    · by_cases h : y = x
      · subst h
        have hn : n.parent = none := by simpa [parent?, hy] using hp
        simp [← hn]
      · simp [h]
  · simp only [get?_modify, Option.some.injEq, eq_comm (a := y)]
    by_cases hx : x = y <;> by_cases hpy : p = y <;> cases t.get? y <;> simp [hx, hpy]

@[simp] theorem has_detach : (t.detach x).Has y ↔ t.Has y := by
  simp [Has, get?_detach]

@[simp] theorem content?_detach : (t.detach x).content? y = t.content? y := by
  unfold content?
  rw [get?_detach]
  cases t.get? y <;> rfl

@[simp] theorem element?_detach : (t.detach x).element? y = t.element? y :=
  element?_congr (content?_detach t x y)

@[simp] theorem contents?_detach : (t.detach x).contents? y = t.contents? y :=
  contents?_congr (content?_detach t x y)

@[simp] theorem parent?_detach :
    (t.detach x).parent? y = if y = x then none else t.parent? y := by
  unfold parent?
  rw [get?_detach]
  cases t.get? y <;> simp

@[simp] theorem children_detach : (t.detach x).children y =
    if t.parent? x = some y then (t.children y).erase x else t.children y := by
  unfold children
  rw [get?_detach]
  cases t.get? y <;> simp

@[simp] theorem size_detach : (t.detach x).size = t.size := by
  unfold detach
  split <;> simp [size_modify]

end detach

/-! ## Placing -/

section place

variable (t : Tree) (p c : NodeId) (reference : Option NodeId) (y : NodeId)

theorem get?_place : (t.place p c reference).get? y = (t.get? y).map fun n =>
    { content := n.content
      parent := if y = c then some p else n.parent
      children := if y = p then listWith c reference n.children else n.children } := by
  unfold place
  simp only [get?_modify]
  by_cases hc : c = y <;> by_cases hp : p = y <;> cases t.get? y <;> simp_all [eq_comm]

@[simp] theorem has_place : (t.place p c reference).Has y ↔ t.Has y := by
  simp [Has, get?_place]

@[simp] theorem content?_place : (t.place p c reference).content? y = t.content? y := by
  unfold content?
  rw [get?_place]
  cases t.get? y <;> rfl

@[simp] theorem parent?_place : (t.place p c reference).parent? y =
    if y = c ∧ t.Has c then some p else t.parent? y := by
  unfold parent? Has
  rw [get?_place]
  by_cases h : y = c
  · subst h
    rcases Option.eq_none_or_eq_some (t.get? y) with hn | ⟨n, hn⟩ <;> simp [hn]
  · cases t.get? y <;> simp [h]

@[simp] theorem children_place : (t.place p c reference).children y =
    if y = p ∧ t.Has p then listWith c reference (t.children p) else t.children y := by
  unfold children Has
  rw [get?_place]
  by_cases h : y = p
  · subst h
    rcases Option.eq_none_or_eq_some (t.get? y) with hn | ⟨n, hn⟩ <;> simp [hn]
  · cases t.get? y <;> simp [h]

@[simp] theorem size_place : (t.place p c reference).size = t.size := by
  simp [place, size_modify]

end place

/-! ## Moving -/

/-- Where a node ends up that is to stand before `reference`: one that is to stand before itself
    stays before the sibling it had. -/
def movedReference (t : Tree) (c : NodeId) (reference : Option NodeId) : Option NodeId :=
  if reference = some c then t.nextSibling? c else reference

section relocate

variable (t : Tree) (p c : NodeId) (reference : Option NodeId) (y : NodeId)

theorem relocate_eq :
    t.relocate p c reference = (t.detach c).place p c (t.movedReference c reference) := rfl

@[simp] theorem has_relocate : (t.relocate p c reference).Has y ↔ t.Has y := by
  simp [relocate_eq]

@[simp] theorem content?_relocate : (t.relocate p c reference).content? y = t.content? y := by
  simp [relocate_eq]

@[simp] theorem element?_relocate : (t.relocate p c reference).element? y = t.element? y :=
  element?_congr (content?_relocate t p c reference y)

@[simp] theorem contents?_relocate : (t.relocate p c reference).contents? y = t.contents? y :=
  contents?_congr (content?_relocate t p c reference y)

theorem parent?_relocate (hc : t.Has c) : (t.relocate p c reference).parent? y =
    if y = c then some p else t.parent? y := by
  by_cases h : y = c <;> simp [relocate_eq, h, hc]

theorem children_relocate (hp : t.Has p) : (t.relocate p c reference).children y =
    if y = p then listWith c (t.movedReference c reference) ((t.detach c).children p)
    else if t.parent? c = some y then (t.children y).erase c else t.children y := by
  by_cases h : y = p <;> simp [relocate_eq, h, hp]

@[simp] theorem size_relocate : (t.relocate p c reference).size = t.size := by
  simp [relocate_eq]

end relocate

theorem listWith_perm (x : NodeId) (reference : Option NodeId) (ids : List NodeId) :
    (listWith x reference ids).Perm (x :: ids) := by
  cases reference with
  | none => exact List.perm_append_singleton x ids
  | some r =>
    have h : (ids.takeWhile (· ≠ r) ++ x :: ids.dropWhile (· ≠ r)).Perm
        (x :: (ids.takeWhile (· ≠ r) ++ ids.dropWhile (· ≠ r))) := List.perm_middle
    rwa [List.takeWhile_append_dropWhile] at h

end Repeater.Dom.Tree
