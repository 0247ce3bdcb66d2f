/-
  Repeater/Proofs/Dom/Links.lean
  ==============================
  **Arenas of links.**

  The nodes of a document may also be held without lists of children: each node knows its parent,
  its first and last child and its two siblings, and whoever moves a node mends the links around
  the gap it leaves and around the place it takes. The edits are the same and give the same errors;
  `Operation.linkedRun` carries them out on links.

  `Tree.links` gives the links that a tree shows. Detaching and placing a node on a tree whose
  parents and children agree changes the links it shows exactly as `Links.unlink` and `Links.link`
  change them by hand (`Tree.links_detach`, `Tree.links_place`).
-/
import Repeater.Proofs.Dom.Operations

namespace Repeater.Dom

/-- A node as an arena of links holds it. A link without a node is `none`. -/
structure LinkedNode where
  content : Content
  parent : Option NodeId := none
  first : Option NodeId := none
  last : Option NodeId := none
  previous : Option NodeId := none
  next : Option NodeId := none
deriving DecidableEq, Repr

attribute [ext] LinkedNode

/-- An arena of nodes that are linked to each other. -/
structure Links where
  nodes : Array LinkedNode
deriving DecidableEq, Repr

namespace Links

/-! ## Looking up and changing one node -/

/-- The arena that holds nothing but the document node. -/
def empty : Links := ⟨#[{ content := .document }]⟩

def size (a : Links) : Nat := a.nodes.size

def get? (a : Links) : NodeId → Option LinkedNode
  | .none => none
  | .slot i => a.nodes[i]?

/-- Changes the node an id names, if it names one. -/
def modify (a : Links) (id : NodeId) (f : LinkedNode → LinkedNode) : Links :=
  match id with
  | .none => a
  | .slot i => ⟨a.nodes.modify i f⟩

/-- Adds a node without links and gives its id. -/
def push (a : Links) (content : Content) : NodeId × Links :=
  (.slot a.size, ⟨a.nodes.push { content }⟩)

theorem get?_modify (a : Links) (id other : NodeId) (f : LinkedNode → LinkedNode) :
    (a.modify id f).get? other = if id = other then (a.get? other).map f else a.get? other := by
  cases id with
  | none =>
    cases other <;> simp [modify, get?]
  | slot i =>
    cases other with
    | none => simp [get?]
    | slot j => simp [modify, get?, Array.getElem?_modify]

theorem get?_push (a : Links) (content : Content) (id : NodeId) :
    (a.push content).2.get? id = if id = .slot a.size then some { content } else a.get? id := by
  cases id with
  | none => simp [get?]
  | slot i => simp [push, get?, Array.getElem?_push, size]

theorem ext_get? {a b : Links} (h : ∀ x, a.get? x = b.get? x) : a = b := by
  obtain ⟨nodes⟩ := a
  obtain ⟨nodes'⟩ := b
  congr 1
  exact Array.ext_getElem? fun i => h (.slot i)

def Has (a : Links) (id : NodeId) : Prop := (a.get? id).isSome

def content? (a : Links) (id : NodeId) : Option Content := (a.get? id).map (·.content)

def parent? (a : Links) (id : NodeId) : Option NodeId := (a.get? id).bind (·.parent)

def first? (a : Links) (id : NodeId) : Option NodeId := (a.get? id).bind (·.first)

def last? (a : Links) (id : NodeId) : Option NodeId := (a.get? id).bind (·.last)

def previous? (a : Links) (id : NodeId) : Option NodeId := (a.get? id).bind (·.previous)

def next? (a : Links) (id : NodeId) : Option NodeId := (a.get? id).bind (·.next)

/-! ## Following links -/

/-- Following `step` from `start` meets these nodes, and then there is no further link. -/
inductive Reads (step : NodeId → Option NodeId) : Option NodeId → List NodeId → Prop
  | stop : Reads step none []
  | step {x : NodeId} {ids : List NodeId} : Reads step (step x) ids → Reads step (some x) (x :: ids)

/-- The nodes met by following `step` from `start`, for at most `steps` nodes. -/
def follow (step : NodeId → Option NodeId) : Nat → Option NodeId → List NodeId
  | steps + 1, some x => x :: follow step steps (step x)
  | _, _ => []

/-- The children of a node, read from the first on. No list of children is longer than the arena. -/
def children (a : Links) (id : NodeId) : List NodeId := follow a.next? a.size (a.first? id)

/-- The ancestors of a node, from its parent upwards. -/
def ancestors (a : Links) (id : NodeId) : List NodeId := follow a.parent? a.size (a.parent? id)

/-- Whether `above` is `below` itself or one of its ancestors. -/
def isInclusiveAncestor (a : Links) (above below : NodeId) : Bool :=
  above = below || (a.ancestors below).contains above

/-! ## Mending links -/

/-- Lets `x` stand right after `left`, or as the first child of `p` when nothing is on the left. -/
def setNext (a : Links) (p : NodeId) (left x : Option NodeId) : Links :=
  match left with
  | some y => a.modify y fun n => { n with next := x }
  | none => a.modify p fun n => { n with first := x }

/-- Lets `x` stand right before `right`, or as the last child of `p` when nothing is on the right. -/
def setPrevious (a : Links) (p : NodeId) (right x : Option NodeId) : Links :=
  match right with
  | some y => a.modify y fun n => { n with previous := x }
  | none => a.modify p fun n => { n with last := x }

/-- Detaches a node: its siblings become neighbours. -/
def unlink (a : Links) (id : NodeId) : Links :=
  match a.parent? id with
  | none => a
  | some p =>
    let previous := a.previous? id
    let next := a.next? id
    ((a.setNext p previous next).setPrevious p next previous).modify id
      fun n => { n with parent := none, previous := none, next := none }

/-- The child of `p` that stands right before `reference`, or the last one. -/
def before? (a : Links) (p : NodeId) : Option NodeId → Option NodeId
  | some r => a.previous? r
  | none => a.last? p

/-- Makes a detached node a child of `p`, right before `reference` or as the last child. -/
def link (a : Links) (p c : NodeId) (reference : Option NodeId) : Links :=
  let previous := a.before? p reference
  let placed := a.modify c fun n => { n with parent := some p, previous, next := reference }
  (placed.setNext p previous (some c)).setPrevious p reference (some c)

section mending

variable (a : Links) (p : NodeId) (beside x : Option NodeId) (y : NodeId)

theorem get?_setNext : (a.setNext p beside x).get? y = (a.get? y).map fun n =>
    { n with
      next := if beside = some y then x else n.next
      first := if beside = none ∧ y = p then x else n.first } := by
  unfold setNext
  cases beside with
  | none =>
    rw [get?_modify]
    by_cases hy : p = y
    · simp [hy]
    · simp [hy, Ne.symm hy]
  | some z =>
    rw [get?_modify]
    by_cases hz : z = y
    · simp [hz]
    · simp [hz]

theorem get?_setPrevious : (a.setPrevious p beside x).get? y = (a.get? y).map fun n =>
    { n with
      previous := if beside = some y then x else n.previous
      last := if beside = none ∧ y = p then x else n.last } := by
  unfold setPrevious
  cases beside with
  | none =>
    rw [get?_modify]
    by_cases hy : p = y
    · simp [hy]
    · simp [hy, Ne.symm hy]
  | some z =>
    rw [get?_modify]
    by_cases hz : z = y
    · simp [hz]
    · simp [hz]

end mending

def setContent (a : Links) (id : NodeId) (content : Content) : Links :=
  a.modify id fun n => { n with content }

end Links

/-! ## The edits on links -/

/-- A change of an arena of links that may fail and gives a value. -/
abbrev LinkEdit (α : Type) := ExceptT DomError (StateM Links) α

namespace LinkEdit

def create (content : Content) : LinkEdit NodeId := do
  let (id, a) := (← get).push content
  set a
  return id

/-- Adds an element. A template also gets an empty fragment for its contents. -/
def createElement (tag : String) : LinkEdit NodeId := do
  let element := Element.ofTag tag
  let id ← create (.element element)
  if element.isTemplate then
    let contents ← create .fragment
    modify (·.setContent id (.element { element with contents := some contents }))
  return id

/-- The content of the node to insert, unless the parent, the node or the reference does not allow
    an insertion. -/
def checkPlace (a : Links) (parent child : NodeId) (reference : Option NodeId) :
    Except DomError Content := do
  let some holder := a.content? parent | throw (.notFound parent)
  unless holder.holdsChildren do throw (.invalidKind parent)
  let some content := a.content? child | throw (.notFound child)
  if let some r := reference then
    unless a.parent? r = some parent do throw (.notAChild parent r)
  return content

/-- Inserts one node that is not a fragment. One that is to stand before itself stays before the
    sibling it had. -/
def insertNode (parent child : NodeId) (reference : Option NodeId) : LinkEdit Unit := do
  let a ← get
  let _ ← checkPlace a parent child reference
  if a.isInclusiveAncestor child parent then throw (.hierarchy parent child)
  let reference := if reference = some child then a.next? child else reference
  set ((a.unlink child).link parent child reference)

/-- Inserts a node before `reference`, or as the last child; a fragment is replaced by its
    children. -/
def insertBefore (parent child : NodeId) (reference : Option NodeId) : LinkEdit NodeId := do
  let a ← get
  let content ← checkPlace a parent child reference
  if content.isFragment then
    (a.children child).forM fun kid => insertNode parent kid reference
  else
    insertNode parent child reference
  return child

def append (parent child : NodeId) : LinkEdit NodeId := insertBefore parent child none

def removeChild (parent child : NodeId) : LinkEdit NodeId := do
  let a ← get
  unless a.parent? child = some parent do throw (.notAChild parent child)
  set (a.unlink child)
  return child

def remove (id : NodeId) : LinkEdit NodeId := do
  let a ← get
  if (a.get? id).isNone then throw (.notFound id)
  set (a.unlink id)
  return id

def theElement (id : NodeId) : LinkEdit Element := do
  let some content := (← get).content? id | throw (.notFound id)
  let some element := content.element? | throw (.invalidKind id)
  return element

def setAttribute (id : NodeId) (name value : String) : LinkEdit Unit := do
  let element ← theElement id
  modify (·.setContent id (.element (element.set name value)))

def removeAttribute (id : NodeId) (name : String) : LinkEdit (Option String) := do
  let element ← theElement id
  modify (·.setContent id (.element (element.erase name)))
  return element.get? name

/-- Sets the string of a text node; of any other node, replaces all children by one text, or by
    nothing when the text is empty. -/
def setText (id : NodeId) (text : String) : LinkEdit Unit := do
  let a ← get
  let some content := a.content? id | throw (.notFound id)
  match content with
  | .text _ => modify (·.setContent id (.text text))
  | _ =>
    (a.children id).forM fun kid => modify (·.unlink kid)
    unless text.isEmpty do
      let child ← create (.text text)
      let _ ← append id child

/-- Copies a node whose children and template contents nest at most `depth` deep. -/
def copyWithin : Nat → NodeId → Bool → LinkEdit NodeId
  | 0, id, _ => throw (.notFound id)
  | depth + 1, id, deep => do
    let a ← get
    let some content := a.content? id | throw (.notFound id)
    let copy ← match content with
      | .element element => do
        let copy ← create (.element { element with contents := none })
        if let some contents := element.contents then
          let contents ← if deep then copyWithin depth contents true else create .fragment
          modify (·.setContent copy (.element { element with contents := some contents }))
        pure copy
      | content => create content
    if deep then
      (a.children id).forM fun kid => do
        let child ← copyWithin depth kid true
        let _ ← append copy child
    return copy

def copy (id : NodeId) (deep : Bool) : LinkEdit NodeId := do
  copyWithin (← get).size id deep

end LinkEdit

def Operation.linkedRun : Operation → LinkEdit Unit
  | createElement tag => discard (LinkEdit.createElement tag)
  | createText text => discard (LinkEdit.create (.text text))
  | createComment text => discard (LinkEdit.create (.comment text))
  | createFragment => discard (LinkEdit.create .fragment)
  | createDoctype name => discard (LinkEdit.create (.doctype name))
  | insert parent child reference => discard (LinkEdit.insertBefore parent child reference)
  | removeChild parent child => discard (LinkEdit.removeChild parent child)
  | remove id => discard (LinkEdit.remove id)
  | copy id deep => discard (LinkEdit.copy id deep)
  | setAttribute id name value => LinkEdit.setAttribute id name value
  | removeAttribute id name => discard (LinkEdit.removeAttribute id name)
  | setText id text => LinkEdit.setText id text

/-! ## The links that a tree shows -/

namespace Tree

/-- A node of a tree, with the links that its place gives it. -/
def linkedNode (t : Tree) (id : NodeId) (n : Node) : LinkedNode where
  content := n.content
  parent := n.parent
  first := n.children.head?
  last := n.children.getLast?
  previous := t.previousSibling? id
  next := t.nextSibling? id

/-- The nodes of a tree with the links that it shows of them. -/
def links (t : Tree) : Links := ⟨t.nodes.mapIdx fun i n => t.linkedNode (.slot i) n⟩

section links

variable (t : Tree) (x : NodeId)

theorem get?_links : t.links.get? x = (t.get? x).map (t.linkedNode x) := by
  cases x with
  | none => rfl
  | slot i => simp [links, Links.get?, get?]

@[simp] theorem size_links : t.links.size = t.size := by simp [links, Links.size, size]

@[simp] theorem has_links : t.links.Has x ↔ t.Has x := by
  unfold Links.Has Has
  rw [get?_links]
  cases t.get? x <;> simp

@[simp] theorem isNone_get?_links : (t.links.get? x).isNone = (t.get? x).isNone := by
  rw [get?_links]
  cases t.get? x <;> rfl

@[simp] theorem content?_links : t.links.content? x = t.content? x := by
  unfold Links.content? content?
  rw [get?_links]
  cases t.get? x <;> rfl

@[simp] theorem parent?_links : t.links.parent? x = t.parent? x := by
  unfold Links.parent? parent?
  rw [get?_links]
  cases t.get? x <;> rfl

@[simp] theorem first?_links : t.links.first? x = t.firstChild? x := by
  unfold Links.first? firstChild? children
  rw [get?_links]
  cases t.get? x <;> rfl

@[simp] theorem last?_links : t.links.last? x = t.lastChild? x := by
  unfold Links.last? lastChild? children
  rw [get?_links]
  cases t.get? x <;> rfl

@[simp] theorem previous?_links : t.links.previous? x = t.previousSibling? x := by
  unfold Links.previous?
  rw [get?_links]
  rcases hx : t.get? x with _ | n
  · simp [previousSibling?, parent?, hx]
  · rfl

@[simp] theorem next?_links : t.links.next? x = t.nextSibling? x := by
  unfold Links.next?
  rw [get?_links]
  rcases hx : t.get? x with _ | n
  · simp [nextSibling?, parent?, hx]
  · rfl

end links

/-! ## Neighbours in a list

A list with one more entry: what stands after each entry changes only at the seam. -/

variable {front back : List NodeId} {c x y p : NodeId} {t : Tree}

theorem entryAfter?_append (hnodup : (front ++ back).Nodup) :
    entryAfter? y (front ++ back) =
      if front.getLast? = some y then back.head?
      else if y ∈ front then entryAfter? y front else entryAfter? y back := by
  induction front with
  | nil => simp
  | cons z front ih =>
    rw [List.cons_append, List.nodup_cons] at hnodup
    rw [List.cons_append, entryAfter?, ih hnodup.2, entryAfter?]
    -- `z` is at the seam only if it is the last entry of the front
    cases front with
    | nil =>
      by_cases hzy : z = y
      · simp [hzy]
      · simp [hzy, Ne.symm hzy]
    | cons w rest =>
      by_cases hzy : z = y
      · subst hzy
        have hlast : (w :: rest).getLast? ≠ some z := fun hlast =>
          hnodup.1 (List.mem_append_left _ (List.mem_of_getLast? hlast))
        simp [hlast]
      · simp [hzy, Ne.symm hzy]

/-- With `c` in the list, it stands after what was last before it. -/
theorem entryAfter?_insert (hnodup : (front ++ c :: back).Nodup) :
    entryAfter? y (front ++ c :: back) =
      if y = c then back.head?
      else if front.getLast? = some y then some c else entryAfter? y (front ++ back) := by
  have hless : (front ++ back).Nodup := (List.nodup_cons.1 (List.nodup_middle.1 hnodup)).2
  have hc : c ∉ front ++ back := (List.nodup_cons.1 (List.nodup_middle.1 hnodup)).1
  rw [entryAfter?_append hnodup, entryAfter?_append hless]
  by_cases hy : y = c
  · subst hy
    have hfront : y ∉ front := fun h => hc (List.mem_append_left _ h)
    have hlast : front.getLast? ≠ some y := fun h => hfront (List.mem_of_getLast? h)
    simp [hlast, hfront, entryAfter?]
  · by_cases hlast : front.getLast? = some y
    · simp [hlast, hy]
    · simp [hlast, hy, entryAfter?, Ne.symm hy]

/-- Without `c` in the list, what was before it is followed by what was after it. -/
theorem entryAfter?_remove (hnodup : (front ++ c :: back).Nodup) (hy : y ≠ c) :
    entryAfter? y (front ++ back) =
      if front.getLast? = some y then back.head? else entryAfter? y (front ++ c :: back) := by
  rw [entryAfter?_insert hnodup, if_neg hy]
  split
  · next hlast =>
    rw [entryAfter?_append (List.nodup_cons.1 (List.nodup_middle.1 hnodup)).2, if_pos hlast]
  · rfl

/-! ## Siblings around a place

The sibling before and the sibling after a node are both the entry after it in an arrangement of
the children: as they are, or reversed. -/

/-- The sibling after a node in an arrangement of the children. -/
def siblingIn? (t : Tree) (arrange : List NodeId → List NodeId) (y : NodeId) : Option NodeId :=
  (t.parent? y).bind fun p => entryAfter? y (arrange (t.children p))

/-- Whether `arrange` puts the node between `before` and `after`, in a list of the same nodes. -/
structure Arranges (arrange : List NodeId → List NodeId) (front : List NodeId) (c : NodeId)
    (back before after : List NodeId) : Prop where
  whole : arrange (front ++ c :: back) = before ++ c :: after
  without : arrange (front ++ back) = before ++ after
  perm : (before ++ c :: after).Perm (front ++ c :: back)

theorem arranges_id (front : List NodeId) (c : NodeId) (back : List NodeId) :
    Arranges id front c back front back := ⟨rfl, rfl, .refl _⟩

theorem arranges_reverse (front : List NodeId) (c : NodeId) (back : List NodeId) :
    Arranges List.reverse front c back back.reverse front.reverse where
  whole := by simp
  without := by simp
  perm := by
    have h : (front ++ c :: back).reverse = back.reverse ++ c :: front.reverse := by simp
    exact h ▸ List.reverse_perm _

theorem Arranges.nodup {arrange : List NodeId → List NodeId} {before after : List NodeId}
    (h : t.Tidy) (hlist : t.children p = front ++ c :: back)
    (harrange : Arranges arrange front c back before after) : (before ++ c :: after).Nodup := by
  rw [harrange.perm.nodup_iff, ← hlist]
  exact h.nodup_children p

theorem siblingIn?_self {arrange : List NodeId → List NodeId} {before after : List NodeId}
    (h : t.Tidy) (hlist : t.children p = front ++ c :: back)
    (harrange : Arranges arrange front c back before after) :
    t.siblingIn? arrange c = after.head? := by
  have hc : t.parent? c = some p := h.parent_of_child (by simp [hlist])
  unfold siblingIn?
  rw [hc, Option.bind_some, hlist, harrange.whole,
    entryAfter?_insert (harrange.nodup h hlist), if_pos rfl]

/-- When the children of `p` alone change, and among them only what comes after `last`, no node but
    `last` gets another sibling. -/
theorem siblingIn?_of_others {t' : Tree} {arrange : List NodeId → List NodeId}
    {last next : Option NodeId} (hparent : t'.parent? y = t.parent? y)
    (hother : ∀ q, q ≠ p → t'.children q = t.children q)
    (hlast : last = some y → t.parent? y = some p)
    (hown : entryAfter? y (arrange (t'.children p)) =
      if last = some y then next else entryAfter? y (arrange (t.children p))) :
    t'.siblingIn? arrange y = if last = some y then next else t.siblingIn? arrange y := by
  unfold siblingIn?
  rw [hparent]
  rcases hy : t.parent? y with _ | q
  · rw [if_neg fun h => by simp [hlast h] at hy]
    rfl
  · rw [Option.bind_some, Option.bind_some]
    by_cases hq : q = p
    · rw [hq, hown]
    · rw [hother q hq, if_neg]
      intro h
      rw [hlast h, Option.some.injEq] at hy
      exact hq hy.symm

/-- What stands where after a node has been put between `front` and `back`. -/
theorem siblingIn?_place {reference : Option NodeId} {arrange : List NodeId → List NodeId}
    {before after : List NodeId} (h : t.Tidy) (hp : t.Has p) (hc : t.Has c)
    (hdetached : t.parent? c = none) (hlist : t.children p = front ++ back)
    (hplaced : listWith c reference (t.children p) = front ++ c :: back)
    (harrange : Arranges arrange front c back before after) :
    (t.place p c reference).siblingIn? arrange y =
      if y = c then after.head?
      else if before.getLast? = some y then some c else t.siblingIn? arrange y := by
  have hnodup : (before ++ c :: after).Nodup := by
    rw [harrange.perm.nodup_iff, ← hplaced, (listWith_perm c reference _).nodup_iff,
      List.nodup_cons]
    exact ⟨h.not_mem_children hdetached p, h.nodup_children p⟩
  have hkids : (t.place p c reference).children p = front ++ c :: back := by
    rw [children_place, if_pos ⟨rfl, hp⟩, hplaced]
  by_cases hy : y = c
  · subst hy
    unfold siblingIn?
    rw [parent?_place, if_pos ⟨rfl, hc⟩, Option.bind_some, hkids, harrange.whole,
      entryAfter?_insert hnodup, if_pos rfl, if_pos rfl]
  · rw [if_neg hy]
    refine siblingIn?_of_others (p := p) ?parent ?others ?last ?own
    case parent => rw [parent?_place, if_neg fun h => hy h.1]
    case others => exact fun q hq => by rw [children_place, if_neg fun h => hq h.1]
    case last =>
      -- only children of `p` stand in the list
      intro hlast
      refine h.parent_of_child ?_
      have hy' : y ∈ front ++ c :: back :=
        harrange.perm.mem_iff.1 (List.mem_append_left _ (List.mem_of_getLast? hlast))
      rw [hlist]
      simpa [hy] using hy'
    case own =>
      rw [hkids, hlist, harrange.whole, harrange.without, entryAfter?_insert hnodup, if_neg hy]

/-- What stands where after a node between `front` and `back` has been taken out. -/
theorem siblingIn?_detach {arrange : List NodeId → List NodeId} {before after : List NodeId}
    (h : t.Tidy) (hlist : t.children p = front ++ c :: back)
    (harrange : Arranges arrange front c back before after) :
    (t.detach c).siblingIn? arrange y =
      if y = c then none
      else if before.getLast? = some y then after.head? else t.siblingIn? arrange y := by
  have hnodup := harrange.nodup h hlist
  have hc : t.parent? c = some p := h.parent_of_child (by simp [hlist])
  have hkids : (t.detach c).children p = front ++ back := by
    have hcfront : c ∉ front := by
      have hlistNodup := hlist ▸ h.nodup_children p
      exact fun hmem => (List.nodup_cons.1 (List.nodup_middle.1 hlistNodup)).1
        (List.mem_append_left _ hmem)
    rw [children_detach, if_pos hc, hlist, List.erase_append_right _ hcfront]
    simp
  by_cases hy : y = c
  · subst hy
    simp [siblingIn?]
  · rw [if_neg hy]
    refine siblingIn?_of_others (p := p) ?parent ?others ?last ?own
    case parent => rw [parent?_detach, if_neg hy]
    case others =>
      intro q hq
      rw [children_detach, if_neg (by rw [hc, Option.some.injEq]; exact fun h => hq h.symm)]
    case last =>
      intro hlast
      refine h.parent_of_child ?_
      rw [hlist]
      exact harrange.perm.mem_iff.1 (List.mem_append_left _ (List.mem_of_getLast? hlast))
    case own =>
      rw [hkids, hlist, harrange.whole, harrange.without, entryAfter?_remove hnodup hy]

/-! ## Detaching and placing on links -/

theorem listWith_eq_run (x : NodeId) (reference : Option NodeId) (ids : List NodeId) :
    listWith x reference ids = listWithRun [x] reference ids := by
  cases reference <;> simp [listWith, listWithRun]

/-- A run that goes before the first entry of the back of a list is between its front and its
    back. -/
theorem listWithRun_head? (run : List NodeId) (hfront : ∀ r, back.head? = some r → r ∉ front) :
    listWithRun run back.head? (front ++ back) = front ++ run ++ back := by
  cases back with
  | nil => simp [listWithRun]
  | cons r rest =>
    have hne : ∀ z ∈ front, z ≠ r := by
      rintro z hz rfl
      exact hfront z rfl hz
    simp only [List.head?_cons, listWithRun]
    rw [List.takeWhile_append_of_pos (by simpa using hne),
      List.dropWhile_append_of_pos (by simpa using hne)]
    simp

/-- A place among the children of a node is between those before it and those after it. -/
theorem exists_placeRun {reference : Option NodeId} (ids run : List NodeId)
    (hreference : ∀ r, reference = some r → r ∈ ids) :
    ∃ front back, ids = front ++ back ∧ listWithRun run reference ids = front ++ run ++ back ∧
      back.head? = reference := by
  cases reference with
  | none => exact ⟨ids, [], by simp, by simp [listWithRun], rfl⟩
  | some r =>
    obtain ⟨front, back, rfl, hr⟩ := List.eq_append_cons_of_mem (hreference r rfl)
    have hfront : ∀ z, (r :: back).head? = some z → z ∉ front := by
      rintro _ ⟨⟩
      exact hr
    exact ⟨front, r :: back, rfl, listWithRun_head? run hfront, rfl⟩

theorem exists_place {reference : Option NodeId} (ids : List NodeId) (c : NodeId)
    (hreference : ∀ r, reference = some r → r ∈ ids) :
    ∃ front back, ids = front ++ back ∧ listWith c reference ids = front ++ c :: back ∧
      back.head? = reference := by
  obtain ⟨front, back, hids, hplaced, hback⟩ := exists_placeRun ids [c] hreference
  exact ⟨front, back, hids, by rw [listWith_eq_run, hplaced]; simp, hback⟩

theorem before?_links (h : t.Tidy) {reference : Option NodeId}
    (hlist : t.children p = front ++ back) (hback : back.head? = reference) :
    t.links.before? p reference = front.getLast? := by
  cases back with
  | nil =>
    subst hback
    simp [Links.before?, lastChild?, hlist]
  | cons r rest =>
    subst hback
    have hprevious := siblingIn?_self h hlist (arranges_reverse front r rest)
    simp only [List.head?_cons, Links.before?, previous?_links]
    rwa [List.head?_reverse] at hprevious

theorem links_place (h : t.Tidy) (hp : t.Has p) (hc : t.Has c) (hdetached : t.parent? c = none)
    {reference : Option NodeId} (hreference : ∀ r, reference = some r → t.parent? r = some p) :
    (t.place p c reference).links = t.links.link p c reference := by
  obtain ⟨front, back, hlist, hplaced, hback⟩ := exists_place (t.children p) c
    fun r hr => h.child_of_parent (hreference r hr)
  have hnext : ∀ y, (t.place p c reference).nextSibling? y =
      if y = c then reference
      else if front.getLast? = some y then some c else t.nextSibling? y := fun y =>
    hback ▸ siblingIn?_place h hp hc hdetached hlist hplaced (arranges_id front c back)
  -- backwards, the neighbours are those in the reversed list
  have hprevious : ∀ y, (t.place p c reference).previousSibling? y =
      if y = c then front.getLast?
      else if reference = some y then some c else t.previousSibling? y := by
    intro y
    have := siblingIn?_place (y := y) h hp hc hdetached hlist hplaced
      (arranges_reverse front c back)
    rwa [List.head?_reverse, List.getLast?_reverse, hback] at this
  have hcp : reference ≠ some c ∧ front.getLast? ≠ some c := by
    have hnot := h.not_mem_children hdetached p
    refine ⟨fun hr => ?_, fun hlast => ?_⟩
    · simp [hreference c hr] at hdetached
    · rw [hlist] at hnot
      exact hnot (List.mem_append_left _ (List.mem_of_getLast? hlast))
  refine Links.ext_get? fun y => ?_
  unfold Links.link
  rw [before?_links h hlist hback]
  simp only [Links.get?_setPrevious, Links.get?_setNext, Links.get?_modify, get?_links, get?_place]
  rcases hn : t.get? y with _ | n
  · simp
  -- the ends of the list change only if there is nothing on that side of the place
  have hfirst : (if y = p then listWith c reference n.children else n.children).head? =
      if front.getLast? = none ∧ y = p then some c else n.children.head? := by
    by_cases hy : y = p
    · subst hy
      have hchildren : n.children = t.children y := by simp [children, hn]
      rw [if_pos rfl, hchildren, hplaced, hlist]
      cases front <;> simp
    · simp [hy]
  have hlast : (if y = p then listWith c reference n.children else n.children).getLast? =
      if reference = none ∧ y = p then some c else n.children.getLast? := by
    by_cases hy : y = p
    · subst hy
      have hchildren : n.children = t.children y := by simp [children, hn]
      rw [if_pos rfl, hchildren, hplaced, hlist, ← hback]
      cases back <;> simp
    · simp [hy]
  by_cases hy : y = c
  · subst hy
    simp [linkedNode, hnext, hprevious, hcp.1, hcp.2, hfirst, hlast]
  · simp [linkedNode, hnext, hprevious, hy, Ne.symm hy, hfirst, hlast]

theorem links_detach (h : t.Tidy) (c : NodeId) : (t.detach c).links = t.links.unlink c := by
  rcases hparent : t.parent? c with _ | p
  · have hsame : t.detach c = t := by simp [detach, hparent]
    simp [hsame, Links.unlink, hparent]
  obtain ⟨front, back, hlist⟩ := List.append_of_mem (h.child_of_parent hparent)
  have hnext : ∀ y, (t.detach c).nextSibling? y =
      if y = c then none
      else if front.getLast? = some y then back.head? else t.nextSibling? y := fun y =>
    siblingIn?_detach h hlist (arranges_id front c back)
  -- backwards, the neighbours are those in the reversed list
  have hprevious : ∀ y, (t.detach c).previousSibling? y =
      if y = c then none
      else if back.head? = some y then front.getLast? else t.previousSibling? y := by
    intro y
    have := siblingIn?_detach (y := y) h hlist (arranges_reverse front c back)
    rwa [List.head?_reverse, List.getLast?_reverse] at this
  have hnextSelf : t.nextSibling? c = back.head? :=
    siblingIn?_self h hlist (arranges_id front c back)
  have hpreviousSelf : t.previousSibling? c = front.getLast? := by
    have := siblingIn?_self h hlist (arranges_reverse front c back)
    rwa [List.head?_reverse] at this
  have hnodup := List.nodup_middle.1 (hlist ▸ h.nodup_children p)
  have hcfront : c ∉ front := fun hmem =>
    (List.nodup_cons.1 hnodup).1 (List.mem_append_left _ hmem)
  have hcback : back.head? ≠ some c := fun hhead =>
    (List.nodup_cons.1 hnodup).1 (List.mem_append_right _ (List.mem_of_head? hhead))
  have hclast : front.getLast? ≠ some c := fun hlast => hcfront (List.mem_of_getLast? hlast)
  refine Links.ext_get? fun y => ?_
  unfold Links.unlink
  simp only [parent?_links, hparent, previous?_links, next?_links, hnextSelf, hpreviousSelf,
    Links.get?_setPrevious, Links.get?_setNext, Links.get?_modify, get?_links, get?_detach]
  rcases hn : t.get? y with _ | n
  · simp
  have hrest : (if p = y then n.children.erase c else n.children) =
      if p = y then front ++ back else n.children := by
    by_cases hy : p = y
    · subst hy
      have hchildren : n.children = t.children p := by simp [children, hn]
      rw [if_pos rfl, if_pos rfl, hchildren, hlist, List.erase_append_right _ hcfront]
      simp
    · simp [hy]
  -- the ends of the list change only if `c` was at that end
  have hfirst : (if p = y then front ++ back else n.children).head? =
      if front.getLast? = none ∧ y = p then back.head? else n.children.head? := by
    by_cases hy : y = p
    · subst hy
      have hchildren : n.children = t.children y := by simp [children, hn]
      rw [if_pos rfl, hchildren, hlist]
      cases front <;> simp
    · simp [hy, Ne.symm hy]
  have hlast : (if p = y then front ++ back else n.children).getLast? =
      if back.head? = none ∧ y = p then front.getLast? else n.children.getLast? := by
    by_cases hy : y = p
    · subst hy
      have hchildren : n.children = t.children y := by simp [children, hn]
      rw [if_pos rfl, hchildren, hlist]
      cases back <;> simp
    · simp [hy, Ne.symm hy]
  by_cases hy : y = c
  · subst hy
    simp [linkedNode, hnext, hprevious, hrest, hfirst, hlast, hcback, hclast]
  · simp [linkedNode, hnext, hprevious, hy, Ne.symm hy, hrest, hfirst, hlast]

end Tree

end Repeater.Dom
