/-
  Repeater/Proofs/Markup/Planting.lean
  ====================================
  **What planting makes of a parse tree.**

  Planting never fails, and what it leaves is known to the last node (`documentOf_depicts`): the
  document has a picture of the parse tree, less the instructions and the blank texts, with tags in
  lower case; and the nodes of the picture, listed in pre-order with the contents of a template
  before its children, are the slots of the arena in ascending order.

  The invariant is `Planted`. Below the node that is planted on there are new nodes only, their slots
  are those from the old size on, and every other node is as it was. So what has been planted before
  stays a picture while more is planted (`Depicts.congr`).
-/
import Repeater.Proofs.Dom.Documents
import Repeater.Proofs.Markup.Pictures

namespace Repeater.Markup

open Dom Dom.Tree

variable {t t' u : Tree} {p x : NodeId} {ids ids' : List NodeId} {nodes nodes' : List ParseNode}
  {a b c : Nat}

/-! ## What is kept, and in which order -/

mutual

/-- What is planted of a node: nothing of an instruction and of a blank text, and of an element its
    tag in lower case. -/
def ParseNode.kept : ParseNode → List ParseNode
  | .doctype name => [.doctype name]
  | .text s => if Text.isAllBlank s then [] else [.text s]
  | .comment s => [.comment s]
  | .instruction _ => []
  | .element name attributes contents children =>
    [.element name.toLower attributes (keptAll contents) (keptAll children)]

def keptAll : List ParseNode → List ParseNode
  | [] => []
  | node :: nodes => node.kept ++ keptAll nodes

end

mutual

/-- The nodes of a picture in pre-order: a node, the fragment of its contents and what the contents
    hold, and then what its children hold. -/
def ParseNode.order (t : Tree) : ParseNode → NodeId → List NodeId
  | .doctype _, x | .text _, x | .comment _, x | .instruction _, x => [x]
  | .element _ _ contents children, x =>
    x :: ((t.contents? x).elim [] (fun f => f :: orderAll t contents (t.children f)) ++
      orderAll t children (t.children x))

def orderAll (t : Tree) : List ParseNode → List NodeId → List NodeId
  | node :: nodes, x :: ids => node.order t x ++ orderAll t nodes ids
  | _, _ => []

end

mutual

/-- What the parser promises of a node: only templates have contents, and no attribute occurs
    twice. -/
def ParseNode.Delivered : ParseNode → Prop
  | .element name attributes contents children =>
    (contents ≠ [] → name = "template") ∧ (attributes.map (·.name)).Nodup ∧
      DeliveredAll contents ∧ DeliveredAll children
  | .doctype _ | .text _ | .comment _ | .instruction _ => True

def DeliveredAll : List ParseNode → Prop
  | [] => True
  | node :: nodes => node.Delivered ∧ DeliveredAll nodes

end

/-! ## Slots -/

/-- The slots from `a` up to `b`, the latter left out. -/
def slots (a b : Nat) : List NodeId := (List.range' a (b - a)).map .slot

theorem slots_self (a : Nat) : slots a a = [] := by simp [slots]

theorem mem_slots : x ∈ slots a b ↔ ∃ i, a ≤ i ∧ i < b ∧ x = .slot i := by
  simp only [slots, List.mem_map, List.mem_range'_1]
  constructor
  · rintro ⟨i, hi, rfl⟩
    exact ⟨i, hi.1, by omega, rfl⟩
  · rintro ⟨i, hai, hib, rfl⟩
    exact ⟨i, ⟨hai, by omega⟩, rfl⟩

theorem slots_append (hab : a ≤ b) (hbc : b ≤ c) : slots a b ++ slots b c = slots a c := by
  obtain ⟨m, rfl⟩ := Nat.exists_eq_add_of_le hab
  obtain ⟨n, rfl⟩ := Nat.exists_eq_add_of_le hbc
  have hlength : a + m + n - a = m + (a + m + n - (a + m)) := by omega
  rw [slots, slots, slots, ← List.map_append, Nat.add_sub_cancel_left, List.range'_append_1,
    hlength]

theorem slots_cons (h : a < b) : .slot a :: slots (a + 1) b = slots a b := by
  have hone : slots a (a + 1) = [.slot a] := by simp [slots]
  rw [← slots_append (Nat.le_succ a) h, hone]
  rfl

/-! ## Pictures stay -/

theorem depictAll_append (h : DepictAll t nodes ids) (h' : DepictAll t nodes' ids') :
    DepictAll t (nodes ++ nodes') (ids ++ ids') := by
  induction nodes generalizing ids with
  | nil =>
    simp only [DepictAll] at h
    subst h
    exact h'
  | cons node nodes ih =>
    simp only [DepictAll] at h
    obtain ⟨x, rest, rfl, hx, hrest⟩ := h
    exact depictAll_cons.2 ⟨hx, ih hrest⟩

theorem orderAll_append (h : DepictAll t nodes ids) :
    orderAll t (nodes ++ nodes') (ids ++ ids') = orderAll t nodes ids ++ orderAll t nodes' ids' := by
  induction nodes generalizing ids with
  | nil =>
    simp only [DepictAll] at h
    subst h
    simp [orderAll]
  | cons node nodes ih =>
    simp only [DepictAll] at h
    obtain ⟨x, rest, rfl, hx, hrest⟩ := h
    simp only [List.cons_append, orderAll, ih hrest, List.append_assoc]

mutual

/-- A node keeps its picture, and the picture its order, when the nodes of the picture are as they
    were. -/
theorem ParseNode.Depicts.congr (node : ParseNode) {x : NodeId} (hx : node.Depicts t x)
    (hsame : ∀ y ∈ node.order t x, u.get? y = t.get? y) :
    node.Depicts u x ∧ node.order u x = node.order t x := by
  have hcontent : ∀ {y}, u.get? y = t.get? y → u.content? y = t.content? y := by
    intro y hy
    rw [content?, hy, content?]
  have hchildren : ∀ {y}, u.get? y = t.get? y → u.children y = t.children y := by
    intro y hy
    rw [children, hy, children]
  cases node with
  | doctype name | text s | comment s =>
    simp only [ParseNode.order, List.mem_singleton, forall_eq] at hsame
    simp only [ParseNode.Depicts] at hx ⊢
    simp only [hcontent hsame, hx, ParseNode.order, and_self]
  | instruction s => simp only [ParseNode.Depicts] at hx
  | element name attributes contents children =>
    simp only [ParseNode.Depicts] at hx ⊢
    obtain ⟨holder, hx, htemplate, hcontents, hkids⟩ := hx
    have hheld : t.contents? x = holder := by
      rw [contents?, element?_eq_some.2 hx, Option.bind_some]
    simp only [ParseNode.order, hheld, List.mem_cons, List.mem_append, forall_eq_or_imp] at hsame
    obtain ⟨hown, hinside⟩ := hsame
    have hheld' : u.contents? x = holder := by rw [contents?_congr (hcontent hown), hheld]
    obtain ⟨hkids', horder'⟩ :=
      depictAll_congr children hkids fun y hy => hinside y (.inr hy)
    simp only [ParseNode.order, hheld, hheld', hchildren hown, horder']
    cases holder with
    | none =>
      obtain rfl := depictAll_nil.1 hcontents
      exact ⟨⟨none, (hcontent hown).trans hx, htemplate, depictAll_nil.2 rfl, hkids'⟩, rfl⟩
    | some f =>
      simp only [Option.elim_some, List.mem_cons] at hinside hcontents ⊢
      have hf := hinside f (.inl (.inl rfl))
      obtain ⟨hcontents', horder⟩ :=
        depictAll_congr contents hcontents fun y hy => hinside y (.inl (.inr hy))
      rw [hchildren hf, horder]
      refine ⟨⟨some f, (hcontent hown).trans hx, htemplate, ?_, hkids'⟩, rfl⟩
      rw [Option.elim_some, hchildren hf]
      exact hcontents'

theorem depictAll_congr (nodes : List ParseNode) {ids : List NodeId} (hids : DepictAll t nodes ids)
    (hsame : ∀ y ∈ orderAll t nodes ids, u.get? y = t.get? y) :
    DepictAll u nodes ids ∧ orderAll u nodes ids = orderAll t nodes ids := by
  cases nodes with
  | nil =>
    simp only [DepictAll] at hids ⊢
    simp only [hids, orderAll, and_self]
  | cons node nodes =>
    simp only [DepictAll] at hids
    obtain ⟨x, rest, rfl, hx, hrest⟩ := hids
    simp only [orderAll, List.mem_append] at hsame ⊢
    obtain ⟨hx', horder⟩ := hx.congr node fun y hy => hsame y (.inl hy)
    obtain ⟨hrest', horders⟩ := depictAll_congr nodes hrest fun y hy => hsame y (.inr hy)
    exact ⟨depictAll_cons.2 ⟨hx', hrest'⟩, by rw [horder, horders]⟩

end

/-! ## Planting below a node -/

/-- Pictures of the nodes have been added at the end of the children of `p`. All that is new belongs
    to them, in order of the slots, and all that is old is as it was. -/
structure Planted (t : Tree) (p : NodeId) (nodes : List ParseNode) (t' : Tree) : Prop where
  size_le : t.size ≤ t'.size
  old : ∀ x, t.Has x → x ≠ p → t'.get? x = t.get? x
  grown : ∃ ids, t'.get? p = (t.get? p).map (fun n => { n with children := n.children ++ ids }) ∧
    DepictAll t' nodes ids ∧ orderAll t' nodes ids = slots t.size t'.size

theorem Planted.refl (t : Tree) (p : NodeId) : Planted t p [] t where
  size_le := Nat.le_refl _
  old _ _ _ := rfl
  grown := ⟨[], by simp, by simp only [DepictAll], by simp [orderAll, slots_self]⟩

theorem Planted.trans (h : Planted t p nodes u) (h' : Planted u p nodes' t') (hp : t.Has p) :
    Planted t p (nodes ++ nodes') t' := by
  obtain ⟨ids, hp₁, hdepicts, horder⟩ := h.grown
  obtain ⟨ids', hp₂, hdepicts', horder'⟩ := h'.grown
  -- what the first step has added is old in the second, and not the node planted on
  have hkept : ∀ y ∈ orderAll u nodes ids, t'.get? y = u.get? y := by
    intro y hy
    rw [horder] at hy
    obtain ⟨i, hi, hiu, rfl⟩ := mem_slots.1 hy
    refine h'.old _ (has_slot.2 hiu) ?_
    rintro rfl
    have := has_slot.1 hp
    omega
  obtain ⟨hdepicts₂, horder₂⟩ := depictAll_congr nodes hdepicts hkept
  constructor
  case size_le => exact h.size_le.trans h'.size_le
  case old =>
    intro x hx hxp
    have hux : u.Has x := by rwa [Has, h.old x hx hxp]
    rw [h'.old x hux hxp, h.old x hx hxp]
  case grown =>
    refine ⟨ids ++ ids', ?_, depictAll_append hdepicts₂ hdepicts', ?_⟩
    · rw [hp₂, hp₁, Option.map_map]
      simp only [Function.comp_def, List.append_assoc]
    · rw [orderAll_append hdepicts₂, horder₂, horder, horder', slots_append h.size_le h'.size_le]

theorem Planted.content? (h : Planted t p nodes t') : t'.content? p = t.content? p := by
  obtain ⟨ids, hget, -⟩ := h.grown
  rw [Tree.content?, Tree.content?, hget, Option.map_map]
  rfl

/-- A new node becomes the last child of a node that holds children. -/
theorem exec_append_new (h : t.WellFormed) {holder content : Content}
    (hp : t.content? p = some holder) (hholds : holder.holdsChildren)
    (hx : t.get? x = some { content }) (hfragment : content ≠ .fragment) (hne : x ≠ p) :
    ∃ t', exec (Edit.append p x) t = (.ok x, t') ∧ t'.WellFormed ∧ t'.size = t.size ∧
      ∀ y, t'.get? y = (t.get? y).map fun n =>
        { n with parent := if y = x then some p else n.parent,
                 children := if y = p then n.children ++ [x] else n.children } := by
  have hcontent : t.content? x = some content := by rw [content?, hx]; rfl
  have hparent : t.parent? x = none := by rw [parent?, hx]; rfl
  have hchildren : t.children x = [] := by rw [children, hx]; rfl
  have hplace : t.Allows p x none content := ⟨⟨holder, hp, hholds⟩, hcontent, by simp⟩
  have hbelow : ¬ t.AtOrAbove x p := by
    intro hxp
    rcases atOrAbove_iff.1 hxp with rfl | hxp
    · exact hne rfl
    · obtain ⟨kid, hkid, -⟩ := hxp.exists_child
      have hmem := h.child_of_parent hkid
      rw [hchildren] at hmem
      cases hmem
  refine ⟨t.relocate p x none, Edit.exec_insertBefore_node h hplace hfragment hbelow,
    wellFormed_of_allows h hplace hfragment hbelow, size_relocate .., ?_⟩
  intro y
  have hsame : t.movedReference x none = none := by simp [movedReference]
  rw [relocate_eq, hsame, get?_place, get?_detach, Option.map_map]
  refine Option.map_congr fun n hn => ?_
  by_cases hyx : y = x <;> by_cases hyp : y = p <;> simp [hparent, hyx, hyp, hne.symm, listWith]

/-- A node without a place of its own in the markup: a text, a comment or a doctype. -/
theorem exec_plant_leaf (content : Content) (node : ParseNode) (h : t.WellFormed) {holder : Content}
    (hp : t.content? p = some holder) (hholds : holder.holdsChildren)
    (hplain : content.element? = none) (hfragment : content ≠ .fragment)
    (hnode : ∀ (u : Tree) x, node.Depicts u x ↔ u.content? x = some content)
    (horder : ∀ (u : Tree) x, node.order u x = [x]) :
    ∃ t', exec (do let id ← Edit.create content; discard (Edit.append p id) : Edit Unit) t =
      (.ok ⟨⟩, t') ∧ t'.WellFormed ∧ Planted t p [node] t' := by
  have hnew : (t.push content).2.get? (.slot t.size) = some { content } := by
    rw [get?_push, if_pos rfl]
  have hne : NodeId.slot t.size ≠ p := by
    rintro rfl
    exact not_has_new t (has_of_content hp)
  have hold : ∀ {x}, x ≠ .slot t.size → (t.push content).2.get? x = t.get? x := by
    intro x hx
    rw [get?_push, if_neg hx]
  have hp' : (t.push content).2.content? p = some holder := by
    rw [content?, hold hne.symm, ← content?, hp]
  have hwf : (t.push content).2.WellFormed := by
    refine wellFormed_push h content ?_
    rintro e rfl
    cases hplain
  obtain ⟨t', hrun, hwf', hsize, hget⟩ := exec_append_new hwf hp' hholds hnew hfragment hne
  rw [size_push] at hsize
  refine ⟨t', ?_, hwf', ?_⟩
  · rw [exec_bind_ok (Edit.exec_create content t), exec_discard, hrun]
    rfl
  have hself : t'.get? (.slot t.size) = some { content, parent := some p } := by
    rw [hget, hnew, Option.map_some, if_pos rfl, if_neg hne]
  constructor
  case size_le => omega
  case old =>
    intro x hx hxp
    have hxnew : x ≠ .slot t.size := by
      rintro rfl
      exact not_has_new t hx
    rw [hget, hold hxnew]
    simp [hxnew, hxp]
  case grown =>
    refine ⟨[.slot t.size], ?_, ?_, ?_⟩
    · rw [hget, hold hne.symm]
      simp [hne.symm]
    · refine depictAll_cons.2 ⟨(hnode _ _).2 ?_, depictAll_nil.2 rfl⟩
      rw [content?, hself]
      rfl
    · rw [orderAll, horder, hsize, ← slots_cons (Nat.lt_succ_self _), slots_self]
      simp [orderAll]

/-! ## Elements -/

theorem setIn_new {name value : String} {attributes : List Attribute}
    (h : name ∉ attributes.map (·.name)) :
    Element.setIn name value attributes = attributes ++ [⟨name, value⟩] := by
  induction attributes with
  | nil => rfl
  | cons a attributes ih =>
    rw [List.map_cons, List.mem_cons, not_or] at h
    rw [Element.setIn, if_neg (by simpa using fun heq => h.1 heq.symm), ih h.2, List.cons_append]

/-- Attributes with different names, none of which the element has, are put behind its own. -/
theorem exec_setAttributes {e : Element} (hx : t.element? x = some e) {attributes : List Attribute}
    (hnames : ((e.attributes ++ attributes).map (·.name)).Nodup) :
    exec (attributes.forM fun a => Edit.setAttribute x a.name a.value) t =
      (.ok ⟨⟩, t.setContent x (.element { e with attributes := e.attributes ++ attributes })) := by
  induction attributes generalizing t e with
  | nil =>
    rw [List.append_nil, setContent_of_content (element?_eq_some.1 hx)]
    rfl
  | cons a attributes ih =>
    have hnew : a.name ∉ e.attributes.map (·.name) := by
      rw [List.map_append, List.nodup_append] at hnames
      intro hmem
      exact hnames.2.2 a.name hmem a.name (by simp) rfl
    have hset : e.set a.name a.value = { e with attributes := e.attributes ++ [a] } := by
      rw [Element.set, setIn_new hnew]
    have hhas : t.Has x := has_of_element hx
    have hx' : (t.setContent x (.element (e.set a.name a.value))).element? x =
        some (e.set a.name a.value) := by
      rw [element?_eq_some, content?_setContent, if_pos ⟨rfl, hhas⟩]
    rw [exec_forM_cons, exec_bind_ok (Edit.exec_setAttribute hx a.name a.value)]
    rw [ih hx' (by rw [hset]; simpa using hnames), setContent_setContent, hset]
    simp

/-- The element that is made of a name and attributes, when `n` is the slot behind its own: a
    template has its contents there. -/
def newElement (name : String) (attributes : List Attribute) (n : Nat) : Element where
  tag := name.toLower
  attributes := attributes
  contents := if name.toLower == "template" then some (.slot n) else none

theorem get?_withElement (t : Tree) (name : String) (x : NodeId) : (t.withElement name).get? x =
    if x = .slot t.size then some { content := .element (newElement name [] (t.size + 1)) }
    else if x = .slot (t.size + 1) ∧ name.toLower == "template" then some { content := .fragment }
    else t.get? x := by
  have hkind : (Element.ofTag name).isTemplate = (name.toLower == "template") := rfl
  unfold Tree.withElement newElement
  dsimp only
  rw [hkind]
  rcases htemplate : name.toLower == "template" with _ | _
  · simp only [Bool.false_eq_true, and_false, ↓reduceIte, get?_push]
    rfl
  · simp only [↓reduceIte, setContent, get?_modify, get?_push, size_push, and_true, eq_comm (a := x)]
    by_cases hx : NodeId.slot t.size = x
    · subst hx
      simp [Element.ofTag]
    · simp [hx]

theorem size_withElement (t : Tree) (name : String) :
    (t.withElement name).size = t.size + if name.toLower == "template" then 2 else 1 := by
  have hkind : (Element.ofTag name).isTemplate = (name.toLower == "template") := rfl
  unfold Tree.withElement
  dsimp only
  rw [hkind]
  split <;> simp [size_push]

/-- A new element stands at the end of the children of `p`; nothing is in it yet. -/
structure Opened (t : Tree) (p : NodeId) (name : String) (attributes : List Attribute) (t' : Tree) :
    Prop where
  wellFormed : t'.WellFormed
  size : t'.size = t.size + if name.toLower == "template" then 2 else 1
  old : ∀ x, t.Has x → x ≠ p → t'.get? x = t.get? x
  parent : t'.get? p = (t.get? p).map fun n => { n with children := n.children ++ [.slot t.size] }
  element : t'.get? (.slot t.size) =
    some { content := .element (newElement name attributes (t.size + 1)), parent := some p }
  fragment : name.toLower == "template" → t'.get? (.slot (t.size + 1)) = some { content := .fragment }

theorem exec_open (h : t.WellFormed) {holder : Content} (hp : t.content? p = some holder)
    (hholds : holder.holdsChildren) (name : String) {attributes : List Attribute}
    (hnames : (attributes.map (·.name)).Nodup) :
    ∃ u t', exec (attributes.forM fun a => Edit.setAttribute (.slot t.size) a.name a.value)
        (t.withElement name) = (.ok ⟨⟩, u) ∧
      exec (Edit.append p (.slot t.size)) u = (.ok (.slot t.size), t') ∧
      Opened t p name attributes t' := by
  have hold : ∀ {x}, t.Has x → x ≠ .slot t.size ∧ x ≠ .slot (t.size + 1) := by
    intro x hx
    constructor <;> rintro rfl <;> have := has_slot.1 hx <;> omega
  have hwf₁ : (t.withElement name).WellFormed := by
    have hedited := Edit.edits_createElement name t
    rw [Edit.exec_createElement] at hedited
    exact hedited.wellFormed h
  have helement : (t.withElement name).element? (.slot t.size) =
      some (newElement name [] (t.size + 1)) := by
    rw [element?_eq_some, Tree.content?, get?_withElement, if_pos rfl]
    rfl
  have hset := exec_setAttributes helement hnames
  generalize hu : (t.withElement name).setContent _ _ = u at hset
  have hwf₂ : u.WellFormed := hu ▸ wellFormed_setElement hwf₁ helement rfl rfl hnames
  have hget : ∀ x, u.get? x =
      if x = .slot t.size then some { content := .element (newElement name attributes (t.size + 1)) }
      else if x = .slot (t.size + 1) ∧ name.toLower == "template" then some { content := .fragment }
      else t.get? x := by
    intro x
    rw [← hu, setContent, get?_modify, get?_withElement]
    by_cases hx : x = .slot t.size
    · simp [hx, newElement]
    · simp [hx, eq_comm (a := NodeId.slot t.size)]
  have hp' : u.content? p = some holder := by
    have hne := hold (has_of_content hp)
    rw [Tree.content?, hget, if_neg hne.1, if_neg (fun hf => hne.2 hf.1), ← Tree.content?, hp]
  have hne := (hold (has_of_content hp)).1
  have hx : u.get? (.slot t.size) =
      some { content := .element (newElement name attributes (t.size + 1)) } := by
    rw [hget, if_pos rfl]
  obtain ⟨t', happend, hwf', hsize, hget'⟩ :=
    exec_append_new hwf₂ hp' hholds hx (by simp) hne.symm
  refine ⟨u, t', hset, happend, ?_⟩
  constructor
  case wellFormed => exact hwf'
  case size => rw [hsize, ← hu, size_setContent, size_withElement]
  case old =>
    intro x hx hxp
    obtain ⟨hx₁, hx₂⟩ := hold hx
    rw [hget', hget, if_neg hx₁, if_neg fun hf => hx₂ hf.1]
    simp [hx₁, hxp]
  case parent =>
    obtain ⟨hp₁, hp₂⟩ := hold (has_of_content hp)
    rw [hget', hget, if_neg hp₁, if_neg fun hf => hp₂ hf.1]
    simp [hp₁]
  case element => rw [hget', hx, Option.map_some, if_pos rfl, if_neg hne.symm]
  case fragment =>
    intro htemplate
    have hf := (hold (has_of_content hp)).2
    rw [hget', hget, if_neg (by simp), if_pos ⟨rfl, htemplate⟩]
    simp [hf.symm]

/-- The contents have been planted on the fragment `f` of a template; another element has none. -/
def Filled (u : Tree) (name : String) (f : NodeId) (contents : List ParseNode) (v : Tree) : Prop :=
  if name.toLower == "template" then Planted u f contents v else contents = [] ∧ v = u

section element

variable {v : Tree} {f : NodeId} {name : String} {attributes : List Attribute}
  {contents children : List ParseNode}

theorem Filled.size_le (h : Filled u name f contents v) : u.size ≤ v.size := by
  unfold Filled at h
  split at h
  · exact h.size_le
  · rw [h.2]

theorem Filled.old (h : Filled u name f contents v) {y : NodeId} (hy : u.Has y) (hyf : y ≠ f) :
    v.get? y = u.get? y := by
  unfold Filled at h
  split at h
  · exact h.old y hy hyf
  · rw [h.2]

theorem Opened.has (h : Opened t p name attributes u) : u.Has (.slot t.size) := by
  rw [Has, h.element]
  rfl

/-- What is planted of an element: its slot comes first, then its contents, then its children. -/
theorem Opened.depicts (h : Opened t p name attributes u)
    (hfilled : Filled u name (.slot (t.size + 1)) contents v)
    (hchildren : Planted v (.slot t.size) children t') :
    (ParseNode.element name.toLower attributes contents children).Depicts t' (.slot t.size) ∧
      (ParseNode.element name.toLower attributes contents children).order t' (.slot t.size) =
        slots t.size t'.size := by
  obtain ⟨ids, hself, hkids, horder⟩ := hchildren.grown
  rw [hfilled.old h.has (by simp), h.element] at hself
  have hcontent : t'.content? (.slot t.size) =
      some (.element (newElement name attributes (t.size + 1))) := by
    rw [Tree.content?, hself]
    rfl
  have hheld : t'.contents? (.slot t.size) =
      if name.toLower == "template" then some (.slot (t.size + 1)) else none := by
    rw [contents?, element?_eq_some.2 hcontent]
    rfl
  have hids : t'.children (.slot t.size) = ids := by
    rw [Tree.children, hself]
    rfl
  have hsize := h.size
  have hsize' := hchildren.size_le
  simp only [ParseNode.Depicts, ParseNode.order, hheld, hids, horder]
  unfold Filled at hfilled
  split at hfilled
  · next htemplate =>
    rw [if_pos htemplate] at hsize
    have hsize'' := hfilled.size_le
    obtain ⟨inside, hf, hdepicts, horder'⟩ := hfilled.grown
    have hf' : t'.get? (.slot (t.size + 1)) = some { content := .fragment, children := inside } := by
      rw [hchildren.old _ (has_slot.2 (by omega)) (by simp), hf, h.fragment htemplate]
      rfl
    -- the contents are old when the children are planted
    have hkept : ∀ y ∈ orderAll v contents inside, t'.get? y = v.get? y := by
      intro y hy
      rw [horder'] at hy
      obtain ⟨i, hi, hiv, rfl⟩ := mem_slots.1 hy
      refine hchildren.old _ (has_slot.2 hiv) ?_
      rintro ⟨⟩
      omega
    obtain ⟨hdepicts', horder''⟩ := depictAll_congr contents hdepicts hkept
    have hinside : t'.children (.slot (t.size + 1)) = inside := by
      rw [Tree.children, hf']
      rfl
    rw [if_pos htemplate]
    refine ⟨⟨some (.slot (t.size + 1)), ?_, htemplate.symm, ?_, hkids⟩, ?_⟩
    · rw [hcontent, newElement, if_pos htemplate]
    · rw [Option.elim_some, hinside]
      exact hdepicts'
    · rw [Option.elim_some, hinside, horder'', horder', List.cons_append,
        slots_append hsize'' hsize', hsize, slots_cons (by omega), slots_cons (by omega)]
  · next htemplate =>
    rw [if_neg htemplate] at hsize
    obtain ⟨rfl, rfl⟩ := hfilled
    rw [if_neg htemplate]
    refine ⟨⟨none, ?_, ?_, depictAll_nil.2 rfl, hkids⟩, ?_⟩
    · rw [hcontent, newElement, if_neg htemplate]
    · simpa using htemplate
    · rw [Option.elim_none, List.nil_append, hsize, slots_cons (by omega)]

/-- An element with what is in it: first the contents of a template, then the children. -/
theorem Opened.planted (h : Opened t p name attributes u) (hp : t.Has p)
    (hfilled : Filled u name (.slot (t.size + 1)) contents v)
    (hchildren : Planted v (.slot t.size) children t') :
    Planted t p [.element name.toLower attributes contents children] t' := by
  have hkept : ∀ {y}, t.Has y → u.Has y → t'.get? y = u.get? y := by
    intro y hy hyu
    have hyx : y ≠ .slot t.size := by
      rintro rfl
      exact not_has_new t hy
    have hyf : y ≠ .slot (t.size + 1) := by
      rintro rfl
      have := has_slot.1 hy
      omega
    rw [hchildren.old y (by rwa [Has, hfilled.old hyu hyf]) hyx, hfilled.old hyu hyf]
  have hsize : t.size ≤ u.size := Nat.le_of_lt (has_slot.1 h.has)
  constructor
  case size_le => exact hsize.trans (hfilled.size_le.trans hchildren.size_le)
  case old =>
    intro y hy hyp
    have hyu : u.get? y = t.get? y := h.old y hy hyp
    rw [hkept hy (by rwa [Has, hyu]), hyu]
  case grown =>
    have hpu : u.Has p := by
      rw [Has, h.parent]
      simpa [Has] using hp
    obtain ⟨hdepicts, horder⟩ := h.depicts hfilled hchildren
    refine ⟨[.slot t.size], by rw [hkept hp hpu, h.parent],
      depictAll_cons.2 ⟨hdepicts, depictAll_nil.2 rfl⟩, ?_⟩
    simp only [orderAll, List.append_nil, horder]

end element

mutual

/-- Planting a node below one that holds children adds what is kept of it. -/
theorem ParseNode.exec_plant (node : ParseNode) {t : Tree} {p : NodeId} {holder : Content}
    (h : t.WellFormed) (hp : t.content? p = some holder) (hholds : holder.holdsChildren)
    (hnode : node.Delivered) :
    ∃ t', exec (node.plant p) t = (.ok ⟨⟩, t') ∧ t'.WellFormed ∧ Planted t p node.kept t' := by
  cases node with
  | doctype name =>
    simp only [ParseNode.plant, ParseNode.kept]
    exact exec_plant_leaf (.doctype name) (.doctype name) h hp hholds rfl (by simp)
      (fun _ _ => by simp only [ParseNode.Depicts]) (fun _ _ => by simp only [ParseNode.order])
  | text s =>
    simp only [ParseNode.plant, ParseNode.kept]
    split
    · exact ⟨t, rfl, h, .refl t p⟩
    · exact exec_plant_leaf (.text s) (.text s) h hp hholds rfl (by simp)
        (fun _ _ => by simp only [ParseNode.Depicts]) (fun _ _ => by simp only [ParseNode.order])
  | comment s =>
    simp only [ParseNode.plant, ParseNode.kept]
    exact exec_plant_leaf (.comment s) (.comment s) h hp hholds rfl (by simp)
      (fun _ _ => by simp only [ParseNode.Depicts]) (fun _ _ => by simp only [ParseNode.order])
  | instruction s =>
    simp only [ParseNode.plant, ParseNode.kept]
    exact ⟨t, rfl, h, .refl t p⟩
  | element name attributes contents children =>
    simp only [ParseNode.Delivered] at hnode
    obtain ⟨hcontents, hnames, hnode, hnode'⟩ := hnode
    obtain ⟨u₁, u, hset, happend, hopened⟩ := exec_open h hp hholds name hnames
    simp only [ParseNode.plant, ParseNode.kept]
    rw [exec_bind_ok (Edit.exec_createElement name t), exec_bind_ok hset, exec_bind_ok happend,
      exec_get_bind]
    have helement : u.element? (.slot t.size) = some (newElement name attributes (t.size + 1)) := by
      rw [element?_eq_some, Tree.content?, hopened.element]
      rfl
    have hheld : u.contents? (.slot t.size) =
        if name.toLower == "template" then some (.slot (t.size + 1)) else none := by
      rw [contents?, helement]
      rfl
    rw [hheld]
    have hplanted : ∀ {v : Tree}, v.WellFormed →
        Filled u name (.slot (t.size + 1)) (keptAll contents) v →
        ∃ t', exec (plantAll (.slot t.size) children) v = (.ok ⟨⟩, t') ∧ t'.WellFormed ∧
          Planted t p [.element name.toLower attributes (keptAll contents) (keptAll children)] t' := by
      intro v hv hfilled
      have hcontent : v.content? (.slot t.size) =
          some (.element (newElement name attributes (t.size + 1))) := by
        rw [Tree.content?, hfilled.old hopened.has (by simp), hopened.element]
        rfl
      obtain ⟨t', hrun, hwf, hchildren⟩ := exec_plantAll children hv hcontent rfl hnode'
      exact ⟨t', hrun, hwf, hopened.planted (has_of_content hp) hfilled hchildren⟩
    by_cases htemplate : name.toLower == "template"
    · rw [if_pos htemplate]
      have hfragment : u.content? (.slot (t.size + 1)) = some .fragment := by
        rw [Tree.content?, hopened.fragment htemplate]
        rfl
      obtain ⟨v, hrun, hv, hfilled⟩ :=
        exec_plantAll contents hopened.wellFormed hfragment rfl hnode
      obtain ⟨t', hrun', ht'⟩ := hplanted hv (by rwa [Filled, if_pos htemplate])
      refine ⟨t', ?_, ht'⟩
      dsimp only
      rw [exec_bind_ok hrun, hrun']
    · rw [if_neg htemplate]
      have hnone : contents = [] := by
        by_contra hne
        exact htemplate (by rw [hcontents hne]; decide +kernel)
      refine hplanted hopened.wellFormed ?_
      rw [Filled, if_neg htemplate, hnone]
      exact ⟨by simp only [keptAll], rfl⟩

theorem exec_plantAll (nodes : List ParseNode) {t : Tree} {p : NodeId} {holder : Content}
    (h : t.WellFormed) (hp : t.content? p = some holder) (hholds : holder.holdsChildren)
    (hnodes : DeliveredAll nodes) :
    ∃ t', exec (plantAll p nodes) t = (.ok ⟨⟩, t') ∧ t'.WellFormed ∧
      Planted t p (keptAll nodes) t' := by
  cases nodes with
  | nil =>
    simp only [plantAll, keptAll]
    exact ⟨t, rfl, h, .refl t p⟩
  | cons node nodes =>
    simp only [DeliveredAll] at hnodes
    simp only [plantAll, keptAll]
    obtain ⟨u, hrun, hwf, hplanted⟩ := node.exec_plant h hp hholds hnodes.1
    have hp' : u.content? p = some holder := hplanted.content?.trans hp
    obtain ⟨t', hrun', hwf', hplanted'⟩ := exec_plantAll nodes hwf hp' hholds hnodes.2
    refine ⟨t', ?_, hwf', hplanted.trans hplanted' (has_of_content hp)⟩
    rw [exec_bind_ok hrun, hrun']

end

/-! ## Documents -/

/-- Planting what a parser delivers never fails. The document then has pictures of what is kept of the
    parse trees, and these take up the slots behind it in pre-order; there is nothing else. -/
theorem documentOf_depicts (url : String) {top : List ParseNode} (h : DeliveredAll top) :
    ∃ t, exec (plantAll .document top) Tree.empty = (.ok ⟨⟩, t) ∧ (documentOf url top).tree = t ∧
      t.WellFormed ∧ t.content? .document = some .document ∧
      DepictAll t (keptAll top) (t.children .document) ∧
      .document :: orderAll t (keptAll top) (t.children .document) = slots 0 t.size := by
  have hdocument : Tree.empty.content? .document = some .document := rfl
  obtain ⟨t, hrun, hwf, hplanted⟩ := exec_plantAll top wellFormed_empty hdocument rfl h
  obtain ⟨ids, hget, hdepicts, horder⟩ := hplanted.grown
  have hchildren : t.children .document = ids := by
    rw [Tree.children, hget]
    rfl
  refine ⟨t, hrun, ?_, hwf, hplanted.content?.trans hdocument, ?_, ?_⟩
  · exact congrArg Prod.snd hrun
  · rwa [hchildren]
  · rw [hchildren, horder]
    exact slots_cons (Nat.lt_of_lt_of_le Nat.zero_lt_one hplanted.size_le)

/-- A template in a template, between an instruction and a blank text. -/
theorem documentOf_depicts_nest :
    let nest : List ParseNode :=
      [.doctype "html", .instruction "xml", .element "UL" [⟨"id", "list"⟩, ⟨"class", ""⟩] []
        [.text " \n", .element "template" []
          [.element "li" [] [] [.text "item"], .element "template" [] [.comment "inner"] []] [],
        .element "li" [] [] []]]
    let t := (documentOf "about:blank" nest).tree
    DeliveredAll nest ∧ exec (plantAll .document nest) Tree.empty = (.ok ⟨⟩, t) ∧
      DepictAll t
        [.doctype "html", .element "ul" [⟨"id", "list"⟩, ⟨"class", ""⟩] []
          [.element "template" []
            [.element "li" [] [] [.text "item"], .element "template" [] [.comment "inner"] []] [],
          .element "li" [] [] []]]
        (t.children .document) ∧
      t.contents? (.slot 3) = some (.slot 4) ∧ t.children (.slot 4) = [.slot 5, .slot 7] ∧
      t.contents? (.slot 7) = some (.slot 8) ∧ t.children (.slot 8) = [.slot 9] ∧
      t.children (.slot 2) = [.slot 3, .slot 10] ∧ t.size = 11 := by
  intro nest t
  have hdelivered : DeliveredAll nest := by
    simp [nest, DeliveredAll, ParseNode.Delivered]
  have hkept : keptAll nest = [.doctype "html", .element "ul" [⟨"id", "list"⟩, ⟨"class", ""⟩] []
      [.element "template" []
        [.element "li" [] [] [.text "item"], .element "template" [] [.comment "inner"] []] [],
      .element "li" [] [] []]] := by
    have hlower : "UL".toLower = "ul" ∧ "template".toLower = "template" ∧ "li".toLower = "li" := by
      decide +kernel
    have hblank : Text.isAllBlank " \n" = true ∧ Text.isAllBlank "item" = false := by decide +kernel
    simp [nest, keptAll, ParseNode.kept, hlower, hblank]
  obtain ⟨_, hrun, rfl, -, -, hdepicts, -⟩ := documentOf_depicts "about:blank" hdelivered
  rw [hkept] at hdepicts
  exact ⟨hdelivered, hrun, hdepicts, by decide +kernel⟩

end Repeater.Markup
