/-
  Repeater/Proofs/Stamp/Texts.lean
  ================================
  **Where the texts of an item go.**

  Sequences and slots are written one after the other, each in place of what its element held. When
  one of them lies below another that has been written before, it is out of the tree and no longer
  found. `Written` says what a list of such texts leaves, whichever of them name the same element:
  the last text counts. A selector then finds what it found at first, less what lies below an
  element written (`Written.selectFrom_eq`), so that the slots that data fill can be told from the
  tree before (`fillings`, `exec_fillSlots_written`).
-/
import Repeater.Proofs.Dom.Selections
import Repeater.Proofs.Stamp.Drafts

namespace Repeater.Stamp

open Dom Tree

variable {t t' u : Tree} {root m r x y : NodeId} {text : String} {texts : List (NodeId × String)}
  {counter : Nat}

/-! ## The last text of a node -/

/-- The last of the texts given to a node. -/
def lastText? (texts : List (NodeId × String)) (x : NodeId) : Option String :=
  texts.reverse.lookup x

theorem lastText?_concat (texts : List (NodeId × String)) (m : NodeId) (text : String)
    (x : NodeId) :
    lastText? (texts ++ [(m, text)]) x = if x = m then some text else lastText? texts x := by
  unfold lastText?
  rw [List.reverse_append, List.reverse_singleton, List.singleton_append, List.lookup_cons]
  by_cases hx : x = m
  · simp [hx]
  · simp [hx, beq_false_of_ne hx]

theorem lastText?_eq_none : lastText? texts x = none ↔ ∀ entry ∈ texts, entry.1 ≠ x := by
  unfold lastText?
  rw [List.lookup_eq_none_iff]
  simp only [List.mem_reverse, bne_iff_ne, ne_eq, eq_comm (a := x)]

theorem lastText?_of_nodup (hnodup : (texts.map Prod.fst).Nodup) :
    lastText? texts x = some text ↔ (x, text) ∈ texts := by
  induction texts using List.reverseRecOn with
  | nil => simp [lastText?]
  | append_singleton texts entry ih =>
    obtain ⟨m, s⟩ := entry
    rw [List.map_append, List.nodup_append] at hnodup
    obtain ⟨hnodup, -, hapart⟩ := hnodup
    rw [lastText?_concat, List.mem_append, List.mem_singleton, Prod.mk.injEq]
    by_cases hx : x = m
    · subst hx
      have hnot : (x, text) ∉ texts := fun hmem =>
        hapart x (List.mem_map.2 ⟨_, hmem, rfl⟩) x (by simp) rfl
      simp [hnot, eq_comm]
    · simp [hx, ih hnodup]

/-! ## Texts in place of children -/

/-- Nothing stands below the node but the text, if the text says something. -/
def HoldsText (t : Tree) (x : NodeId) (text : String) : Prop :=
  if text.isEmpty then t.children x = []
  else ∃ v, t.children x = [v] ∧ t.content? v = some (.text text)

/-- What a tree shows after texts have been given to some of its nodes, one after the other. -/
structure Written (t : Tree) (texts : List (NodeId × String)) (t' : Tree) : Prop where
  wellFormed : t'.WellFormed
  size_le : t.size ≤ t'.size
  content : ∀ x, t.Has x → t'.content? x = t.content? x
  children : ∀ x, t.Has x → lastText? texts x = none → t'.children x = t.children x
  texts : ∀ x text, lastText? texts x = some text → HoldsText t' x text
  new : ∀ x, ¬ t.Has x → t'.children x = [] ∧ t'.isElement x = false

theorem HoldsText.eq_nil_or (h : HoldsText t x text) :
    t.children x = [] ∨ ∃ v, t.children x = [v] ∧ t.content? v = some (.text text) := by
  unfold HoldsText at h
  split at h
  · exact .inl h
  · exact .inr h

/-- A node with the same children, each text of which says what it said, still holds the text. -/
theorem HoldsText.congr (h : HoldsText t x text) (hchildren : t'.children x = t.children x)
    (hcontent : ∀ v, t.content? v = some (.text text) → t'.content? v = some (.text text)) :
    HoldsText t' x text := by
  unfold HoldsText at h ⊢
  rw [hchildren]
  split at h
  · next hempty => rwa [if_pos hempty]
  · next hempty =>
    rw [if_neg hempty]
    obtain ⟨v, hv, htext⟩ := h
    exact ⟨v, hv, hcontent v htext⟩

/-- Nodes that hold equal texts hold them one by one. -/
theorem HoldsText.forall₂ {t₁ t₂ : Tree} {R : NodeId → NodeId → Prop} (hx : HoldsText t₁ x text)
    (hy : HoldsText t₂ y text)
    (hR : ∀ v w, t₁.content? v = some (.text text) → t₂.content? w = some (.text text) → R v w) :
    List.Forall₂ R (t₁.children x) (t₂.children y) := by
  unfold HoldsText at hx hy
  split at hx
  · next hempty =>
    rw [if_pos hempty] at hy
    rw [hx, hy]
    exact .nil
  · next hempty =>
    rw [if_neg hempty] at hy
    obtain ⟨v, hv, hcontent⟩ := hx
    obtain ⟨w, hw, hcontent'⟩ := hy
    rw [hv, hw]
    exact .cons (hR v w hcontent hcontent') .nil

/-- A text holds nothing. -/
theorem text_holds_nothing (h : t.WellFormed) (hx : t.content? x = some (.text text)) :
    t.children x = [] ∧ t.contents? x = none :=
  ⟨h.children_eq_nil hx rfl, contents?_of_content hx⟩

namespace Written

theorem nil (h : t.WellFormed) : Written t [] t where
  wellFormed := h
  size_le := Nat.le_refl _
  content _ _ := rfl
  children _ _ _ := rfl
  texts _ _ htext := by cases htext
  new _ hx := ⟨children_of_not_has hx, isElement_of_not_has hx⟩

theorem has (h : Written t texts t') (hx : t.Has x) : t'.Has x := by
  obtain ⟨i, hi, rfl⟩ := has_iff_slot.1 hx
  exact has_slot.2 (Nat.lt_of_lt_of_le hi h.size_le)

theorem of_sequencesSet (h : t.WellFormed) (hset : SequencesSet t root counter t') :
    Written t ((sequenceMarks t root).map fun m => (m, markText t counter m)) t' := by
  have hkeys : ((sequenceMarks t root).map fun m => (m, markText t counter m)).map Prod.fst =
      sequenceMarks t root := by simp [Function.comp_def]
  have hnodup := nodup_selectFrom h root (.hasAttribute Directive.sequence.name)
  constructor
  case wellFormed => exact hset.wellFormed
  case size_le => exact hset.size_le
  case content => exact hset.content
  case children =>
    intro x hx hnone
    refine hset.children_other x (fun hmem => ?_) hx
    obtain ⟨entry, hentry, rfl⟩ := List.mem_map.1 hmem
    exact lastText?_eq_none.1 hnone entry hentry rfl
  case texts =>
    intro x text htext
    have hmem := (lastText?_of_nodup (hkeys.symm ▸ hnodup)).1 htext
    obtain ⟨m, -, hm⟩ := List.mem_map.1 hmem
    have hempty : text.isEmpty = false := by
      rw [← (Prod.mk.inj hm).2]
      exact isEmpty_sequenceText _ _
    obtain ⟨v, hv, -, hcontent⟩ := hset.children_mark x text hmem
    unfold HoldsText
    rw [if_neg (by simp [hempty])]
    exact ⟨v, hv, hcontent⟩
  case new =>
    intro x hx
    by_cases hx' : t'.Has x
    · obtain ⟨hkids, -, -, -, s, hs⟩ := hset.new x hx' hx
      exact ⟨hkids, isElement_of_content hs⟩
    · exact ⟨children_of_not_has hx', isElement_of_not_has hx'⟩

/-- One more text. -/
theorem concat (h : Written t texts u) (hm : t.Has m) (hone : u.TextSet m text t') :
    Written t (texts ++ [(m, text)]) t' := by
  have hold : ∀ y, u.Has y → t'.content? y = u.content? y := by
    intro y hy
    rw [hone.content, if_neg]
    rintro ⟨-, rfl⟩
    exact not_has_new u hy
  constructor
  case wellFormed => exact hone.wellFormed
  case size_le =>
    have hsize := hone.size
    have := h.size_le
    split at hsize <;> omega
  case content => exact fun x hx => (hold x (h.has hx)).trans (h.content x hx)
  case children =>
    intro x hx hnone
    rw [lastText?_concat] at hnone
    split at hnone
    · cases hnone
    · next hxm => rw [hone.children_other x hxm, h.children x hx hnone]
  case texts =>
    intro x s hs
    rw [lastText?_concat] at hs
    split at hs
    · next hxm =>
      cases hs
      subst hxm
      unfold HoldsText
      rw [hone.children_self]
      split
      · rfl
      · next htext => exact ⟨_, rfl, by rw [hone.content, if_pos ⟨by simpa using htext, rfl⟩]⟩
    · next hxm =>
      exact (h.texts x s hs).congr (hone.children_other x hxm) fun v hcontent =>
        (hold v (has_of_content hcontent)).trans hcontent
  case new =>
    intro x hx
    have hxm : x ≠ m := by
      rintro rfl
      exact hx hm
    refine ⟨(hone.children_other x hxm).trans (h.new x hx).1, ?_⟩
    by_cases hxu : u.Has x
    · rw [isElement_congr (hold x hxu)]
      exact (h.new x hx).2
    · unfold Tree.isElement Tree.element?
      rw [hone.content, content?_of_not_has hxu]
      split <;> rfl

end Written

/-! ## What is still found -/

/-- Whether none of the texts has been given to a node above. -/
def liesOpen (t : Tree) (texts : List (NodeId × String)) (x : NodeId) : Bool :=
  decide (∀ entry ∈ texts, entry.1 ∉ t.ancestors x)

theorem liesOpen_iff (h : t.WellFormed) :
    liesOpen t texts x = true ↔ ∀ a, t.Above a x → lastText? texts a = none := by
  unfold liesOpen
  simp only [decide_eq_true_eq, mem_ancestors h, lastText?_eq_none]
  constructor
  · rintro hopen a ha entry hentry rfl
    exact hopen entry hentry ha
  · exact fun hopen entry hentry ha => hopen _ ha entry hentry rfl

theorem liesOpen_root (hroot : t.parent? root = none) : liesOpen t texts root = true := by
  simp [liesOpen, ancestors_of_root hroot]

namespace Written

theorem satisfies_eq (h : Written t texts t') (selector : Selector) :
    t'.satisfies x selector = t.satisfies x selector := by
  by_cases hx : t.Has x
  · exact satisfies_congr (h.content x hx) selector
  · rw [satisfies_of_not_element (h.new x hx).2,
      satisfies_of_not_element (isElement_of_not_has hx)]

/-- Below an element written there is at most its text. -/
theorem filter_descendants_of_text (h : Written t texts t')
    (hr : lastText? texts r = some text) (selector : Selector) :
    (t'.descendants r).filter (fun x => t'.satisfies x selector) = [] := by
  rw [descendants_eq_flatMap h.wellFormed]
  rcases (h.texts r text hr).eq_nil_or with hempty | ⟨v, hv, hcontent⟩
  · rw [hempty]
    rfl
  · have hnone : t'.descendants v = [] :=
      descendants_eq_nil (h.wellFormed.children_eq_nil hcontent rfl)
    have hplain : t'.satisfies v selector = false :=
      satisfies_of_not_element (isElement_of_content hcontent) selector
    simp [hv, hnone, hplain]

theorem filter_subtree_eq (h : Written t texts t') (ht : t.WellFormed) (hr : t.Has r)
    (hopen : liesOpen t texts r = true) (selector : Selector) :
    (r :: t'.descendants r).filter (fun x => t'.satisfies x selector) =
      ((r :: t.descendants r).filter fun x => t.satisfies x selector).filter
        (liesOpen t texts) := by
  -- on the number of nodes below `r`
  induction hn : (t.descendants r).length using Nat.strong_induction_on generalizing r with
  | _ n ih =>
  subst hn
  have hbelow : (t'.descendants r).filter (fun x => t'.satisfies x selector) =
      ((t.descendants r).filter fun x => t.satisfies x selector).filter (liesOpen t texts) := by
    rcases htext : lastText? texts r with _ | text
    · rw [descendants_eq_flatMap h.wellFormed, descendants_eq_flatMap ht, h.children r hr htext,
        List.filter_flatMap, List.filter_flatMap, List.filter_flatMap]
      refine List.flatMap_congr fun x hx => ?_
      refine ih _ (length_descendants_child ht hx) (ht.has_of_child hx) ?_ rfl
      rw [liesOpen_iff ht] at hopen ⊢
      intro a ha
      obtain ⟨p, hp, hap⟩ := above_iff_parent.1 ha
      rw [ht.parent_of_child hx, Option.some.injEq] at hp
      subst hp
      rcases atOrAbove_iff.1 hap with rfl | hap
      · exact htext
      · exact hopen a hap
    · rw [h.filter_descendants_of_text htext, eq_comm, List.filter_eq_nil_iff]
      intro x hx hxopen
      have := (liesOpen_iff ht).1 hxopen r ((mem_descendants ht).1 (List.mem_of_mem_filter hx))
      rw [htext] at this
      cases this
  rw [List.filter_cons, List.filter_cons, h.satisfies_eq, hbelow]
  split
  · rw [List.filter_cons, if_pos hopen]
  · rfl

/-- A selector finds what it has found before, unless a text has been written above. -/
theorem selectFrom_eq (h : Written t texts t') (ht : t.WellFormed) (hr : t.Has r)
    (hopen : liesOpen t texts r = true) (selector : Selector) :
    t'.selectFrom r selector = (t.selectFrom r selector).filter (liesOpen t texts) := by
  rw [Tree.selectFrom_eq, Tree.selectFrom_eq, h.filter_subtree_eq ht hr hopen]

end Written

/-! ## Slots -/

/-- The first slot of the name at and below `root` that can still be found. -/
def openSlot? (t : Tree) (root : NodeId) (texts : List (NodeId × String)) (name : String) :
    Option NodeId :=
  (t.selectFrom root (.attributeIs Directive.slot.name name)).find? (liesOpen t texts)

/-- The texts with one more, if there is a slot for it. -/
def addFilling (t : Tree) (root : NodeId) (texts : List (NodeId × String))
    (entry : String × String) : List (NodeId × String) :=
  match openSlot? t root texts entry.1 with
  | none => texts
  | some slot => texts ++ [(slot, entry.2)]

/-- The texts with those that data put into slots. -/
def fillings (t : Tree) (root : NodeId) (texts : List (NodeId × String))
    (data : List (String × String)) : List (NodeId × String) :=
  data.foldl (addFilling t root) texts

theorem mem_of_openSlot? {name : String} (h : openSlot? t root texts name = some m) :
    m ∈ t.selectFrom root (.attributeIs Directive.slot.name name) := List.mem_of_find?_eq_some h

/-- What fills a slot at or below the root leaves the root where it can be found. -/
theorem liesOpen_addFilling (ht : t.WellFormed) (hopen : liesOpen t texts root = true)
    (entry : String × String) : liesOpen t (addFilling t root texts entry) root = true := by
  unfold addFilling
  split
  · exact hopen
  · next slot hslot =>
    rw [liesOpen_iff ht] at hopen ⊢
    intro a ha
    rw [lastText?_concat, if_neg, hopen a ha]
    rintro rfl
    exact ht.not_above_of_atOrAbove ((mem_selectFrom ht).1 (mem_of_openSlot? hslot)).1 ha

theorem exec_fillSlot_written (ht : t.WellFormed) (h : Written t texts u) (hhas : t.Has root)
    (hopen : liesOpen t texts root = true) (entry : String × String) :
    ∃ n t', exec (fillSlot root entry) u = (.ok n, t') ∧
      Written t (addFilling t root texts entry) t' := by
  have hslot : ((u.selectFrom root (.attributeIs Directive.slot.name entry.1)).head?) =
      openSlot? t root texts entry.1 := by
    rw [h.selectFrom_eq ht hhas hopen, List.head?_filter, openSlot?]
  unfold fillSlot addFilling
  rw [exec_get_bind, hslot]
  rcases hfound : openSlot? t root texts entry.1 with _ | m
  · exact ⟨0, u, rfl, h⟩
  · obtain ⟨e, he⟩ := Option.isSome_iff_exists.1
      (isElement_of_satisfies ((mem_selectFrom ht).1 (mem_of_openSlot? hfound)).2)
    have hm := has_of_element he
    have hcontent := (h.content m hm).trans (element?_eq_some.1 he)
    obtain ⟨t', hrun, hset⟩ := Edit.exec_setText_holder h.wellFormed hcontent rfl entry.2
    have hedit := exec_edit (Edit.setText m entry.2) u
    rw [hrun] at hedit
    exact ⟨1, t', by dsimp only; rw [exec_bind_ok hedit, exec_pure], h.concat hm hset⟩

/-- Filling slots never fails, and the slots that are filled can be told beforehand. -/
theorem exec_fillSlots_written (ht : t.WellFormed) (h : Written t texts u) (hhas : t.Has root)
    (hopen : liesOpen t texts root = true) (data : List (String × String)) :
    ∃ n t', exec (fillSlots root data) u = (.ok n, t') ∧
      Written t (fillings t root texts data) t' := by
  have hloop : ∃ ns t', exec (data.mapM (fillSlot root)) u = (.ok ns, t') ∧
      Written t (fillings t root texts data) t' := by
    induction data generalizing texts u with
    | nil => exact ⟨[], u, rfl, h⟩
    | cons entry rest ih =>
      obtain ⟨n, u₁, hrun, h₁⟩ := exec_fillSlot_written ht h hhas hopen entry
      obtain ⟨ns, t', hrun', h'⟩ := ih h₁ (liesOpen_addFilling ht hopen entry)
      refine ⟨n :: ns, t', ?_, h'⟩
      rw [List.mapM_cons, exec_bind_ok hrun, exec_bind_ok hrun', exec_pure]
  obtain ⟨ns, t', hrun, h'⟩ := hloop
  refine ⟨total ns, t', ?_, h'⟩
  unfold fillSlots
  rw [exec_bind_ok hrun, exec_pure]

end Repeater.Stamp
