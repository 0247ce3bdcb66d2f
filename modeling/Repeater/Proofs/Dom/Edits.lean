/-
  Repeater/Proofs/Dom/Edits.lean
  ==============================
  **What the edits of a tree do.**

  For each edit the equations here say when it succeeds and which tree it leaves. The insertions
  come in three forms: one node (`exec_insertNode`), a node that is no fragment
  (`exec_insertBefore_node`), and a fragment, whose children go to the new place as one run
  (`exec_insertBefore_fragment`). Setting a text comes for text nodes and for nodes that hold
  children (`exec_setText`).
-/
import Repeater.Proofs.Dom.Walks

namespace Repeater.Dom

open Tree

variable {t t' : Tree} {p c x y : NodeId} {reference : Option NodeId}

/-! ## Creating -/

theorem Edit.exec_create (content : Content) (t : Tree) :
    exec (Edit.create content) t = (.ok (.slot t.size), (t.push content).2) := rfl

/-- The tree after a new element, with an empty fragment for the contents of a template. -/
def Tree.withElement (t : Tree) (tag : String) : Tree :=
  let element := Element.ofTag tag
  if element.isTemplate then
    (((t.push (.element element)).2.push .fragment).2).setContent (.slot t.size)
      (.element { element with contents := some (.slot (t.size + 1)) })
  else (t.push (.element element)).2

theorem Edit.exec_createElement (tag : String) (t : Tree) :
    exec (Edit.createElement tag) t = (.ok (.slot t.size), t.withElement tag) := by
  unfold createElement withElement
  rw [exec_bind_ok (exec_create _ t)]
  dsimp only
  split
  · rw [exec_bind_ok (exec_create _ _), size_push]
    rfl
  · rfl

/-! ## Allowed places -/

namespace Tree

/-- Whether `parent` may hold children, the child exists and `reference`, if there is one, is a
    child of `parent`. -/
structure Allows (t : Tree) (p c : NodeId) (reference : Option NodeId) (content : Content) :
    Prop where
  holder : ∃ holder, t.content? p = some holder ∧ holder.holdsChildren
  child : t.content? c = some content
  reference : ∀ r, reference = some r → t.parent? r = some p

theorem checkPlace_eq_ok {content : Content} :
    t.checkPlace p c reference = .ok content ↔ t.Allows p c reference content := by
  unfold checkPlace
  constructor
  · intro h
    rcases hp : t.content? p with _ | holder
    · simp [hp, throw, throwThe, MonadExceptOf.throw] at h
    rw [hp] at h
    by_cases hholds : holder.holdsChildren
    swap
    · simp [hholds, throw, throwThe, MonadExceptOf.throw, bind, Except.bind] at h
    rcases hc : t.content? c with _ | content'
    · simp [hholds, hc, throw, throwThe, MonadExceptOf.throw] at h
    rw [hc] at h
    cases reference with
    | none =>
      simp only [hholds, if_true] at h
      cases h
      exact ⟨⟨holder, hp, hholds⟩, hc, by simp⟩
    | some r =>
      by_cases hr : t.parent? r = some p
      · simp only [hholds, if_true, hr] at h
        cases h
        exact ⟨⟨holder, hp, hholds⟩, hc, by simpa using hr⟩
      · simp [hholds, hr, throw, throwThe, MonadExceptOf.throw, bind, Except.bind] at h
  · rintro ⟨⟨holder, hp, hholds⟩, hc, hr⟩
    cases reference with
    | none => simp [hp, hholds, hc, pure, Except.pure]
    | some r => simp [hp, hholds, hc, hr r rfl, pure, Except.pure]

theorem Allows.has_parent {content : Content} (h : t.Allows p c reference content) : t.Has p := by
  obtain ⟨holder, hp, -⟩ := h.holder
  exact has_of_content hp

theorem Allows.has_child {content : Content} (h : t.Allows p c reference content) : t.Has c :=
  has_of_content h.child

theorem wellFormed_of_allows (h : t.WellFormed) {content : Content}
    (hplace : t.Allows p c reference content) (hfragment : content ≠ .fragment)
    (hcp : ¬ t.AtOrAbove c p) : (t.relocate p c reference).WellFormed := by
  obtain ⟨holder, hp, hholds⟩ := hplace.holder
  exact wellFormed_relocate h hp hholds hplace.child hfragment hcp reference

end Tree

/-! ## Inserting one node -/

theorem Edit.exec_insertNode_ok (h : t.WellFormed) {content : Content}
    (hplace : t.Allows p c reference content) (hcp : ¬ t.AtOrAbove c p) :
    exec (Edit.insertNode p c reference) t = (.ok ⟨⟩, t.relocate p c reference) := by
  unfold insertNode
  simp only [exec_get_bind, checkPlace_eq_ok.2 hplace, exec_liftM_ok_bind]
  rw [if_neg (by rwa [isInclusiveAncestor_iff h])]
  rfl

theorem Edit.exec_insertNode_blocked (h : t.WellFormed) {content : Content}
    (hplace : t.Allows p c reference content) (hcp : t.AtOrAbove c p) :
    exec (Edit.insertNode p c reference) t = (.error (.hierarchy p c), t) := by
  unfold insertNode
  simp only [exec_get_bind, checkPlace_eq_ok.2 hplace, exec_liftM_ok_bind,
    (isInclusiveAncestor_iff h).2 hcp, if_true, exec_throw_bind]

/-- An insertion of one node moves it to an allowed place or changes nothing. -/
theorem Edit.exec_insertNode (h : t.WellFormed) (p c : NodeId) (reference : Option NodeId) :
    (∃ content, t.Allows p c reference content ∧ ¬ t.AtOrAbove c p ∧
      exec (Edit.insertNode p c reference) t = (.ok ⟨⟩, t.relocate p c reference)) ∨
    ∃ e, exec (Edit.insertNode p c reference) t = (.error e, t) := by
  rcases hplace : t.checkPlace p c reference with e | content
  · refine .inr ⟨e, ?_⟩
    unfold insertNode
    simp only [exec_get_bind, hplace, exec_liftM_error_bind]
  · have hplace := checkPlace_eq_ok.1 hplace
    by_cases hcp : t.AtOrAbove c p
    · exact .inr ⟨.hierarchy p c, exec_insertNode_blocked h hplace hcp⟩
    · exact .inl ⟨content, hplace, hcp, exec_insertNode_ok h hplace hcp⟩

theorem Edit.exec_insertBefore_node (h : t.WellFormed) {content : Content}
    (hplace : t.Allows p c reference content) (hfragment : content ≠ .fragment)
    (hcp : ¬ t.AtOrAbove c p) :
    exec (Edit.insertBefore p c reference) t = (.ok c, t.relocate p c reference) := by
  have hkind : content.isFragment = false := by cases content <;> simp_all [Content.isFragment]
  unfold insertBefore
  simp only [exec_get_bind, checkPlace_eq_ok.2 hplace, exec_liftM_ok_bind, hkind]
  rw [if_neg (by simp), exec_bind_ok (exec_insertNode_ok h hplace hcp)]
  rfl

/-! ## Inserting a fragment -/

namespace Tree

/-- The list with a run of nodes put right before `reference`, or at the end without one. -/
def listWithRun (run : List NodeId) (reference : Option NodeId) (ids : List NodeId) :
    List NodeId :=
  match reference with
  | none => ids ++ run
  | some r => ids.takeWhile (· ≠ r) ++ run ++ ids.dropWhile (· ≠ r)

theorem listWithRun_nil (reference : Option NodeId) (ids : List NodeId) :
    listWithRun [] reference ids = ids := by
  cases reference <;> simp [listWithRun]

theorem listWithRun_append_cons {r : NodeId} {before : List NodeId} (hr : r ∉ before)
    (run after : List NodeId) : listWithRun run (some r) (before ++ r :: after) =
      before ++ run ++ r :: after := by
  have hbefore : ∀ x ∈ before, (decide (x ≠ r)) = true := fun x hx =>
    decide_eq_true fun hxr => hr (hxr ▸ hx)
  rw [listWithRun, List.takeWhile_append_of_pos hbefore, List.dropWhile_append_of_pos hbefore]
  simp

/-- Nodes put before `reference` one after the other stand there as one run. -/
theorem listWithRun_cons {k : NodeId} {rest : List NodeId} {reference : Option NodeId}
    (hk : reference ≠ some k) (ids : List NodeId) :
    listWithRun rest reference (listWith k reference ids) =
      listWithRun (k :: rest) reference ids := by
  cases reference with
  | none => simp [listWithRun, listWith]
  | some r =>
    have hkr : k ≠ r := fun h => hk (h ▸ rfl)
    simp only [listWithRun, listWith]
    induction ids with
    | nil => simp [hkr]
    | cons z ids ih =>
      by_cases hz : z = r
      · simp [hz, hkr]
      · simpa [hz] using ih

/-- What a tree shows after the first children of a fragment have gone to a new place as one run. -/
structure Moved (t : Tree) (p f : NodeId) (reference : Option NodeId) (run rest : List NodeId)
    (t' : Tree) : Prop where
  wellFormed : t'.WellFormed
  size : t'.size = t.size
  content : ∀ y, t'.content? y = t.content? y
  parent : ∀ y, t'.parent? y = if y ∈ run then some p else t.parent? y
  children_place : t'.children p = listWithRun run reference (t.children p)
  children_fragment : t'.children f = rest
  children_other : ∀ y, y ≠ p → y ≠ f → t'.children y = t.children y

/-- What a tree shows after the children of a fragment have gone to a new place as one run. -/
structure Spliced (t : Tree) (p f : NodeId) (reference : Option NodeId) (t' : Tree) : Prop where
  wellFormed : t'.WellFormed
  size : t'.size = t.size
  content : ∀ y, t'.content? y = t.content? y
  parent : ∀ y, t'.parent? y = if y ∈ t.children f then some p else t.parent? y
  children_place : t'.children p = listWithRun (t.children f) reference (t.children p)
  children_fragment : t'.children f = []
  children_other : ∀ y, y ≠ p → y ≠ f → t'.children y = t.children y

end Tree

/-- The first children of a fragment are inserted one by one, where none of them is at or above the
    place. -/
theorem Edit.exec_insertRun (h : t.WellFormed) {f : NodeId} (hpf : p ≠ f)
    (hholder : ∃ holder, t.content? p = some holder ∧ holder.holdsChildren)
    (hreference : ∀ r, reference = some r → t.parent? r = some p) {run rest : List NodeId}
    (hrun : t.children f = run ++ rest) (hkids : ∀ k ∈ run, ¬ t.AtOrAbove k p) :
    ∃ t', exec (run.forM fun kid => Edit.insertNode p kid reference) t = (.ok ⟨⟩, t') ∧
      t.Moved p f reference run rest t' := by
  induction run generalizing t with
  | nil =>
    refine ⟨t, rfl, h, rfl, fun _ => rfl, ?_, ?_, hrun, fun _ _ _ => rfl⟩
    · simp
    · rw [listWithRun_nil]
  | cons k run ih =>
    have hk : t.parent? k = some f := h.parent_of_child (by simp [hrun])
    have hne : reference ≠ some k := by
      rintro rfl
      have := hreference k rfl
      rw [hk, Option.some.injEq] at this
      exact hpf this.symm
    obtain ⟨content, hcontent⟩ := has_iff_content.1 (has_of_parent hk)
    have hfragment : content ≠ .fragment := by
      rintro rfl
      simp [h.fragment_parent hcontent] at hk
    have hplace : t.Allows p k reference content := ⟨hholder, hcontent, hreference⟩
    have hnot := hkids k (by simp)
    have hone := exec_insertNode_ok h hplace hnot
    have hmoved : t.movedReference k reference = reference := by
      unfold movedReference
      rw [if_neg hne]
    have hkp : k ∉ t.children p := fun hkp => by
      rw [h.parent_of_child hkp, Option.some.injEq] at hk
      exact hpf hk
    have hplaceKids : (t.relocate p k reference).children p =
        listWith k reference (t.children p) := by
      rw [children_relocate _ _ _ _ _ hplace.has_parent, if_pos rfl, hmoved, children_detach,
        if_neg]
      rw [hk, Option.some.injEq]
      exact hpf.symm
    have hrest : (t.relocate p k reference).children f = run ++ rest := by
      rw [children_relocate _ _ _ _ _ hplace.has_parent, if_neg hpf.symm, if_pos hk, hrun]
      simp
    have hparent := fun y => parent?_relocate t p k reference y (has_of_parent hk)
    obtain ⟨t', hrun', hnext⟩ := ih (wellFormed_of_allows h hplace hfragment hnot)
      (by simpa using hholder)
      (by
        intro r hr
        rw [hparent, hreference r hr, ite_self])
      hrest
      (by
        intro k' hk' hk'p
        rcases atOrAbove_iff.1 hk'p with rfl | hk'p
        · exact hkids k' (by simp [hk']) (.refl t k')
        · rcases above_relocate (has_of_parent hk) hk'p with hk'p | ⟨hk'p, -⟩
          · exact hkids k' (by simp [hk']) hk'p.atOrAbove
          · exact hkids k' (by simp [hk']) hk'p)
    refine ⟨t', ?_, hnext.wellFormed, ?_, ?_, ?_, ?_, hnext.children_fragment, ?_⟩
    · rw [exec_forM_cons, exec_bind_ok hone, hrun']
    · rw [hnext.size, size_relocate]
    · exact fun y => by rw [hnext.content, content?_relocate]
    · intro y
      rw [hnext.parent, hparent]
      by_cases hyk : y = k
      · subst hyk
        simp
      · simp [hyk]
    · rw [hnext.children_place, hplaceKids, listWithRun_cons hne]
    · intro y hyp hyf
      rw [hnext.children_other y hyp hyf, children_relocate _ _ _ _ _ hplace.has_parent,
        if_neg hyp, if_neg]
      rw [hk, Option.some.injEq]
      exact fun hfy => hyf hfy.symm

/-- The children of a fragment are inserted one by one, where none of them is at or above the
    place. -/
theorem Edit.exec_insertKids (h : t.WellFormed) {f : NodeId} (hpf : p ≠ f)
    (hholder : ∃ holder, t.content? p = some holder ∧ holder.holdsChildren)
    (hreference : ∀ r, reference = some r → t.parent? r = some p)
    (hkids : ∀ k ∈ t.children f, ¬ t.AtOrAbove k p) :
    ∃ t', exec ((t.children f).forM fun kid => Edit.insertNode p kid reference) t = (.ok ⟨⟩, t') ∧
      t.Spliced p f reference t' := by
  obtain ⟨t', hrun, hmoved⟩ :=
    exec_insertRun h hpf hholder hreference (List.append_nil _).symm hkids
  exact ⟨t', hrun, hmoved.wellFormed, hmoved.size, hmoved.content, hmoved.parent,
    hmoved.children_place, hmoved.children_fragment, hmoved.children_other⟩

/-- A fragment gives its children to the new place as one run. -/
theorem Edit.exec_insertBefore_fragment (h : t.WellFormed) {f : NodeId} (hpf : p ≠ f)
    (hplace : t.Allows p f reference .fragment)
    (hkids : ∀ k ∈ t.children f, ¬ t.AtOrAbove k p) :
    ∃ t', exec (Edit.insertBefore p f reference) t = (.ok f, t') ∧
      t.Spliced p f reference t' := by
  obtain ⟨t', hrun, hspliced⟩ := exec_insertKids h hpf hplace.holder hplace.reference hkids
  refine ⟨t', ?_, hspliced⟩
  unfold insertBefore
  simp only [exec_get_bind, checkPlace_eq_ok.2 hplace, exec_liftM_ok_bind, Content.isFragment,
    if_true]
  rw [exec_bind_ok hrun]
  rfl

/-! ## Removing -/

theorem Edit.exec_remove (hx : t.Has x) : exec (Edit.remove x) t = (.ok x, t.detach x) := by
  have hsome : (t.get? x).isNone = false := by
    unfold Has at hx
    cases h : t.get? x <;> simp_all
  unfold remove
  simp only [exec_get_bind, hsome, if_false, Bool.false_eq_true]
  rfl

/-! ## Attributes -/

theorem Edit.exec_setAttribute {e : Element} (hx : t.element? x = some e) (name value : String) :
    exec (Edit.setAttribute x name value) t =
      (.ok ⟨⟩, t.setContent x (.element (e.set name value))) := by
  have hcontent := element?_eq_some.1 hx
  unfold setAttribute theElement
  simp only [bind_assoc, exec_get_bind, hcontent, Content.element?, pure_bind]
  rfl

theorem Edit.exec_removeAttribute {e : Element} (hx : t.element? x = some e) (name : String) :
    exec (Edit.removeAttribute x name) t =
      (.ok (e.get? name), t.setContent x (.element (e.erase name))) := by
  have hcontent := element?_eq_some.1 hx
  unfold removeAttribute theElement
  simp only [bind_assoc, exec_get_bind, hcontent, Content.element?, pure_bind]
  rfl

theorem Edit.exec_theElement (t : Tree) (x : NodeId) :
    (∃ e, t.element? x = some e ∧ exec (Edit.theElement x) t = (.ok e, t)) ∨
      ∃ error, exec (Edit.theElement x) t = (.error error, t) := by
  unfold theElement
  rcases hx : t.content? x with _ | content
  · refine .inr ⟨.notFound x, ?_⟩
    simp only [exec_get_bind, hx, exec_throw]
  · rcases he : content.element? with _ | e
    · refine .inr ⟨.invalidKind x, ?_⟩
      simp only [exec_get_bind, hx, he, exec_throw]
    · refine .inl ⟨e, by simp [Tree.element?, hx, he], ?_⟩
      simp only [exec_get_bind, hx, he, exec_pure]

theorem Element.map_name_setIn (name value : String) (attributes : List Attribute) :
    (Element.setIn name value attributes).map (·.name) =
      if name ∈ attributes.map (·.name) then attributes.map (·.name)
      else attributes.map (·.name) ++ [name] := by
  induction attributes with
  | nil => simp [Element.setIn]
  | cons a rest ih =>
    by_cases ha : a.name = name
    · simp [Element.setIn, ha]
    · simp only [Element.setIn, beq_iff_eq, ha, if_false, List.map_cons, ih, List.mem_cons,
        Ne.symm ha, false_or]
      split <;> simp

theorem Element.NamesDiffer.set {e : Element} (h : e.NamesDiffer) (name value : String) :
    (e.set name value).NamesDiffer := by
  unfold Element.NamesDiffer Element.set
  rw [Element.map_name_setIn]
  split
  · exact h
  · next hname => exact List.nodup_append.2 ⟨h, by simp, by grind⟩

theorem Element.NamesDiffer.erase {e : Element} (h : e.NamesDiffer) (name : String) :
    (e.erase name).NamesDiffer :=
  h.sublist (List.Sublist.map _ List.eraseP_sublist)

/-! ## Detaching several nodes -/

namespace Tree

/-- The tree after nodes have been detached, one after the other. -/
def detachAll (t : Tree) (ids : List NodeId) : Tree := ids.foldl detach t

/-- What a tree shows after some nodes have been detached. -/
structure Detached (t : Tree) (ids : List NodeId) (t' : Tree) : Prop where
  wellFormed : t'.WellFormed
  size : t'.size = t.size
  content : ∀ y, t'.content? y = t.content? y
  parent : ∀ y, t'.parent? y = if y ∈ ids then none else t.parent? y
  children : ∀ y, t'.children y = (t.children y).filter (· ∉ ids)

theorem detached_detachAll (h : t.WellFormed) (ids : List NodeId) :
    t.Detached ids (t.detachAll ids) := by
  induction ids generalizing t with
  | nil => exact ⟨h, rfl, fun _ => rfl, by simp [detachAll], by simp [detachAll]⟩
  | cons k rest ih =>
    have hnext := ih (wellFormed_detach h k)
    refine ⟨hnext.wellFormed, ?_, ?_, ?_, ?_⟩
    · exact hnext.size.trans (size_detach t k)
    · intro y
      exact (hnext.content y).trans (content?_detach t k y)
    · intro y
      refine (hnext.parent y).trans ?_
      rw [parent?_detach]
      by_cases hyk : y = k <;> simp [hyk]
    · intro y
      have hone : (t.detach k).children y = (t.children y).filter (· != k) := by
        rw [children_detach]
        split
        · exact (h.nodup_children y).erase_eq_filter k
        · next hparent =>
          refine (List.filter_eq_self.2 fun x hx => ?_).symm
          rw [bne_iff_ne]
          rintro rfl
          exact hparent (h.parent_of_child hx)
      refine (hnext.children y).trans ?_
      rw [hone, List.filter_filter]
      apply List.filter_congr
      intro x _
      by_cases hxk : x = k <;> simp [hxk]

/-- A node that is detached, or is not, has been detached exactly if it had a parent and has none. -/
theorem detachAll_taken {item : NodeId} (h : t' = t ∨ t' = t.detachAll [item]) :
    t' = t.detachAll ([item].filter fun x => t.parent? x ≠ none ∧ t'.parent? x = none) := by
  rcases h with rfl | rfl
  · simp [detachAll]
  · by_cases hparent : t.parent? item = none
    · simp [detachAll, detach, hparent]
    · simp [detachAll, hparent]

end Tree

/-! ## Text -/

namespace Tree

/-- What a tree shows after all children of a node have been detached. -/
structure Emptied (t : Tree) (m : NodeId) (t' : Tree) : Prop where
  wellFormed : t'.WellFormed
  size : t'.size = t.size
  content : ∀ y, t'.content? y = t.content? y
  parent : ∀ y, t'.parent? y = if y ∈ t.children m then none else t.parent? y
  children_self : t'.children m = []
  children_other : ∀ y, y ≠ m → t'.children y = t.children y

theorem emptied_detachAll (h : t.WellFormed) (m : NodeId) :
    t.Emptied m (t.detachAll (t.children m)) := by
  have hgone := detached_detachAll h (t.children m)
  refine ⟨hgone.wellFormed, hgone.size, hgone.content, hgone.parent, ?_, ?_⟩
  · rw [hgone.children]
    simp
  · intro y hy
    rw [hgone.children]
    refine List.filter_eq_self.2 fun x hx => ?_
    have hxy := h.parent_of_child hx
    simp only [decide_eq_true_eq]
    intro hxm
    rw [h.parent_of_child hxm, Option.some.injEq] at hxy
    exact hy hxy.symm

/-- What a tree shows after the text of a node has been set that may hold children. -/
structure TextSet (t : Tree) (m : NodeId) (text : String) (t' : Tree) : Prop where
  wellFormed : t'.WellFormed
  size : t'.size = if text.isEmpty then t.size else t.size + 1
  content : ∀ y, t'.content? y =
    if text.isEmpty = false ∧ y = .slot t.size then some (.text text) else t.content? y
  parent : ∀ y, t'.parent? y = if y ∈ t.children m then none
    else if text.isEmpty = false ∧ y = .slot t.size then some m else t.parent? y
  children_self : t'.children m = if text.isEmpty then [] else [.slot t.size]
  children_other : ∀ y, y ≠ m → t'.children y = t.children y

end Tree

theorem Edit.exec_setText_text {s : String} (hx : t.content? x = some (.text s)) (text : String) :
    exec (Edit.setText x text) t = (.ok ⟨⟩, t.setContent x (.text text)) := by
  obtain ⟨n, hn, hcontent⟩ := Option.map_eq_some_iff.1 hx
  unfold setText
  simp only [exec_get_bind, hn, hcontent]
  rfl

/-- Setting the text of a document, a fragment or an element replaces all its children by one text,
    or by nothing. -/
theorem Edit.exec_setText_holder (h : t.WellFormed) {m : NodeId} {content : Content}
    (hm : t.content? m = some content) (hholds : content.holdsChildren) (text : String) :
    ∃ t', exec (Edit.setText m text) t = (.ok ⟨⟩, t') ∧ t.TextSet m text t' := by
  obtain ⟨n, hn, rfl⟩ := Option.map_eq_some_iff.1 hm
  have hchildren : n.children = t.children m := by simp [children, hn]
  have hloop := exec_forM_modify (ε := DomError) n.children (fun kid tree => tree.detach kid) t
  have hexec : exec (Edit.setText m text) t =
      exec (do
        unless text.isEmpty do
          let child ← create (.text text)
          let _ ← append m child) (t.detachAll n.children) := by
    unfold setText
    simp only [exec_get_bind, hn]
    rcases hc : n.content with _ | _ | _ | _ | s | _
    all_goals first
      | exact exec_bind_ok hloop
      | simp [hc, Content.holdsChildren] at hholds
  rw [hexec, hchildren]
  have hempty := emptied_detachAll h m
  generalize t.detachAll (t.children m) = u at hempty
  by_cases htext : text.isEmpty
  · refine ⟨u, by simp [htext], hempty.wellFormed, ?_, ?_, ?_, ?_, hempty.children_other⟩
    · simp [htext, hempty.size]
    · simp [htext, hempty.content]
    · simp [htext, hempty.parent]
    · simp [htext, hempty.children_self]
  · simp only [htext, if_false, Bool.false_eq_true]
    rw [exec_bind_ok (exec_create _ u)]
    have hsize := hempty.size
    have hmu : u.Has m := has_of_content ((hempty.content m).trans hm)
    have hnew : m ≠ .slot u.size := fun hmnew => not_has_new u (hmnew ▸ hmu)
    have hwf := wellFormed_push hempty.wellFormed (.text text) (by simp)
    have hplace : (u.push (.text text)).2.Allows m (.slot u.size) none (.text text) := by
      refine ⟨⟨n.content, ?_, hholds⟩, by simp, by simp⟩
      rw [content?_push, if_neg hnew, hempty.content, hm]
    have hnot : ¬ (u.push (.text text)).2.AtOrAbove (.slot u.size) m := by
      rw [atOrAbove_iff]
      rintro (hmnew | hmnew)
      · exact hnew hmnew.symm
      · obtain ⟨z, hz, -⟩ := hmnew.exists_child
        rw [parent?_push] at hz
        exact not_has_new u (hempty.wellFormed.has_parent hz)
    have hdone := exec_insertBefore_node hwf hplace (by simp) hnot
    refine ⟨_, by
      unfold append
      rw [exec_bind_ok hdone]
      rfl, wellFormed_of_allows hwf hplace (by simp) hnot, ?_, ?_, ?_, ?_, ?_⟩
    · simp [htext, size_push, hsize]
    · intro y
      simp [htext, hempty.content, hsize]
    · intro y
      rw [parent?_relocate _ _ _ _ _ hplace.has_child, parent?_push, hempty.parent, hsize]
      by_cases hy : y = .slot t.size
      · subst hy
        have : NodeId.slot t.size ∉ t.children m := fun hmem =>
          not_has_new t (h.has_of_child hmem)
        simp [htext, this]
      · simp [hy]
    · have hdetached : u.parent? (.slot u.size) = none := parent?_of_not_has (not_has_new u)
      rw [children_relocate _ _ _ _ _ hplace.has_parent, if_pos rfl, children_detach,
        parent?_push, hdetached]
      simp [movedReference, listWith, hempty.children_self, htext, hsize]
    · intro y hy
      have hdetached : u.parent? (.slot u.size) = none := parent?_of_not_has (not_has_new u)
      rw [children_relocate _ _ _ _ _ hplace.has_parent, if_neg hy, parent?_push, hdetached]
      simp [hempty.children_other y hy]

end Repeater.Dom
