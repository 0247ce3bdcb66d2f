/-
  Repeater/Proofs/Dom/Copies.lean
  ===============================
  **What a copy is like.**

  Copying only adds nodes: however it ends, the tree it leaves is well-formed and extends the one
  before (`exec_copy`). A copy that was made is a new node that nothing else holds, says what
  its original says, and if it is deep has the shape of its original.

  The copies of the children go to the end of the copy one by one. What the loop keeps is in
  `Appended`: of the nodes that were there before it, only the copy gets new children.
-/
import Repeater.Proofs.Dom.Shapes
import Repeater.Dom.Copy

namespace Repeater.Dom

open Tree

variable {t t' u u' : Tree} {c s x y : NodeId} {depth : Nat} {deep : Bool}

namespace Tree

/-- What a tree shows of a copy `c` of `s` that was made in the tree `t`. -/
structure Copied (t : Tree) (s : NodeId) (deep : Bool) (t' : Tree) (c : NodeId) : Prop where
  original : t.Has s
  new : c = .slot t.size
  has : t'.Has c
  parent : t'.parent? c = none
  free : ∀ x, t'.contents? x ≠ some c
  bare : (t'.content? c).map Content.bare = (t.content? s).map Content.bare
  shape : deep = true → t'.shape c = t.shape s

/-- What a tree shows of the copy before its children have been copied. -/
structure Begun (t : Tree) (s : NodeId) (deep : Bool) (t' : Tree) (c : NodeId) : Prop where
  new : c = .slot t.size
  has : t'.Has c
  parent : t'.parent? c = none
  children : t'.children c = []
  free : ∀ x, t'.contents? x ≠ some c
  bare : (t'.content? c).map Content.bare = (t.content? s).map Content.bare
  contents : deep = true → ∀ place,
    t'.shape c (.contents :: place) = t.shape s (.contents :: place)

/-- What a tree shows after copies of the nodes `kids` of the tree `u` have been put at the end of
    the children of `c`. -/
structure Appended (u t : Tree) (c : NodeId) (kids : List NodeId) (t' : Tree) : Prop where
  old : ∀ {y}, t.Has y → y ≠ c → t'.get? y = t.get? y
  contents_old : ∀ {x f}, t'.contents? x = some f → t.Has f → t.Has x
  content : t'.content? c = t.content? c
  parent : t'.parent? c = t.parent? c
  copies : ∃ copies, t'.children c = t.children c ++ copies ∧ List.Forall₂
    (fun kid copy => ¬ t.Has copy ∧ t'.Has copy ∧ t'.shape copy = u.shape kid) kids copies

namespace Appended

variable {kids kids' : List NodeId}

/-- What the loop has made so far lies apart from what was there before it. -/
theorem closed_new (h : Appended u t c kids t') (ht : t.WellFormed) (ht' : t'.WellFormed) :
    t'.Closed fun x => ¬ t.Has x ∧ t'.Has x where
  children := by
    intro x y hx hy
    refine ⟨fun hold => hx.1 ?_, ht'.has_of_child hy⟩
    have hparent : t'.parent? y = t.parent? y := by
      by_cases hyc : y = c
      · rw [hyc, h.parent]
      · unfold parent?
        rw [h.old hold hyc]
    exact ht.has_parent (hparent ▸ ht'.parent_of_child hy)
  contents hx hf := ⟨fun hold => hx.1 (h.contents_old hf hold), ht'.has_contents hf⟩

/-- What one round of the loop leaves, the next leaves as well. -/
theorem trans (h : Appended u t c kids t') (h' : Appended u t' c kids' u') (ht : t.WellFormed)
    (ht' : t'.WellFormed) (hc : t.Has c) : Appended u t c (kids ++ kids') u' := by
  have hkeep : ∀ {y}, t.Has y → t'.Has y := by
    intro y hy
    by_cases hyc : y = c
    · obtain ⟨content, hcontent⟩ := has_iff_content.1 hc
      rw [hyc]
      exact has_of_content (h.content.trans hcontent)
    · unfold Has at *
      rwa [h.old hy hyc]
  have hkept : ∀ d, ¬ t.Has d → t'.Has d → u'.Has d ∧ u'.shape d = t'.shape d := by
    intro d hnew hhas
    have hsame : ∀ x, ¬ t.Has x ∧ t'.Has x → u'.get? x = t'.get? x := by
      rintro x ⟨hxnew, hxhas⟩
      refine h'.old hxhas ?_
      rintro rfl
      exact hxnew hc
    refine ⟨?_, shape_congr (h.closed_new ht ht') ?_ ?_ ⟨hnew, hhas⟩⟩
    · unfold Has at *
      rwa [hsame d ⟨hnew, hhas⟩]
    · intro x hx
      unfold children
      rw [hsame x hx]
    · intro x hx
      unfold content?
      rw [hsame x hx]
  obtain ⟨copies, hcopies, hshapes⟩ := h.copies
  obtain ⟨copies', hcopies', hshapes'⟩ := h'.copies
  refine ⟨fun hy hyc => (h'.old (hkeep hy) hyc).trans (h.old hy hyc), ?_,
    h'.content.trans h.content, h'.parent.trans h.parent, copies ++ copies', ?_, ?_⟩
  · intro x f hx hf
    have hx' := h'.contents_old hx (hkeep hf)
    have hsame : u'.contents? x = t'.contents? x := by
      refine contents?_congr ?_
      by_cases hxc : x = c
      · rw [hxc, h'.content]
      · unfold content?
        rw [h'.old hx' hxc]
    exact h.contents_old (hsame ▸ hx) hf
  · rw [hcopies', hcopies, List.append_assoc]
  · refine List.rel_append (hshapes.imp ?_) (hshapes'.imp ?_)
    · rintro k d ⟨hnew, hhas, hshape⟩
      obtain ⟨hhas', hshape'⟩ := hkept d hnew hhas
      exact ⟨hnew, hhas', hshape'.trans hshape⟩
    · rintro k d ⟨hnew, hhas, hshape⟩
      exact ⟨fun hold => hnew (hkeep hold), hhas, hshape⟩

theorem free (h : Appended u t c kids t') (hc : t.Has c) (hfree : ∀ x, t.contents? x ≠ some c)
    (x : NodeId) : t'.contents? x ≠ some c := by
  intro hx
  have hold := h.contents_old hx hc
  refine hfree x ((contents?_congr ?_).trans hx)
  by_cases hxc : x = c
  · rw [hxc, h.content]
  · unfold content?
    rw [h.old hold hxc]

/-- The contents of the copy were there before the loop and stay. -/
theorem shape_contents (h : Appended u t c kids t') (ht : t.WellFormed)
    (hparent : t.parent? c = none) (hfree : ∀ x, t.contents? x ≠ some c) (place : List Step) :
    t'.shape c (.contents :: place) = t.shape c (.contents :: place) := by
  have hclosed : t.Closed fun x => x ≠ c ∧ t.Has x := by
    refine ⟨fun _ hy => ⟨?_, ht.has_of_child hy⟩, fun _ hf => ⟨?_, ht.has_contents hf⟩⟩
    · rintro rfl
      simp [ht.parent_of_child hy] at hparent
    · rintro rfl
      exact hfree _ hf
  rw [Tree.shape_contents, Tree.shape_contents, contents?_congr h.content]
  refine Option.bind_congr fun f hf => ?_
  have hshape : t'.shape f = t.shape f := by
    refine shape_congr hclosed ?_ ?_ ⟨?_, ht.has_contents hf⟩
    · rintro x ⟨hxc, hx⟩
      unfold children
      rw [h.old hx hxc]
    · rintro x ⟨hxc, hx⟩
      unfold content?
      rw [h.old hx hxc]
    · rintro rfl
      exact hfree _ hf
  rw [hshape]

end Appended

end Tree

namespace Edit

/-- Makes a node of the given content, with contents of its own. -/
def copyContent (depth : Nat) (deep : Bool) : Content → Edit NodeId
  | .element element => do
    let copy ← create (.element { element with contents := none })
    if let some contents := element.contents then
      let contents ← if deep then copyWithin depth contents true else create .fragment
      modify (·.modify copy fun n => { n with content := .element { element with contents } })
    pure copy
  | content => create content

/-- Puts copies of nodes at the end of the children of `copy`. -/
def copyKids (depth : Nat) (copy : NodeId) (kids : List NodeId) : Edit Unit :=
  kids.forM fun kid => do
    let child ← copyWithin depth kid true
    let _ ← append copy child

theorem exec_copyWithin_succ (depth : Nat) (s : NodeId) (deep : Bool) (t : Tree) :
    exec (copyWithin (depth + 1) s deep) t =
      match t.get? s with
      | none => (.error (.notFound s), t)
      | some node => exec (do
          let copy ← copyContent depth deep node.content
          if deep then copyKids depth copy node.children
          return copy) t := by
  rw [copyWithin, exec_get_bind]
  rcases t.get? s with _ | ⟨content, parent, kids⟩
  · rfl
  · unfold copyContent copyKids
    cases content with
    | element element =>
      rcases element with ⟨tag, attributes, _ | contents⟩ <;> cases deep <;>
        simp only [bind_assoc, pure_bind, Bool.false_eq_true, ↓reduceIte]
    | _ => rfl

/-- What every copying within a depth leaves. -/
def CopiesWell (depth : Nat) : Prop :=
  ∀ {t : Tree} (s : NodeId) (deep : Bool), t.WellFormed →
    ∃ result t', exec (copyWithin depth s deep) t = (result, t') ∧ t'.WellFormed ∧ t.Extends t' ∧
      ∀ c, result = .ok c → t.Copied s deep t' c

/-- A node of the same content begins the copy of a node without contents. -/
theorem begun_push {content : Content} (h : t.WellFormed) (hs : t.content? s = some content)
    (hnone : t.contents? s = none) : t.Begun s deep (t.push content).2 (.slot t.size) := by
  have hcontents : ∀ x f, (t.push content).2.contents? x = some f → t.contents? x = some f := by
    intro x f hx
    rcases (contents?_push _ _ _).1 hx with ⟨-, e, rfl, he⟩ | hx
    · rw [contents?_eq_some.2 ⟨e, hs, he⟩] at hnone
      simp at hnone
    · exact hx
  refine ⟨rfl, by simp, ?_, ?_, ?_, by simp [hs], ?_⟩
  · simpa using parent?_of_not_has (not_has_new t)
  · simpa using children_of_not_has (not_has_new t)
  · exact fun x hx => not_has_new t (h.has_contents (hcontents x _ hx))
  · intro _ place
    have hnew : (t.push content).2.contents? (.slot t.size) = none := by
      refine Option.eq_none_iff_forall_ne_some.2 fun f hf => ?_
      exact not_has_new t (has_of_contents (hcontents _ f hf))
    rw [shape_contents, shape_contents, hnew, hnone]
    rfl

section template

variable {e : Element} {f g : NodeId}

theorem wellFormed_push_bare (h : t.WellFormed) (hs : t.content? s = some (.element e)) :
    (t.push (.element { e with contents := none })).2.WellFormed := by
  have hnames : e.NamesDiffer := h.names_differ (element?_eq_some.2 hs)
  refine wellFormed_push h _ ?_
  rintro _ ⟨⟩
  exact ⟨rfl, hnames⟩

/-- A new template that holds a new fragment begins the copy of a template, and the deep copy when
    the fragment is a deep copy of the contents. -/
theorem begun_setContent (h : t.WellFormed) (deep : Bool)
    (hs : t.content? s = some (.element e)) (hf : e.contents = some f) (hu : u.WellFormed)
    (hext : (t.push (.element { e with contents := none })).2.Extends u)
    (hg : u.content? g = some .fragment)
    (hnew : ¬ (t.push (.element { e with contents := none })).2.Has g)
    (hfree : ∀ x, u.contents? x ≠ some g) (hshape : deep = true → u.shape g = t.shape f) :
    (u.setContent (.slot t.size) (.element { e with contents := some g })).WellFormed ∧
      t.Extends (u.setContent (.slot t.size) (.element { e with contents := some g })) ∧
      t.Begun s deep (u.setContent (.slot t.size) (.element { e with contents := some g }))
        (.slot t.size) := by
  have hsf : t.contents? s = some f := contents?_eq_some.2 ⟨e, hs, hf⟩
  have hnames : e.NamesDiffer := h.names_differ (element?_eq_some.2 hs)
  have hwf := wellFormed_push_bare h hs
  have hpush : t.Extends (t.push (.element { e with contents := none })).2 :=
    extends_push (by rintro _ ⟨⟩; rfl)
  have hold : (t.push (.element { e with contents := none })).2.Has (.slot t.size) := by simp
  have hhas := hext.has hold
  have hcontent : u.content? (.slot t.size) = some (.element { e with contents := none }) := by
    rw [hext.content? hold]
    simp
  have hgt : ¬ t.Has g := fun hgt => hnew (hpush.has hgt)
  refine ⟨?_, ?_, rfl, by simpa, ?_, ?_, ?_, ?_, ?_⟩
  · refine wellFormed_setContent hu hcontent rfl (by simp) ?_ ?_ ?_
    · rintro _ ⟨⟩
      exact hnames
    · rintro _ ⟨⟩ _
      have := h.contents_template (element?_eq_some.2 hs) (by simp [hf])
      simpa [Element.isTemplate] using this
    · rintro _ _ ⟨⟩ ⟨⟩
      exact ⟨hg, fun y hy => absurd hy (hfree y)⟩
  · refine (hpush.trans hext).setContent (not_has_new t) ?_
    rintro _ _ ⟨⟩ ⟨⟩
    exact ⟨hgt, .inr (precedes_of_old_new hold hnew (has_of_content hg))⟩
  · rw [parent?_setContent, hext.parent? hold, parent?_push]
    exact parent?_of_not_has (not_has_new t)
  · rw [children_setContent, hext.children hold, children_push]
    exact children_of_not_has (not_has_new t)
  · intro x hx
    obtain ⟨e', he', hx⟩ := contents?_eq_some.1 hx
    rw [content?_setContent] at he'
    split at he'
    · cases he'
      cases hx
      exact hnew hold
    · have hxu : u.contents? x = some (.slot t.size) := contents?_eq_some.2 ⟨e', he', hx⟩
      have hx₁ := hext.contents_old hxu hold
      rw [hext.contents? hx₁] at hxu
      rcases (contents?_push _ _ _).1 hxu with ⟨-, _, ⟨⟩, hnone⟩ | hxt
      · simp at hnone
      · exact not_has_new t (h.has_contents hxt)
  · simp [hhas, hs, Content.bare]
  · intro hdeep place
    have hown : (u.setContent (.slot t.size) (.element { e with contents := some g })).contents?
        (.slot t.size) = some g :=
      contents?_eq_some.2 ⟨{ e with contents := some g }, by simp [hhas], rfl⟩
    have hkept : (u.setContent (.slot t.size) (.element { e with contents := some g })).shape g =
        u.shape g := by
      refine shape_congr (hext.closed_new hwf hu) (fun x _ => children_setContent ..) ?_ hnew
      intro x hx
      rw [content?_setContent, if_neg]
      rintro ⟨rfl, -⟩
      exact hx hold
    rw [shape_contents, shape_contents, hsf, hown, Option.bind_some, Option.bind_some, hkept,
      hshape hdeep]

theorem exec_copyContent_template (ih : CopiesWell depth) (h : t.WellFormed)
    (hs : t.content? s = some (.element e)) (hf : e.contents = some f) :
    ∃ result t', exec (copyContent depth deep (.element e)) t = (result, t') ∧ t'.WellFormed ∧
      t.Extends t' ∧ ∀ c, result = .ok c → t.Begun s deep t' c := by
  have hwf := wellFormed_push_bare h hs
  have hpush : t.Extends (t.push (.element { e with contents := none })).2 :=
    extends_push (by rintro _ ⟨⟩; rfl)
  have hfhas : t.Has f := h.has_contents (contents?_eq_some.2 ⟨e, hs, hf⟩)
  have hffragment : t.content? f = some .fragment :=
    h.contents_fragment (contents?_eq_some.2 ⟨e, hs, hf⟩)
  unfold copyContent
  rw [exec_bind_ok (exec_create _ t)]
  simp only [hf]
  cases deep with
  | true =>
    obtain ⟨result, u, hrun, hu, hext, hcopied⟩ := ih f true hwf
    cases result with
    | error error =>
      refine ⟨.error error, u, ?_, hu, hpush.trans hext, by simp⟩
      rw [if_pos rfl]
      rw [exec_bind_error hrun]
    | ok g =>
      have hg := hcopied g rfl
      have hkind : u.content? g = some .fragment := by
        have := hg.bare
        rw [hpush.content? hfhas, hffragment] at this
        obtain ⟨content, hcontent, hbare⟩ := Option.map_eq_some_iff.1 this
        rw [hcontent, Content.bare_eq_fragment.1 hbare]
      obtain ⟨hwf', hext', hbegun⟩ := begun_setContent h true hs hf hu hext hkind
        (hg.new ▸ not_has_new _) hg.free fun _ => (hg.shape rfl).trans (hpush.shape h hfhas)
      refine ⟨.ok (.slot t.size), _, ?_, hwf', hext', ?_⟩
      · rw [if_pos rfl]
        rw [exec_bind_ok hrun]
        rfl
      · rintro _ ⟨⟩
        exact hbegun
  | false =>
    have hnone : ∀ x, ((t.push (.element { e with contents := none })).2.push .fragment).2.contents? x
        ≠ some (.slot (t.push (.element { e with contents := none })).2.size) := by
      intro x hx
      rcases (contents?_push _ _ _).1 hx with ⟨-, _, ⟨⟩, -⟩ | hx
      exact not_has_new _ (hwf.has_contents hx)
    obtain ⟨hwf', hext', hbegun⟩ := begun_setContent h false hs hf
      (wellFormed_push hwf .fragment (by simp)) (extends_push (by simp)) (by simp)
      (not_has_new _) hnone (by simp)
    refine ⟨.ok (.slot t.size), _, ?_, hwf', hext', ?_⟩
    · rfl
    · rintro _ ⟨⟩
      exact hbegun

end template

theorem exec_copyContent (ih : CopiesWell depth) (deep : Bool) (h : t.WellFormed)
    {content : Content} (hs : t.content? s = some content) :
    ∃ result t', exec (copyContent depth deep content) t = (result, t') ∧ t'.WellFormed ∧
      t.Extends t' ∧ ∀ c, result = .ok c → t.Begun s deep t' c := by
  rcases hcontents : t.contents? s with _ | f
  · have hnone : ∀ e, content = .element e → e.contents = none ∧ e.NamesDiffer := by
      rintro e rfl
      refine ⟨?_, h.names_differ (element?_eq_some.2 hs)⟩
      refine Option.eq_none_iff_forall_ne_some.2 fun f hf => ?_
      rw [contents?_eq_some.2 ⟨e, hs, hf⟩] at hcontents
      simp at hcontents
    have hrun : exec (copyContent depth deep content) t =
        (.ok (.slot t.size), (t.push content).2) := by
      cases content with
      | element e =>
        rcases e with ⟨tag, attributes, contents⟩
        obtain rfl : contents = none := (hnone _ rfl).1
        rfl
      | _ => rfl
    refine ⟨_, _, hrun, wellFormed_push h _ hnone, extends_push fun e he => (hnone e he).1, ?_⟩
    rintro _ ⟨⟩
    exact begun_push h hs hcontents
  · obtain ⟨e, he, hef⟩ := contents?_eq_some.1 hcontents
    rw [hs, Option.some.injEq] at he
    subst he
    exact exec_copyContent_template ih h hs hef

/-! ## Copies of the children -/

variable {kids : List NodeId}

/-- A copy that has just been made may be put at the end of the children of a node that is no
    node's child. -/
theorem allows_copied (hext : u.Extends t) (hext' : t.Extends t') (hparent : t.parent? c = none)
    (hholder : ∃ holder, t.content? c = some holder ∧ holder.holdsChildren) {kid d : NodeId}
    (hkid : u.Has kid) (hkind : u.content? kid ≠ some .fragment) (hd : t.Copied kid true t' d) :
    ∃ content, t'.Allows c d none content ∧ content ≠ .fragment ∧ ¬ t'.AtOrAbove d c := by
  have hcOld : t.Has c := by
    obtain ⟨holder, hholder, -⟩ := hholder
    exact has_of_content hholder
  obtain ⟨content, hcontent⟩ := has_iff_content.1 hd.has
  refine ⟨content, ⟨by rwa [hext'.content? hcOld], hcontent, by simp⟩, ?_, ?_⟩
  · rintro rfl
    have := hd.bare
    rw [hcontent, hext.content? hkid] at this
    obtain ⟨original, horiginal, hbare⟩ := Option.map_eq_some_iff.1 this.symm
    exact hkind (Content.bare_eq_fragment.1 hbare ▸ horiginal)
  · rw [atOrAbove_iff]
    rintro (rfl | hdc)
    · exact not_has_new t (hd.new ▸ hcOld)
    · exact not_above_of_parent_none (hext'.parent? hcOld ▸ hparent) hdc

/-- One round of the loop over the children. -/
theorem exec_appendCopy (ih : CopiesWell depth) (hu : u.WellFormed) (h : t.WellFormed)
    (hext : u.Extends t) (hc : ¬ u.Has c) (hparent : t.parent? c = none)
    (hholder : ∃ holder, t.content? c = some holder ∧ holder.holdsChildren) {kid : NodeId}
    (hkid : u.Has kid) (hkind : u.content? kid ≠ some .fragment) :
    ∃ result t', exec (do
        let child ← copyWithin depth kid true
        let _ ← append c child) t = (result, t') ∧
      t'.WellFormed ∧ u.Extends t' ∧ (result = .ok ⟨⟩ → Appended u t c [kid] t') := by
  obtain ⟨result, t₁, hrun, hwf, hext₁, hcopied⟩ := ih kid true h
  have hcOld : t.Has c := by
    obtain ⟨holder, hholder, -⟩ := hholder
    exact has_of_content hholder
  cases result with
  | error error =>
    exact ⟨.error error, t₁, exec_bind_error hrun, hwf, hext.trans hext₁, by simp⟩
  | ok d =>
    have hd := hcopied d rfl
    have hdnew : ¬ t.Has d := hd.new ▸ not_has_new t
    have hdc : d ≠ c := by
      rintro rfl
      exact hdnew hcOld
    obtain ⟨content, hplace, hfragment, hnot⟩ :=
      allows_copied hext hext₁ hparent hholder hkid hkind hd
    refine ⟨.ok ⟨⟩, t₁.relocate c d none, ?_, wellFormed_of_allows hwf hplace hfragment hnot, ?_, ?_⟩
    · rw [exec_bind_ok hrun]
      unfold append
      rw [exec_bind_ok (exec_insertBefore_node hwf hplace hfragment hnot)]
      rfl
    · exact (hext.trans hext₁).relocate hc (fun hold => hdnew (hext.has hold)) hd.has
        (by simp [hd.parent]) (precedes_of_old_new hcOld hdnew hd.has)
    · intro _
      have hother : ∀ {y}, y ≠ c → y ≠ d →
          (t₁.relocate c d none).get? y = t₁.get? y := fun hyc hyd =>
        get?_relocate_of_ne hyd hyc (by simp [hd.parent])
      have hkids : ∀ x, x ≠ c → (t₁.relocate c d none).children x = t₁.children x := by
        intro x hx
        rw [children_relocate _ _ _ _ _ hplace.has_parent, if_neg hx, if_neg (by simp [hd.parent])]
      refine ⟨?_, ?_, ?_, ?_, [d], ?_, .cons ⟨hdnew, ?_, ?_⟩ .nil⟩
      · intro y hy hyc
        rw [hother hyc (by rintro rfl; exact hdnew hy), hext₁.old hy]
      · exact fun hx hf => hext₁.contents_old (by simpa using hx) hf
      · rw [content?_relocate, hext₁.content? hcOld]
      · rw [parent?_relocate _ _ _ _ _ hplace.has_child, if_neg hdc.symm, hext₁.parent? hcOld]
      · rw [children_relocate _ _ _ _ _ hplace.has_parent, if_pos rfl, children_detach,
          if_neg (by simp [hd.parent]), hext₁.children hcOld]
        simp [movedReference, listWith]
      · simpa using hd.has
      · have hkept : (t₁.relocate c d none).shape d = t₁.shape d := by
          refine shape_congr (hext₁.closed_new h hwf) ?_ (fun x _ => content?_relocate ..) hdnew
          intro x hx
          refine hkids x ?_
          rintro rfl
          exact hx hcOld
        rw [hkept, hd.shape rfl, hext.shape hu hkid]

/-- A child of a node can stand below whatever is like the node. -/
theorem fits_below_copy (h : u.WellFormed)
    (hbare : (t.content? c).map Content.bare = (u.content? s).map Content.bare)
    (hkid : kid ∈ u.children s) :
    u.Has kid ∧ u.content? kid ≠ some .fragment ∧
      ∃ holder, t.content? c = some holder ∧ holder.holdsChildren := by
  have hparent := h.parent_of_child hkid
  refine ⟨h.has_of_child hkid, fun hfragment => ?_, ?_⟩
  · simp [h.fragment_parent hfragment] at hparent
  · obtain ⟨holder, hholder, hholds⟩ := h.holder_of_parent hparent
    rw [hholder] at hbare
    obtain ⟨content, hc, hbare⟩ := Option.map_eq_some_iff.1 hbare
    refine ⟨content, hc, ?_⟩
    rw [← Content.holdsChildren_bare, hbare, Content.holdsChildren_bare, hholds]

theorem exec_copyKids (ih : CopiesWell depth) (kids : List NodeId) (hu : u.WellFormed)
    (h : t.WellFormed) (hext : u.Extends t) (hc : ¬ u.Has c) (hcOld : t.Has c)
    (hparent : t.parent? c = none)
    (hkids : ∀ kid ∈ kids, u.Has kid ∧ u.content? kid ≠ some .fragment ∧
      ∃ holder, t.content? c = some holder ∧ holder.holdsChildren) :
    ∃ result t', exec (copyKids depth c kids) t = (result, t') ∧ t'.WellFormed ∧ u.Extends t' ∧
      (result = .ok ⟨⟩ → Appended u t c kids t') := by
  unfold copyKids
  induction kids generalizing t with
  | nil =>
    refine ⟨.ok ⟨⟩, t, rfl, h, hext, fun _ => ⟨fun _ _ => rfl, ?_, rfl, rfl, [], by simp, .nil⟩⟩
    exact fun hx _ => has_of_contents hx
  | cons kid rest ihRest =>
    obtain ⟨hkid, hkind, hholder⟩ := hkids kid (by simp)
    obtain ⟨result, t₁, hrun, hwf, hext₁, hone⟩ :=
      exec_appendCopy ih hu h hext hc hparent hholder hkid hkind
    rw [exec_forM_cons]
    cases result with
    | error error => exact ⟨.error error, t₁, exec_bind_error hrun, hwf, hext₁, by simp⟩
    | ok _ =>
      have hone := hone rfl
      obtain ⟨content, hcontent⟩ := has_iff_content.1 hcOld
      obtain ⟨result, t₂, hrun', hwf', hext₂, hrest⟩ := ihRest hwf hext₁
        (has_of_content (hone.content.trans hcontent)) (hone.parent.trans hparent)
        (fun k hk => by
          rw [hone.content]
          exact hkids k (by simp [hk]))
      refine ⟨result, t₂, ?_, hwf', hext₂, fun hok => ?_⟩
      · rw [exec_bind_ok hrun, hrun']
      · exact hone.trans (hrest hok) h hwf hcOld

/-! ## Copies -/

/-- A copy with copies of all children and of the contents has the shape of the original. -/
theorem shape_of_appended (hbegun : t.Begun s true u c) (hu : u.WellFormed)
    (h : Appended t u c (t.children s) t') : t'.shape c = t.shape s := by
  funext place
  cases place with
  | nil => rw [shape_nil, shape_nil, h.content, hbegun.bare]
  | cons step place =>
    cases step with
    | contents =>
      rw [h.shape_contents hu hbegun.parent hbegun.free, hbegun.contents rfl]
    | child i =>
      obtain ⟨copies, hcopies, hshapes⟩ := h.copies
      rw [hbegun.children, List.nil_append] at hcopies
      rw [shape_child, shape_child, hcopies]
      rcases Nat.lt_or_ge i (t.children s).length with hi | hi
      · have hi' : i < copies.length := hshapes.length_eq ▸ hi
        rw [List.getElem?_eq_getElem hi, List.getElem?_eq_getElem hi', Option.bind_some,
          Option.bind_some]
        exact congrFun (hshapes.get hi hi').2.2 place
      · have hi' : copies.length ≤ i := hshapes.length_eq ▸ hi
        rw [List.getElem?_eq_none hi, List.getElem?_eq_none hi']
        rfl

theorem copiesWell (depth : Nat) : CopiesWell depth := by
  induction depth with
  | zero => exact fun s deep h => ⟨_, _, rfl, h, .refl _, by simp⟩
  | succ depth ih =>
    intro t s deep h
    rw [exec_copyWithin_succ]
    rcases hs : t.get? s with _ | node
    · exact ⟨_, _, rfl, h, .refl t, by simp⟩
    have hcontent : t.content? s = some node.content := by simp [content?, hs]
    have hkids : node.children = t.children s := by simp [children, hs]
    obtain ⟨result, u, hrun, hu, hext, hbegun⟩ := exec_copyContent ih deep h hcontent
    cases result with
    | error error => exact ⟨.error error, u, exec_bind_error hrun, hu, hext, by simp⟩
    | ok c =>
      have hbegun := hbegun c rfl
      dsimp only
      rw [exec_bind_ok hrun, hkids]
      cases deep with
      | false =>
        refine ⟨.ok c, u, rfl, hu, hext, ?_⟩
        rintro _ ⟨⟩
        exact ⟨has_of_content hcontent, hbegun.new, hbegun.has, hbegun.parent, hbegun.free,
          hbegun.bare, by simp⟩
      | true =>
        obtain ⟨result, t', hrun', ht', hext', happended⟩ := exec_copyKids ih (t.children s) h hu hext
          (hbegun.new ▸ not_has_new t) hbegun.has hbegun.parent
          fun _ hkid => fits_below_copy h hbegun.bare hkid
        cases result with
        | error error =>
          refine ⟨.error error, t', ?_, ht', hext', by simp⟩
          rw [if_pos rfl, exec_bind_error hrun']
        | ok _ =>
          have happended := happended rfl
          refine ⟨.ok c, t', ?_, ht', hext', ?_⟩
          · rw [if_pos rfl, exec_bind_ok hrun']
            rfl
          · rintro _ ⟨⟩
            refine ⟨has_of_content hcontent, hbegun.new, ?_, happended.parent.trans hbegun.parent,
              happended.free hbegun.has hbegun.free, ?_,
              fun _ => shape_of_appended hbegun hu happended⟩
            · obtain ⟨content, hc⟩ := has_iff_content.1 hbegun.has
              exact has_of_content (happended.content.trans hc)
            · rw [happended.content, hbegun.bare]

/-- A copy only adds nodes; a deep one has the shape of its original. -/
theorem exec_copy (h : t.WellFormed) (s : NodeId) (deep : Bool) :
    ∃ result t', exec (copy s deep) t = (result, t') ∧ t'.WellFormed ∧ t.Extends t' ∧
      ∀ c, result = .ok c → t.Copied s deep t' c :=
  copiesWell t.size s deep h

end Edit

end Repeater.Dom
