/-
  Repeater/Proofs/Hook/Footprint.lean
  ===================================
  **What hook code can reach.**

  Hook code names elements by its parameters only, and of these five are nodes: the root, the
  template, the trigger, the container and the first item (`Context.reach`). A method sets
  attributes or the text of such a node, in place. So whatever a program does before it ends or
  fails, only these nodes get other attributes or another text, and only their child lists are ever
  emptied or filled with one new text (`Tree.Touched`). That the nodes may hold each other, or come
  loose on the way, makes no difference, since the relation is the same for all statements and
  composes.
-/
import Repeater.Proofs.Dom.Documents
import Repeater.Proofs.Scope.Flows

namespace Repeater

open Dom Hook Tree

variable {σ : Type}

/-! ## Trees of which some nodes have been touched -/

namespace Dom

/-- The content of one node at two times: an element keeps its tag and the fragment of its contents,
    a text stays a text, and everything else stays the same. -/
inductive Content.Alike : Content → Content → Prop
  | same (content : Content) : Alike content content
  | element {e e' : Element} (htag : e'.tag = e.tag) (hcontents : e'.contents = e.contents) :
    Alike (.element e) (.element e')
  | text (s s' : String) : Alike (.text s) (.text s')

theorem Content.Alike.trans {c c' c'' : Content} (h : c.Alike c') (h' : c'.Alike c'') :
    c.Alike c'' := by
  cases h with
  | same => exact h'
  | element htag hcontents =>
    cases h' with
    | same => exact .element htag hcontents
    | element htag' hcontents' =>
      exact .element (htag'.trans htag) (hcontents'.trans hcontents)
  | text => cases h' <;> exact .text _ _

namespace Tree

variable {ids : List NodeId} {t t' u : Tree} {x p : NodeId}

/-- From `t` to `t'`, attributes and texts of the nodes `ids` have been set, in place. -/
structure Touched (ids : List NodeId) (t t' : Tree) : Prop where
  size_le : t.size ≤ t'.size
  /-- The arena grows by texts. -/
  new : ∀ x, ¬ t.Has x → t'.Has x → ∃ s, t'.content? x = some (.text s)
  content : ∀ x, x ∉ ids → t.Has x → t'.content? x = t.content? x
  alike : ∀ x c, t.content? x = some c → ∃ c', t'.content? x = some c' ∧ c.Alike c'
  /-- A node stays where it is, or comes loose from one of the nodes. -/
  parent : ∀ x, t.Has x →
    t'.parent? x = t.parent? x ∨ t'.parent? x = none ∧ ∃ p ∈ ids, t.parent? x = some p
  parent_new : ∀ x p, ¬ t.Has x → t'.parent? x = some p → p ∈ ids
  /-- A child list stays as it is, or one of the nodes has at most one child, and that is new. -/
  children : ∀ x, t.Has x → t'.children x = t.children x ∨
    x ∈ ids ∧ (t'.children x).length ≤ 1 ∧ ∀ y ∈ t'.children x, ¬ t.Has y

namespace Touched

theorem refl (ids : List NodeId) (t : Tree) : Touched ids t t where
  size_le := Nat.le_refl _
  new _ hnot hx := absurd hx hnot
  content _ _ _ := rfl
  alike _ c hc := ⟨c, hc, .same c⟩
  parent _ _ := .inl rfl
  parent_new _ _ hnot hp := absurd (has_of_parent hp) hnot
  children _ _ := .inl rfl

theorem has (h : Touched ids t t') (hx : t.Has x) : t'.Has x := by
  obtain ⟨i, hi, rfl⟩ := has_iff_slot.1 hx
  exact has_slot.2 (Nat.lt_of_lt_of_le hi h.size_le)

theorem trans (h : Touched ids t t') (h' : Touched ids t' u) : Touched ids t u where
  size_le := Nat.le_trans h.size_le h'.size_le
  new x hnot hx := by
    by_cases hbetween : t'.Has x
    · obtain ⟨s, hs⟩ := h.new x hnot hbetween
      obtain ⟨c, hc, halike⟩ := h'.alike x _ hs
      cases halike with
      | same => exact ⟨s, hc⟩
      | text s s' => exact ⟨s', hc⟩
    · exact h'.new x hbetween hx
  content x hids hx := (h'.content x hids (h.has hx)).trans (h.content x hids hx)
  alike x c hc := by
    obtain ⟨c', hc', halike⟩ := h.alike x c hc
    obtain ⟨c'', hc'', halike'⟩ := h'.alike x c' hc'
    exact ⟨c'', hc'', halike.trans halike'⟩
  parent x hx := by
    rcases h'.parent x (h.has hx) with hsame | ⟨hnone, p, hp, hparent⟩
    · rw [hsame]
      exact h.parent x hx
    · -- what comes loose now has been where it was
      rcases h.parent x hx with hsame | ⟨hloose, -⟩
      · exact .inr ⟨hnone, p, hp, hsame ▸ hparent⟩
      · rw [hloose] at hparent
        cases hparent
  parent_new x p hnot hp := by
    by_cases hbetween : t'.Has x
    · rcases h'.parent x hbetween with hsame | ⟨hnone, -⟩
      · exact h.parent_new x p hnot (hsame ▸ hp)
      · rw [hnone] at hp
        cases hp
    · exact h'.parent_new x p hbetween hp
  children x hx := by
    rcases h'.children x (h.has hx) with hsame | ⟨hids, hone, hfresh⟩
    · rw [hsame]
      exact h.children x hx
    · exact .inr ⟨hids, hone, fun y hy hold => hfresh y hy (h.has hold)⟩

/-- A template keeps its contents. -/
theorem contents (h : Touched ids t t') (hx : t.Has x) : t'.contents? x = t.contents? x := by
  obtain ⟨c, hc⟩ := has_iff_content.1 hx
  obtain ⟨c', hc', halike⟩ := h.alike x c hc
  rw [contents?_of_content hc, contents?_of_content hc']
  cases halike with
  | same => rfl
  | element htag hcontents => exact hcontents
  | text => rfl

/-- An element keeps its tag. -/
theorem tag (h : Touched ids t t') (hx : t.Has x) : t'.tag? x = t.tag? x := by
  obtain ⟨c, hc⟩ := has_iff_content.1 hx
  obtain ⟨c', hc', halike⟩ := h.alike x c hc
  unfold tag?
  rw [element?_of_content hc, element?_of_content hc']
  cases halike with
  | same => rfl
  | element htag hcontents => exact congrArg some htag
  | text => rfl

/-! ### The three ways to touch a node -/

theorem setContent {c c' : Content} (hx : x ∈ ids) (hc : t.content? x = some c)
    (halike : c.Alike c') : Touched ids t (t.setContent x c') where
  size_le := Nat.le_of_eq (size_setContent ..).symm
  new y hnot hy := absurd ((has_setContent ..).1 hy) hnot
  content y hids hy := by
    rw [content?_setContent, if_neg]
    rintro ⟨rfl, -⟩
    exact hids hx
  alike y d hd := by
    rw [content?_setContent]
    split
    · next hy =>
      rw [hy.1, hc, Option.some.injEq] at hd
      exact ⟨c', rfl, hd ▸ halike⟩
    · exact ⟨d, hd, .same d⟩
  parent y _ := .inl (parent?_setContent ..)
  parent_new y p hnot hp := by
    rw [parent?_setContent] at hp
    exact absurd (has_of_parent hp) hnot
  children y _ := .inl (children_setContent ..)

/-- The text of a comment or a doctype cannot be set, but the new text is there already. -/
theorem push (ids : List NodeId) (t : Tree) (text : String) :
    Touched ids t (t.push (.text text)).2 where
  size_le := by
    rw [size_push]
    exact Nat.le_succ _
  new y hnot hy := by
    rw [has_push] at hy
    rw [content?_push, if_pos (hy.resolve_right hnot)]
    exact ⟨text, rfl⟩
  content y _ hy := by
    rw [content?_push, if_neg]
    rintro rfl
    exact not_has_new t hy
  alike y c hc := by
    refine ⟨c, ?_, .same c⟩
    rw [content?_push, if_neg, hc]
    rintro rfl
    exact not_has_new t (has_of_content hc)
  parent y _ := .inl (parent?_push ..)
  parent_new y p hnot hp := by
    rw [parent?_push] at hp
    exact absurd (has_of_parent hp) hnot
  children y _ := .inl (children_push ..)

theorem textSet {text : String} (h : t.WellFormed) (hset : t.TextSet x text t') (hx : x ∈ ids) :
    Touched ids t t' where
  size_le := by
    rw [hset.size]
    split
    · exact Nat.le_refl _
    · exact Nat.le_succ _
  new y hnot hy := by
    obtain ⟨c, hc⟩ := has_iff_content.1 hy
    rw [hset.content, content?_of_not_has hnot] at hc
    split at hc
    · next hnew =>
      rw [hset.content, if_pos hnew]
      exact ⟨text, rfl⟩
    · cases hc
  content y _ hy := by
    rw [hset.content, if_neg]
    rintro ⟨-, rfl⟩
    exact not_has_new t hy
  alike y c hc := by
    refine ⟨c, ?_, .same c⟩
    rw [hset.content, if_neg, hc]
    rintro ⟨-, rfl⟩
    exact not_has_new t (has_of_content hc)
  parent y hy := by
    rw [hset.parent]
    split
    · next hchild => exact .inr ⟨rfl, x, hx, h.parent_of_child hchild⟩
    · rw [if_neg]
      · exact .inl rfl
      · rintro ⟨-, rfl⟩
        exact not_has_new t hy
  parent_new y p hnot hp := by
    rw [hset.parent, if_neg fun hchild => hnot (h.has_of_child hchild)] at hp
    split at hp
    · cases hp
      exact hx
    · exact absurd (has_of_parent hp) hnot
  children y hy := by
    by_cases hyx : y = x
    · subst hyx
      refine .inr ⟨hx, ?_⟩
      rw [hset.children_self]
      split
      · simp
      · simpa using not_has_new t
    · exact .inl (hset.children_other y hyx)

end Touched

/-- `Touched`, as far as the trees are well-formed. -/
def Touches (ids : List NodeId) (t t' : Tree) : Prop :=
  t.WellFormed → t'.WellFormed ∧ Touched ids t t'

instance : IsPreorder Tree (Touches ids) where
  refl t := fun h => ⟨h, .refl ids t⟩
  trans _ _ _ := fun h h' ht =>
    have ⟨ht', hfirst⟩ := h ht
    have ⟨hu, hsecond⟩ := h' ht'
    ⟨hu, hfirst.trans hsecond⟩

end Tree

/-! ## Methods of elements -/

namespace Edit

variable {ids : List NodeId} {x : NodeId}

theorem touches_setElement {t : Tree} {e e' : Element} (hx : x ∈ ids) (he : t.element? x = some e)
    (htag : e'.tag = e.tag) (hcontents : e'.contents = e.contents)
    (hnames : e.NamesDiffer → e'.NamesDiffer) :
    t.Touches ids (t.setContent x (.element e')) := fun h =>
  ⟨wellFormed_setElement h he htag hcontents (hnames (h.names_differ he)),
    .setContent hx (element?_eq_some.1 he) (.element htag hcontents)⟩

theorem touches_setAttribute (hx : x ∈ ids) (name value : String) :
    Keeps (Touches ids) (setAttribute x name value) := by
  intro t
  rcases exec_theElement t x with ⟨e, he, -⟩ | ⟨error, hrun⟩
  · rw [exec_setAttribute he]
    exact touches_setElement hx he rfl rfl fun h => h.set name value
  · unfold setAttribute
    rw [exec_bind_error hrun]
    exact refl_of (Touches ids) t

theorem touches_removeAttribute (hx : x ∈ ids) (name : String) :
    Keeps (Touches ids) (removeAttribute x name) := by
  intro t
  rcases exec_theElement t x with ⟨e, he, -⟩ | ⟨error, hrun⟩
  · rw [exec_removeAttribute he]
    exact touches_setElement hx he rfl rfl fun h => h.erase name
  · unfold removeAttribute
    rw [exec_bind_error hrun]
    exact refl_of (Touches ids) t

/-- The text of a node that is no text and holds no children is made, but finds no place. -/
theorem exec_setText_childless {t : Tree} (h : t.WellFormed) {content : Content}
    (hx : t.content? x = some content) (htext : content.text? = none)
    (hholds : content.holdsChildren = false) (text : String) :
    (exec (setText x text) t).2 = if text.isEmpty then t else (t.push (.text text)).2 := by
  obtain ⟨n, hn, rfl⟩ := Option.map_eq_some_iff.1 hx
  have hchildren : n.children = [] := by
    have hnone := h.children_eq_nil hx hholds
    simpa [children, hn] using hnone
  have hexec : exec (setText x text) t = exec (do
      unless text.isEmpty do
        let child ← create (.text text)
        let _ ← append x child) t := by
    unfold setText
    simp only [exec_get_bind, hn]
    rcases hc : n.content with _ | _ | _ | _ | s | _
    case text => simp [hc, Content.text?] at htext
    all_goals rw [hchildren]; rfl
  rw [hexec]
  by_cases hempty : text.isEmpty
  · simp [hempty]
  · simp only [hempty, if_false, Bool.false_eq_true]
    rw [exec_bind_ok (exec_create _ t)]
    have hne : x ≠ .slot t.size := by
      rintro rfl
      exact not_has_new t (has_of_content hx)
    have hplace : ∃ e, (t.push (.text text)).2.checkPlace x (.slot t.size) none = .error e := by
      refine ⟨.invalidKind x, ?_⟩
      have hcontent : (t.push (.text text)).2.content? x = some n.content := by
        rw [content?_push, if_neg hne]
        exact hx
      unfold checkPlace
      rw [hcontent]
      simp [hholds]
      rfl
    obtain ⟨e, hplace⟩ := hplace
    unfold append insertBefore
    simp only [bind_assoc, exec_get_bind, hplace, exec_liftM_error_bind]

theorem touches_setText (hx : x ∈ ids) (text : String) :
    Keeps (Touches ids) (setText x text) := by
  intro t h
  refine ⟨(keeps_setText x text t h).1, ?_⟩
  rcases hcontent : t.content? x with _ | content
  · have hmissing : exec (setText x text) t = (.error (.notFound x), t) := by
      unfold setText
      simp only [exec_get_bind, Option.map_eq_none_iff.1 hcontent, exec_throw]
    rw [hmissing]
    exact .refl ids t
  by_cases hholds : content.holdsChildren = true
  · obtain ⟨t', hrun, hset⟩ := exec_setText_holder h hcontent hholds text
    rw [hrun]
    exact .textSet h hset hx
  rcases htext : content.text? with _ | s
  · rw [exec_setText_childless h hcontent htext (by simpa using hholds)]
    split
    · exact .refl ids t
    · exact .push ids t text
  · obtain rfl : content = .text s := by
      cases content <;> simp_all [Content.text?]
    rw [exec_setText_text hcontent]
    exact .setContent hx hcontent (.text s text)

end Edit

end Dom

namespace Hook

variable {ids : List NodeId}

theorem ElementMethod.touches_apply (method : ElementMethod) {target : NodeId}
    (htarget : target ∈ ids) (arguments : List String) :
    Keeps (Touches ids) (method.apply target arguments) := by
  unfold ElementMethod.apply
  cases method with
  | setAttribute => exact Edit.touches_setAttribute htarget _ _
  | removeAttribute =>
    exact Keeps.bind (Edit.touches_removeAttribute htarget _) fun _ => Keeps.pure _
  | setText => exact Edit.touches_setText htarget _
  | addClass => exact Keeps.get_bind fun _ => Edit.touches_setAttribute htarget _ _
  | removeClass => exact Keeps.get_bind fun _ => Edit.touches_setAttribute htarget _ _

/-! ## Programs -/

/-- The nodes that hook code can name. -/
def Context.reach (context : Context σ) : List NodeId :=
  [context.root, context.template, context.trigger, context.container] ++ context.items.head?.toList

theorem Context.mem_reach {context : Context σ} {position : Nat} {target : NodeId}
    (h : context.arguments[position]?.bind Value.element? = some target) :
    target ∈ context.reach := by
  obtain ⟨value, hvalue, htarget⟩ := Option.bind_eq_some_iff.1 h
  have hmem := List.mem_of_getElem? hvalue
  cases value with
  | element id =>
    cases htarget
    unfold Context.arguments at hmem
    unfold Context.reach
    rcases hitem : context.items.head? with _ | item <;>
      rcases hevent : context.event with _ | event <;> simp_all
  | _ => cases htarget

/-- Nothing has happened outside but alerts and new lines in the log. -/
def Spoken (host : Host σ) : Outside σ → Outside σ → Prop :=
  Relation.ReflTransGen fun out out' =>
    (∃ message, out' = ((host.alert message).run out).2) ∨ ∃ line, out' = out.write line

/-- From one stage to the next, some nodes of the tree have been touched, and nothing but alerts and
    log lines has happened outside. -/
def Stage.Touches (ids : List NodeId) (host : Host σ) (before after : Stage σ) : Prop :=
  Tree.Touches ids before.tree after.tree ∧ Spoken host before.outside after.outside

instance {host : Host σ} : IsPreorder (Stage σ) (Stage.Touches ids host) where
  refl stage := ⟨refl_of (Tree.Touches ids) stage.tree, .refl⟩
  trans _ _ _ := fun h h' => ⟨trans_of (Tree.Touches ids) h.1 h'.1, h.2.trans h'.2⟩

/-- A call of anything but a callback. -/
theorem Callee.touches_call {callee : Callee} (hcallee : ∀ name, callee ≠ .callback name)
    (context : Context σ) (callbacks : Callbacks σ) (parameters : List String)
    (values : List Value) :
    Keeps (Stage.Touches context.reach context.host)
      (callee.call ⟨context, callbacks, context.arguments⟩ parameters values) := by
  cases callee with
  | callback name => exact absurd rfl (hcallee name)
  | alert =>
    intro stage
    exact ⟨refl_of (Tree.Touches context.reach) stage.tree, .single (.inl ⟨_, rfl⟩)⟩
  | console level =>
    intro stage
    exact ⟨refl_of (Tree.Touches context.reach) stage.tree, .single (.inr ⟨_, rfl⟩)⟩
  | method receiver action =>
    simp only [Callee.call]
    split
    · exact Keeps.throw _
    · next target htarget =>
      intro stage
      exact ⟨action.touches_apply (Context.mem_reach htarget) _ stage.tree, .refl⟩

theorem Program.touches_run (program : Program)
    (hcallees : ∀ s ∈ program.statements, ∀ name, s.callee ≠ .callback name) (context : Context σ)
    (callbacks : Callbacks σ) :
    Keeps (Stage.Touches context.reach context.host)
      (program.run ⟨context, callbacks, context.arguments⟩) :=
  program.keeps_run fun s hs values =>
    Callee.touches_call (hcallees s hs) context callbacks program.parameters values

/-- However far hook code without callbacks gets: of the tree it touches the root, the template, the
    trigger, the container and the first item, and nothing of the page changes besides the tree but
    what alerts and the log change outside. -/
theorem Program.frame_run (program : Program)
    (hcallees : ∀ s ∈ program.statements, ∀ name, s.callee ≠ .callback name) (context : Context σ)
    (callbacks : Callbacks σ) (desk : Desk σ) (hwf : desk.stage.tree.WellFormed) :
    let desk' :=
      (exec (Flow.act (program.run ⟨context, callbacks, context.arguments⟩)) desk).2
    desk'.stage.tree.WellFormed ∧ Touched context.reach desk.stage.tree desk'.stage.tree ∧
      desk'.scope = desk.scope ∧ desk'.listeners = desk.listeners ∧
      Spoken context.host desk.stage.outside desk'.stage.outside := by
  intro desk'
  obtain ⟨htree, houtside⟩ := program.touches_run hcallees context callbacks desk.stage
  obtain ⟨hwf', htouched⟩ := htree hwf
  exact ⟨hwf', htouched, rfl, rfl, houtside⟩

/-- The code takes the place of what the container held, and fails at the first item, which there is
    none of. The text that was in the container stays loose in the arena. -/
theorem frame_run_list :
    let program : Program := ⟨Vocabulary.parameters,
      [⟨.method 4 .setText, [⟨.text "new", []⟩]⟩, ⟨.method 1 .addClass, [⟨.text "full", []⟩]⟩,
        ⟨.method 5 .setText, [⟨.text "never", []⟩]⟩, ⟨.alert, [⟨.text "never", []⟩]⟩]⟩
    let context : Context Unit :=
      ⟨.auto, 0, .slot 1, .slot 9, .slot 9, .slot 2, [], none⟩
    let tree := (Markup.documentOf "about:blank"
      [.element "div" [] [] [.element "ul" [] [] [.text "old"]]]).tree
    let desk : Desk Unit := ⟨{ number := 0, root := .slot 1 }, ⟨tree, { state := () }⟩, {}⟩
    let desk' := (exec (Flow.act (program.run ⟨context, {}, context.arguments⟩)) desk).2
    let code :=
      "crateEl.setText('new'); rootEl.addClass('full'); child.setText('never'); alert('never')"
    compile code Vocabulary.parameters = .ok program ∧
      tree.WellFormed ∧ Touched context.reach tree desk'.stage.tree ∧
      desk'.stage.tree.children (.slot 2) = [.slot 4] ∧
      desk'.stage.tree.parent? (.slot 3) = none ∧ tree.parent? (.slot 3) = some (.slot 2) ∧
      desk'.stage.tree.attribute? (.slot 1) "class" = some "full" ∧
      desk'.stage.outside.log = #[] := by
  intro program context tree desk desk' code
  have hwf : tree.WellFormed :=
    (Markup.edited_documentOf _ _).wellFormed wellFormed_empty
  have hcallees : ∀ s ∈ program.statements, ∀ name, s.callee ≠ .callback name := by
    simp [program]
  obtain ⟨-, htouched, -⟩ := program.frame_run hcallees context {} desk hwf
  refine ⟨by decide +kernel, hwf, htouched, ?_⟩
  decide +kernel

end Hook

end Repeater
