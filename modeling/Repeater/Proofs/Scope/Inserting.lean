/-
  Repeater/Proofs/Scope/Inserting.lean
  ====================================
  **Additions with hooks that leave the tree alone.**

  Then an addition has one of three ends (`StillHooks.exec_addItem`). It fails before the draft is
  in the container: the tree has got new nodes, and nothing else has changed. It fails after that:
  the elements of the draft are taken out again, and only they (`TakenOut`), so that texts and
  comments of the template stay behind. Or it succeeds, and the draft is last in the container
  (`Inserted`).
-/
import Repeater.Proofs.Scope.Adding

namespace Repeater.Scope

open Dom Hook Stamp Tree

variable {σ : Type} {equipment : Equipment σ} {parts : Parts} {identifier : String} {event : Event}
  {desk desk' : Desk σ} {t t₁ t₂ t' : Tree} {counter : Nat} {f x y : NodeId}

/-- The registered hooks of a scope and the hook code on an element leave the tree alone. -/
structure StillHooks (equipment : Equipment σ) (scope : Scope σ) (t : Tree) (carrier : NodeId) :
    Prop where
  routines : scope.routines.Within Eq
  code : ∀ phase program, compileHook t carrier phase = .ok (some program) →
    program.Within Eq equipment.callbacks

/-- Whether no hook is registered for a scope and none is written on an element. -/
def unhooked (scope : Scope σ) (t : Tree) (carrier : NodeId) : Bool :=
  (Phase.all.all fun phase => (scope.routines.on phase).isNone) &&
    Phase.all.all fun phase => decide (compileHook t carrier phase = .ok none)

theorem StillHooks.of_unhooked {scope : Scope σ} {carrier : NodeId}
    (h : unhooked scope t carrier = true) : StillHooks equipment scope t carrier := by
  obtain ⟨hroutines, hcode⟩ := (Bool.and_eq_true _ _).mp h
  refine ⟨Routines.within_of_none hroutines, ?_⟩
  intro phase program hprogram
  have hphase : phase ∈ Phase.all := by cases phase <;> decide
  have hnone := List.all_eq_true.1 hcode phase hphase
  simp [hprogram] at hnone

/-! ## Up to the insertion -/

/-- Everything that adding an item does before the hooks after the addition; gives their code and
    the items. -/
def insertItem (equipment : Equipment σ) (parts : Parts) (identifier : String) (event : Event) :
    Flow σ (Option Program × List NodeId) := do
  let t ← Flow.tree
  let before ← MonadExcept.ofExcept (compileHook t parts.trigger .preAdd)
  let after ← MonadExcept.ofExcept (compileHook t parts.trigger .postAdd)
  let fragment ← makeDraft parts identifier
  let items ← insertDraft equipment parts event before fragment
  return (after, items)

theorem addItem_eq_insertItem (equipment : Equipment σ) (parts : Parts) (identifier : String)
    (event : Event) : addItem equipment parts identifier event = (do
      let (after, items) ← insertItem equipment parts identifier event
      settle equipment parts event after items) := by
  rw [addItem_eq]
  unfold insertItem
  simp only [bind_assoc, pure_bind]

/-- A draft goes into a container that was there before, or is refused as a whole. -/
theorem exec_append_drafted (h : t.WellFormed)
    (hdrafted : Drafted t parts.template identifier counter f t₁)
    (hcontainer : t.Has parts.container) :
    (∃ e, exec (Edit.append parts.container f) t₁ = (.error e, t₁)) ∨
      ∃ t₂, exec (Edit.append parts.container f) t₁ = (.ok f, t₂) ∧
        t₁.Spliced parts.container f none t₂ := by
  rcases hplace : t₁.checkPlace parts.container f none with e | content
  · left
    refine ⟨e, ?_⟩
    unfold Edit.append Edit.insertBefore
    simp only [exec_get_bind, hplace, exec_liftM_error_bind]
  · right
    have hallows := checkPlace_eq_ok.1 hplace
    obtain rfl : content = .fragment :=
      Option.some.inj (hallows.child.symm.trans hdrafted.fragment)
    exact exec_insert_new h hdrafted.wellFormed hdrafted.extends_old hcontainer hdrafted.new hallows

/-- The tree after a draft has been put last into the container. -/
def Inserted (t : Tree) (parts : Parts) (identifier : String) (counter : Nat) (t₁ : Tree)
    (f : NodeId) (t' : Tree) : Prop :=
  Drafted t parts.template identifier counter f t₁ ∧ t₁.Spliced parts.container f none t'

/-- The tree after the elements of an inserted draft have been taken out again. -/
def TakenOut (t : Tree) (parts : Parts) (identifier : String) (counter : Nat) (t₁ : Tree)
    (f : NodeId) (t' : Tree) : Prop :=
  ∃ t₂, Inserted t parts identifier counter t₁ f t₂ ∧ t₂.Detached (t₁.elementChildren f) t'

/-- The hooks before the addition or the container may refuse the draft; else it goes in. -/
theorem exec_insertDraft_still (desk : Desk σ) (h : t.WellFormed)
    (hdrafted : Drafted t parts.template identifier counter f desk.stage.tree)
    (hcontainer : t.Has parts.container) (hroutines : desk.scope.routines.Within Eq)
    (before : Option Program) (event : Event)
    (hcode : ∀ program, before = some program → program.Within Eq equipment.callbacks) :
    ∃ result desk', exec (insertDraft equipment parts event before f) desk = (result, desk') ∧
      desk'.scope = desk.scope ∧ desk'.listeners = desk.listeners ∧
      ((∃ e, result = .error e) ∧ desk'.stage.tree = desk.stage.tree ∨
        result = .ok (desk.stage.tree.elementChildren f) ∧
          desk.stage.tree.Spliced parts.container f none desk'.stage.tree) := by
  unfold insertDraft
  rw [Flow.exec_tree_bind]
  have hhooks := staged_runHooks desk .preAdd before
    ⟨parts, desk.stage.tree.elementChildren f, event⟩ hcode hroutines
  rcases hrun : exec (runHooks equipment .preAdd before
    ⟨parts, desk.stage.tree.elementChildren f, event⟩) desk with ⟨e | _, desk₁⟩
  all_goals rw [hrun] at hhooks
  · exact ⟨_, desk₁, exec_bind_error hrun, hhooks.scope, hhooks.listeners,
      .inl ⟨⟨e, rfl⟩, hhooks.tree.symm⟩⟩
  rw [exec_bind_ok hrun]
  have hedit := Flow.exec_edit (Edit.append parts.container f) desk₁
  rw [← hhooks.tree] at hedit
  rcases exec_append_drafted h hdrafted hcontainer with ⟨e, happend⟩ | ⟨t₂, happend, hspliced⟩
  · rw [happend] at hedit
    exact ⟨_, _, exec_bind_error hedit, hhooks.scope, hhooks.listeners, .inl ⟨⟨_, rfl⟩, rfl⟩⟩
  · rw [happend] at hedit
    exact ⟨_, _, exec_bind_ok hedit, hhooks.scope, hhooks.listeners, .inr ⟨rfl, hspliced⟩⟩

theorem StillHooks.exec_insertItem (desk : Desk σ)
    (hstill : StillHooks equipment desk.scope desk.stage.tree parts.trigger)
    (h : desk.stage.tree.WellFormed) (hcontainer : desk.stage.tree.Has parts.container)
    (identifier : String) (event : Event) :
    ∃ result desk', exec (insertItem equipment parts identifier event) desk = (result, desk') ∧
      desk'.scope = desk.scope ∧ desk'.listeners = desk.listeners ∧
      ((∃ e, result = .error e) ∧ desk'.stage.tree.WellFormed ∧
          desk.stage.tree.Extends desk'.stage.tree ∨
        ∃ after t₁ f, result = .ok (after, t₁.elementChildren f) ∧
          compileHook desk.stage.tree parts.trigger .postAdd = .ok after ∧
          Inserted desk.stage.tree parts identifier desk.scope.counter t₁ f desk'.stage.tree) := by
  unfold insertItem
  rw [Flow.exec_tree_bind]
  rcases hbefore : compileHook desk.stage.tree parts.trigger .preAdd with e | before
  · exact ⟨_, desk, exec_bind_error (exec_ofExcept _ _), rfl, rfl, .inl ⟨⟨e, rfl⟩, h, .refl _⟩⟩
  rw [exec_bind_ok (exec_ofExcept _ _)]
  rcases compileHook desk.stage.tree parts.trigger .postAdd with e | after
  · exact ⟨_, desk, exec_bind_error (exec_ofExcept _ _), rfl, rfl, .inl ⟨⟨e, rfl⟩, h, .refl _⟩⟩
  rw [exec_bind_ok (exec_ofExcept _ _)]
  obtain ⟨result, t₁, hrun₁, h₁, hext₁, hdrafted⟩ := exec_makeDraft h parts identifier
  cases result with
  | error e =>
    exact ⟨_, _, exec_bind_error hrun₁, rfl, rfl, .inl ⟨⟨e, rfl⟩, h₁, hext₁⟩⟩
  | ok f =>
    have hdrafted := hdrafted f rfl
    obtain ⟨result, desk₂, hrun₂, hscope, hlisteners, hend⟩ :=
      exec_insertDraft_still (desk.withTree t₁) h hdrafted hcontainer hstill.routines before event
        fun program hprogram => hstill.code .preAdd program
          (hbefore.trans (congrArg _ hprogram))
    rw [exec_bind_ok hrun₁]
    rcases hend with ⟨⟨e, rfl⟩, htree⟩ | ⟨rfl, hspliced⟩
    · refine ⟨_, desk₂, exec_bind_error hrun₂, hscope, hlisteners, .inl ⟨⟨e, rfl⟩, ?_⟩⟩
      rw [htree]
      exact ⟨h₁, hext₁⟩
    · exact ⟨_, desk₂, exec_bind_ok hrun₂, hscope, hlisteners,
        .inr ⟨after, t₁, f, rfl, rfl, hdrafted, hspliced⟩⟩

/-! ## The end of an addition -/

theorem exec_takeOut (items : List NodeId) (failure : Error) (desk : Desk σ)
    (hitems : ∀ item ∈ items, desk.stage.tree.Has item) :
    exec (takeOut items failure) desk =
      (.error failure, desk.withTree (desk.stage.tree.detachAll items)) := by
  have hloop : exec (items.forM fun item => discard (Flow.edit (Edit.remove item)) : Flow σ Unit)
      desk = (.ok ⟨⟩, desk.withTree (desk.stage.tree.detachAll items)) := by
    induction items generalizing desk with
    | nil => rfl
    | cons item rest ih =>
      have hone : exec (discard (Flow.edit (Edit.remove item)) : Flow σ Unit) desk =
          (.ok ⟨⟩, desk.withTree (desk.stage.tree.detach item)) := by
        rw [exec_discard, Flow.exec_edit_ok (Edit.exec_remove (hitems item (by simp)))]
        rfl
      rw [exec_forM_cons, exec_bind_ok hone]
      apply ih
      intro other hother
      exact (has_detach desk.stage.tree item other).2 (hitems other (by simp [hother]))
  unfold takeOut
  rw [exec_bind_ok hloop, exec_throw]

/-- The hooks after the addition decide whether the items are taken out again or counted. -/
theorem exec_settle_still (desk : Desk σ) (parts : Parts) (event : Event)
    (after : Option Program) (items : List NodeId) (hroutines : desk.scope.routines.Within Eq)
    (hcode : ∀ program, after = some program → program.Within Eq equipment.callbacks)
    (hitems : ∀ item ∈ items, desk.stage.tree.Has item) :
    ∃ result desk', exec (settle equipment parts event after items) desk = (result, desk') ∧
      ((∃ e, result = .error e) ∧ desk'.scope = desk.scope ∧ desk'.listeners = desk.listeners ∧
          desk'.stage.tree = desk.stage.tree.detachAll items ∨
        result = .ok ⟨⟩ ∧ desk'.stage.tree = desk.stage.tree ∧ Counted equipment items desk desk') := by
  have hhooks := staged_runHooks desk .postAdd after ⟨parts, items, event⟩ hcode hroutines
  unfold settle
  rcases hrun : exec (runHooks equipment .postAdd after ⟨parts, items, event⟩) desk
    with ⟨failure | _, desk₁⟩
  all_goals rw [hrun] at hhooks
  · have htry : exec (tryCatch (runHooks equipment .postAdd after ⟨parts, items, event⟩)
        (takeOut items)) desk =
          (.error failure, desk₁.withTree (desk₁.stage.tree.detachAll items)) := by
      rw [exec_tryCatch, hrun]
      exact exec_takeOut items failure desk₁ (hhooks.tree ▸ hitems)
    refine ⟨_, _, exec_bind_error htry, .inl ⟨⟨failure, rfl⟩, hhooks.scope, hhooks.listeners, ?_⟩⟩
    rw [hhooks.tree]
    rfl
  · have htry : exec (tryCatch (runHooks equipment .postAdd after ⟨parts, items, event⟩)
        (takeOut items)) desk = (.ok ⟨⟩, desk₁) := by
      rw [exec_tryCatch, hrun]
    obtain ⟨desk₂, hrun₂, hstage, hcounted⟩ := exec_count equipment items desk₁
    refine ⟨_, desk₂, by rw [exec_bind_ok htry, hrun₂], .inr ⟨rfl, ?_, ?_, ?_⟩⟩
    · rw [hstage, hhooks.tree]
    · rw [hcounted.scope, hhooks.scope]
    · rw [← hhooks.listeners, ← hhooks.scope]
      exact hcounted.listeners

/-- The three ends of an addition. -/
theorem StillHooks.exec_addItem (desk : Desk σ)
    (hstill : StillHooks equipment desk.scope desk.stage.tree parts.trigger)
    (h : desk.stage.tree.WellFormed) (hcontainer : desk.stage.tree.Has parts.container)
    (identifier : String) (event : Event) :
    ∃ result desk', exec (addItem equipment parts identifier event) desk = (result, desk') ∧
      ((∃ e, result = .error e) ∧ desk'.scope = desk.scope ∧ desk'.listeners = desk.listeners ∧
          ((∃ e, (exec (insertItem equipment parts identifier event) desk).1 = .error e) ∧
              desk'.stage.tree.WellFormed ∧ desk.stage.tree.Extends desk'.stage.tree ∨
            (∃ found, (exec (insertItem equipment parts identifier event) desk).1 = .ok found) ∧
              ∃ t₁ f, TakenOut desk.stage.tree parts identifier desk.scope.counter t₁ f
                desk'.stage.tree) ∨
        result = .ok ⟨⟩ ∧ ∃ t₁ f, Inserted desk.stage.tree parts identifier desk.scope.counter t₁ f
          desk'.stage.tree ∧ Counted equipment (t₁.elementChildren f) desk desk') := by
  rw [addItem_eq_insertItem]
  obtain ⟨result, desk₁, hrun₁, hscope, hlisteners, hend⟩ :=
    hstill.exec_insertItem desk h hcontainer identifier event
  rw [hrun₁]
  rcases hend with ⟨⟨e, rfl⟩, hwf, hext⟩ | ⟨after, t₁, f, rfl, hafter, hinserted⟩
  · exact ⟨_, desk₁, exec_bind_error hrun₁,
      .inl ⟨⟨e, rfl⟩, hscope, hlisteners, .inl ⟨⟨e, rfl⟩, hwf, hext⟩⟩⟩
  rw [exec_bind_ok hrun₁]
  obtain ⟨hdrafted, hspliced⟩ := hinserted
  have hitems : ∀ item ∈ t₁.elementChildren f, desk₁.stage.tree.Has item := by
    intro item hitem
    have hhas := (new_of_mem_elementChildren h hdrafted.wellFormed hdrafted.extends_old hdrafted.new
      hitem).2
    obtain ⟨content, hcontent⟩ := has_iff_content.1 hhas
    exact has_of_content ((hspliced.content item).trans hcontent)
  obtain ⟨result, desk₂, hrun₂, hend⟩ := exec_settle_still desk₁ parts event after
    (t₁.elementChildren f) (hscope ▸ hstill.routines)
    (fun program hprogram => hstill.code .postAdd program (hafter.trans (congrArg _ hprogram)))
    hitems
  refine ⟨result, desk₂, hrun₂, ?_⟩
  rcases hend with ⟨⟨e, rfl⟩, hscope₂, hlisteners₂, htree⟩ | ⟨rfl, htree, hcounted⟩
  · refine .inl ⟨⟨e, rfl⟩, hscope₂.trans hscope, hlisteners₂.trans hlisteners,
      .inr ⟨⟨_, rfl⟩, t₁, f, desk₁.stage.tree, ⟨hdrafted, hspliced⟩, ?_⟩⟩
    rw [htree]
    exact detached_detachAll hspliced.wellFormed _
  · refine .inr ⟨rfl, t₁, f, ⟨hdrafted, htree ▸ hspliced⟩, ?_, ?_⟩
    · rw [hcounted.scope, hscope]
    · rw [← hlisteners, ← hscope]
      exact hcounted.listeners

theorem exec_handleAdd (hidle : desk.scope.activity = .idle)
    (hresolved : desk.scope.resolved = .ok (parts, identifier)) (event : Event) :
    exec (handleAdd equipment event) desk =
      ((exec (addItem equipment parts identifier event) (desk.doing .adding)).1,
        (exec (addItem equipment parts identifier event) (desk.doing .adding)).2.doing .idle) := by
  unfold handleAdd
  rw [exec_get_bind, hresolved, exec_bind_ok (exec_ofExcept _ _)]
  exact Flow.exec_during hidle .adding _

/-! ## What stays as it was -/

/-- Some nodes are now last in `p`; no other node that was there before has changed. -/
structure GotLast (t : Tree) (p : NodeId) (kids : List NodeId) (t' : Tree) : Prop where
  wellFormed : t'.WellFormed
  old : ∀ x, t.Has x → x ≠ p → t'.get? x = t.get? x
  content : t'.content? p = t.content? p
  parent : t'.parent? p = t.parent? p
  children : t'.children p = t.children p ++ kids

theorem Inserted.gotLast (h : t.WellFormed)
    (hinserted : Inserted t parts identifier counter t₁ f t') (hcontainer : t.Has parts.container) :
    GotLast t parts.container (t₁.children f) t' := by
  obtain ⟨hdrafted, hspliced⟩ := hinserted
  have hext := hdrafted.extends_old
  -- the children of the draft are new, so no node that was there before gets another parent
  have hparent : ∀ x, t.Has x → t'.parent? x = t.parent? x := by
    intro x hx
    rw [hspliced.parent, if_neg, hext.parent? hx]
    intro hkid
    exact hext.new_child h (hdrafted.wellFormed.parent_of_child hkid) hdrafted.new hx
  have hcontent : ∀ x, t.Has x → t'.content? x = t.content? x := by
    intro x hx
    rw [hspliced.content, hext.content? hx]
  refine ⟨hspliced.wellFormed, ?_, hcontent _ hcontainer, hparent _ hcontainer, ?_⟩
  · intro x hx hne
    have hhas : t'.Has x := by
      obtain ⟨content, hx⟩ := has_iff_content.1 hx
      exact has_of_content ((hcontent x (has_of_content hx)).trans hx)
    apply get?_eq_of_shown (iff_of_true hx hhas) (hcontent x hx) (hparent x hx)
    rw [hspliced.children_other x hne, hext.children hx]
    rintro rfl
    exact hdrafted.new hx
  · rw [hspliced.children_place, hext.children hcontainer]
    rfl

theorem TakenOut.gotLast (h : t.WellFormed)
    (htaken : TakenOut t parts identifier counter t₁ f t') (hcontainer : t.Has parts.container) :
    GotLast t parts.container ((t₁.children f).filter (! t₁.isElement ·)) t' := by
  obtain ⟨t₂, hinserted, hgone⟩ := htaken
  have hlast := hinserted.gotLast h hcontainer
  have hnew : ∀ x, t.Has x → x ∉ t₁.elementChildren f := by
    intro x hx hitem
    exact (new_of_mem_elementChildren h hinserted.1.wellFormed hinserted.1.extends_old
      hinserted.1.new hitem).1 hx
  have hparent : ∀ x, t.Has x → t'.parent? x = t₂.parent? x := by
    intro x hx
    rw [hgone.parent, if_neg (hnew x hx)]
  have hkids : ∀ x, t.Has x → (t.children x).filter (· ∉ t₁.elementChildren f) = t.children x := by
    intro x _
    apply List.filter_eq_self.2
    intro y hy
    simpa using hnew y (h.has_of_child hy)
  refine ⟨hgone.wellFormed, ?_, ?_, ?_, ?_⟩
  · intro x hx hne
    have hold := hlast.old x hx hne
    have hhas : t₂.Has x := by
      unfold Has
      rwa [hold]
    have hhas' : t'.Has x := by
      obtain ⟨content, hx⟩ := has_iff_content.1 hhas
      exact has_of_content ((hgone.content x).trans hx)
    rw [← hold]
    apply get?_eq_of_shown (iff_of_true hhas hhas') (hgone.content x) (hparent x hx)
    have hsame : t₂.children x = t.children x := by
      unfold Tree.children
      rw [hold]
    rw [hgone.children, hsame, hkids x hx]
  · rw [hgone.content, hlast.content]
  · rw [hparent _ hcontainer, hlast.parent]
  · rw [hgone.children, hlast.children, List.filter_append, hkids _ hcontainer]
    congr 1
    apply List.filter_congr
    intro x hx
    unfold elementChildren
    rw [Bool.eq_iff_iff]
    simp [hx]

/-- What a template holds beside elements. -/
def looseContents (t : Tree) (template : NodeId) : List NodeId :=
  ((t.contents? template).elim [] t.children).filter (! t.isElement ·)

/-- Pairs that agree on a property may be reduced to those that have it. -/
theorem forall₂_filter {α β : Type} {R : α → β → Prop} {p : α → Bool} {q : β → Bool} {l : List α}
    {l' : List β} (h : List.Forall₂ R l l') (hsame : ∀ a b, R a b → q b = p a) :
    List.Forall₂ (fun a b => p a = true ∧ b ∈ l' ∧ R a b) (l.filter p) (l'.filter q) := by
  induction h with
  | nil => exact .nil
  | @cons a b l l' hab _ ih =>
    have hrest : List.Forall₂ (fun a' b' => p a' = true ∧ b' ∈ b :: l' ∧ R a' b') (l.filter p)
        (l'.filter q) := by
      refine ih.imp ?_
      rintro a' b' ⟨ha', hb', hab'⟩
      exact ⟨ha', List.mem_cons_of_mem b hb', hab'⟩
    rw [List.filter_cons, List.filter_cons, hsame a b hab]
    split
    · next ha => exact .cons ⟨ha, List.mem_cons_self, hab⟩ hrest
    · exact hrest

/-- What is left of a draft without its elements are new copies of what the template holds beside
    elements. -/
theorem loose_of_drafted (h : t.WellFormed)
    (hdrafted : Drafted t parts.template identifier counter f t₁) :
    List.Forall₂ (fun s c => ¬ t.Has c ∧ t₁.content? c = t.content? s)
      (looseContents t parts.template) ((t₁.children f).filter (! t₁.isElement ·)) := by
  obtain ⟨g, hcontents, hkids⟩ := hdrafted.kids
  have hnew : ∀ c ∈ t₁.children f, ¬ t.Has c := fun c hc =>
    hdrafted.extends_old.new_child h (hdrafted.wellFormed.parent_of_child hc) hdrafted.new
  unfold looseContents
  rw [hcontents, Option.elim_some]
  refine (forall₂_filter hkids fun s c hkid => by rw [hkid.1]).imp ?_
  rintro s c ⟨hloose, hc, -, hcontent, -⟩
  exact ⟨hnew c hc, hcontent (by simpa using hloose)⟩

end Repeater.Scope
