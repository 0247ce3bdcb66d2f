/-
  Repeater/Proofs/Dom/Templates.lean
  ==================================
  **Templates and their contents.**

  A template is created with contents, and its copy gets contents of its own unless the copying
  fails half-way. In a tree where no template holds itself no copying fails: the nodes copied nest
  less deep than the arena has nodes (`exec_copy_grounded`). So as long as no template is made to
  hold itself, no edit leaves a template without contents (`Operation.furnished_apply`).
-/
import Repeater.Proofs.Dom.Steps

namespace Repeater.Dom

open Tree

variable {α : Type} {t t' u : Tree} {c p s x y : NodeId} {depth : Nat} {deep : Bool}

namespace Tree

/-- Whether the node is a template without contents. -/
def Lacks (t : Tree) (x : NodeId) : Prop :=
  ∃ e, t.content? x = some (.element e) ∧ e.isTemplate ∧ e.contents = none

/-- Whether every template has contents. -/
def Furnished (t : Tree) : Prop := ∀ x, ¬ t.Lacks x

/-- Whether no template lacks contents in the second tree that does not in the first. -/
def Supplies (t t' : Tree) : Prop := ∀ x, t'.Lacks x → t.Lacks x

instance : IsPreorder Tree Supplies where
  refl _ := fun _ h => h
  trans _ _ _ := fun h h' x hx => h x (h' x hx)

theorem Supplies.furnished (h : t.Supplies t') (ht : t.Furnished) : t'.Furnished :=
  fun x hx => ht x (h x hx)

theorem supplies_of_content (h : ∀ x, t'.content? x = t.content? x) : t.Supplies t' := by
  rintro x ⟨e, he, hlacks⟩
  exact ⟨e, (h x).symm.trans he, hlacks⟩

theorem supplies_push {content : Content}
    (hcontent : ∀ e, content = .element e → e.isTemplate → e.contents ≠ none) :
    t.Supplies (t.push content).2 := by
  rintro x ⟨e, he, htemplate, hnone⟩
  rw [content?_push] at he
  split at he
  · exact absurd hnone (hcontent e (Option.some.inj he) htemplate)
  · exact ⟨e, he, htemplate, hnone⟩

theorem supplies_setContent {content : Content}
    (hcontent : ∀ e, content = .element e → e.isTemplate → e.contents = none → t.Lacks x) :
    t.Supplies (t.setContent x content) := by
  rintro y ⟨e, he, htemplate, hnone⟩
  rw [content?_setContent] at he
  split at he
  · next hy => exact hy.1 ▸ hcontent e (Option.some.inj he) htemplate hnone
  · exact ⟨e, he, htemplate, hnone⟩

end Tree

/-! ## Copies that come through -/

namespace Edit

/-- The program succeeds, and if all templates of `u` have contents, it makes none without. -/
def ComesThrough (u : Tree) (program : Edit α) (t : Tree) : Prop :=
  ∃ a t', exec program t = (.ok a, t') ∧ (u.Furnished → t.Supplies t')

/-- A new node of the content of a template comes through when the copy of the contents does. -/
theorem comesThrough_copyContent (deep : Bool) {content : Content} (h : t.WellFormed)
    (hext : u.Extends t) (hs : u.content? s = some content)
    (hrec : ∀ f, u.contents? s = some f → ∀ {t}, t.WellFormed → u.Extends t →
      ComesThrough u (copyWithin depth f true) t) :
    ComesThrough u (copyContent depth deep content) t := by
  rcases hcontents : u.contents? s with _ | f
  · have hnone : ∀ e, content = .element e → e.contents = none := by
      rintro e rfl
      refine Option.eq_none_iff_forall_ne_some.2 fun f hf => ?_
      simp [contents?_eq_some.2 ⟨e, hs, hf⟩] at hcontents
    refine ⟨.slot t.size, (t.push content).2, ?_, fun hu => supplies_push fun e he htemplate => ?_⟩
    · cases content with
      | element e =>
        rcases e with ⟨tag, attributes, contents⟩
        obtain rfl : contents = none := hnone _ rfl
        rfl
      | _ => rfl
    · exact absurd ⟨e, hs.trans (congrArg some he), htemplate, hnone e he⟩ (hu s)
  · obtain ⟨e, he, hf⟩ := contents?_eq_some.1 hcontents
    obtain rfl : content = .element e := by
      rw [hs, Option.some.injEq] at he
      exact he
    have hst : t.content? s = some (.element e) := (hext.content? (has_of_content hs)).trans hs
    have hwf := wellFormed_push_bare h hst
    have hpush : t.Extends (t.push (.element { e with contents := none })).2 :=
      extends_push (by rintro _ ⟨⟩; rfl)
    -- the bare copy is the only template that lacks contents until it gets its own
    have hbare : ∀ {v : Tree} (g : NodeId),
        (t.push (.element { e with contents := none })).2.Supplies v →
        t.Supplies (v.setContent (.slot t.size) (.element { e with contents := some g })) := by
      rintro v g hv x ⟨e', he', htemplate, hnone⟩
      rw [content?_setContent] at he'
      split at he'
      · cases he'
        simp at hnone
      · next hx =>
        obtain ⟨e₁, he₁, hlacks⟩ := hv x ⟨e', he', htemplate, hnone⟩
        rw [content?_push] at he₁
        split at he₁
        · next hnew => exact absurd ⟨hnew, hnew ▸ has_of_content he'⟩ hx
        · exact ⟨e₁, he₁, hlacks⟩
    unfold copyContent ComesThrough
    rw [exec_bind_ok (exec_create _ t)]
    simp only [hf]
    cases deep with
    | true =>
      obtain ⟨g, v, hrun, hv⟩ := hrec f hcontents hwf (hext.trans hpush)
      refine ⟨.slot t.size, _, ?_, fun hu => hbare g (hv hu)⟩
      rw [if_pos rfl, exec_bind_ok hrun]
      rfl
    | false =>
      exact ⟨.slot t.size, _, rfl, fun _ => hbare _ (supplies_push (by simp))⟩

theorem comesThrough_copyKids (kids : List NodeId) (hu : u.WellFormed) (h : t.WellFormed)
    (hext : u.Extends t) (hc : ¬ u.Has c) (hcOld : t.Has c) (hparent : t.parent? c = none)
    (hkids : ∀ kid ∈ kids, u.Has kid ∧ u.content? kid ≠ some .fragment ∧
      ∃ holder, t.content? c = some holder ∧ holder.holdsChildren)
    (hrec : ∀ kid ∈ kids, ∀ {t}, t.WellFormed → u.Extends t →
      ComesThrough u (copyWithin depth kid true) t) :
    ComesThrough u (copyKids depth c kids) t := by
  unfold copyKids
  induction kids generalizing t with
  | nil => exact ⟨⟨⟩, t, rfl, fun _ => refl_of Supplies t⟩
  | cons kid rest ih =>
    obtain ⟨hkid, hkind, hholder⟩ := hkids kid (by simp)
    obtain ⟨d, t₁, hrun, hsupplies⟩ := hrec kid (by simp) h hext
    obtain ⟨_, _, hrun', hwf, hext₁, hcopied⟩ := copiesWell depth kid true h
    obtain ⟨rfl, rfl⟩ := Prod.mk.injEq .. ▸ hrun.symm.trans hrun'
    obtain ⟨content, hplace, hfragment, hnot⟩ :=
      allows_copied hext hext₁ hparent hholder hkid hkind (hcopied d rfl)
    -- one round of the loop: the copy of the child is appended, and it is allowed there
    have hround : exec (do
        let child ← copyWithin depth kid true
        let _ ← append c child) t = (.ok ⟨⟩, t₁.relocate c d none) := by
      rw [exec_bind_ok hrun]
      unfold append
      rw [exec_bind_ok (exec_insertBefore_node hwf hplace hfragment hnot)]
      rfl
    obtain ⟨_, _, hround', hwf₂, hext₂, happended⟩ :=
      exec_appendCopy (copiesWell depth) hu h hext hc hparent hholder hkid hkind
    obtain ⟨rfl, rfl⟩ := Prod.mk.injEq .. ▸ hround.symm.trans hround'
    have happended := happended rfl
    obtain ⟨content, hcontent⟩ := has_iff_content.1 hcOld
    -- after it, the copy of the holder is still a node without a parent that holds children
    obtain ⟨⟨⟩, t₃, hrest, hsupplies'⟩ := ih hwf₂ hext₂
      (has_of_content (happended.content.trans hcontent)) (happended.parent.trans hparent)
      (fun k hk => by
        rw [happended.content]
        exact hkids k (by simp [hk]))
      (fun k hk => hrec k (by simp [hk]))
    refine ⟨⟨⟩, t₃, ?_, fun hu => ?_⟩
    · rw [exec_forM_cons, exec_bind_ok hround, hrest]
    · have hmoved : t₁.Supplies (t₁.relocate c d none) :=
        supplies_of_content (content?_relocate t₁ c d none)
      exact trans_of Supplies (hsupplies hu) (trans_of Supplies hmoved (hsupplies' hu))

/-- What nests at most `depth` deep in the tree `u` is copied within that depth. -/
theorem comesThrough_copyWithin (hu : u.WellFormed) (h : t.WellFormed) (hext : u.Extends t)
    (hs : u.Has s) (hg : u.GroundedFrom s) (hdepth : u.spread s ≤ depth) (deep : Bool) :
    ComesThrough u (copyWithin depth s deep) t := by
  induction depth generalizing t s deep with
  | zero => exact absurd (spread_pos hs) (by omega)
  | succ depth ih =>
    -- what `s` encloses nests less deep than `s`, so one level less is enough for it
    have hinner : ∀ {y}, u.Encloses s y → ∀ {t}, t.WellFormed → u.Extends t →
        ComesThrough u (copyWithin depth y true) t := by
      intro y hy t ht hextt
      have hlt := spread_lt hu hg hy
      exact ih ht hextt (hu.has_enclosed hy) (hg.enclosed hy.atOrEncloses) (by omega) true
    obtain ⟨node, hnode⟩ := Option.isSome_iff_exists.1 hs
    have hcontent : u.content? s = some node.content := by simp [content?, hnode]
    have hcontent' := (hext.content? hs).trans hcontent
    have hkids : node.children = u.children s := by simp [children, hnode]
    obtain ⟨c, t₁, hrun, hsupplies⟩ := comesThrough_copyContent deep h hext hcontent
      fun f hf => hinner (encloses_of_contents hf)
    obtain ⟨_, _, hrun', hwf, hext₁, hbegun⟩ := exec_copyContent (copiesWell depth) deep h hcontent'
    obtain ⟨rfl, rfl⟩ := Prod.mk.injEq .. ▸ hrun.symm.trans hrun'
    have hbegun := hbegun c rfl
    have hbare := hbegun.bare
    rw [hext.content? hs] at hbare
    unfold ComesThrough
    rw [exec_copyWithin_succ, hext.old hs, hnode]
    dsimp only
    rw [exec_bind_ok hrun]
    cases deep with
    | false => exact ⟨c, t₁, rfl, hsupplies⟩
    | true =>
      obtain ⟨⟨⟩, t₂, hloop, hsupplies'⟩ := comesThrough_copyKids (u.children s) hu hwf
        (hext.trans hext₁) (fun hc => not_has_new t (hext.has (hbegun.new ▸ hc))) hbegun.has
        hbegun.parent (fun _ hkid => fits_below_copy hu hbare hkid)
        fun kid hkid => hinner (encloses_of_parent (hu.parent_of_child hkid))
      refine ⟨c, t₂, ?_, fun hfurnished =>
        trans_of Supplies (hsupplies hfurnished) (hsupplies' hfurnished)⟩
      rw [if_pos rfl, hkids, exec_bind_ok hloop]
      rfl

/-- Where no template holds itself, every node can be copied. -/
theorem exec_copy_grounded (h : t.WellFormed) (hg : t.GroundedFrom s) (hs : t.Has s)
    (deep : Bool) :
    ∃ c t', exec (copy s deep) t = (.ok c, t') ∧ (t.Furnished → t'.Furnished) := by
  obtain ⟨c, t', hrun, hsupplies⟩ :=
    comesThrough_copyWithin h h (.refl t) hs hg (spread_le_size t s) deep
  exact ⟨c, t', hrun, fun ht => (hsupplies ht).furnished ht⟩

theorem stepwise_supplies : Stepwise Supplies where
  withElement t tag := by
    unfold withElement
    dsimp only
    split
    · rintro x ⟨e, he, htemplate, hnone⟩
      rw [content?_setContent] at he
      split at he
      · cases he
        simp at hnone
      · next hx =>
        have hother : ((t.push (.element (Element.ofTag tag))).2.push .fragment).2.content? x =
            some (.element e) := he
        rw [content?_push] at hother
        split at hother
        · simp at hother
        · rw [content?_push] at hother
          split at hother
          · next hnew => exact absurd ⟨hnew, by simp⟩ hx
          · exact ⟨e, hother, htemplate, hnone⟩
    · next hother =>
      refine supplies_push ?_
      rintro _ ⟨⟩ htemplate
      exact absurd htemplate hother
  push t content hplain := supplies_push (by rintro e rfl; cases hplain)
  moved := supplies_of_content
  setElement := by
    intro t x e e' hx htag hcontents
    refine supplies_setContent ?_
    rintro _ ⟨⟩ htemplate hnone
    refine ⟨e, element?_eq_some.1 hx, ?_, hcontents ▸ hnone⟩
    simpa [Element.isTemplate, htag] using htemplate
  setText _ _ := supplies_setContent (by rintro _ ⟨⟩)

theorem furnished_copy (h : t.WellFormed) (hg : t.Grounded) (ht : t.Furnished) (x : NodeId)
    (deep : Bool) : (exec (copy x deep) t).2.Furnished := by
  by_cases hx : t.Has x
  · obtain ⟨c, t', hrun, hfurnished⟩ := exec_copy_grounded h (hg.groundedFrom x) hx deep
    rw [hrun]
    exact hfurnished ht
  · have hnone : t.get? x = none := by
      unfold Has at hx
      simpa using hx
    unfold copy
    rw [exec_get_bind]
    rcases hsize : t.size with _ | size
    · exact ht
    · rw [exec_copyWithin_succ, hnone]
      exact ht

end Edit

/-- As long as no template holds itself, no edit leaves a template without contents. -/
theorem Operation.furnished_apply (operation : Operation) (h : t.WellFormed) (hg : t.Grounded)
    (ht : t.Furnished) : (operation.apply t).Furnished := by
  by_cases hcopy : ∃ x deep, operation = .copy x deep
  · obtain ⟨x, deep, rfl⟩ := hcopy
    unfold apply run
    rw [exec_discard]
    exact Edit.furnished_copy h hg ht x deep
  · push Not at hcopy
    exact (Edit.stepwise_supplies.partwise.keeps_run hcopy t).furnished ht

end Repeater.Dom
