/-
  Repeater/Proofs/Stamp/SlotOrder.lean
  ====================================
  **The order in which slots are filled.**

  Where every name marks one slot at most, slots may stand in one another. Filling an outer slot
  takes the inner ones out of the tree, so that which slots are filled does depend on the order of
  the data. What is left below the root does not: of the slots that data asks for, exactly those
  with no such slot above them show their texts in the end (`lastText?_of_asked`), and a slot below
  one of these is gone, whether it was filled before or could not be found any more. Trees that two
  orders lead to therefore have one shape and are printed alike (`fillSlots_perm`).
-/
import Repeater.Proofs.Dom.Documents
import Repeater.Proofs.Markup.Printing
import Repeater.Proofs.Stamp.Slots

namespace Repeater.Stamp

open Dom Markup Tree

variable {t t' t₁ t₂ : Tree} {root x y : NodeId} {name text : String}
  {texts : List (NodeId × String)} {data data' : List (String × String)}

/-! ## Slots that are asked for -/

/-- Whether each name marks one slot at most at and below the root. -/
def OneSlotEach (t : Tree) (root : NodeId) : Prop :=
  ∀ name x y, t.AtOrAbove root x → t.AtOrAbove root y →
    t.attribute? x Directive.slot.name = some name →
    t.attribute? y Directive.slot.name = some name → x = y

/-- Whether a node is a slot that data has this text for. -/
def Asked (t : Tree) (root : NodeId) (data : List (String × String)) (x : NodeId) (text : String) :
    Prop :=
  t.AtOrAbove root x ∧ ∃ name, t.attribute? x Directive.slot.name = some name ∧ (name, text) ∈ data

theorem Asked.mono (h : Asked t root data x text) (hsub : data ⊆ data') :
    Asked t root data' x text := by
  obtain ⟨hroot, name, hname, hmem⟩ := h
  exact ⟨hroot, name, hname, hsub hmem⟩

theorem asked_perm (h : data.Perm data') : Asked t root data x text ↔ Asked t root data' x text :=
  ⟨fun hasked => hasked.mono h.subset, fun hasked => hasked.mono h.symm.subset⟩

/-- Whether no node above is a slot that data asks for. -/
def Uncovered (t : Tree) (root : NodeId) (data : List (String × String)) (x : NodeId) : Prop :=
  ∀ a s, t.Above a x → ¬ Asked t root data a s

theorem Uncovered.mono (h : Uncovered t root data' x) (hsub : data ⊆ data') : Uncovered t root data x :=
  fun a s ha hasked => h a s ha (hasked.mono hsub)

theorem mem_selectFrom_slot (h : t.WellFormed) :
    x ∈ t.selectFrom root (.attributeIs Directive.slot.name name) ↔
      t.AtOrAbove root x ∧ t.attribute? x Directive.slot.name = some name := by
  rw [mem_selectFrom h, satisfies_attributeIs]

theorem oneSlotEach_iff (h : t.WellFormed) : OneSlotEach t root ↔
    ((slotMarks t root).map fun x => t.attribute? x Directive.slot.name).Nodup := by
  have hmem : ∀ x, x ∈ slotMarks t root ↔
      t.AtOrAbove root x ∧ ∃ name, t.attribute? x Directive.slot.name = some name := by
    intro x
    rw [slotMarks, mem_selectFrom h, satisfies_hasAttribute, Option.isSome_iff_exists]
  have hnodup : (slotMarks t root).Nodup := nodup_selectFrom h root _
  rw [List.nodup_map_iff_inj_on hnodup]
  constructor
  · intro hone x hx y hy hxy
    obtain ⟨hroot, name, hname⟩ := (hmem x).1 hx
    exact hone name x y hroot ((hmem y).1 hy).1 hname (hxy ▸ hname)
  · exact fun hsame name x y hx hy hname hname' =>
      hsame x ((hmem x).2 ⟨hx, name, hname⟩) y ((hmem y).2 ⟨hy, name, hname'⟩)
        (hname.trans hname'.symm)

/-- The slot of a name is found unless a text has been written above it. -/
theorem openSlot?_eq_some (h : t.WellFormed) (hone : OneSlotEach t root) :
    openSlot? t root texts name = some x ↔ t.AtOrAbove root x ∧
      t.attribute? x Directive.slot.name = some name ∧ liesOpen t texts x = true := by
  unfold openSlot?
  constructor
  · intro hfound
    obtain ⟨hroot, hname⟩ := (mem_selectFrom_slot h).1 (List.mem_of_find?_eq_some hfound)
    exact ⟨hroot, hname, List.find?_some hfound⟩
  · rintro ⟨hroot, hname, hopen⟩
    have hmem := (mem_selectFrom_slot h).2 ⟨hroot, hname⟩
    obtain ⟨y, hfound⟩ := Option.isSome_iff_exists.1 (List.find?_isSome.2 ⟨x, hmem, hopen⟩)
    obtain ⟨hroot', hname'⟩ := (mem_selectFrom_slot h).1 (List.mem_of_find?_eq_some hfound)
    rw [hfound, hone name y x hroot' hroot hname' hname]

theorem fillings_concat (entry : String × String) : fillings t root texts (data ++ [entry]) =
    addFilling t root (fillings t root texts data) entry := by
  unfold fillings
  rw [List.foldl_append, List.foldl_cons, List.foldl_nil]

/-- Only what is asked for is written. -/
theorem asked_of_lastText? (h : t.WellFormed)
    (htext : lastText? (fillings t root [] data) x = some text) : Asked t root data x text := by
  induction data using List.reverseRecOn with
  | nil => cases htext
  | append_singleton data entry ih =>
    have hearlier : lastText? (fillings t root [] data) x = some text →
        Asked t root (data ++ [entry]) x text := fun hold => (ih hold).mono (by simp)
    rw [fillings_concat, addFilling] at htext
    split at htext
    · exact hearlier htext
    · next slot hslot =>
      rw [lastText?_concat] at htext
      split at htext
      · next hxs =>
        obtain ⟨hroot, hname⟩ := (mem_selectFrom_slot h).1 (mem_of_openSlot? hslot)
        subst hxs
        cases htext
        exact ⟨hroot, entry.1, hname, by simp⟩
      · exact hearlier htext

/-- A slot with none above it that is asked for shows the text it is asked for. -/
theorem lastText?_of_asked (h : t.WellFormed) (hone : OneSlotEach t root)
    (hkeys : (data.map (·.1)).Nodup) (hasked : Asked t root data x text)
    (hclear : Uncovered t root data x) :
    lastText? (fillings t root [] data) x = some text := by
  induction data using List.reverseRecOn with
  | nil =>
    obtain ⟨-, name, -, hmem⟩ := hasked
    cases hmem
  | append_singleton data entry ih =>
    obtain ⟨hroot, name, hname, hmem⟩ := hasked
    have hsub : data ⊆ data ++ [entry] := by simp
    rw [List.map_append, List.map_singleton, List.nodup_append] at hkeys
    obtain ⟨hkeys, -, hapart⟩ := hkeys
    rw [fillings_concat, addFilling]
    rcases List.mem_append.1 hmem with hmem | hmem
    · -- filled before, and the last entry has another name
      have htext := ih hkeys ⟨hroot, name, hname, hmem⟩ (hclear.mono hsub)
      split
      · exact htext
      · next slot hslot =>
        obtain ⟨-, hname'⟩ := (mem_selectFrom_slot h).1 (mem_of_openSlot? hslot)
        rw [lastText?_concat, if_neg, htext]
        rintro rfl
        rw [hname, Option.some.injEq] at hname'
        exact hapart name (List.mem_map.2 ⟨_, hmem, rfl⟩) entry.1 (by simp) hname'
    · -- filled now: it can be found, as nothing above it is asked for
      obtain rfl := List.mem_singleton.1 hmem
      have hopen : liesOpen t (fillings t root [] data) x = true := by
        refine (liesOpen_iff h).2 fun a ha => Option.eq_none_iff_forall_not_mem.2 fun s hs => ?_
        exact hclear a s ha ((asked_of_lastText? h hs).mono hsub)
      rw [(openSlot?_eq_some h hone).2 ⟨hroot, hname, hopen⟩]
      dsimp only
      rw [lastText?_concat, if_pos rfl]

theorem lastText?_eq_some_iff (h : t.WellFormed) (hone : OneSlotEach t root)
    (hkeys : (data.map (·.1)).Nodup) (hclear : Uncovered t root data x) :
    lastText? (fillings t root [] data) x = some text ↔ Asked t root data x text :=
  ⟨asked_of_lastText? h, fun hasked => lastText?_of_asked h hone hkeys hasked hclear⟩

/-- Where nothing above is asked for, the texts do not depend on the order of the data. -/
theorem lastText?_perm (h : t.WellFormed) (hone : OneSlotEach t root)
    (hkeys : (data.map (·.1)).Nodup) (hperm : data.Perm data') (hclear : Uncovered t root data x) :
    lastText? (fillings t root [] data') x = lastText? (fillings t root [] data) x := by
  have hkeys' : (data'.map (·.1)).Nodup := (hperm.map _).nodup_iff.1 hkeys
  have hclear' : Uncovered t root data' x := hclear.mono hperm.symm.subset
  refine Option.ext fun text => ?_
  rw [lastText?_eq_some_iff h hone hkeys' hclear', lastText?_eq_some_iff h hone hkeys hclear,
    asked_perm hperm]

theorem uncovered_root (h : t.WellFormed) : Uncovered t root data root :=
  fun _ _ ha hasked => h.not_above_of_atOrAbove hasked.1 ha

/-- Contents are not below the template that holds them. -/
theorem uncovered_contents (h : t.WellFormed) (hx : t.contents? y = some x) : Uncovered t root data x :=
  fun _ _ ha _ => not_above_of_parent_none (h.fragment_parent (h.contents_fragment hx)) ha

theorem Uncovered.child (hclear : Uncovered t root data x) (h : t.WellFormed) (hy : y ∈ t.children x)
    (hx : ∀ s, ¬ Asked t root data x s) : Uncovered t root data y := by
  intro a s ha
  obtain ⟨p, hp, hap⟩ := above_iff_parent.1 ha
  rw [h.parent_of_child hy, Option.some.injEq] at hp
  subst hp
  rcases atOrAbove_iff.1 hap with rfl | hap
  · exact hx s
  · exact hclear a s hap

/-! ## Two orders -/

/-- Pairs of nodes that look alike after two orders: what was there with no slot above it that is
    asked for, and texts that say the same. -/
inductive Matched (t : Tree) (root : NodeId) (data : List (String × String)) (t₁ t₂ : Tree) :
    NodeId → NodeId → Prop
  | old {x : NodeId} (hx : t.Has x) (hclear : Uncovered t root data x) : Matched t root data t₁ t₂ x x
  | texts {x y : NodeId} {text : String} (hx : t₁.content? x = some (.text text))
      (hy : t₂.content? y = some (.text text)) : Matched t root data t₁ t₂ x y

theorem matched_likeness (h : t.WellFormed) (hone : OneSlotEach t root)
    (hkeys : (data.map (·.1)).Nodup) (hperm : data.Perm data')
    (h₁ : Written t (fillings t root [] data) t₁)
    (h₂ : Written t (fillings t root [] data') t₂) :
    Likeness t₁ t₂ (Matched t root data t₁ t₂) := by
  constructor
  case bare =>
    rintro _ _ (⟨hx, -⟩ | ⟨hx, hy⟩)
    · rw [h₁.content _ hx, h₂.content _ hx]
    · rw [hx, hy]
  case children =>
    rintro _ _ (⟨hx, hclear⟩ | ⟨hx, hy⟩)
    · next x =>
      have hsame := lastText?_perm h hone hkeys hperm hclear
      rcases htext : lastText? (fillings t root [] data) x with _ | text
      · have hnot : ∀ s, ¬ Asked t root data x s := fun s hasked => by
          rw [(lastText?_eq_some_iff h hone hkeys hclear).2 hasked] at htext
          cases htext
        rw [h₁.children x hx htext, h₂.children x hx (hsame.trans htext)]
        exact List.forall₂_same.2 fun y hy => .old (h.has_of_child hy) (hclear.child h hy hnot)
      · exact (h₁.texts x text htext).forall₂ (h₂.texts x text (hsame.trans htext))
          fun _ _ => .texts
    · rw [(text_holds_nothing h₁.wellFormed hx).1, (text_holds_nothing h₂.wellFormed hy).1]
      exact .nil
  case contents =>
    rintro _ _ (⟨hx, -⟩ | ⟨hx, hy⟩)
    · rw [contents?_congr (h₁.content _ hx), contents?_congr (h₂.content _ hx)]
      rcases hf : t.contents? _ with _ | f
      · exact .none
      · exact .some (.old (h.has_contents hf) (uncovered_contents h hf))
    · rw [(text_holds_nothing h₁.wellFormed hx).2, (text_holds_nothing h₂.wellFormed hy).2]
      exact .none

/-! ## What the texts leave hold -/

/-- Nodes that hold nothing are the only ones that texts are held by. -/
theorem Written.holds (h : Written t texts t') (ht : t.WellFormed) (hxy : t'.Holds x y) :
    t.Holds x y ∨ ∀ z, ¬ t'.Holds y z := by
  have hx : t.Has x := by
    by_contra hx
    obtain ⟨hkids, helement⟩ := h.new x hx
    rcases hxy with hparent | hcontents
    · have hchild := h.wellFormed.child_of_parent hparent
      rw [hkids] at hchild
      cases hchild
    · obtain ⟨e, he, -⟩ := contents?_eq_some.1 hcontents
      simp [Tree.isElement, element?_eq_some.2 he] at helement
  rcases hxy with hparent | hcontents
  · have hchild := h.wellFormed.child_of_parent hparent
    rcases htext : lastText? texts x with _ | text
    · rw [h.children x hx htext] at hchild
      exact .inl (.inl (ht.parent_of_child hchild))
    · rcases (h.texts x text htext).eq_nil_or with hempty | ⟨v, hv, hcontent⟩
      · simp [hempty] at hchild
      · obtain rfl : y = v := by simpa [hv] using hchild
        obtain ⟨hkids, hcontents⟩ := text_holds_nothing h.wellFormed hcontent
        refine .inr fun z hz => ?_
        rcases hz with hparent' | hcontents'
        · simpa [hkids] using h.wellFormed.child_of_parent hparent'
        · simp [hcontents] at hcontents'
  · exact .inl (.inr ((contents?_congr (h.content x hx)).symm.trans hcontents))

theorem Written.encloses (h : Written t texts t') (ht : t.WellFormed) (hxy : t'.Encloses x y) :
    t.Encloses x y ∨ ∀ z, ¬ t'.Holds y z := by
  induction hxy with
  | single hstep => exact (h.holds ht hstep).imp_left Relation.TransGen.single
  | tail _ hstep ih =>
    rcases ih with hold | hidle
    · exact (h.holds ht hstep).imp_left hold.tail
    · exact absurd hstep (hidle _)

/-- Texts make no template hold itself. -/
theorem Written.groundedFrom (h : Written t texts t') (ht : t.WellFormed)
    (hg : t.GroundedFrom root) : t'.GroundedFrom root := by
  intro x hroot hx
  obtain ⟨y, hxy, -⟩ := hx.exists_held
  have hold : t.Encloses x x := (h.encloses ht hx).resolve_right fun hidle => hidle y hxy
  rcases atOrEncloses_iff.1 hroot with rfl | hroot
  · exact hg _ (.refl t _) hold
  · have hroot := (h.encloses ht hroot).resolve_right fun hidle => hidle y hxy
    exact hg x hroot.atOrEncloses hold

/-- Below a node that is not in the tree no slot is found. -/
theorem exec_fillSlots_of_not_has (hroot : ¬ t.Has root) (data : List (String × String)) :
    ∃ n, exec (fillSlots root data) t = (.ok n, t) := by
  have hnone : ∀ selector, t.selectFrom root selector = [] := by
    intro selector
    have hplain : t.satisfies root selector = false := by
      rw [satisfies, element?_of_not_has hroot, Option.any_none]
    rw [selectFrom_eq, List.filter_cons, descendants_eq_nil (children_of_not_has hroot), hplain]
    rfl
  have hloop : ∃ ns, exec (data.mapM (fillSlot root)) t = (.ok ns, t) := by
    induction data with
    | nil => exact ⟨[], rfl⟩
    | cons entry rest ih =>
      obtain ⟨ns, hrest⟩ := ih
      have hrun : exec (fillSlot root entry) t = (.ok 0, t) := by
        unfold fillSlot
        rw [exec_get_bind, hnone]
        rfl
      refine ⟨0 :: ns, ?_⟩
      rw [List.mapM_cons, exec_bind_ok hrun, exec_bind_ok hrest, exec_pure]
  obtain ⟨ns, hrun⟩ := hloop
  refine ⟨total ns, ?_⟩
  unfold fillSlots
  rw [exec_bind_ok hrun, exec_pure]

/-- Where every name marks one slot at most, data of which no two entries have one name may come in
    any order: what is at and below the root has one shape afterwards, and where printing ends it is
    printed alike, in every style. -/
theorem fillSlots_perm (h : t.WellFormed) (hone : OneSlotEach t root)
    (hkeys : (data.map (·.1)).Nodup) (hperm : data.Perm data') :
    ∃ n n' t₁ t₂, exec (fillSlots root data) t = (.ok n, t₁) ∧
      exec (fillSlots root data') t = (.ok n', t₂) ∧ t₂.shape root = t₁.shape root ∧
      (t.GroundedFrom root → ∀ style, outer t₂ root style = outer t₁ root style) := by
  by_cases hroot : t.Has root
  · have hopen : liesOpen t [] root = true := by simp [liesOpen]
    obtain ⟨n, t₁, hrun₁, h₁⟩ := exec_fillSlots_written h (.nil h) hroot hopen data
    obtain ⟨n', t₂, hrun₂, h₂⟩ := exec_fillSlots_written h (.nil h) hroot hopen data'
    have hshape : t₂.shape root = t₁.shape root :=
      (matched_likeness h hone hkeys hperm h₁ h₂).shape_eq (.old hroot (uncovered_root h))
    refine ⟨n, n', t₁, t₂, hrun₁, hrun₂, hshape, fun hg style => ?_⟩
    exact outer_of_shape h₁.wellFormed h₂.wellFormed (h₁.groundedFrom h hg) (h₂.groundedFrom h hg)
      (h₁.has hroot) (h₂.has hroot) hshape style
  · obtain ⟨n, hrun₁⟩ := exec_fillSlots_of_not_has hroot data
    obtain ⟨n', hrun₂⟩ := exec_fillSlots_of_not_has hroot data'
    exact ⟨n, n', t, t, hrun₁, hrun₂, rfl, fun _ _ => rfl⟩

/-- A slot in another, and a name that has no slot. The inner slot is filled in one order only, and
    the two trees are not the same, but they are printed alike. -/
theorem fillSlots_perm_nested :
    let t := (documentOf "about:blank" [.element "section" [] [] [
      .element "div" [⟨"s-slot", "card"⟩] [] [.element "b" [⟨"s-slot", "name"⟩] [] []],
      .element "p" [⟨"s-slot", "note"⟩] [] [.text "none"]]]).tree
    let data := [("name", "N"), ("card", "C"), ("more", "M"), ("note", "")]
    let data' := [("note", ""), ("card", "C"), ("name", "N"), ("more", "M")]
    t.WellFormed ∧ OneSlotEach t (.slot 1) ∧ (data.map (·.1)).Nodup ∧ data.Perm data' ∧
      (exec (fillSlots (.slot 1) data) t).1 = .ok 3 ∧
      (exec (fillSlots (.slot 1) data') t).1 = .ok 2 ∧
      ∃ n n' t₁ t₂, exec (fillSlots (.slot 1) data) t = (.ok n, t₁) ∧
        exec (fillSlots (.slot 1) data') t = (.ok n', t₂) ∧
        t₂.shape (.slot 1) = t₁.shape (.slot 1) ∧
        ∀ style, outer t₂ (.slot 1) style = outer t₁ (.slot 1) style := by
  intro t data data'
  have hwf : t.WellFormed := (edited_documentOf "about:blank" _).wellFormed wellFormed_empty
  have hg : t.GroundedFrom (.slot 1) := (InOrder.grounded (by decide +kernel)).groundedFrom _
  have hone : OneSlotEach t (.slot 1) := (oneSlotEach_iff hwf).2 (by decide +kernel)
  have hkeys : (data.map (·.1)).Nodup := by decide
  have hperm : data.Perm data' := by decide
  obtain ⟨n, n', t₁, t₂, hrun₁, hrun₂, hshape, hprinted⟩ := fillSlots_perm hwf hone hkeys hperm
  exact ⟨hwf, hone, hkeys, hperm, by decide +kernel, by decide +kernel, n, n', t₁, t₂, hrun₁, hrun₂,
    hshape, hprinted hg⟩

end Repeater.Stamp
