/-
  Repeater/Proofs/Stamp/Sequences.lean
  ====================================
  **What stamping the sequences of a subtree does.**

  When every mark has a pattern, each mark is left with one new text, the number padded as its
  pattern says, and nothing else is changed; otherwise nothing is changed at all
  (`exec_stampSequences_ready`, `exec_stampSequences_notReady`). A mark may lie below another: then
  it is taken out with the rest of what the other mark held, and is stamped all the same.
-/
import Repeater.Proofs.Dom.Copies
import Repeater.Stamp.Marks

namespace Repeater.Stamp

open Dom Tree Text

variable {t t' u : Tree} {root m x y : NodeId} {counter : Nat}

/-- What a mark is to show. -/
def markText (t : Tree) (counter : Nat) (mark : NodeId) : String :=
  sequenceText ((pattern? t mark).getD "") (counter + 1)

theorem isEmpty_sequenceText (pattern : String) (number : Nat) :
    (sequenceText pattern number).isEmpty = false := by
  have hdigits : digits number ≠ [] := Nat.toDigits_ne_nil
  unfold sequenceText
  simp [hdigits]

/-- What a tree shows after each of some nodes has been given a text. -/
structure TextsSet (t : Tree) (stamps : List (NodeId × String)) (t' : Tree) : Prop where
  wellFormed : t'.WellFormed
  size_le : t.size ≤ t'.size
  content : ∀ y, t.Has y → t'.content? y = t.content? y
  children_mark : ∀ m text, (m, text) ∈ stamps → ∃ x, t'.children m = [x] ∧ ¬ t.Has x ∧
    t'.content? x = some (.text text)
  children_other : ∀ y, y ∉ stamps.map Prod.fst → t.Has y → t'.children y = t.children y
  parent : ∀ y, t.Has y → t'.parent? y =
    if ∃ m ∈ stamps.map Prod.fst, t.parent? y = some m then none else t.parent? y
  new : ∀ y, t'.Has y → ¬ t.Has y → t'.children y = [] ∧
    ∃ m ∈ stamps.map Prod.fst, t'.parent? y = some m ∧ ∃ s, t'.content? y = some (.text s)

/-- One mark more, given its text before the others. -/
theorem textsSet_cons {text : String} {rest : List (NodeId × String)} (h : t.WellFormed)
    (htext : text.isEmpty = false) (hm : t.Has m) (hnew : m ∉ rest.map Prod.fst)
    (hrest : ∀ stamp ∈ rest, t.Has stamp.1) (hone : t.TextSet m text u)
    (hmore : TextsSet u rest t') : TextsSet t ((m, text) :: rest) t' := by
  have hsize : u.size = t.size + 1 := by simp [hone.size, htext]
  have hold : ∀ y, t.Has y → u.Has y ∧ y ≠ .slot t.size := by
    intro y hy
    constructor
    · obtain ⟨i, hi, rfl⟩ := has_iff_slot.1 hy
      exact has_slot.2 (by omega)
    · rintro rfl
      exact not_has_new t hy
  have hfresh : ∀ y, u.Has y → ¬ t.Has y → y = .slot t.size := by
    intro y hu ht
    obtain ⟨i, hi, rfl⟩ := has_iff_slot.1 hu
    rw [has_slot] at ht
    rw [show i = t.size by omega]
  have hnewHas : u.Has (.slot t.size) := has_slot.2 (by omega)
  have hnewMark : NodeId.slot t.size ∉ rest.map Prod.fst := by
    intro hmem
    obtain ⟨stamp, hstamp, hslot⟩ := List.mem_map.1 hmem
    exact not_has_new t (hslot ▸ hrest stamp hstamp)
  have hnewText : t'.content? (.slot t.size) = some (.text text) := by
    rw [hmore.content _ hnewHas, hone.content]
    simp [htext]
  constructor
  case wellFormed => exact hmore.wellFormed
  case size_le =>
    have := hmore.size_le
    omega
  case content =>
    intro y hy
    rw [hmore.content y (hold y hy).1, hone.content, if_neg (by simp [(hold y hy).2])]
  case children_mark =>
    intro m' text' hmem
    rcases List.mem_cons.1 hmem with hmem | hmem
    · cases hmem
      refine ⟨.slot t.size, ?_, not_has_new t, hnewText⟩
      rw [hmore.children_other m hnew (hold m hm).1, hone.children_self]
      simp [htext]
    · obtain ⟨x, hx, hxnew, hxtext⟩ := hmore.children_mark m' text' hmem
      exact ⟨x, hx, fun hxold => hxnew (hold x hxold).1, hxtext⟩
  case children_other =>
    intro y hy hyold
    simp only [List.map_cons, List.mem_cons, not_or] at hy
    rw [hmore.children_other y hy.2 (hold y hyold).1, hone.children_other y hy.1]
  case parent =>
    intro y hy
    have hstep : u.parent? y = if y ∈ t.children m then none else t.parent? y := by
      simp [hone.parent, (hold y hy).2]
    rw [hmore.parent y (hold y hy).1, hstep]
    by_cases hym : t.parent? y = some m
    · rw [if_pos (h.child_of_parent hym)]
      simp [hym]
    · rw [if_neg fun hmem => hym (h.parent_of_child hmem)]
      simp only [List.map_cons, List.mem_cons, exists_eq_or_imp, hym, false_or]
  case new =>
    intro y hy hyold
    by_cases hyu : u.Has y
    · obtain rfl := hfresh y hyu hyold
      refine ⟨?_, m, by simp, ?_, text, hnewText⟩
      · rw [hmore.children_other _ hnewMark hnewHas, hone.children_other]
        · exact children_of_not_has (not_has_new t)
        · rintro rfl
          exact not_has_new t hm
      · have hparent : u.parent? (.slot t.size) = some m := by
          rw [hone.parent, if_neg fun hmem => not_has_new t (h.has_of_child hmem),
            if_pos ⟨htext, rfl⟩]
        rw [hmore.parent _ hnewHas, hparent, if_neg]
        rintro ⟨m', hm', hmm'⟩
        rw [Option.some.injEq] at hmm'
        exact hnew (hmm' ▸ hm')
    · obtain ⟨hkids, m', hm', hparent, hcontent⟩ := hmore.new y hy hyu
      exact ⟨hkids, m', by simp [hm'], hparent, hcontent⟩

theorem exec_setTexts (h : t.WellFormed) (stamps : List (NodeId × String))
    (hnodup : (stamps.map Prod.fst).Nodup)
    (hstamps : ∀ stamp ∈ stamps, t.isElement stamp.1 = true ∧ stamp.2.isEmpty = false) :
    ∃ t', exec (stamps.forM fun (id, text) => edit (Edit.setText id text)) t = (.ok ⟨⟩, t') ∧
      TextsSet t stamps t' ∧ ∀ u : Tree, u.WellFormed → u.Extends t →
        (∀ stamp ∈ stamps, ¬ u.Has stamp.1) → u.Extends t' := by
  induction stamps generalizing t with
  | nil =>
    refine ⟨t, rfl, ⟨h, Nat.le_refl _, fun _ _ => rfl, by simp, fun _ _ _ => rfl, by simp, ?_⟩,
      fun _ _ hext _ => hext⟩
    exact fun y hy hyold => absurd hy hyold
  | cons stamp rest ih =>
    obtain ⟨m, text⟩ := stamp
    rw [List.map_cons, List.nodup_cons] at hnodup
    obtain ⟨helement, htext⟩ := hstamps (m, text) (by simp)
    obtain ⟨e, he⟩ := Option.isSome_iff_exists.1 helement
    have hm := element?_eq_some.1 he
    obtain ⟨t₁, hrun, hone⟩ := Edit.exec_setText_holder h hm rfl text
    have hkeep : ∀ y, t.Has y → t₁.content? y = t.content? y := by
      intro y hy
      rw [hone.content, if_neg]
      rintro ⟨-, rfl⟩
      exact not_has_new t hy
    have hhas : ∀ stamp ∈ rest, t.Has stamp.1 := by
      intro stamp hstamp
      obtain ⟨e, he⟩ := Option.isSome_iff_exists.1 (hstamps stamp (by simp [hstamp])).1
      exact has_of_element he
    obtain ⟨t', hrun', hmore, hext⟩ := ih hone.wellFormed hnodup.2 (by
      intro stamp hstamp
      rw [isElement_congr (hkeep _ (hhas stamp hstamp))]
      exact hstamps stamp (by simp [hstamp]))
    refine ⟨t', ?_, textsSet_cons h htext (has_of_content hm) hnodup.1 hhas hone hmore, ?_⟩
    · have hrun₁ : exec (edit (Edit.setText m text)) t = (.ok ⟨⟩, t₁) := by
        unfold edit
        rw [exec_adapt, hrun]
        rfl
      rw [exec_forM_cons, exec_bind_ok hrun₁, hrun']
    · intro u hu huext hnew
      exact hext u hu (huext.textSet hu h hone (hnew (m, text) (by simp)) (has_of_content hm))
        fun stamp hstamp => hnew stamp (by simp [hstamp])

/-! ## Marks -/

theorem mem_sequenceMarks (h : t.WellFormed) : m ∈ sequenceMarks t root ↔
    t.AtOrAbove root m ∧ (t.attribute? m Directive.sequence.name).isSome = true := by
  unfold sequenceMarks
  rw [mem_selectFrom h, satisfies_hasAttribute]

theorem sequencesReady_eq_false (h : t.WellFormed) : sequencesReady t root = false ↔
    ∃ m, t.AtOrAbove root m ∧ t.attribute? m Directive.sequence.name = some "" := by
  unfold sequencesReady
  rw [List.all_eq_false]
  refine exists_congr fun m => ?_
  rw [mem_sequenceMarks h, pattern?]
  cases t.attribute? m Directive.sequence.name with
  | none => simp
  | some pattern =>
    simp only [Option.isSome_some, and_true, Option.filter_some, Option.some.injEq]
    refine and_congr_right fun _ => ?_
    by_cases hempty : pattern = ""
    · simp [hempty]
    · simp [hempty]

/-- When all marks are ready, each is to show the number by the pattern that it carries. -/
theorem markText_of_ready {pattern : String} (hready : sequencesReady t root = true)
    (hm : m ∈ sequenceMarks t root)
    (hpattern : t.attribute? m Directive.sequence.name = some pattern) :
    markText t counter m = sequenceText pattern (counter + 1) := by
  obtain ⟨shown, hshown⟩ := Option.isSome_iff_exists.1 (List.all_eq_true.1 hready m hm)
  have hcarried := (Option.filter_eq_some_iff.1 hshown).1
  rw [hpattern, Option.some.injEq] at hcarried
  unfold markText
  rw [hshown, Option.getD_some, hcarried]

/-- What a tree shows after the sequences of a subtree have been stamped. -/
def SequencesSet (t : Tree) (root : NodeId) (counter : Nat) (t' : Tree) : Prop :=
  TextsSet t ((sequenceMarks t root).map fun m => (m, markText t counter m)) t'

theorem exec_stampSequences_ready (h : t.WellFormed) (hready : sequencesReady t root = true)
    (counter : Nat) :
    ∃ t', exec (stampSequences root counter) t = (.ok (sequenceMarks t root).length, t') ∧
      SequencesSet t root counter t' ∧ ∀ u : Tree, u.WellFormed → u.Extends t →
        (∀ m ∈ sequenceMarks t root, ¬ u.Has m) → u.Extends t' := by
  have hmarks : (((sequenceMarks t root).map fun m => (m, markText t counter m)).map Prod.fst) =
      sequenceMarks t root := by simp [Function.comp_def]
  obtain ⟨t', hrun, hset, hext⟩ := exec_setTexts h
    ((sequenceMarks t root).map fun m => (m, markText t counter m))
    (by
      rw [hmarks]
      exact nodup_selectFrom h _ _)
    (by
      intro stamp hstamp
      obtain ⟨m, hm, rfl⟩ := List.mem_map.1 hstamp
      exact ⟨isElement_of_attribute ((mem_sequenceMarks h).1 hm).2, isEmpty_sequenceText _ _⟩)
  refine ⟨t', ?_, hset, ?_⟩
  · unfold stampSequences
    rw [exec_get_bind, exec_bind_ok (exec_mapM_pure (f := fun m => (m, markText t counter m)) ?_ t)]
    · rw [exec_bind_ok hrun, List.length_map]
      rfl
    · intro m hm
      have := List.all_eq_true.1 hready m hm
      obtain ⟨pattern, hpattern⟩ := Option.isSome_iff_exists.1 this
      simp [hpattern, markText]
  · intro u hu huext hnew
    refine hext u hu huext fun stamp hstamp => ?_
    obtain ⟨m, hm, rfl⟩ := List.mem_map.1 hstamp
    exact hnew m hm

theorem exec_stampSequences_notReady (hready : sequencesReady t root = false) (counter : Nat) :
    exec (stampSequences root counter) t = (.error (.missingAttribute .sequence), t) := by
  unfold stampSequences
  rw [exec_get_bind]
  refine exec_bind_error (exec_mapM_throw ?_ ?_ t)
  · intro m _
    rcases pattern? t m with _ | pattern
    · exact .inr rfl
    · exact .inl ⟨_, rfl⟩
  · obtain ⟨m, hm, hnone⟩ := List.all_eq_false.1 hready
    refine ⟨m, hm, ?_⟩
    simp only [Option.not_isSome_iff_eq_none] at hnone
    rw [hnone]

end Repeater.Stamp
