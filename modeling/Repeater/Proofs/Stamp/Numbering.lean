/-
  Repeater/Proofs/Stamp/Numbering.lean
  ====================================
  **Numbering a subtree is all or nothing.**

  Stamping the sequences below and at a node fails exactly where a mark has an empty pattern, and
  then nothing has changed. Otherwise every mark is left with one text and nothing else in it, the
  number after the counter (`Numbering`), and the marks are what is counted. A mark that lies within
  another one is out of the tree by then, and has its text all the same (`stampSequences_outcome`).
-/
import Repeater.Proofs.Dom.Documents
import Repeater.Proofs.Stamp.Sequences

namespace Repeater.Stamp

open Dom Markup Text Tree

variable {t t' : Tree} {root : NodeId} {counter : Nat}

/-! ## The text of a number -/

/-- A number is padded with zeros to the number of zeros in the pattern, and is never cut. -/
theorem toList_sequenceText (pattern : String) (number : Nat) :
    (sequenceText pattern number).toList =
      (digits number).leftpad (pattern.toList.count '0') '0' := by
  unfold sequenceText List.leftpad
  exact String.toList_ofList

/-- The text of a number is read as the number, whatever the pattern is. -/
theorem ofDigits?_sequenceText (pattern : String) (number : Nat) :
    ofDigits? (sequenceText pattern number).toList = some number := by
  have hne : digits number ≠ [] := Nat.toDigits_ne_nil
  rw [toList_sequenceText, List.leftpad, ofDigits?_padded hne, ofDigits?_digits]

/-! ## Numbered trees -/

/-- What a tree shows after its marks below and at a node have been given the number after the
    counter. -/
structure Numbering (t : Tree) (root : NodeId) (counter : Nat) (marks : List NodeId) (t' : Tree) :
    Prop where
  nodup : marks.Nodup
  mem_marks : ∀ m, m ∈ marks ↔
    t.AtOrAbove root m ∧ ∃ pattern, t.attribute? m Directive.sequence.name = some pattern
  text : ∀ m ∈ marks, ∀ pattern, t.attribute? m Directive.sequence.name = some pattern →
    ∃ x s, ¬ t.Has x ∧ t'.children m = [x] ∧ t'.content? x = some (.text s) ∧
      s.toList = (digits (counter + 1)).leftpad (pattern.toList.count '0') '0' ∧
      ofDigits? s.toList = some (counter + 1)
  content : ∀ y, t.Has y → t'.content? y = t.content? y
  children : ∀ y, t.Has y → y ∉ marks → t'.children y = t.children y
  parent : ∀ y p, t.Has y → (t'.parent? y = some p ↔ t.parent? y = some p ∧ p ∉ marks)

theorem SequencesSet.numbering (h : t.WellFormed) (hready : sequencesReady t root = true)
    (hset : SequencesSet t root counter t') :
    Numbering t root counter (sequenceMarks t root) t' := by
  have hmarks : ((sequenceMarks t root).map fun m => (m, markText t counter m)).map Prod.fst =
      sequenceMarks t root := by simp [Function.comp_def]
  constructor
  case nodup => exact nodup_selectFrom h _ _
  case mem_marks =>
    intro m
    rw [mem_sequenceMarks h, Option.isSome_iff_exists]
  case text =>
    intro m hm pattern hpattern
    obtain ⟨x, hkids, hnew, hcontent⟩ :=
      hset.children_mark m (markText t counter m) (List.mem_map_of_mem hm)
    rw [markText_of_ready hready hm hpattern] at hcontent
    exact ⟨x, _, hnew, hkids, hcontent, toList_sequenceText pattern _, ofDigits?_sequenceText pattern _⟩
  case content => exact hset.content
  case children =>
    intro y hy hother
    exact hset.children_other y (by rwa [hmarks]) hy
  case parent =>
    intro y p hy
    rw [hset.parent y hy, hmarks]
    split
    · next hmarked =>
      obtain ⟨m, hm, hparent⟩ := hmarked
      simp only [reduceCtorEq, hparent, Option.some.injEq, false_iff, not_and, not_not]
      rintro rfl
      exact hm
    · next hother => exact ⟨fun hp => ⟨hp, fun hm => hother ⟨p, hm, hp⟩⟩, And.left⟩

/-- Either a mark has an empty pattern and nothing is changed, or no mark has and all are given their
    number. -/
theorem stampSequences_outcome (h : t.WellFormed) (root : NodeId) (counter : Nat) :
    ((∃ m, t.AtOrAbove root m ∧ t.attribute? m Directive.sequence.name = some "") ∧
        exec (stampSequences root counter) t = (.error (.missingAttribute .sequence), t)) ∨
      ((¬ ∃ m, t.AtOrAbove root m ∧ t.attribute? m Directive.sequence.name = some "") ∧
        ∃ marks t', exec (stampSequences root counter) t = (.ok marks.length, t') ∧
          Numbering t root counter marks t') := by
  rw [← sequencesReady_eq_false h, Bool.not_eq_false]
  rcases hready : sequencesReady t root with _ | _
  · exact .inl ⟨rfl, exec_stampSequences_notReady hready counter⟩
  · obtain ⟨t', hrun, hset, -⟩ := exec_stampSequences_ready h hready counter
    exact .inr ⟨rfl, _, t', hrun, hset.numbering h hready⟩

/-- A mark within a mark: both are counted, and both have their text. -/
theorem stampSequences_outcome_nested :
    let t := (documentOf "about:blank" [.element "p" [⟨"s-sequence", "0"⟩] []
      [.element "b" [⟨"s-sequence", "No. 000"⟩] [] [.text "none"]]]).tree
    t.WellFormed ∧ (exec (stampSequences (.slot 1) 9) t).1 = .ok 2 ∧
      ∃ marks t', exec (stampSequences (.slot 1) 9) t = (.ok marks.length, t') ∧
        Numbering t (.slot 1) 9 marks t' := by
  intro t
  have hwf : t.WellFormed := (edited_documentOf "about:blank" _).wellFormed wellFormed_empty
  have hrun : (exec (stampSequences (.slot 1) 9) t).1 = .ok 2 := by decide +kernel
  refine ⟨hwf, hrun, ?_⟩
  obtain ⟨-, hfails⟩ | ⟨-, hnumbered⟩ := stampSequences_outcome hwf (.slot 1) 9
  · rw [hfails] at hrun
    cases hrun
  · exact hnumbered

end Repeater.Stamp
