/-
  Repeater/Proofs/Command/Steps.lean
  ==================================
  **One order from two lists.**

  The options hold the clicks and the additions of a command line apart, each with the positions
  where they stand. Where every value has a position of its own and the positions of a list grow
  (`Options.Indexed`), there is one line of steps with growing positions that has these clicks and
  these additions (`Options.Indexed.exists_line`), and sorting by the positions gives just it
  (`Options.Lists.steps_eq`): no step is lost, none is there twice, and none has changed its value.
-/
import Mathlib.Data.List.Nodup
import Repeater.Command.Arguments

namespace Repeater.Command

variable {o : Options} {line : List (Nat × Step)} {position : Nat}

/-! ## Lines of steps with positions -/

/-- The clicks of a line, with their positions. -/
def clicksOf (line : List (Nat × Step)) : List (Nat × String) :=
  line.filterMap fun
    | (position, .click selector) => some (position, selector)
    | (_, .add _) => none

/-- The additions of a line, with their positions. -/
def additionsOf (line : List (Nat × Step)) : List (Nat × Addition) :=
  line.filterMap fun
    | (_, .click _) => none
    | (position, .add addition) => some (position, addition)

/-- The options hold the clicks and the additions of a line, either in order and each with its
    position, and the positions grow along the line. -/
structure Options.Lists (o : Options) (line : List (Nat × Step)) : Prop where
  clicks : o.clicks = (clicksOf line).map (·.2)
  clickPositions : o.clickPositions = (clicksOf line).map (·.1)
  additions : o.additions = (additionsOf line).map (·.2)
  additionPositions : o.additionPositions = (additionsOf line).map (·.1)
  increasing : line.Pairwise fun a b => a.1 < b.1

/-- Each value has a position, the positions of either list grow, and the lists share none. -/
structure Options.Indexed (o : Options) : Prop where
  clicks : o.clickPositions.length = o.clicks.length
  additions : o.additionPositions.length = o.additions.length
  clicksIncrease : o.clickPositions.Pairwise (· < ·)
  additionsIncrease : o.additionPositions.Pairwise (· < ·)
  apart : o.clickPositions.Disjoint o.additionPositions

theorem mem_clicksOf {selector : String} :
    (position, selector) ∈ clicksOf line ↔ (position, .click selector) ∈ line := by
  constructor
  · intro hmem
    obtain ⟨⟨i, s | a⟩, hline, hentry⟩ := List.mem_filterMap.1 hmem
    · cases hentry
      exact hline
    · cases hentry
  · intro hline
    exact List.mem_filterMap.2 ⟨_, hline, rfl⟩

theorem mem_additionsOf {addition : Addition} :
    (position, addition) ∈ additionsOf line ↔ (position, .add addition) ∈ line := by
  constructor
  · intro hmem
    obtain ⟨⟨i, s | a⟩, hline, hentry⟩ := List.mem_filterMap.1 hmem
    · cases hentry
    · cases hentry
      exact hline
  · intro hline
    exact List.mem_filterMap.2 ⟨_, hline, rfl⟩

/-- Positions grow in a part of a line that has its positions from the line. -/
theorem increasing_filterMap {α β : Type} {entries : List (Nat × α)}
    (h : entries.Pairwise fun a b => a.1 < b.1) {part : Nat × α → Option (Nat × β)}
    (hpart : ∀ entry kept, part entry = some kept → kept.1 = entry.1) :
    (entries.filterMap part).Pairwise fun a b => a.1 < b.1 := by
  apply List.Pairwise.filterMap part _ h
  intro a b hlt kept hkept kept' hkept'
  rw [hpart a kept hkept, hpart b kept' hkept']
  exact hlt

theorem clicksOf_increasing (h : line.Pairwise fun a b => a.1 < b.1) :
    (clicksOf line).Pairwise fun a b => a.1 < b.1 := by
  apply increasing_filterMap h
  rintro ⟨i, s | a⟩ kept hkept <;> cases hkept
  rfl

theorem additionsOf_increasing (h : line.Pairwise fun a b => a.1 < b.1) :
    (additionsOf line).Pairwise fun a b => a.1 < b.1 := by
  apply increasing_filterMap h
  rintro ⟨i, s | a⟩ kept hkept <;> cases hkept
  rfl

/-! ## Sorting by positions -/

theorem nodup_of_increasing {α : Type} {entries : List (Nat × α)}
    (h : entries.Pairwise fun a b => a.1 < b.1) : (entries.map (·.1)).Nodup := by
  apply List.pairwise_map.2
  exact h.imp fun hlt => Nat.ne_of_lt hlt

/-- There is only one way to put entries in the order of their positions. -/
theorem eq_of_increasing {α : Type} {sorted entries : List (Nat × α)}
    (hperm : sorted.Perm entries) (hsorted : sorted.Pairwise fun a b => a.1 ≤ b.1)
    (hentries : entries.Pairwise fun a b => a.1 < b.1) : sorted = entries := by
  apply hperm.eq_of_pairwise _ hsorted (hentries.imp Nat.le_of_lt)
  intro a b ha hb hab hba
  exact List.inj_on_of_nodup_map (nodup_of_increasing hentries) (hperm.mem_iff.1 ha) hb
    (Nat.le_antisymm hab hba)

theorem sorted_mergeSort {α : Type} (entries : List (Nat × α)) :
    (entries.mergeSort fun a b => a.1 ≤ b.1).Pairwise fun a b => a.1 ≤ b.1 := by
  have hsorted : (entries.mergeSort fun a b => a.1 ≤ b.1).Pairwise
      fun a b => decide (a.1 ≤ b.1) = true := by
    apply List.pairwise_mergeSort
    · intro a b c hab hbc
      simp only [decide_eq_true_eq] at hab hbc ⊢
      exact Nat.le_trans hab hbc
    · intro a b
      simpa using Nat.le_total a.1 b.1
  exact hsorted.imp of_decide_eq_true

/-! ## Putting the lists together -/

/-- Clicks and additions as the entries of one list. -/
def joined (clicks : List (Nat × String)) (additions : List (Nat × Addition)) :
    List (Nat × Step) :=
  (clicks.map fun (i, s) => (i, Step.click s)) ++ additions.map fun (i, a) => (i, Step.add a)

theorem joined_perm (line : List (Nat × Step)) :
    (joined (clicksOf line) (additionsOf line)).Perm line := by
  induction line with
  | nil => exact List.Perm.refl []
  | cons entry line ih =>
    obtain ⟨position, selector | addition⟩ := entry
    · exact ih.cons _
    · exact List.perm_middle.trans (ih.cons _)

theorem clicksOf_joined (clicks : List (Nat × String)) (additions : List (Nat × Addition)) :
    clicksOf (joined clicks additions) = clicks := by
  simp [clicksOf, joined, List.filterMap_map]

theorem additionsOf_joined (clicks : List (Nat × String)) (additions : List (Nat × Addition)) :
    additionsOf (joined clicks additions) = additions := by
  simp [additionsOf, joined, List.filterMap_map]

/-- Where every value has a position, that is the one it is placed at. -/
theorem placed_eq_zip {α : Type} (start : Nat) {values : List α} {positions : List Nat}
    (hlen : positions.length = values.length) :
    placed start values positions = positions.zip values := by
  apply List.ext_getElem
  · simp [placed, hlen]
  · intro i h h'
    simp only [List.length_zip, Nat.lt_min] at h'
    simp [placed, List.getD_eq_getElem?_getD, List.getElem?_eq_getElem h'.1]

theorem Options.steps_eq_mergeSort (hclicks : o.clickPositions.length = o.clicks.length)
    (hadditions : o.additionPositions.length = o.additions.length) :
    o.steps = ((joined (o.clickPositions.zip o.clicks)
      (o.additionPositions.zip o.additions)).mergeSort fun a b => a.1 ≤ b.1).map (·.2) := by
  rw [Options.steps, placed_eq_zip _ hclicks, placed_eq_zip _ hadditions, joined]

/-- **Options that list a line give its steps back as they stand in it.** -/
theorem Options.Lists.steps_eq (h : o.Lists line) : o.steps = line.map (·.2) := by
  have hzip {α : Type} (entries : List (Nat × α)) :
      (entries.map (·.1)).zip (entries.map (·.2)) = entries := by
    simp [List.zip_map']
  rw [Options.steps_eq_mergeSort (by simp [h.clicks, h.clickPositions])
    (by simp [h.additions, h.additionPositions]), h.clicks, h.clickPositions, h.additions,
    h.additionPositions, hzip, hzip]
  have hperm := (List.mergeSort_perm _ fun a b => a.1 ≤ b.1).trans (joined_perm line)
  rw [eq_of_increasing hperm (sorted_mergeSort _) h.increasing]

/-- **Lists with growing positions of their own are those of a line.** -/
theorem Options.Indexed.exists_line (h : o.Indexed) : ∃ line, o.Lists line := by
  obtain ⟨clicks, hclicks⟩ : ∃ clicks, clicks = o.clickPositions.zip o.clicks := ⟨_, rfl⟩
  obtain ⟨additions, hadditions⟩ : ∃ additions, additions = o.additionPositions.zip o.additions :=
    ⟨_, rfl⟩
  have hclickPositions : clicks.map (·.1) = o.clickPositions := by
    rw [hclicks, List.map_fst_zip (Nat.le_of_eq h.clicks)]
  have hadditionPositions : additions.map (·.1) = o.additionPositions := by
    rw [hadditions, List.map_fst_zip (Nat.le_of_eq h.additions)]
  have hperm := List.mergeSort_perm (joined clicks additions) fun a b => a.1 ≤ b.1
  have hsorted := sorted_mergeSort (joined clicks additions)
  generalize (joined clicks additions).mergeSort (fun a b => a.1 ≤ b.1) = line at hperm hsorted
  -- No position is there twice, so that in the sorted line they grow.
  have hnodup : ((joined clicks additions).map (·.1)).Nodup := by
    have hpositions : (joined clicks additions).map (·.1) =
        o.clickPositions ++ o.additionPositions := by
      simp [joined, Function.comp_def, ← hclickPositions, ← hadditionPositions]
    rw [hpositions]
    exact List.Nodup.append (h.clicksIncrease.imp Nat.ne_of_lt)
      (h.additionsIncrease.imp Nat.ne_of_lt) h.apart
  have hne : line.Pairwise fun a b => a.1 ≠ b.1 := by
    apply List.pairwise_map.1
    exact (hperm.map (·.1)).nodup_iff.2 hnodup
  have hincreasing : line.Pairwise fun a b => a.1 < b.1 :=
    (hsorted.and hne).imp fun hab => Nat.lt_of_le_of_ne hab.1 hab.2
  -- Sorting has not moved the values of either list among themselves.
  have hclicksOf : clicksOf line = clicks := by
    apply eq_of_increasing _ ((clicksOf_increasing hincreasing).imp Nat.le_of_lt)
    · exact List.pairwise_map.1 (hclickPositions ▸ h.clicksIncrease)
    · rw [← clicksOf_joined clicks additions]
      exact hperm.filterMap _
  have hadditionsOf : additionsOf line = additions := by
    apply eq_of_increasing _ ((additionsOf_increasing hincreasing).imp Nat.le_of_lt)
    · exact List.pairwise_map.1 (hadditionPositions ▸ h.additionsIncrease)
    · rw [← additionsOf_joined clicks additions]
      exact hperm.filterMap _
  refine ⟨line, ?_, ?_, ?_, ?_, hincreasing⟩
  · rw [hclicksOf, hclicks, List.map_snd_zip (Nat.le_of_eq h.clicks.symm)]
  · rw [hclicksOf, hclickPositions]
  · rw [hadditionsOf, hadditions, List.map_snd_zip (Nat.le_of_eq h.additions.symm)]
  · rw [hadditionsOf, hadditionPositions]

theorem Options.Lists.indexed (h : o.Lists line) : o.Indexed := by
  refine ⟨?_, ?_, ?_, ?_, ?_⟩
  · simp [h.clicks, h.clickPositions]
  · simp [h.additions, h.additionPositions]
  · rw [h.clickPositions]
    exact List.pairwise_map.2 (clicksOf_increasing h.increasing)
  · rw [h.additionPositions]
    exact List.pairwise_map.2 (additionsOf_increasing h.increasing)
  · intro i hclick hadd
    rw [h.clickPositions] at hclick
    rw [h.additionPositions] at hadd
    obtain ⟨⟨_, selector⟩, hselector, rfl⟩ := List.mem_map.1 hclick
    obtain ⟨⟨_, addition⟩, haddition, rfl⟩ := List.mem_map.1 hadd
    have hsame := List.inj_on_of_nodup_map (nodup_of_increasing h.increasing)
      (mem_clicksOf.1 hselector) (mem_additionsOf.1 haddition) rfl
    cases hsame

/-! ## Lines that grow at their end -/

theorem Options.lists_nil : ({} : Options).Lists [] := ⟨rfl, rfl, rfl, rfl, List.Pairwise.nil⟩

section Growing

variable (h : o.Lists line) (hlast : ∀ entry ∈ line, entry.1 < position)
include h hlast

theorem Options.Lists.increasing_concat (step : Step) :
    (line ++ [(position, step)]).Pairwise fun a b => a.1 < b.1 := by
  apply List.pairwise_append.2
  refine ⟨h.increasing, List.pairwise_singleton _ _, ?_⟩
  intro entry hentry new hnew
  rw [List.mem_singleton.1 hnew]
  exact hlast entry hentry

theorem Options.Lists.click (selector : String) :
    ({ o with
      clicks := o.clicks ++ [selector]
      clickPositions := o.clickPositions ++ [position] } : Options).Lists
      (line ++ [(position, .click selector)]) where
  clicks := by simp [h.clicks, clicksOf]
  clickPositions := by simp [h.clickPositions, clicksOf]
  additions := by simp [h.additions, additionsOf]
  additionPositions := by simp [h.additionPositions, additionsOf]
  increasing := h.increasing_concat hlast _

theorem Options.Lists.add (addition : Addition) :
    ({ o with
      additions := o.additions ++ [addition]
      additionPositions := o.additionPositions ++ [position] } : Options).Lists
      (line ++ [(position, .add addition)]) where
  clicks := by simp [h.clicks, clicksOf]
  clickPositions := by simp [h.clickPositions, clicksOf]
  additions := by simp [h.additions, additionsOf]
  additionPositions := by simp [h.additionPositions, additionsOf]
  increasing := h.increasing_concat hlast _

end Growing

end Repeater.Command
