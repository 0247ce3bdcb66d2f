/-
  Repeater/Proofs/Lists.lean
  ==========================
  **Places in lists.**

  What is at a place of a list that was put together from parts stands at a place of one of the
  parts. And where things have numbers, and no number stands twice, a number is as good as a place.
-/
import Mathlib.Data.List.Nodup

namespace Repeater

/-! ## Lists in a row -/

/-- Where an element of two lists in a row stands. -/
theorem append_eq_append_cons {α : Type} {xs ys before after : List α} {x : α}
    (h : xs ++ ys = before ++ x :: after) :
    (∃ before', before = xs ++ before' ∧ ys = before' ++ x :: after) ∨
      ∃ last, xs = before ++ x :: last ∧ after = last ++ ys := by
  rcases List.append_eq_append_iff.1 h with hlater | ⟨last, hxs, hrest⟩
  · exact .inl hlater
  cases last with
  | nil => exact .inl ⟨[], by simpa using hxs.symm, hrest.symm⟩
  | cons y last =>
    obtain ⟨rfl, rfl⟩ := List.cons.inj hrest
    exact .inr ⟨last, hxs, rfl⟩

/-- Where an element stands of lists that were computed from other elements. -/
theorem flatMap_eq_append_cons {α β : Type} {f : α → List β} {items : List α}
    {before after : List β} {x : β} (h : items.flatMap f = before ++ x :: after) :
    ∃ first a last front back, items = first ++ a :: last ∧ f a = front ++ x :: back ∧
      before = first.flatMap f ++ front ∧ after = back ++ last.flatMap f := by
  induction items generalizing before with
  | nil => simp at h
  | cons a rest ih =>
    rw [List.flatMap_cons] at h
    rcases append_eq_append_cons h with ⟨before', rfl, h'⟩ | ⟨back, ha, rfl⟩
    · obtain ⟨first, a', last, front, back, rfl, hf, rfl, rfl⟩ := ih h'
      exact ⟨a :: first, a', last, front, back, rfl, hf, by simp, rfl⟩
    · exact ⟨[], a, rest, before, back, rfl, ha, rfl, rfl⟩

/-- Related lists relate members to members. -/
theorem forall₂_mem {α β : Type} {R : α → β → Prop} {l : List α} {l' : List β}
    (h : List.Forall₂ R l l') : List.Forall₂ (fun a b => a ∈ l ∧ b ∈ l' ∧ R a b) l l' := by
  refine (List.forall₂_and_left l l').2 ⟨fun _ ha => ha, List.Forall₂.flip ?_⟩
  exact (List.forall₂_and_left l' l).2 ⟨fun _ hb => hb, h.flip⟩

/-! ## Things with numbers -/

section Numbered

variable {β : Type} {items : List β} {number : β → Nat}

theorem filter_number_self {n : Nat} (h : ∀ x ∈ items, number x ≠ n) :
    items.filter (number · != n) = items :=
  List.filter_eq_self.2 fun x hx => bne_iff_ne.2 (h x hx)

/-- Where no number stands twice, taking the first thing of a number away keeps all others. -/
theorem eraseP_number (h : (items.map number).Nodup) (n : Nat) :
    items.eraseP (number · == n) = items.filter (number · != n) := by
  induction items with
  | nil => rfl
  | cons x rest ih =>
    obtain ⟨hfirst, hrest⟩ := List.nodup_cons.1 h
    by_cases hx : number x = n
    · subst hx
      have hother : rest.filter (number · != number x) = rest :=
        filter_number_self fun y hy heq => hfirst (List.mem_map.2 ⟨y, hy, heq⟩)
      simp [hother]
    · simp [hx, ih hrest]

theorem find?_number_eq_some (h : (items.map number).Nodup) {n : Nat} {x : β} :
    items.find? (number · == n) = some x ↔ x ∈ items ∧ number x = n := by
  constructor
  · intro hfind
    have hx := List.find?_some hfind
    exact ⟨List.mem_of_find?_eq_some hfind, beq_iff_eq.1 hx⟩
  · rintro ⟨hx, rfl⟩
    rcases hfind : items.find? (number · == number x) with _ | y
    · exact absurd (List.find?_eq_none.1 hfind x hx) (by simp)
    · have hy := List.find?_some hfind
      rw [List.inj_on_of_nodup_map h (List.mem_of_find?_eq_some hfind) hx (beq_iff_eq.1 hy)]

end Numbered

end Repeater
