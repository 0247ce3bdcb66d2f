/-
  Repeater/Text/Split.lean
  ========================
  **Splitting and replacing.**

  Cutting a list of characters at the first or the last occurrence of a character, into all the
  pieces between the occurrences, and replacing every occurrence of a pattern from left to right.
-/

namespace Repeater.Text

/-- What stands before and after the first occurrence of `c`. -/
def splitFirst? (c : Char) (cs : List Char) : Option (List Char × List Char) :=
  match cs.dropWhile (· != c) with
  | [] => none
  | _ :: after => some (cs.takeWhile (· != c), after)

/-- What stands before and after the last occurrence of `c`. -/
def splitLast? (c : Char) (cs : List Char) : Option (List Char × List Char) :=
  (splitFirst? c cs.reverse).map fun (after, before) => (before.reverse, after.reverse)

theorem splitFirst?_eq_some {c : Char} {cs before after : List Char} :
    splitFirst? c cs = some (before, after) ↔ c ∉ before ∧ cs = before ++ c :: after := by
  induction cs generalizing before with
  | nil => simp [splitFirst?]
  | cons x rest ih =>
    by_cases hx : x = c
    · subst hx
      cases before with
      | nil => simp [splitFirst?]
      | cons y before => simp +contextual [splitFirst?, eq_comm]
    · have hstep : splitFirst? c (x :: rest) =
          (splitFirst? c rest).map fun (before, after) => (x :: before, after) := by
        simp only [splitFirst?, List.dropWhile_cons, List.takeWhile_cons, bne_iff_ne, hx, ne_eq,
          not_false_eq_true, ↓reduceIte]
        cases List.dropWhile (· != c) rest <;> rfl
      rw [hstep, Option.map_eq_some_iff]
      cases before with
      | nil => simp [hx]
      | cons y before =>
        constructor
        · rintro ⟨⟨_, _⟩, hsplit, ⟨⟩⟩
          obtain ⟨hbefore, rfl⟩ := ih.1 hsplit
          simp [hbefore, Ne.symm hx]
        · rintro ⟨hbefore, hsame⟩
          rw [List.cons_append, List.cons.injEq] at hsame
          obtain ⟨rfl, hrest⟩ := hsame
          simp only [List.mem_cons, not_or] at hbefore
          exact ⟨(before, after), ih.2 ⟨hbefore.2, hrest⟩, rfl⟩

theorem splitFirst?_eq_none {c : Char} {cs : List Char} : splitFirst? c cs = none ↔ c ∉ cs := by
  constructor
  · intro hnone hc
    obtain ⟨before, after, rfl, hbefore⟩ := List.eq_append_cons_of_mem hc
    simp [splitFirst?_eq_some.2 ⟨hbefore, rfl⟩] at hnone
  · intro hc
    refine Option.eq_none_iff_forall_ne_some.2 fun ⟨before, after⟩ hsome => ?_
    simp [(splitFirst?_eq_some.1 hsome).2] at hc

theorem splitLast?_eq_some {c : Char} {cs before after : List Char} :
    splitLast? c cs = some (before, after) ↔ c ∉ after ∧ cs = before ++ c :: after := by
  unfold splitLast?
  rw [Option.map_eq_some_iff]
  constructor
  · rintro ⟨⟨_, _⟩, hsplit, ⟨⟩⟩
    obtain ⟨hafter, hsame⟩ := splitFirst?_eq_some.1 hsplit
    simpa [hafter] using congrArg List.reverse hsame
  · rintro ⟨hafter, rfl⟩
    refine ⟨(after.reverse, before.reverse), splitFirst?_eq_some.2 ?_, by simp⟩
    simpa using hafter

theorem splitLast?_eq_none {c : Char} {cs : List Char} : splitLast? c cs = none ↔ c ∉ cs := by
  simp [splitLast?, splitFirst?_eq_none]

/-- All pieces between occurrences of `c`; a text without `c` is its only piece. -/
def splitAll (c : Char) : List Char → List (List Char)
  | [] => [[]]
  | x :: rest =>
    if x == c then [] :: splitAll c rest
    else match splitAll c rest with
      | [] => [[x]]
      | piece :: pieces => (x :: piece) :: pieces

/-- Replaces every occurrence of the non-empty `pattern`, from left to right; replaced text is not
    searched again. -/
def replaceAll (pattern replacement : List Char) : List Char → List Char
  | [] => []
  | c :: rest =>
    if pattern.isPrefixOf (c :: rest) then
      replacement ++ replaceAll pattern replacement (rest.drop (pattern.length - 1))
    else c :: replaceAll pattern replacement rest
termination_by cs => cs.length
decreasing_by
  · simp only [List.length_cons, List.length_drop]; omega
  · exact Nat.lt_succ_self _

/-- The text without an opening `pattern`, if it opens with it. -/
def stripStart? (pattern cs : List Char) : Option (List Char) :=
  if pattern.isPrefixOf cs then some (cs.drop pattern.length) else none

/-- The text without a closing `pattern`, if it closes with it. -/
def stripEnd? (pattern cs : List Char) : Option (List Char) :=
  (stripStart? pattern.reverse cs.reverse).map List.reverse

end Repeater.Text
