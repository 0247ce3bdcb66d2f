/-
  Repeater/Proofs/Text/Ends.lean
  ==============================
  **The ends of a text.**

  A text is trimmed when neither its first nor its last character is blank. Trimming gives such a
  text and keeps it; and what is stripped off an end is what stood there.
-/
import Mathlib.Data.List.DropRight
import Repeater.Text.Blank
import Repeater.Text.Split

namespace Repeater.Text

variable {cs rest pattern body : List Char} {c opening closing : Char}

/-! ## Trimming -/

/-- A text without blank characters at its ends. -/
structure Trimmed (cs : List Char) : Prop where
  first : ∀ c ∈ cs.head?, isBlank c = false
  last : ∀ c ∈ cs.getLast?, isBlank c = false

theorem trimList_eq_rdropWhile (cs : List Char) :
    trimList cs = (cs.dropWhile isBlank).rdropWhile isBlank := rfl

theorem Trimmed.trimList (h : Trimmed cs) : trimList cs = cs := by
  have hfirst : cs.dropWhile isBlank = cs := by
    refine List.dropWhile_eq_self_iff.2 fun hl => ?_
    simp [h.first cs[0] (by simp [List.head?_eq_getElem?, hl])]
  rw [trimList_eq_rdropWhile, hfirst]
  refine List.rdropWhile_eq_self_iff.2 fun hl => ?_
  simp [h.last (cs.getLast hl) (List.getLast?_eq_some_getLast hl)]

theorem trimmed_trimList (cs : List Char) : Trimmed (trimList cs) where
  first c hc := by
    obtain ⟨after, hafter⟩ := List.rdropWhile_prefix isBlank (cs.dropWhile isBlank)
    have hhead : (cs.dropWhile isBlank).head? = some c := by
      rw [← hafter, List.head?_append, ← trimList_eq_rdropWhile, Option.mem_def.1 hc,
        Option.some_or]
    have hnot := List.head?_dropWhile_not isBlank cs
    rwa [hhead] at hnot
  last c hc := by
    obtain ⟨hne, rfl⟩ := List.mem_getLast?_eq_getLast hc
    exact Bool.eq_false_iff.2 (List.rdropWhile_last_not isBlank _ hne)

theorem trimmed_iff : Trimmed cs ↔ trimList cs = cs :=
  ⟨Trimmed.trimList, fun h => h ▸ trimmed_trimList cs⟩

/-- Behind a first character that is not blank, only the end counts. -/
theorem trimmed_cons (hc : isBlank c = false) :
    Trimmed (c :: cs) ↔ ∀ d ∈ cs.getLast?, isBlank d = false := by
  constructor
  · intro h d hd
    exact h.last d (by simp [List.getLast?_cons, Option.mem_def.1 hd])
  · refine fun h => ⟨by simp [hc], fun d hd => ?_⟩
    cases cs with
    | nil => simp_all
    | cons next rest => exact h d (by simpa [List.getLast?_cons_cons] using hd)

theorem trimmed_between (hopening : isBlank opening = false) (hclosing : isBlank closing = false)
    (body : List Char) : Trimmed (opening :: (body ++ [closing])) :=
  (trimmed_cons hopening).2 (by simp [hclosing])

theorem mem_of_mem_trimList (h : c ∈ trimList cs) : c ∈ cs :=
  (List.dropWhile_suffix _).subset ((List.rdropWhile_prefix _ _).subset h)

/-! ## Stripping -/

theorem stripStart?_eq_some : stripStart? pattern cs = some rest ↔ cs = pattern ++ rest := by
  rw [stripStart?, Option.ite_none_right_eq_some, List.isPrefixOf_iff_prefix]
  constructor
  · rintro ⟨⟨after, rfl⟩, ⟨⟩⟩
    simp
  · rintro rfl
    simp

theorem stripEnd?_eq_some : stripEnd? pattern cs = some rest ↔ cs = rest ++ pattern := by
  rw [stripEnd?, Option.map_eq_some_iff]
  constructor
  · rintro ⟨back, hback, rfl⟩
    simpa using congrArg List.reverse (stripStart?_eq_some.1 hback)
  · rintro rfl
    exact ⟨rest.reverse, stripStart?_eq_some.2 (by simp), by simp⟩

/-- A text between two characters. -/
theorem strip_eq_some : (stripStart? [opening] cs).bind (stripEnd? [closing]) = some body ↔
    cs = opening :: (body ++ [closing]) := by
  simp [Option.bind_eq_some_iff, stripStart?_eq_some, stripEnd?_eq_some]

end Repeater.Text
