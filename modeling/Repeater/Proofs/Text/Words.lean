/-
  Repeater/Proofs/Text/Words.lean
  ===============================
  **The words of a text.**

  A word has characters and none of them is blank. The words of a text are such words, and a text
  that is one word has itself for its only word. Texts that are joined with blanks have their words
  in a row (`words_intercalate`); so a list of words that is written out reads back as it was.
-/
import Repeater.Text.Blank

namespace Repeater.Text

variable {c : Char} {run cs rest w : List Char} {s : String}

/-- A text that is a single word. -/
structure IsWord (s : String) : Prop where
  ne_empty : s ≠ ""
  noBlank : ∀ c ∈ s.toList, isBlank c = false

/-! ## Runs of characters -/

/-- A blank ends what has been read so far, and reading starts anew behind it. -/
theorem wordsFrom_append_blank (hc : isBlank c) (run cs rest : List Char) :
    wordsFrom run (cs ++ c :: rest) = wordsFrom run cs ++ wordsFrom [] rest := by
  induction cs generalizing run with
  | nil =>
    rw [List.nil_append, wordsFrom, wordsFrom, if_pos hc]
    split <;> rfl
  | cons d cs ih =>
    rw [List.cons_append, wordsFrom, wordsFrom, ih, ih]
    split
    · split <;> rfl
    · rfl

/-- Characters that are not blank go to the run. -/
theorem wordsFrom_append (hw : ∀ c ∈ w, isBlank c = false) (run rest : List Char) :
    wordsFrom run (w ++ rest) = wordsFrom (w.reverse ++ run) rest := by
  induction w generalizing run with
  | nil => rfl
  | cons c w ih =>
    obtain ⟨hc, hrest⟩ := List.forall_mem_cons.1 hw
    rw [List.cons_append, wordsFrom, if_neg (by simp [hc]), ih hrest]
    simp

theorem noBlank_of_mem_wordsFrom (hrun : ∀ c ∈ run, isBlank c = false)
    (hw : w ∈ wordsFrom run cs) : w ≠ [] ∧ ∀ c ∈ w, isBlank c = false := by
  induction cs generalizing run with
  | nil =>
    rw [wordsFrom] at hw
    split at hw
    · cases hw
    · next hne =>
      rw [List.mem_singleton] at hw
      subst hw
      exact ⟨by simpa using hne, by simpa using hrun⟩
  | cons c cs ih =>
    rw [wordsFrom] at hw
    split at hw
    · split at hw
      · exact ih (by simp) hw
      · next hne =>
        rcases List.mem_cons.1 hw with rfl | hw
        · exact ⟨by simpa using hne, by simpa using hrun⟩
        · exact ih (by simp) hw
    · next hc =>
      apply ih _ hw
      intro d hd
      rcases List.mem_cons.1 hd with rfl | hd
      · simpa using hc
      · exact hrun d hd

/-! ## Words -/

theorem isWord_of_mem_words {word : String} (h : word ∈ words s) : IsWord word := by
  obtain ⟨w, hw, rfl⟩ := List.mem_map.1 h
  obtain ⟨hne, hblank⟩ := noBlank_of_mem_wordsFrom (by simp) hw
  refine ⟨?_, by simpa using hblank⟩
  intro hempty
  exact hne (by simpa using congrArg String.toList hempty)

theorem IsWord.words (h : IsWord s) : words s = [s] := by
  have hread := wordsFrom_append h.noBlank [] []
  rw [List.append_nil, List.append_nil] at hread
  have hne : s.toList ≠ [] := by simpa using h.ne_empty
  rw [Text.words, hread, wordsFrom, if_neg (by simpa using hne)]
  simp

theorem words_join (s u : String) : words (s ++ " " ++ u) = words s ++ words u := by
  have hblank : isBlank ' ' = true := by decide
  rw [words, String.toList_append, String.toList_append, List.append_assoc]
  rw [show " ".toList ++ u.toList = ' ' :: u.toList from rfl, wordsFrom_append_blank hblank,
    List.map_append]
  rfl

/-- The words of texts that are joined with blanks. -/
theorem words_intercalate (texts : List String) :
    words (" ".intercalate texts) = texts.flatMap words := by
  induction texts with
  | nil => rfl
  | cons s texts ih =>
    by_cases hlast : texts = []
    · simp [hlast]
    · rw [String.intercalate_cons_of_ne_nil hlast, words_join, ih, List.flatMap_cons]

/-- A list of words that is written out reads back. -/
theorem flatMap_words {list : List String} (h : ∀ word ∈ list, IsWord word) :
    list.flatMap words = list := by
  induction list with
  | nil => rfl
  | cons word list ih =>
    obtain ⟨hword, hrest⟩ := List.forall_mem_cons.1 h
    rw [List.flatMap_cons, hword.words, ih hrest, List.singleton_append]

end Repeater.Text
