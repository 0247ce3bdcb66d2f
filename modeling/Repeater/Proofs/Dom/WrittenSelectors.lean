/-
  Repeater/Proofs/Dom/WrittenSelectors.lean
  =========================================
  **Selectors that are written and read again.**

  Reading a selector forgets much of how it was written: blanks around it, the case of a tag, the
  quotes around a value. What it gives has one written form, and that form is read as the same
  selector. The two halves meet at `Proper`: reading gives nothing else (`proper_of_parse?`), and
  of the selectors these are the ones that are read back (`parse?_written_eq_some`). In a proper
  selector of an attribute the value is free, with quotes, brackets, equals signs and blanks.
-/
import Repeater.Dom.Selector
import Repeater.Proofs.Text.Ends
import Repeater.Proofs.Text.SmallLetters

namespace Repeater.Dom.Selector

open Text

variable {cs name body : List Char} {x : Selector} {s : String}

/-! ## What is read -/

/-- Characters that are read as a tag: no other form of a selector fits them. -/
structure IsPlain (cs : List Char) : Prop where
  notEmpty : cs ≠ []
  notStar : cs ≠ ['*']
  notHash : cs.head? ≠ some '#'
  notDot : cs.head? ≠ some '.'
  notBracketed : ∀ body, cs ≠ '[' :: (body ++ [']'])

/-- What characters without blank ends are read as. -/
inductive Reads : List Char → Selector → Prop
  | universal : Reads ['*'] universal
  | identifier (name : List Char) : Reads ('#' :: name) (identifier (String.ofList name))
  | className (name : List Char) : Reads ('.' :: name) (className (String.ofList name))
  | brackets {body : List Char} {x : Selector} (h : ofBrackets? body = some x) :
      Reads ('[' :: (body ++ [']'])) x
  | tag {cs : List Char} (h : IsPlain cs) : Reads cs (tag (lowerCase (String.ofList cs)))

theorem ofTrimmed?_brackets (body : List Char) :
    ofTrimmed? ('[' :: (body ++ [']'])) = ofBrackets? body := by
  have hstrip : (stripStart? ['['] ('[' :: (body ++ [']']))).bind (stripEnd? [']']) = some body :=
    strip_eq_some.2 rfl
  simp [ofTrimmed?, hstrip]

theorem ofTrimmed?_plain (h : IsPlain cs) :
    ofTrimmed? cs = some (tag (lowerCase (String.ofList cs))) := by
  have hstrip : (stripStart? ['['] cs).bind (stripEnd? [']']) = none :=
    Option.eq_none_iff_forall_ne_some.2 fun body hbody =>
      h.notBracketed body (strip_eq_some.1 hbody)
  unfold ofTrimmed?
  split
  · exact absurd rfl h.notEmpty
  · exact absurd rfl h.notStar
  · exact absurd rfl h.notHash
  · exact absurd rfl h.notDot
  · rw [hstrip]

theorem ofTrimmed?_eq_some : ofTrimmed? cs = some x ↔ Reads cs x := by
  constructor
  · intro h
    unfold ofTrimmed? at h
    split at h
    · cases h
    · cases h; exact .universal
    · cases h; exact .identifier _
    · cases h; exact .className _
    rename_i hnil hstar hhash hdot
    split at h
    · rename_i body hbody
      rw [strip_eq_some.1 hbody]
      exact .brackets h
    · rename_i hnone
      cases h
      refine .tag ⟨hnil, hstar, fun hhead => ?_, fun hhead => ?_, fun body hbody => ?_⟩
      · obtain ⟨name, rfl⟩ := List.head?_eq_some_iff.1 hhead
        exact hhash name rfl
      · obtain ⟨name, rfl⟩ := List.head?_eq_some_iff.1 hhead
        exact hdot name rfl
      · rw [strip_eq_some.2 hbody] at hnone
        cases hnone
  · intro h
    cases h with
    | universal => rfl
    | identifier name => rfl
    | className name => rfl
    | brackets h => rwa [ofTrimmed?_brackets]
    | tag h => exact ofTrimmed?_plain h

theorem parse?_eq_some : parse? s = some x ↔ Reads (trimList s.toList) x := ofTrimmed?_eq_some

/-! ## Names and values of attributes -/

/-- The name of an attribute as it can stand between brackets. -/
structure IsName (cs : List Char) : Prop where
  notEmpty : cs ≠ []
  noEquals : '=' ∉ cs
  trimmed : Trimmed cs

theorem isName_trimList (hne : trimList cs ≠ []) (hno : '=' ∉ cs) : IsName (trimList cs) :=
  ⟨hne, fun h => hno (mem_of_mem_trimList h), trimmed_trimList cs⟩

theorem unquote_quoted (value : List Char) : unquote ('"' :: (value ++ ['"'])) = value := by
  have hstrip : (stripStart? ['"'] ('"' :: (value ++ ['"']))).bind (stripEnd? ['"']) = some value :=
    strip_eq_some.2 rfl
  simp [unquote, hstrip]

theorem ofBrackets?_name (h : IsName name) :
    ofBrackets? name = some (hasAttribute (String.ofList name)) := by
  simp [ofBrackets?, splitFirst?_eq_none.2 h.noEquals, h.trimmed.trimList, h.notEmpty]

theorem ofBrackets?_value (h : IsName name) (value : List Char) :
    ofBrackets? (name ++ '=' :: '"' :: (value ++ ['"'])) =
      some (attributeIs (String.ofList name) (String.ofList value)) := by
  have hsplit : splitFirst? '=' (name ++ '=' :: '"' :: (value ++ ['"'])) =
      some (name, '"' :: (value ++ ['"'])) := splitFirst?_eq_some.2 ⟨h.noEquals, rfl⟩
  have hvalue : trimList ('"' :: (value ++ ['"'])) = '"' :: (value ++ ['"']) :=
    (trimmed_between (by decide) (by decide) value).trimList
  simp [ofBrackets?, hsplit, hvalue, unquote_quoted, h.trimmed.trimList, h.notEmpty]

/-! ## Tags -/

theorem not_isSmall {c : Char} (h : c.toNat < 0x61) : ¬ IsSmall c :=
  fun hsmall => absurd hsmall.fromA (by omega)

/-- Lower-casing keeps a sign that a tag must not start with from the start. -/
theorem head?_lowerCaseAfter_of_sign {c : Char} (hc : c.toNat < 0x61)
    (h : (lowerCaseAfter [] cs).head? = some c) : cs.head? = some c :=
  (head?_lowerCaseAfter h).resolve_right (not_isSmall hc)

theorem trimmed_lowerCaseAfter (h : Trimmed cs) : Trimmed (lowerCaseAfter [] cs) where
  first _ hc := (head?_lowerCaseAfter hc).elim (h.first _) (·.notBlank)
  last _ hc := (getLast?_lowerCaseAfter hc).elim (h.last _) (·.notBlank)

theorem IsPlain.lowerCaseAfter (h : IsPlain cs) : IsPlain (lowerCaseAfter [] cs) where
  notEmpty := fun hnil => h.notEmpty (lowerCaseAfter_eq_nil.1 hnil)
  notStar := fun hstar =>
    h.notStar ((lowerCaseAfter_eq_singleton hstar).resolve_right (not_isSmall (by decide)))
  notHash := fun hhash => h.notHash (head?_lowerCaseAfter_of_sign (by decide) hhash)
  notDot := fun hdot => h.notDot (head?_lowerCaseAfter_of_sign (by decide) hdot)
  notBracketed := by
    intro body hbody
    have hhead : cs.head? = some '[' :=
      head?_lowerCaseAfter_of_sign (by decide) (by rw [hbody, List.head?_cons])
    have hend : (Text.lowerCaseAfter [] cs).getLast? = some ']' := by
      simp [hbody, List.getLast?_cons]
    have hlast : cs.getLast? = some ']' :=
      (getLast?_lowerCaseAfter hend).resolve_right (not_isSmall (by decide))
    obtain ⟨rest, rfl⟩ := List.head?_eq_some_iff.1 hhead
    obtain ⟨front, hfront⟩ := List.getLast?_eq_some_iff.1 hlast
    cases front with
    | nil => simp at hfront
    | cons first front =>
      obtain ⟨rfl, rfl⟩ := List.cons.inj hfront
      exact h.notBracketed front rfl

/-! ## Selectors as they are read -/

/-- A selector as reading gives it: a tag in lower case that is read as one, a class or an id
    without blanks at its end, or a name that can stand between brackets, with any value. -/
def Proper : Selector → Prop
  | universal => True
  | tag name => IsPlain name.toList ∧ Trimmed name.toList ∧ lowerCase name = name
  | className name => ∀ c ∈ name.toList.getLast?, isBlank c = false
  | identifier name => ∀ c ∈ name.toList.getLast?, isBlank c = false
  | hasAttribute name => IsName name.toList
  | attributeIs name _ => IsName name.toList

theorem proper_of_ofBrackets? (h : ofBrackets? body = some x) : Proper x := by
  unfold ofBrackets? at h
  split at h
  · rename_i hsplit
    obtain ⟨hne, ⟨⟩⟩ := Option.ite_none_left_eq_some.1 h
    rw [Proper, String.toList_ofList]
    exact isName_trimList (by simpa using hne) (splitFirst?_eq_none.1 hsplit)
  · rename_i name value hsplit
    obtain ⟨hne, ⟨⟩⟩ := Option.ite_none_left_eq_some.1 h
    rw [Proper, String.toList_ofList]
    exact isName_trimList (by simpa using hne) (splitFirst?_eq_some.1 hsplit).1

theorem proper_of_reads (hcs : Trimmed cs) (h : Reads cs x) : Proper x := by
  cases h with
  | universal => trivial
  | identifier name => simpa [Proper] using (trimmed_cons (by decide)).1 hcs
  | className name => simpa [Proper] using (trimmed_cons (by decide)).1 hcs
  | brackets h => exact proper_of_ofBrackets? h
  | tag h =>
    refine ⟨?_, ?_, lowerCase_lowerCase _⟩
    · simpa [lowerCase] using h.lowerCaseAfter
    · simpa [lowerCase] using trimmed_lowerCaseAfter hcs

theorem proper_of_parse? (h : parse? s = some x) : Proper x :=
  proper_of_reads (trimmed_trimList s.toList) (parse?_eq_some.1 h)

theorem Proper.trimmed_written (h : Proper x) : Trimmed x.written.toList := by
  cases x with
  | universal => exact trimmed_iff.2 (by decide)
  | tag name => exact h.2.1
  | className name => simpa [written] using (trimmed_cons (by decide)).2 h
  | identifier name => simpa [written] using (trimmed_cons (by decide)).2 h
  | hasAttribute name => simpa [written] using trimmed_between (by decide) (by decide) name.toList
  | attributeIs name value =>
    simpa [written] using trimmed_between (by decide) (by decide)
      (name.toList ++ '=' :: '"' :: (value.toList ++ ['"']))

theorem Proper.reads_written (h : Proper x) : Reads x.written.toList x := by
  cases x with
  | universal => exact .universal
  | tag name => simpa [written, h.2.2] using Reads.tag h.1
  | className name => simpa [written] using Reads.className name.toList
  | identifier name => simpa [written] using Reads.identifier name.toList
  | hasAttribute name => simpa [written] using Reads.brackets (ofBrackets?_name h)
  | attributeIs name value =>
    simpa [written] using Reads.brackets (ofBrackets?_value h value.toList)

theorem parse?_written_eq_some : parse? x.written = some x ↔ Proper x := by
  refine ⟨proper_of_parse?, fun h => parse?_eq_some.2 ?_⟩
  rw [h.trimmed_written.trimList]
  exact h.reads_written

theorem isName_toList {name : String} (hne : name ≠ "") (hno : '=' ∉ name.toList)
    (htrim : trim name = name) : IsName name.toList where
  notEmpty := by simpa using hne
  noEquals := hno
  trimmed := trimmed_iff.2 (by simpa [trim] using congrArg String.toList htrim)

/-- **Every selector that was read is read again from its written form**, and so is every selector
    of an attribute whose name is not empty, has no equals sign and no blanks around it, whatever
    its value. -/
theorem written_reads_back :
    (∀ s x, parse? s = some x → parse? x.written = some x) ∧
    ∀ name value : String, name ≠ "" → '=' ∉ name.toList → trim name = name →
      parse? (hasAttribute name).written = some (hasAttribute name) ∧
      parse? (attributeIs name value).written = some (attributeIs name value) := by
  refine ⟨fun s x h => parse?_written_eq_some.2 (proper_of_parse? h), ?_⟩
  intro name value hne hno htrim
  have hname : IsName name.toList := isName_toList hne hno htrim
  exact ⟨parse?_written_eq_some.2 hname, parse?_written_eq_some.2 hname⟩

theorem written_reads_back_ends :
    parse? " ÄRGER\n" = some (tag "ärger") ∧ parse? (tag "ärger").written = some (tag "ärger") ∧
    parse? (attributeIs "s-temp" " =\"]' ").written = some (attributeIs "s-temp" " =\"]' ") :=
  have hread : parse? " ÄRGER\n" = some (tag "ärger") := by decide +kernel
  ⟨hread, written_reads_back.1 _ _ hread,
    (written_reads_back.2 "s-temp" " =\"]' " (by decide) (by decide) (by decide)).2⟩

end Repeater.Dom.Selector
