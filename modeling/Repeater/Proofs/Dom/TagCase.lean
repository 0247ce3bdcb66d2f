/-
  Repeater/Proofs/Dom/TagCase.lean
  ================================
  **The case of tags.**

  A new element has its tag in lower case as far as ASCII goes, and tags are compared without
  regard to the case of ASCII. Reading a selector brings all capitals of a tag to lower case, those
  beyond ASCII as well. So the text an element was made with finds the element again exactly if
  all its capitals are those of ASCII (`createElement_matches`).
-/
import Repeater.Proofs.Dom.WrittenSelectors
import Repeater.Proofs.Markup.Planting

namespace Repeater.Dom

open Text

variable {t : Tree} {name : String} {id : NodeId} {e : Element}

theorem Tree.satisfies_tag (h : t.element? id = some e) :
    t.satisfies id (.tag name) ↔ e.tag.toLower = name.toLower := by
  simp [satisfies, h, Selector.accepts]

theorem Tree.tag_withElement (t : Tree) (name : String) :
    ∃ e, (t.withElement name).element? (.slot t.size) = some e ∧ e.tag = name.toLower := by
  refine ⟨Markup.newElement name [] (t.size + 1), ?_, rfl⟩
  rw [element?_eq_some, content?, Markup.get?_withElement, if_pos rfl]
  rfl

/-- A text that starts with a letter of ASCII and has no blanks is read as a tag. -/
theorem Selector.parse?_tag {first : Char} {rest : List Char} (htext : name.toList = first :: rest)
    (hletter : first.isAlpha) (hblank : ∀ c ∈ name.toList, isBlank c = false) :
    parse? name = some (.tag (lowerCase name)) := by
  have htrimmed : Trimmed name.toList :=
    ⟨fun c hc => hblank c (List.mem_of_head? hc), fun c hc => hblank c (List.mem_of_getLast? hc)⟩
  have hsign (sign : Char) (hother : ¬ sign.isAlpha) : first ≠ sign := by
    rintro rfl
    exact hother hletter
  have hplain : IsPlain name.toList := by
    rw [htext]
    constructor
    case notEmpty => simp
    case notStar => simp [hsign '*']
    case notHash => simp [hsign '#']
    case notDot => simp [hsign '.']
    case notBracketed => simp [hsign '[']
  rw [parse?, htrimmed.trimList, ofTrimmed?_plain hplain, String.ofList_toList]

/-- Without regard to the case of ASCII, a text is what lower-casing makes of it exactly if no
    capital beyond ASCII stands in it. -/
theorem toLower_lowerCase : name.toLower.toLower = (lowerCase name).toLower ↔
    ∀ c ∈ name.toList, 0x80 ≤ c.toNat → smallLetters c = [c] := by
  have hmap (s : String) : s.toLower.toList = s.toList.map Char.toLower := String.toList_map
  have hascii : (name.toList.map Char.toLower).map Char.toLower = name.toList.map Char.toLower := by
    simp [toLower_toLower]
  rw [← lowerCaseAfter_eq_map [], ← String.toList_inj, hmap, hmap, hmap, hascii, lowerCase,
    String.toList_ofList, map_toLower_lowerCaseAfter, eq_comm]

/-- **An element is found again by the text it was made with exactly if the text has no capital
    beyond ASCII.** Texts that start with a letter of ASCII and have no blanks are read as tags,
    and an element can be made with any of them. -/
theorem createElement_matches (t : Tree) (name : String) {first : Char} {rest : List Char}
    (htext : name.toList = first :: rest) (hletter : first.isAlpha)
    (hblank : ∀ c ∈ name.toList, isBlank c = false) :
    ∃ t' selector, exec (Edit.createElement name) t = (.ok (.slot t.size), t') ∧
      Selector.parse? name = some selector ∧
      (t'.satisfies (.slot t.size) selector ↔
        ∀ c ∈ name.toList, 0x80 ≤ c.toNat → smallLetters c = [c]) := by
  obtain ⟨e, he, htag⟩ := t.tag_withElement name
  refine ⟨t.withElement name, .tag (lowerCase name), Edit.exec_createElement name t,
    Selector.parse?_tag htext hletter hblank, ?_⟩
  rw [Tree.satisfies_tag he, htag, toLower_lowerCase]

theorem createElement_matches_accent :
    ∃ t' selector, exec (Edit.createElement "aÉ") .empty = (.ok (.slot 1), t') ∧
      Selector.parse? "aÉ" = some selector ∧ ¬ t'.satisfies (.slot 1) selector := by
  obtain ⟨t', selector, hexec, hparse, hiff⟩ :=
    createElement_matches .empty "aÉ" rfl (by decide) (by simp; decide)
  refine ⟨t', selector, hexec, hparse, fun h => ?_⟩
  exact absurd (hiff.1 h 'É' (by decide) (by decide)) (by decide +kernel)

end Repeater.Dom
