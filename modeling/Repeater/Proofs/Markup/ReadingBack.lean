/-
  Repeater/Proofs/Markup/ReadingBack.lean
  =======================================
  **Compact markup says what was printed.**

  For nodes of a large class, the compact form tells everything about the node (`outer_injective`):
  what is written of two nodes is the same only if the nodes have one inside. The class leaves out
  what the printer writes as it is or not at all: scripts and styles, names with characters that
  could end them, comments that could end early, children of void elements and of templates, and
  texts that are empty or stand side by side.

  The argument reads the markup from the left. Every part ends at a character that it does not hold,
  a text at the next `<`, a value at its quote, a name at the first character that is no name
  character, so two ways to read the same characters agree part by part (`eq_of_written`).
-/
import Mathlib.Data.List.Chain
import Repeater.Markup.Printer
import Repeater.Proofs.Dom.Documents
import Repeater.Proofs.Dom.Isomorphisms
import Repeater.Proofs.Dom.LinkedEdits
import Repeater.Proofs.Hook.Lexing
import Repeater.Proofs.Markup.Pictures

namespace Repeater.Markup

open Dom Dom.Tree Hook

variable {t t' : Tree} {x x' : NodeId} {rest rest' : List Char} {limit : Nat}

/-! ## Escapes -/

/-- Reads one character back, whichever way it is written. -/
def readEscaped : List Char → Option (Char × List Char)
  | '&' :: 'a' :: 'm' :: 'p' :: ';' :: rest => some ('&', rest)
  | '&' :: 'l' :: 't' :: ';' :: rest => some ('<', rest)
  | '&' :: 'g' :: 't' :: ';' :: rest => some ('>', rest)
  | '&' :: 'q' :: 'u' :: 'o' :: 't' :: ';' :: rest => some ('"', rest)
  | c :: rest => some (c, rest)
  | [] => none

theorem readEscaped_plain {c : Char} (hc : c ≠ '&') (rest : List Char) :
    readEscaped (c :: rest) = some (c, rest) := by
  unfold readEscaped
  split <;> simp_all

theorem readEscaped_text (c : Char) (rest : List Char) :
    readEscaped (escapeTextChar c ++ rest) = some (c, rest) := by
  unfold escapeTextChar
  split
  · rfl
  · rfl
  · rfl
  · next hamp _ _ => exact readEscaped_plain hamp rest

theorem readEscaped_value (c : Char) (rest : List Char) :
    readEscaped (escapeValueChar c ++ rest) = some (c, rest) := by
  unfold escapeValueChar
  split
  · rfl
  · exact readEscaped_text c rest

/-- Characters that can be read back one by one can be read back together. -/
theorem flatMap_injective {code : Char → List Char}
    (hread : ∀ c rest, readEscaped (code c ++ rest) = some (c, rest)) :
    Function.Injective fun cs : List Char => cs.flatMap code := by
  have hne : ∀ c rest, code c ++ rest ≠ [] := by
    intro c rest hnil
    have hnone := hread c rest
    rw [hnil] at hnone
    cases hnone
  intro cs
  induction cs with
  | nil =>
    rintro (_ | ⟨d, ds⟩) hsame
    · rfl
    · exact absurd hsame.symm (hne d _)
  | cons c cs ih =>
    rintro (_ | ⟨d, ds⟩) hsame
    · exact absurd hsame (hne c _)
    · have hfirst := congrArg readEscaped hsame
      simp only [List.flatMap_cons, hread, Option.some.injEq, Prod.mk.injEq] at hfirst
      obtain ⟨rfl, hrest⟩ := hfirst
      rw [ih hrest]

theorem lt_not_mem_escapeTextChar (c : Char) : ∀ d ∈ escapeTextChar c, d ≠ '<' := by
  unfold escapeTextChar
  split
  · exact List.forall_mem_ne'.2 (by decide)
  · exact List.forall_mem_ne'.2 (by decide)
  · exact List.forall_mem_ne'.2 (by decide)
  · next hlt _ => exact fun d hd => List.mem_singleton.1 hd ▸ hlt

theorem quote_not_mem_escapeValueChar (c : Char) : ∀ d ∈ escapeValueChar c, d ≠ '"' := by
  unfold escapeValueChar escapeTextChar
  split
  · exact List.forall_mem_ne'.2 (by decide)
  · next hquote =>
    split
    · exact List.forall_mem_ne'.2 (by decide)
    · exact List.forall_mem_ne'.2 (by decide)
    · exact List.forall_mem_ne'.2 (by decide)
    · exact fun d hd => List.mem_singleton.1 hd ▸ hquote

/-- A written text does not hold the character that would end it. -/
theorem lt_not_mem_text (cs : List Char) : ∀ c ∈ cs.flatMap escapeTextChar, c ≠ '<' := by
  intro c hc
  obtain ⟨d, -, hd⟩ := List.mem_flatMap.1 hc
  exact lt_not_mem_escapeTextChar d c hd

/-- A written value does not hold the character that would end it. -/
theorem quote_not_mem_value (cs : List Char) : ∀ c ∈ cs.flatMap escapeValueChar, c ≠ '"' := by
  intro c hc
  obtain ⟨d, -, hd⟩ := List.mem_flatMap.1 hc
  exact quote_not_mem_escapeValueChar d c hd

/-! ## Parts that end -/

/-- Two ways to read a run agree. -/
theorem run_unique {p : Char → Bool} {cs cs' : List Char} (h : Run p cs rest) (h' : Run p cs' rest')
    (hsame : cs ++ rest = cs' ++ rest') : cs = cs' ∧ rest = rest' := by
  obtain ⟨htake, hdrop⟩ := run_iff.1 ⟨rfl, h⟩
  obtain ⟨htake', hdrop'⟩ := run_iff.1 ⟨hsame, h'⟩
  exact ⟨htake.symm.trans htake', hdrop.symm.trans hdrop'⟩

/-- Two ways to read up to a character agree. -/
theorem ended_unique {stop : Char} {cs cs' : List Char} (h : ∀ c ∈ cs, c ≠ stop)
    (h' : ∀ c ∈ cs', c ≠ stop) (hsame : cs ++ stop :: rest = cs' ++ stop :: rest') :
    cs = cs' ∧ rest = rest' := by
  have hrun : ∀ {cs rest}, (∀ c ∈ cs, c ≠ stop) → Run (· != stop) cs (stop :: rest) := by
    intro cs rest h
    refine ⟨fun c hc => by simpa using h c hc, ?_⟩
    rintro c ⟨⟩
    simp
  obtain ⟨hcs, hstop⟩ := run_unique (hrun h) (hrun h') hsame
  exact ⟨hcs, (List.cons.inj hstop).2⟩

/-- A character of a tag or of the name of an attribute. -/
def isNameChar (c : Char) : Bool := c.isLower || c.isDigit || c == '-'

/-- A tag or the name of an attribute. -/
def Named (name : String) : Prop := name ≠ "" ∧ ∀ c ∈ name.toList, isNameChar c

/-- What stands after a name: a blank, an equals sign or the end of the tag. -/
theorem Named.run {name : String} {c : Char} (h : Named name) (hc : c = ' ' ∨ c = '=' ∨ c = '>') :
    Run isNameChar name.toList (c :: rest) := by
  refine ⟨h.2, ?_⟩
  rintro d ⟨⟩
  rcases hc with rfl | rfl | rfl <;> decide

theorem Named.head {name : String} (h : Named name) :
    ∃ c cs, name.toList = c :: cs ∧ isNameChar c := by
  rcases hlist : name.toList with _ | ⟨c, cs⟩
  · exact absurd (String.toList_eq_nil_iff.1 hlist) h.1
  · exact ⟨c, cs, rfl, h.2 c (by simp [hlist])⟩

/-! ## What is written -/

/-- The characters behind the name of an attribute. -/
def writtenValue (value : String) : List Char :=
  if value.isEmpty then []
  else '=' :: '"' :: (value.toList.flatMap escapeValueChar ++ ['"'])

/-- The characters of an attribute. -/
def writtenAttribute (a : Attribute) : List Char := ' ' :: (a.name.toList ++ writtenValue a.value)

/-- The characters of a doctype. -/
def writtenDoctype (name : String) : List Char := "<!DOCTYPE ".toList ++ name.toList ++ ['>']

/-- The characters of a tag and all that follows it up to the end tag. -/
def writtenElement (name : String) (attributes : List Attribute) (inside : List Char) : List Char :=
  '<' :: (name.toList ++ (attributes.flatMap writtenAttribute ++ '>' ::
    if voidTags.contains name then [] else inside ++ '<' :: '/' :: (name.toList ++ ['>'])))

mutual

/-- The characters of a node in compact markup. -/
def ParseNode.written : ParseNode → List Char
  | .doctype name => writtenDoctype name
  | .text s => s.toList.flatMap escapeTextChar
  | .comment s => '<' :: '!' :: '-' :: '-' :: (s.toList ++ ['-', '-', '>'])
  | .instruction _ => []
  | .element name attributes contents children =>
    writtenElement name attributes (writtenAll contents ++ writtenAll children)

/-- The characters of nodes in compact markup. -/
def writtenAll : List ParseNode → List Char
  | [] => []
  | node :: nodes => node.written ++ writtenAll nodes

end

/-! ## Tags -/

/-- The text goes on with another attribute or with the end of the tag. -/
def AfterValue (rest : List Char) : Prop := ∃ c more, rest = c :: more ∧ (c = ' ' ∨ c = '>')

theorem afterValue_attributes (attributes : List Attribute) (rest : List Char) :
    AfterValue (attributes.flatMap writtenAttribute ++ '>' :: rest) := by
  cases attributes with
  | nil => exact ⟨'>', rest, rfl, .inr rfl⟩
  | cons a attributes => exact ⟨' ', _, rfl, .inl rfl⟩

theorem writtenValue_cases (value : String) : value = "" ∧ writtenValue value = [] ∨
    writtenValue value = '=' :: '"' :: (value.toList.flatMap escapeValueChar ++ ['"']) := by
  unfold writtenValue
  split
  · next hempty => exact .inl ⟨String.isEmpty_iff.1 hempty, rfl⟩
  · exact .inr rfl

theorem not_equals_of_afterValue (h : AfterValue rest) (cs : List Char) : '=' :: cs ≠ rest := by
  obtain ⟨c, more, rfl, hc⟩ := h
  intro hsame
  obtain ⟨rfl, -⟩ := List.cons.inj hsame
  revert hc
  decide

/-- Two ways to read a value agree, one of which may be that there is none. -/
theorem value_unique {value value' : String} (h : AfterValue rest) (h' : AfterValue rest')
    (hsame : writtenValue value ++ rest = writtenValue value' ++ rest') :
    value = value' ∧ rest = rest' := by
  rcases writtenValue_cases value with ⟨hempty, hvalue⟩ | hvalue <;>
    rcases writtenValue_cases value' with ⟨hempty', hvalue'⟩ | hvalue' <;>
    rw [hvalue, hvalue'] at hsame
  · exact ⟨hempty.trans hempty'.symm, hsame⟩
  · exact absurd hsame.symm (not_equals_of_afterValue h _)
  · exact absurd hsame (not_equals_of_afterValue h' _)
  · have hquoted : value.toList.flatMap escapeValueChar ++ '"' :: rest =
        value'.toList.flatMap escapeValueChar ++ '"' :: rest' := by
      simpa using hsame
    obtain ⟨hcodes, hrest⟩ :=
      ended_unique (quote_not_mem_value _) (quote_not_mem_value _) hquoted
    exact ⟨String.toList_inj.1 (flatMap_injective readEscaped_value hcodes), hrest⟩

/-- A name ends where its value, another attribute or the end of the tag begins. -/
theorem Named.run_value {name : String} (h : Named name) (value : String) (hrest : AfterValue rest) :
    Run isNameChar name.toList (writtenValue value ++ rest) := by
  obtain ⟨c, more, rfl, hc⟩ := hrest
  rcases writtenValue_cases value with ⟨-, hvalue⟩ | hvalue
  · rw [hvalue]
    exact h.run (hc.imp id .inr)
  · rw [hvalue]
    exact h.run (.inr (.inl rfl))

theorem attributes_unique {attributes attributes' : List Attribute}
    (h : ∀ a ∈ attributes, Named a.name) (h' : ∀ a ∈ attributes', Named a.name)
    (hsame : attributes.flatMap writtenAttribute ++ '>' :: rest =
      attributes'.flatMap writtenAttribute ++ '>' :: rest') :
    attributes = attributes' ∧ rest = rest' := by
  induction attributes generalizing attributes' with
  | nil =>
    cases attributes' with
    | nil => exact ⟨rfl, (List.cons.inj hsame).2⟩
    | cons a' attributes' => cases (List.cons.inj hsame).1
  | cons a attributes ih =>
    cases attributes' with
    | nil => cases (List.cons.inj hsame).1
    | cons a' attributes' =>
      simp only [List.flatMap_cons, writtenAttribute, List.cons_append, List.append_assoc,
        List.cons.injEq, true_and] at hsame
      have hafter := afterValue_attributes attributes rest
      have hafter' := afterValue_attributes attributes' rest'
      have hname := h a List.mem_cons_self
      have hname' := h' a' List.mem_cons_self
      obtain ⟨hnames, hsame⟩ :=
        run_unique (hname.run_value a.value hafter) (hname'.run_value a'.value hafter') hsame
      obtain ⟨hvalues, hsame⟩ := value_unique hafter hafter' hsame
      obtain ⟨rfl, hrest⟩ := ih (fun b hb => h b (List.mem_cons_of_mem a hb))
        (fun b hb => h' b (List.mem_cons_of_mem a' hb)) hsame
      obtain ⟨name, value⟩ := a
      obtain ⟨name', value'⟩ := a'
      obtain rfl : name = name' := String.toList_inj.1 hnames
      obtain rfl : value = value' := hvalues
      exact ⟨rfl, hrest⟩

/-! ## Nodes -/

/-- Whether the node is a text. -/
def ParseNode.isText : ParseNode → Bool
  | .text _ => true
  | _ => false

mutual

/-- What is written of the node can be read back. -/
def ParseNode.Readable : ParseNode → Prop
  | .doctype _ => False
  | .text s => s ≠ ""
  | .comment s => '>' ∉ s.toList
  | .instruction _ => False
  | .element name attributes contents children =>
    Named name ∧ rawTags.contains name = false ∧ (∀ a ∈ attributes, Named a.name) ∧
      (voidTags.contains name → contents = [] ∧ children = []) ∧
      (if name = "template" then children = [] else contents = []) ∧
      ReadableAll contents ∧ ReadableAll children

/-- The nodes can be read back, and no two texts stand side by side. -/
def ReadableAll : List ParseNode → Prop
  | [] => True
  | node :: nodes => node.Readable ∧ ReadableAll nodes ∧
    (node.isText → ∀ next ∈ nodes.head?, next.isText = false)

end

/-- The text ends, or goes on with a tag or a comment. -/
def AfterText (rest : List Char) : Prop := ∀ c ∈ rest.head?, c = '<'

/-- How a node other than a text begins: a comment with an exclamation mark, an element with the
    first character of its tag. No end tag begins so. -/
theorem ParseNode.Readable.head {node : ParseNode} (h : node.Readable) (htext : node.isText = false) :
    ∃ c more, node.written = '<' :: c :: more ∧ c ≠ '/' := by
  cases node with
  | text s => cases htext
  | doctype name => simp only [ParseNode.Readable] at h
  | instruction s => simp only [ParseNode.Readable] at h
  | comment s =>
    simp only [ParseNode.written]
    exact ⟨'!', _, rfl, by decide⟩
  | element name attributes contents children =>
    simp only [ParseNode.Readable] at h
    obtain ⟨c, cs, hname, hc⟩ := h.1.head
    simp only [ParseNode.written, writtenElement, hname, List.cons_append]
    refine ⟨c, _, rfl, ?_⟩
    rintro rfl
    revert hc
    decide

/-- A text begins with none of the characters that begin something else. -/
theorem ParseNode.Readable.text_head {node : ParseNode} (h : node.Readable) (htext : node.isText) :
    ∃ c more, node.written = c :: more ∧ c ≠ '<' := by
  cases node with
  | text s =>
    simp only [ParseNode.Readable] at h
    simp only [ParseNode.written]
    rcases hlist : s.toList.flatMap escapeTextChar with _ | ⟨c, more⟩
    · have hnil : s.toList = [] := flatMap_injective readEscaped_text hlist
      exact absurd (String.toList_eq_nil_iff.1 hnil) h
    · exact ⟨c, more, rfl, lt_not_mem_text s.toList c (by simp [hlist])⟩
  | _ => cases htext

theorem ParseNode.Readable.not_endTag {node : ParseNode} (h : node.Readable) (more : List Char) :
    node.written ++ more ≠ '<' :: '/' :: rest := by
  intro hsame
  rcases htext : node.isText with _ | _
  · obtain ⟨c, cs, hwritten, hc⟩ := h.head htext
    rw [hwritten] at hsame
    exact hc (List.cons.inj (List.cons.inj hsame).2).1
  · obtain ⟨c, cs, hwritten, hc⟩ := h.text_head htext
    rw [hwritten] at hsame
    exact hc (List.cons.inj hsame).1

/-- What follows a text among readable nodes ends it. -/
theorem ReadableAll.afterText {node : ParseNode} {nodes : List ParseNode}
    (h : ReadableAll (node :: nodes)) (htext : node.isText) (rest : List Char) :
    AfterText (writtenAll nodes ++ '<' :: rest) := by
  simp only [ReadableAll] at h
  obtain ⟨-, hnodes, hapart⟩ := h
  intro c hc
  cases nodes with
  | nil =>
    simp only [writtenAll] at hc
    exact (Option.some.inj hc).symm
  | cons next nodes =>
    simp only [ReadableAll] at hnodes
    obtain ⟨d, more, hwritten, -⟩ := hnodes.1.head (hapart htext next rfl)
    simp only [writtenAll, hwritten] at hc
    exact (Option.some.inj hc).symm

theorem text_unique {s s' : String} (hrest : AfterText rest) (hrest' : AfterText rest')
    (hsame : s.toList.flatMap escapeTextChar ++ rest = s'.toList.flatMap escapeTextChar ++ rest') :
    s = s' ∧ rest = rest' := by
  have hrun : ∀ {s : String} {rest}, AfterText rest →
      Run (· != '<') (s.toList.flatMap escapeTextChar) rest := by
    intro s rest hrest
    refine ⟨fun c hc => by simpa using lt_not_mem_text s.toList c hc, fun c hc => ?_⟩
    simpa using hrest c hc
  obtain ⟨hcodes, htail⟩ := run_unique (hrun hrest) (hrun hrest') hsame
  exact ⟨String.toList_inj.1 (flatMap_injective readEscaped_text hcodes), htail⟩

theorem comment_unique {s s' : String} (h : '>' ∉ s.toList) (h' : '>' ∉ s'.toList)
    (hsame : s.toList ++ ['-', '-', '>'] ++ rest = s'.toList ++ ['-', '-', '>'] ++ rest') :
    s = s' ∧ rest = rest' := by
  have hends : ∀ {s : String}, '>' ∉ s.toList → ∀ c ∈ s.toList ++ ['-', '-'], c ≠ '>' := by
    rintro s h c hc rfl
    rcases List.mem_append.1 hc with hc | hc
    · exact h hc
    · revert hc
      decide
  have hsame' : (s.toList ++ ['-', '-']) ++ '>' :: rest =
      (s'.toList ++ ['-', '-']) ++ '>' :: rest' := by simpa using hsame
  obtain ⟨hcs, htail⟩ := ended_unique (hends h) (hends h') hsame'
  exact ⟨String.toList_inj.1 (List.append_cancel_right hcs), htail⟩

/-- Two ways to read an element have one start tag, and agree on what they find after it. -/
theorem startTag_unique {name name' : String} {attributes attributes' : List Attribute}
    {inside inside' : List Char} (h : Named name) (h' : Named name')
    (hnames : ∀ a ∈ attributes, Named a.name) (hnames' : ∀ a ∈ attributes', Named a.name)
    (hsame : writtenElement name attributes inside ++ rest =
      writtenElement name' attributes' inside' ++ rest') :
    name = name' ∧ attributes = attributes' ∧
      (if voidTags.contains name then rest = rest'
       else inside ++ '<' :: '/' :: (name.toList ++ '>' :: rest) =
        inside' ++ '<' :: '/' :: (name.toList ++ '>' :: rest')) := by
  have hrun : ∀ {name : String} {attributes : List Attribute} {rest}, Named name →
      Run isNameChar name.toList (attributes.flatMap writtenAttribute ++ '>' :: rest) := by
    intro name attributes rest h
    obtain ⟨c, more, hafter, hc⟩ := afterValue_attributes attributes rest
    rw [hafter]
    exact h.run (hc.imp id .inr)
  simp only [writtenElement, List.cons_append, List.append_assoc, List.cons.injEq,
    true_and] at hsame
  obtain ⟨hname, hattributes⟩ := run_unique (hrun h) (hrun h') hsame
  obtain rfl : name = name' := String.toList_inj.1 hname
  obtain ⟨rfl, htail⟩ := attributes_unique hnames hnames' hattributes
  refine ⟨rfl, rfl, ?_⟩
  by_cases hvoid : voidTags.contains name
  · rw [if_pos hvoid, if_pos hvoid] at htail
    rw [if_pos hvoid]
    exact htail
  · rw [if_neg hvoid, if_neg hvoid] at htail
    rw [if_neg hvoid]
    simpa using htail

/-- A tag begins with a character of a name, and a comment with an exclamation mark. -/
theorem Named.not_comment {name : String} (h : Named name) (attributes : List Attribute)
    (inside : List Char) : '<' :: '!' :: rest' ≠ writtenElement name attributes inside ++ rest := by
  obtain ⟨c, cs, hname, hc⟩ := h.head
  intro hsame
  simp only [writtenElement, hname, List.cons_append, List.cons.injEq, true_and] at hsame
  rw [← hsame.1] at hc
  revert hc
  decide

/-- A text begins otherwise than all else. -/
theorem ParseNode.Readable.written_ne_of_isText {node node' : ParseNode} (h : node.Readable)
    (h' : node'.Readable) (htext : node.isText) (hplain : node'.isText = false) :
    node.written ++ rest ≠ node'.written ++ rest' := by
  intro hsame
  obtain ⟨c, cs, hwritten, hc⟩ := h.text_head htext
  obtain ⟨d, ds, hwritten', -⟩ := h'.head hplain
  rw [hwritten, hwritten'] at hsame
  exact hc (List.cons.inj hsame).1

theorem ParseNode.isText_eq_of_written {node node' : ParseNode} (h : node.Readable)
    (h' : node'.Readable) (hsame : node.written ++ rest = node'.written ++ rest') :
    node.isText = node'.isText := by
  rcases htext : node.isText with _ | _ <;> rcases htext' : node'.isText with _ | _
  · rfl
  · exact absurd hsame.symm (h'.written_ne_of_isText h htext' htext)
  · exact absurd hsame (h.written_ne_of_isText h' htext htext')
  · rfl

mutual

/-- Two ways to read a node agree. -/
theorem ParseNode.written_unique (node node' : ParseNode) {rest rest' : List Char}
    (h : node.Readable) (h' : node'.Readable) (hrest : node.isText → AfterText rest)
    (hrest' : node'.isText → AfterText rest')
    (hsame : node.written ++ rest = node'.written ++ rest') : node = node' ∧ rest = rest' := by
  have hkind := ParseNode.isText_eq_of_written h h' hsame
  cases node with
  | doctype name => simp only [ParseNode.Readable] at h
  | instruction s => simp only [ParseNode.Readable] at h
  | text s =>
    cases node' with
    | text s' =>
      simp only [ParseNode.written] at hsame
      obtain ⟨rfl, htail⟩ := text_unique (hrest rfl) (hrest' rfl) hsame
      exact ⟨rfl, htail⟩
    | _ => cases hkind
  | comment s =>
    cases node' with
    | comment s' =>
      simp only [ParseNode.Readable] at h h'
      simp only [ParseNode.written, List.cons_append, List.cons.injEq, true_and] at hsame
      obtain ⟨rfl, htail⟩ := comment_unique h h' hsame
      exact ⟨rfl, htail⟩
    | text s' => cases hkind
    | doctype name => simp only [ParseNode.Readable] at h'
    | instruction s => simp only [ParseNode.Readable] at h'
    | element name' attributes' contents' children' =>
      simp only [ParseNode.Readable] at h'
      simp only [ParseNode.written] at hsame
      exact absurd hsame (h'.1.not_comment _ _)
  | element name attributes contents children =>
    cases node' with
    | text s' => cases hkind
    | doctype name => simp only [ParseNode.Readable] at h'
    | instruction s => simp only [ParseNode.Readable] at h'
    | comment s' =>
      simp only [ParseNode.Readable] at h
      simp only [ParseNode.written] at hsame
      exact absurd hsame.symm (h.1.not_comment _ _)
    | element name' attributes' contents' children' =>
      simp only [ParseNode.Readable] at h h'
      simp only [ParseNode.written] at hsame
      obtain ⟨hname, -, hnames, hvoid, hkinds, hcontents, hchildren⟩ := h
      obtain ⟨hname', -, hnames', hvoid', hkinds', hcontents', hchildren'⟩ := h'
      obtain ⟨rfl, rfl, htail⟩ := startTag_unique hname hname' hnames hnames' hsame
      split at htail
      · next hv =>
        obtain ⟨rfl, rfl⟩ := hvoid hv
        obtain ⟨rfl, rfl⟩ := hvoid' hv
        exact ⟨rfl, htail⟩
      · split at hkinds
        · next htemplate =>
          rw [if_pos htemplate] at hkinds'
          subst hkinds hkinds'
          simp only [writtenAll, List.append_nil] at htail
          obtain ⟨rfl, hclose⟩ := writtenAll_unique contents contents' hcontents hcontents' htail
          exact ⟨rfl, (List.cons.inj (List.append_cancel_left hclose)).2⟩
        · next htemplate =>
          rw [if_neg htemplate] at hkinds'
          subst hkinds hkinds'
          simp only [writtenAll, List.nil_append] at htail
          obtain ⟨rfl, hclose⟩ := writtenAll_unique children children' hchildren hchildren' htail
          exact ⟨rfl, (List.cons.inj (List.append_cancel_left hclose)).2⟩

theorem writtenAll_unique (nodes nodes' : List ParseNode) {rest rest' : List Char}
    (h : ReadableAll nodes) (h' : ReadableAll nodes')
    (hsame : writtenAll nodes ++ '<' :: '/' :: rest = writtenAll nodes' ++ '<' :: '/' :: rest') :
    nodes = nodes' ∧ rest = rest' := by
  cases nodes with
  | nil =>
    cases nodes' with
    | nil =>
      simp only [writtenAll, List.nil_append, List.cons.injEq, true_and] at hsame
      exact ⟨rfl, hsame⟩
    | cons node' nodes' =>
      simp only [ReadableAll] at h'
      simp only [writtenAll, List.append_assoc] at hsame
      exact absurd hsame.symm (h'.1.not_endTag _)
  | cons node nodes =>
    cases nodes' with
    | nil =>
      simp only [ReadableAll] at h
      simp only [writtenAll, List.append_assoc] at hsame
      exact absurd hsame (h.1.not_endTag _)
    | cons node' nodes' =>
      have hafter := fun htext => h.afterText htext ('/' :: rest)
      have hafter' := fun htext => h'.afterText htext ('/' :: rest')
      simp only [ReadableAll] at h h'
      simp only [writtenAll, List.append_assoc] at hsame
      obtain ⟨rfl, hmore⟩ := node.written_unique node' h.1 h'.1 hafter hafter' hsame
      obtain ⟨rfl, hrest⟩ := writtenAll_unique nodes nodes' h.2.1 h'.2.1 hmore
      exact ⟨rfl, hrest⟩

end

/-! ## What the printer writes -/

/-- The characters of a piece in the compact form. -/
def Piece.chars : Piece → List Char
  | .text s => s.toList
  | .lineBreak _ => []

theorem toList_render_compact (pieces : List Piece) :
    (Style.compact.render pieces).toList = pieces.flatMap Piece.chars := by
  have hfold : ∀ out, (pieces.foldl Style.compact.write out).toList =
      out.toList ++ pieces.flatMap Piece.chars := by
    induction pieces with
    | nil => simp
    | cons piece pieces ih =>
      intro out
      rw [List.foldl_cons, ih, List.flatMap_cons, ← List.append_assoc]
      cases piece with
      | text s => rw [Style.write, String.toList_append, Piece.chars]
      | lineBreak depth => rw [Piece.chars, List.append_nil]; rfl
  rw [Style.render, hfold]
  rfl

theorem toList_attributeText (a : Attribute) : (attributeText a).toList = writtenAttribute a := by
  unfold attributeText writtenAttribute writtenValue
  split
  · simp
  · simp [escapeValue]

theorem toList_startTag (e : Element) : (startTag e).toList =
    '<' :: (e.tag.toList ++ (e.attributes.flatMap writtenAttribute ++ ['>'])) := by
  have hjoin : (String.join (e.attributes.map attributeText)).toList =
      e.attributes.flatMap writtenAttribute := by
    rw [String.toList_join, List.flatMap_map]
    exact List.flatMap_congr fun a _ => toList_attributeText a
  simp [startTag, hjoin]

theorem toList_endTag (e : Element) : (endTag e).toList = '<' :: '/' :: (e.tag.toList ++ ['>']) := by
  simp [endTag]

mutual

/-- The printer writes of a node what its picture says. -/
theorem ParseNode.chars_nodePieces (h : t.WellFormed) (node : ParseNode) {x : NodeId} {limit : Nat}
    (depth : Nat) (hg : t.GroundedFrom x) (hlimit : t.spread x ≤ limit) (hx : node.Depicts t x)
    (hnode : node.Readable) : (nodePieces t limit depth x).flatMap Piece.chars = node.written := by
  obtain _ | limit := limit
  · have := spread_pos hx.has
    omega
  cases node with
  | doctype name => simp only [ParseNode.Readable] at hnode
  | instruction s => simp only [ParseNode.Readable] at hnode
  | text s =>
    simp only [ParseNode.Depicts] at hx
    simp [nodePieces, hx, ParseNode.written, escapeText, Piece.chars]
  | comment s =>
    simp only [ParseNode.Depicts] at hx
    simp [nodePieces, hx, ParseNode.written, Piece.chars]
  | element name attributes contents children =>
    simp only [ParseNode.Depicts] at hx
    simp only [ParseNode.Readable] at hnode
    obtain ⟨holder, hcontent, htemplate, hcontents, hchildren⟩ := hx
    obtain ⟨-, hraw, -, -, hkinds, hreadable, hreadable'⟩ := hnode
    -- what stands between the tags nests less deep
    have hkids : ∀ y, t.AtOrEncloses x y → ∀ kid ∈ t.children y,
        t.GroundedFrom kid ∧ t.spread kid ≤ limit := by
      intro y hxy kid hkid
      have henclosed : t.Encloses x kid :=
        hxy.trans_encloses (encloses_of_parent (h.parent_of_child hkid))
      have hspread := spread_lt h hg henclosed
      exact ⟨hg.enclosed henclosed.atOrEncloses, by omega⟩
    have hinside : ((t.children (holder.getD x)).flatMap (nodePieces t limit (depth + 1))).flatMap
        Piece.chars = writtenAll contents ++ writtenAll children := by
      rcases holder with _ | f
      · obtain rfl := depictAll_nil.1 hcontents
        have hown := hkids x (.refl t x)
        simp only [writtenAll, List.nil_append]
        exact chars_nodesPieces h children (depth + 1) (fun kid hkid => (hown kid hkid).1)
          (fun kid hkid => (hown kid hkid).2) hchildren hreadable'
      · obtain rfl : children = [] := by
          rwa [if_pos (beq_iff_eq.1 htemplate.symm)] at hkinds
        have hheld : t.contents? x = some f := contents?_eq_some.2 ⟨_, hcontent, rfl⟩
        have hown := hkids f (encloses_of_contents hheld).atOrEncloses
        simp only [writtenAll, List.append_nil]
        exact chars_nodesPieces h contents (depth + 1) (fun kid hkid => (hown kid hkid).1)
          (fun kid hkid => (hown kid hkid).2) hcontents hreadable
    have hbreak : ∀ b : Bool, (if b then [] else [Piece.lineBreak depth]).flatMap Piece.chars = [] := by
      rintro (_ | _) <;> rfl
    simp only [nodePieces, hcontent, hraw, ParseNode.written, writtenElement]
    split
    · simp [Piece.chars, toList_startTag]
    · simp only [Bool.false_eq_true, ↓reduceIte, List.flatMap_append, hinside, hbreak]
      simp [Piece.chars, toList_startTag, toList_endTag]

theorem chars_nodesPieces (h : t.WellFormed) (nodes : List ParseNode) {ids : List NodeId}
    {limit : Nat} (depth : Nat) (hg : ∀ x ∈ ids, t.GroundedFrom x)
    (hlimit : ∀ x ∈ ids, t.spread x ≤ limit) (hids : DepictAll t nodes ids)
    (hnodes : ReadableAll nodes) :
    (ids.flatMap (nodePieces t limit depth)).flatMap Piece.chars = writtenAll nodes := by
  cases nodes with
  | nil =>
    simp only [DepictAll] at hids
    subst hids
    simp only [writtenAll]
    rfl
  | cons node nodes =>
    simp only [DepictAll] at hids
    simp only [ReadableAll] at hnodes
    obtain ⟨x, rest, rfl, hx, hrest⟩ := hids
    have hnode := node.chars_nodePieces h depth (hg x List.mem_cons_self)
      (hlimit x List.mem_cons_self) hx hnodes.1
    have hmore := chars_nodesPieces h nodes depth (fun y hy => hg y (List.mem_cons_of_mem x hy))
      (fun y hy => hlimit y (List.mem_cons_of_mem x hy)) hrest hnodes.2.1
    rw [List.flatMap_cons, List.flatMap_append, hnode, hmore]
    simp only [writtenAll]

end

/-! ## The class -/

/-- What the printer can write so that it can be read back. -/
def Legible : Content → Prop
  | .document | .doctype _ => False
  | .fragment => True
  | .text s => s ≠ ""
  | .comment s => '>' ∉ s.toList
  | .element e => Named e.tag ∧ rawTags.contains e.tag = false ∧ (∀ a ∈ e.attributes, Named a.name) ∧
    (e.isTemplate → e.contents.isSome)

/-- What the class asks of a node: what it says can be read back, a void element and a template have
    no children, and no two texts stand side by side. -/
def LegibleAt (t : Tree) (x : NodeId) : Prop :=
  (∃ content ∈ t.content? x, Legible content) ∧
  (∀ e ∈ t.element? x, voidTags.contains e.tag ∨ e.isTemplate → t.children x = []) ∧
  (t.children x).IsChain fun y z => (t.text? y).isSome → t.text? z = none

/-- The class of nodes for which the compact form tells everything. -/
def LegibleFrom (t : Tree) (root : NodeId) : Prop := ∀ x, t.AtOrEncloses root x → LegibleAt t x

theorem LegibleFrom.enclosed (h : LegibleFrom t x) (hx : t.AtOrEncloses x x') :
    LegibleFrom t x' := fun y hy => h y (hx.trans hy)

theorem LegibleFrom.drawable (h : LegibleFrom t x) : Drawable t x := by
  intro y hy
  obtain ⟨⟨content, hcontent, hlegible⟩, -⟩ := h y hy
  refine ⟨content, hcontent, ?_, ?_⟩
  · rintro rfl
    exact hlegible
  · rintro e rfl
    exact hlegible.2.2.2

theorem LegibleFrom.legible (h : LegibleFrom t x) {content : Content}
    (hcontent : t.content? x = some content) : Legible content := by
  obtain ⟨⟨content', hcontent', hlegible⟩, -⟩ := h x (.refl t x)
  rwa [← Option.some.inj (hcontent.symm.trans hcontent')] at hlegible

theorem LegibleFrom.children_eq_nil (h : LegibleFrom t x) {e : Element} (he : t.element? x = some e)
    (hempty : voidTags.contains e.tag ∨ e.isTemplate) : t.children x = [] :=
  (h x (.refl t x)).2.1 e he hempty

theorem ParseNode.Depicts.isText_eq {node : ParseNode} (h : node.Depicts t x) :
    node.isText = (t.text? x).isSome := by
  cases node with
  | doctype name | text s | comment s =>
    simp only [ParseNode.Depicts] at h
    simp [ParseNode.isText, text?, h, Content.text?]
  | instruction s => simp only [ParseNode.Depicts] at h
  | element name attributes contents children =>
    simp only [ParseNode.Depicts] at h
    obtain ⟨holder, hcontent, -⟩ := h
    simp [ParseNode.isText, text?, hcontent, Content.text?]

mutual

theorem ParseNode.readable_of_depicts (h : t.WellFormed) (node : ParseNode) {x : NodeId}
    (hx : node.Depicts t x) (hlegible : LegibleFrom t x) : node.Readable := by
  cases node with
  | doctype name =>
    simp only [ParseNode.Depicts] at hx
    exact absurd (hlegible.legible hx) id
  | instruction s => simp only [ParseNode.Depicts] at hx
  | text s =>
    simp only [ParseNode.Depicts] at hx
    simp only [ParseNode.Readable]
    exact hlegible.legible hx
  | comment s =>
    simp only [ParseNode.Depicts] at hx
    simp only [ParseNode.Readable]
    exact hlegible.legible hx
  | element name attributes contents children =>
    simp only [ParseNode.Depicts] at hx
    obtain ⟨holder, hcontent, htemplate, hcontents, hchildren⟩ := hx
    obtain ⟨hname, hraw, hnames, -⟩ := hlegible.legible hcontent
    have helement := element?_eq_some.2 hcontent
    have hplain : name ≠ "template" → holder = none := by
      intro hne
      rw [beq_eq_false_iff_ne.2 hne] at htemplate
      exact Option.not_isSome_iff_eq_none.1 (by simp [htemplate])
    have hnone : name ≠ "template" → contents = [] := by
      intro hne
      obtain rfl := hplain hne
      exact depictAll_nil.1 hcontents
    have hempty : t.children x = [] → children = [] := by
      intro hnil
      rw [hnil] at hchildren
      exact depictAll_nil.1 hchildren
    have hkids : ∀ y, t.AtOrEncloses x y → ∀ kid ∈ t.children y, LegibleFrom t kid := by
      intro y hxy kid hkid
      have hparent := encloses_of_parent (h.parent_of_child hkid)
      exact hlegible.enclosed (hxy.trans_encloses hparent).atOrEncloses
    simp only [ParseNode.Readable]
    refine ⟨hname, hraw, hnames, ?_, ?_, ?_, ?_⟩
    · intro hvoid
      refine ⟨hnone ?_, hempty (hlegible.children_eq_nil helement (.inl hvoid))⟩
      rintro rfl
      revert hvoid
      decide
    · split
      · next htag =>
        exact hempty (hlegible.children_eq_nil helement (.inr (beq_iff_eq.2 htag)))
      · next htag => exact hnone htag
    · rcases holder with _ | f
      · rw [depictAll_nil.1 hcontents]
        simp only [ReadableAll]
      · have hf := (encloses_of_contents
          (contents?_eq_some.2 ⟨_, hcontent, rfl⟩ : t.contents? x = some f)).atOrEncloses
        exact readableAll_of_depictAll h contents hcontents (hkids f hf) (hlegible f hf).2.2
    · exact readableAll_of_depictAll h children hchildren (hkids x (.refl t x))
        (hlegible x (.refl t x)).2.2

theorem readableAll_of_depictAll (h : t.WellFormed) (nodes : List ParseNode) {ids : List NodeId}
    (hids : DepictAll t nodes ids) (hlegible : ∀ x ∈ ids, LegibleFrom t x)
    (hapart : ids.IsChain fun y z => (t.text? y).isSome → t.text? z = none) :
    ReadableAll nodes := by
  cases nodes with
  | nil => simp only [ReadableAll]
  | cons node nodes =>
    simp only [DepictAll] at hids
    obtain ⟨x, rest, rfl, hx, hrest⟩ := hids
    obtain ⟨hfirst, hapart⟩ := List.isChain_cons.1 hapart
    simp only [ReadableAll]
    refine ⟨node.readable_of_depicts h hx (hlegible x List.mem_cons_self),
      readableAll_of_depictAll h nodes hrest
        (fun y hy => hlegible y (List.mem_cons_of_mem x hy)) hapart, ?_⟩
    intro htext next hnext
    cases nodes with
    | nil => cases hnext
    | cons _ nodes =>
      cases hnext
      simp only [DepictAll] at hrest
      obtain ⟨y, rest, rfl, hy, -⟩ := hrest
      rw [hy.isText_eq, hfirst y rfl (hx.isText_eq ▸ htext)]
      rfl

end

/-- Compact markup can be read back: elements of the class that are printed alike have one inside,
    tags, attributes, texts, comments and the contents of templates included. -/
theorem outer_injective (h : t.WellFormed) (h' : t'.WellFormed) (hg : t.GroundedFrom x)
    (hg' : t'.GroundedFrom x') (hx : LegibleFrom t x) (hx' : LegibleFrom t' x')
    (helement : t.isElement x) (helement' : t'.isElement x')
    (hsame : outer t x .compact = outer t' x' .compact) : ∃ φ, t.Isomorphism x t' x' φ := by
  have hplain : ∀ {u : Tree} {y}, u.isElement y → u.content? y ≠ some .fragment := by
    intro u y hy hfragment
    simp [isElement, element?, hfragment, Content.element?] at hy
  have hchars : ∀ {u : Tree} {y} {node : ParseNode}, u.WellFormed → u.GroundedFrom y →
      node.Depicts u y → node.Readable → (outer u y .compact).toList = node.written := by
    intro u y node hu hgu hy hnode
    rw [outer, toList_render_compact]
    exact node.chars_nodePieces hu 0 hgu (spread_le_size u y) hy hnode
  obtain ⟨node, hnode⟩ := exists_depicts h hg hx.drawable (hplain helement)
  obtain ⟨node', hnode'⟩ := exists_depicts h' hg' hx'.drawable (hplain helement')
  have hreadable := node.readable_of_depicts h hnode hx
  have hreadable' := node'.readable_of_depicts h' hnode' hx'
  have hwritten : node.written ++ [] = node'.written ++ [] := by
    rw [← hchars h hg hnode hreadable, ← hchars h' hg' hnode' hreadable', hsame]
  have hend : AfterText [] := by
    intro c hc
    cases hc
  obtain ⟨rfl, -⟩ := node.written_unique node' hreadable hreadable' (fun _ => hend)
    (fun _ => hend) hwritten
  exact exists_isomorphism h h' hg hg' hnode.has hnode'.has (shape_of_depicts h' h node hnode' hnode)

/-! The class can be checked on any list of nodes that holds all that is inside. -/

instance (name : String) : Decidable (Named name) :=
  decidable_of_iff (name ≠ "" ∧ name.toList.all isNameChar) (and_congr_right' List.all_eq_true)

instance : DecidablePred Legible
  | .document | .doctype _ => inferInstanceAs (Decidable False)
  | .fragment => inferInstanceAs (Decidable True)
  | .text _ => inferInstanceAs (Decidable (_ ≠ _))
  | .comment _ => inferInstanceAs (Decidable (¬ _))
  | .element _ => inferInstanceAs (Decidable (_ ∧ _))

instance (t : Tree) (x : NodeId) : Decidable (LegibleAt t x) :=
  inferInstanceAs (Decidable (_ ∧ _ ∧ _))

theorem legibleFrom_of_closed (ids : List NodeId) (h : t.WellFormed) (hx : x ∈ ids)
    (hchildren : ∀ y ∈ ids, ∀ kid ∈ t.children y, kid ∈ ids)
    (hcontents : ∀ y ∈ ids, ∀ f ∈ t.contents? y, f ∈ ids) (hids : ∀ y ∈ ids, LegibleAt t y) :
    LegibleFrom t x := by
  intro y hy
  refine hids y ?_
  induction hy with
  | refl => exact hx
  | tail _ hstep ih =>
    rcases hstep with hparent | hheld
    · exact hchildren _ ih _ (h.child_of_parent hparent)
    · exact hcontents _ ih _ hheld

/-- A list with a template in its template, made in two ways: the ids differ. -/
theorem outer_injective_nest :
    let list := Tree.empty.after
      [.createElement "ul", .createElement "template", .createText "a < b", .createElement "br",
        .setAttribute (.slot 2) "id" "rows", .insert (.slot 1) (.slot 2) none,
        .insert (.slot 3) (.slot 4) none, .insert (.slot 3) (.slot 5) none]
    let list' := Tree.empty.after
      [.createComment "away", .createElement "ul", .createElement "template", .createElement "br",
        .createText "a < b", .setAttribute (.slot 3) "id" "rows", .insert (.slot 2) (.slot 3) none,
        .insert (.slot 4) (.slot 6) none, .insert (.slot 4) (.slot 5) none]
    outer list (.slot 1) .compact = outer list' (.slot 2) .compact ∧
      ∃ φ, list.Isomorphism (.slot 1) list' (.slot 2) φ := by
  intro list list'
  have hlist : list.WellFormed := (edited_after Tree.empty _).wellFormed wellFormed_empty
  have hlist' : list'.WellFormed := (edited_after Tree.empty _).wellFormed wellFormed_empty
  have hgrounded : list.Grounded := InOrder.grounded (by decide +kernel)
  have hgrounded' : list'.Grounded := InOrder.grounded (by decide +kernel)
  have hlegible : LegibleFrom list (.slot 1) :=
    legibleFrom_of_closed [.slot 1, .slot 2, .slot 3, .slot 4, .slot 5] hlist (by decide)
      (by decide +kernel) (by decide +kernel) (by decide +kernel)
  have hlegible' : LegibleFrom list' (.slot 2) :=
    legibleFrom_of_closed [.slot 2, .slot 3, .slot 4, .slot 5, .slot 6] hlist' (by decide)
      (by decide +kernel) (by decide +kernel) (by decide +kernel)
  have hsame : outer list (.slot 1) .compact = outer list' (.slot 2) .compact := by decide +kernel
  exact ⟨hsame, outer_injective hlist hlist' (hgrounded.groundedFrom _) (hgrounded'.groundedFrom _)
    hlegible hlegible' (by decide +kernel) (by decide +kernel) hsame⟩

end Repeater.Markup
