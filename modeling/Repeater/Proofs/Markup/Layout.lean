/-
  Repeater/Proofs/Markup/Layout.lean
  ==================================
  **Where the pretty form breaks lines.**

  The markup of a node is a row of parts: the tags of elements, texts, comments and document types
  (`nodeParts`). The compact form writes them one after the other. The pretty form writes the same
  parts and begins a new line in front of some: of a start tag, unless nothing has been written yet,
  and of an end tag if the element has element children (`outer_pretty`). Since lines are broken
  between parts only, none is broken inside a tag or a comment.

  Neither is one broken inside an element that holds nothing but texts, comments and document types.
  To have no element children is not enough for that. A document node may be put into an element,
  and what it holds is then written in its place, with a line for each start tag
  (`not_unbroken_nested`).
-/
import Repeater.Markup.Printer
import Repeater.Proofs.Dom.Documents
import Repeater.Proofs.Dom.LinkedEdits
import Repeater.Proofs.Dom.Nesting
import Repeater.Proofs.Lists

namespace Repeater.Markup

open Dom Dom.Tree

variable {t : Tree} {x y : NodeId} {e : Element} {depth limit : Nat} {indent : String}

/-! ## Parts -/

/-- A part of the markup of a node that no line is broken in. A tag says which element it is of, and
    at which depth the element stands. -/
inductive Part where
  | opening (depth : Nat) (x : NodeId) (e : Element)
  | closing (depth : Nat) (x : NodeId) (e : Element)
  | text (s : String)
  /-- A text that is written as it is. -/
  | raw (s : String)
  | comment (s : String)
  | doctype (name : String)
deriving DecidableEq, Repr

namespace Part

/-- The markup of a part. -/
def written : Part → String
  | opening _ _ e => startTag e
  | closing _ _ e => endTag e
  | text s => escapeText s
  | raw s => s
  | comment s => "<!--" ++ s ++ "-->"
  | doctype name => "<!DOCTYPE " ++ name ++ ">"

/-- Whether the part is a start tag or an end tag. -/
def isTag : Part → Bool
  | opening .. | closing .. => true
  | _ => false

/-- The depth of the line that may begin with the part. -/
def break? (t : Tree) : Part → Option Nat
  | opening depth _ _ => some depth
  | closing depth x e =>
    if (t.elementChildren (e.contents.getD x)).isEmpty then none else some depth
  | _ => none

/-- What the printer makes of a part. -/
def pieces (t : Tree) (part : Part) : List Piece :=
  ((part.break? t).map Piece.lineBreak).toList ++ [.text part.written]

theorem break?_eq_none {part : Part} (h : part.isTag = false) : part.break? t = none := by
  cases part <;> first | rfl | cases h

end Part

/-- The parts of the nodes below one node and at it, nested at most `limit` deep, where the node
    itself stands at `depth`. -/
def nodeParts (t : Tree) : Nat → Nat → NodeId → List Part
  | 0, _, _ => []
  | limit + 1, depth, x =>
    match t.content? x with
    | none => []
    | some .document | some .fragment => (t.children x).flatMap (nodeParts t limit depth)
    | some (.element e) =>
      if voidTags.contains e.tag then [.opening depth x e]
      else
        let holder := e.contents.getD x
        let inside :=
          if rawTags.contains e.tag then ((t.children holder).filterMap t.text?).map .raw
          else (t.children holder).flatMap (nodeParts t limit (depth + 1))
        .opening depth x e :: (inside ++ [.closing depth x e])
    | some (.text s) => [.text s]
    | some (.comment s) => [.comment s]
    | some (.doctype name) => [.doctype name]

/-- The parts of a node with everything in it. -/
def outerParts (t : Tree) (x : NodeId) : List Part := nodeParts t t.size 0 x

/-- The printer writes parts. -/
theorem nodePieces_eq (t : Tree) (limit depth : Nat) (x : NodeId) :
    nodePieces t limit depth x = (nodeParts t limit depth x).flatMap (Part.pieces t) := by
  induction limit generalizing depth x with
  | zero => rfl
  | succ limit ih =>
    have hkids : ∀ (kids : List NodeId) depth, kids.flatMap (nodePieces t limit depth) =
        (kids.flatMap (nodeParts t limit depth)).flatMap (Part.pieces t) := by
      intro kids depth
      rw [List.flatMap_assoc]
      exact List.flatMap_congr fun kid _ => ih depth kid
    have hraw : ∀ texts : List String,
        texts.map Piece.text = (texts.map Part.raw).flatMap (Part.pieces t) := by
      intro texts
      rw [List.flatMap_map, List.map_eq_flatMap]
      rfl
    rcases hx : t.content? x with _ | _ | _ | _ | e | _ | _
    case some.element =>
      simp only [nodePieces, nodeParts, hx]
      split
      · rfl
      · split
        · rw [hraw]
          split <;> simp_all [Part.pieces, Part.break?, Part.written]
        · rw [hkids]
          split <;> simp_all [Part.pieces, Part.break?, Part.written]
    all_goals simp only [nodePieces, nodeParts, hx, hkids]
    all_goals rfl

/-! ## Tags in the row of parts -/

/-- What the parts of a node can be. -/
inductive Makeup (t : Tree) (limit depth : Nat) (x : NodeId) : List Part → Prop where
  /-- A text, a comment, a document type or nothing. -/
  | leaf {parts : List Part} (h : ∀ part ∈ parts, part.isTag = false) : Makeup t limit depth x parts
  /-- A document or a fragment. -/
  | kids : Makeup t limit depth x ((t.children x).flatMap (nodeParts t limit depth))
  | void {e : Element} (hx : t.element? x = some e) (htag : voidTags.contains e.tag) :
      Makeup t limit depth x [.opening depth x e]
  | element {e : Element} {inside : List Part} (hx : t.element? x = some e)
      (hinside : (∀ part ∈ inside, part.isTag = false) ∨
        inside = (t.children (e.contents.getD x)).flatMap (nodeParts t limit (depth + 1))) :
      Makeup t limit depth x (.opening depth x e :: (inside ++ [.closing depth x e]))

theorem makeup_nodeParts (t : Tree) (limit depth : Nat) (x : NodeId) :
    Makeup t limit depth x (nodeParts t (limit + 1) depth x) := by
  rcases hx : t.content? x with _ | _ | _ | _ | e | _ | _ <;> simp only [nodeParts, hx]
  case some.document => exact .kids
  case some.fragment => exact .kids
  case some.element =>
    have he := element?_eq_some.2 hx
    split
    · next htag => exact .void he htag
    · refine .element he ?_
      split
      · refine .inl fun part hpart => ?_
        obtain ⟨s, -, rfl⟩ := List.mem_map.1 hpart
        rfl
      · exact .inr rfl
  all_goals exact .leaf (by simp [Part.isTag])

/-- A tag among the parts is that of an element, and a start tag has the parts of its element after
    it. -/
theorem opening_split {before rest : List Part} {d : Nat}
    (h : nodeParts t limit depth x = before ++ .opening d y e :: rest) :
    t.element? y = some e ∧
      ∃ limit' after, .opening d y e :: rest = nodeParts t (limit' + 1) d y ++ after := by
  induction limit generalizing depth x before rest with
  | zero => simp [nodeParts] at h
  | succ limit ih =>
    have hkids : ∀ {kids : List NodeId} {depth before rest},
        kids.flatMap (nodeParts t limit depth) = before ++ .opening d y e :: rest →
        t.element? y = some e ∧
          ∃ limit' after, .opening d y e :: rest = nodeParts t (limit' + 1) d y ++ after := by
      intro kids depth before rest h
      obtain ⟨_, kid, last, front, back, -, hkid, -, rfl⟩ := flatMap_eq_append_cons h
      obtain ⟨hy, limit', after, hafter⟩ := ih hkid
      exact ⟨hy, limit', after ++ last.flatMap (nodeParts t limit depth), by
        rw [← List.append_assoc, ← hafter, List.cons_append]⟩
    have hmakeup := makeup_nodeParts t limit depth x
    generalize hparts : nodeParts t (limit + 1) depth x = parts at h hmakeup
    cases hmakeup with
    | leaf hleaf => exact absurd (hleaf (.opening d y e) (by simp [h])) (by simp [Part.isTag])
    | kids => exact hkids h
    | void hx =>
      rcases before with _ | ⟨first, before⟩
      · obtain ⟨hfirst, rfl⟩ := List.cons.inj h
        obtain ⟨rfl, rfl, rfl⟩ := Part.opening.inj hfirst
        exact ⟨hx, limit, [], by rw [hparts, List.append_nil]⟩
      · simp at h
    | element hx hinside =>
      rcases before with _ | ⟨first, before⟩
      · obtain ⟨hfirst, hrest⟩ := List.cons.inj h
        obtain ⟨rfl, rfl, rfl⟩ := Part.opening.inj hfirst
        exact ⟨hx, limit, [], by rw [hparts, List.append_nil, hrest]⟩
      · obtain ⟨-, hrest⟩ := List.cons.inj h
        rcases append_eq_append_cons hrest with ⟨before', -, hlast⟩ | ⟨last, hin, rfl⟩
        · -- the last part of the element is an end tag
          rcases before' with _ | ⟨_, before'⟩
          · cases (List.cons.inj hlast).1
          · simp at hlast
        · rcases hinside with hplain | rfl
          · exact absurd (hplain (.opening d y e) (by simp [hin])) (by simp [Part.isTag])
          · obtain ⟨hy, limit', after, hafter⟩ := hkids hin
            exact ⟨hy, limit', after ++ [.closing _ _ _], by
              rw [← List.append_assoc, ← hafter, List.cons_append]⟩

/-- An end tag among the parts is that of an element, and its start tag stands before it. -/
theorem closing_split {before rest : List Part} {d : Nat}
    (h : nodeParts t limit depth x = before ++ .closing d y e :: rest) :
    t.element? y = some e ∧ .opening d y e ∈ before := by
  induction limit generalizing depth x before rest with
  | zero => simp [nodeParts] at h
  | succ limit ih =>
    have hkids : ∀ {kids : List NodeId} {depth before rest},
        kids.flatMap (nodeParts t limit depth) = before ++ .closing d y e :: rest →
        t.element? y = some e ∧ .opening d y e ∈ before := by
      intro kids depth before rest h
      obtain ⟨_, kid, _, front, back, -, hkid, rfl, -⟩ := flatMap_eq_append_cons h
      obtain ⟨hy, hopening⟩ := ih hkid
      exact ⟨hy, List.mem_append_right _ hopening⟩
    have hmakeup := makeup_nodeParts t limit depth x
    generalize nodeParts t (limit + 1) depth x = parts at h hmakeup
    cases hmakeup with
    | leaf hleaf => exact absurd (hleaf (.closing d y e) (by simp [h])) (by simp [Part.isTag])
    | kids => exact hkids h
    | void hx =>
      rcases before with _ | ⟨first, before⟩
      · cases (List.cons.inj h).1
      · simp at h
    | element hx hinside =>
      rcases before with _ | ⟨first, before⟩
      · cases (List.cons.inj h).1
      · obtain ⟨rfl, hrest⟩ := List.cons.inj h
        rcases append_eq_append_cons hrest with ⟨before', rfl, hlast⟩ | ⟨last, hin, rfl⟩
        · rcases before' with _ | ⟨_, before'⟩
          · obtain ⟨rfl, rfl, rfl⟩ := Part.closing.inj (List.cons.inj hlast).1
            exact ⟨hx, by simp⟩
          · simp at hlast
        · rcases hinside with hplain | rfl
          · exact absurd (hplain (.closing d y e) (by simp [hin])) (by simp [Part.isTag])
          · obtain ⟨hy, hopening⟩ := hkids hin
            exact ⟨hy, List.mem_cons_of_mem _ hopening⟩

/-- The parts of a node that can have no children. -/
theorem isTag_nodeParts_plain {content : Content} (hx : t.content? x = some content)
    (hholds : content.holdsChildren = false) : ∀ part ∈ nodeParts t limit depth x,
      part.isTag = false := by
  obtain _ | limit := limit
  · simp [nodeParts]
  · cases content <;> simp_all [nodeParts, Content.holdsChildren, Part.isTag]

/-- The parts of an element that holds nothing but texts, comments and document types. -/
theorem nodeParts_plain (hy : t.element? y = some e) (htag : voidTags.contains e.tag = false)
    (hkids : ∀ kid ∈ t.children (e.contents.getD y), ∀ content, t.content? kid = some content →
      content.holdsChildren = false) :
    ∃ inside, nodeParts t (limit + 1) depth y =
        .opening depth y e :: (inside ++ [.closing depth y e]) ∧
      ∀ part ∈ inside, part.isTag = false := by
  have hcontent := element?_eq_some.1 hy
  simp only [nodeParts, hcontent, htag, Bool.false_eq_true, if_false]
  refine ⟨_, rfl, fun part hpart => ?_⟩
  split at hpart
  · obtain ⟨s, -, rfl⟩ := List.mem_map.1 hpart
    rfl
  · obtain ⟨kid, hkid, hpart⟩ := List.mem_flatMap.1 hpart
    rcases hkind : t.content? kid with _ | content
    · obtain _ | limit := limit <;> simp [nodeParts, hkind] at hpart
    · exact isTag_nodeParts_plain hkind (hkids kid hkid content hkind) part hpart

/-! ## Lines -/

/-- What is written for a gap in front of a part. -/
def lineStart (indent : String) : Option Nat → String
  | none => ""
  | some depth => "\n" ++ String.join (List.replicate depth indent)

/-- The parts with the gaps in front of them, where `started` says whether anything has been written
    before. A gap is the depth of the line that begins there. -/
def layOut (t : Tree) : Bool → List Part → List (Option Nat × Part)
  | _, [] => []
  | started, part :: rest =>
    (if started then part.break? t else none, part) ::
      layOut t (started || !part.written.isEmpty) rest

/-- The markup of a node in the pretty form, as parts with gaps. -/
def layout (t : Tree) (x : NodeId) : List (Option Nat × Part) := layOut t false (outerParts t x)

theorem map_snd_layOut (t : Tree) (started : Bool) (parts : List Part) :
    (layOut t started parts).map (·.2) = parts := by
  induction parts generalizing started with
  | nil => rfl
  | cons part rest ih => rw [layOut, List.map_cons, ih]

theorem layOut_append (t : Tree) (started : Bool) (parts rest : List Part) :
    layOut t started (parts ++ rest) = layOut t started parts ++
      layOut t (started || parts.any (!·.written.isEmpty)) rest := by
  induction parts generalizing started with
  | nil => simp [layOut]
  | cons part parts ih => simp [layOut, ih, Bool.or_assoc]

/-- Parts that are no tags have no gaps in front of them. -/
theorem layOut_plain {parts : List Part} (h : ∀ part ∈ parts, part.isTag = false) (started : Bool) :
    layOut t started parts = parts.map (none, ·) := by
  induction parts generalizing started with
  | nil => rfl
  | cons part parts ih =>
    rw [layOut, Part.break?_eq_none (h part (by simp)), ite_self, List.map_cons,
      ih fun part' hpart' => h part' (by simp [hpart'])]

/-- The gap in front of a part depends on the part and on whether anything stands before it. -/
theorem layOut_eq_append_cons {started : Bool} {parts : List Part} {part : Part} {gap : Option Nat}
    {before rest : List (Option Nat × Part)}
    (h : layOut t started parts = before ++ (gap, part) :: rest) :
    parts = before.map (·.2) ++ part :: rest.map (·.2) ∧
      gap = (if started || (before.map (·.2)).any (!·.written.isEmpty) then part.break? t
        else none) ∧
      rest = layOut t (started || (before.map (·.2) ++ [part]).any (!·.written.isEmpty))
        (rest.map (·.2)) := by
  have hparts : parts = before.map (·.2) ++ part :: rest.map (·.2) := by
    have hmap := congrArg (List.map Prod.snd) h
    rw [map_snd_layOut] at hmap
    simpa using hmap
  rw [hparts, layOut_append] at h
  have hlength : (layOut t started (before.map (·.2))).length = before.length := by
    rw [← List.length_map (·.2), map_snd_layOut, List.length_map]
  obtain ⟨-, hhere⟩ := List.append_inj h hlength
  rw [layOut, List.cons.injEq, Prod.mk.injEq] at hhere
  refine ⟨hparts, hhere.1.1.symm, ?_⟩
  rw [List.any_append, List.any_cons, List.any_nil, Bool.or_false, ← Bool.or_assoc]
  exact hhere.2.symm

theorem isEmpty_append (s s' : String) : (s ++ s').isEmpty = (s.isEmpty && s'.isEmpty) := by
  rw [Bool.eq_iff_iff]
  simp

/-- The pretty form writes a gap and the part. -/
theorem foldl_write_part (t : Tree) (indent out : String) (part : Part) :
    (part.pieces t).foldl (Style.write { indent := some indent }) out =
      out ++ (lineStart indent (if !out.isEmpty then part.break? t else none) ++
        part.written) := by
  unfold Part.pieces
  rcases part.break? t with _ | depth
  · simp [Style.write, lineStart]
  · by_cases hout : out.isEmpty
    · simp [Style.write, lineStart, hout]
    · simp [Style.write, lineStart, hout, String.append_assoc]

theorem foldl_write_pretty (t : Tree) (indent out : String) (parts : List Part) :
    (parts.flatMap (Part.pieces t)).foldl (Style.write { indent := some indent }) out =
      out ++ String.join ((layOut t (!out.isEmpty) parts).map fun (gap, part) =>
        lineStart indent gap ++ part.written) := by
  induction parts generalizing out with
  | nil => simp [layOut]
  | cons part parts ih =>
    have hstarted : ∀ gap, (out.isEmpty = true → gap = none) →
        (!(out ++ (lineStart indent gap ++ part.written)).isEmpty) =
          (!out.isEmpty || !part.written.isEmpty) := by
      intro gap hgap
      rw [isEmpty_append]
      by_cases hout : out.isEmpty
      · simp [hout, hgap hout, lineStart]
      · simp [hout]
    rw [List.flatMap_cons, List.foldl_append, foldl_write_part, ih,
      hstarted _ fun hout => by simp [hout], layOut, List.map_cons, String.join_cons,
      String.append_assoc]

/-- The compact form writes the parts. -/
theorem foldl_write_compact (t : Tree) (out : String) (parts : List Part) :
    (parts.flatMap (Part.pieces t)).foldl (Style.write .compact) out =
      out ++ String.join (parts.map Part.written) := by
  induction parts generalizing out with
  | nil => simp
  | cons part parts ih =>
    have hpart : (part.pieces t).foldl (Style.write .compact) out = out ++ part.written := by
      unfold Part.pieces
      rcases part.break? t with _ | depth <;> rfl
    rw [List.flatMap_cons, List.foldl_append, hpart, ih, List.map_cons, String.join_cons,
      String.append_assoc]

/-- The printer writes parts one after the other. -/
theorem outer_compact (t : Tree) (x : NodeId) :
    outer t x .compact = String.join ((outerParts t x).map Part.written) := by
  have hpieces : outerPieces t x = (outerParts t x).flatMap (Part.pieces t) :=
    nodePieces_eq t t.size 0 x
  rw [outer, Style.render, hpieces, foldl_write_compact, String.empty_append]

/-- Where a part stands with its gap. In front of a start tag a line begins unless nothing has been
    written before, and in front of an end tag if the element has element children, in its contents
    for a template; in front of anything else none begins. -/
def Placed (t : Tree) (before : List (Option Nat × Part)) (gap : Option Nat) : Part → Prop
  | .opening depth y e => t.element? y = some e ∧
      gap = if ∀ part ∈ before.map (·.2), part.written = "" then none else some depth
  | .closing depth y e => t.element? y = some e ∧
      gap = if t.elementChildren (e.contents.getD y) = [] then none else some depth
  | _ => gap = none

theorem any_written {parts : List Part} :
    parts.any (!·.written.isEmpty) = true ↔ ¬ ∀ part ∈ parts, part.written = "" := by
  simp

theorem placed_of_layout {before rest : List (Option Nat × Part)} {gap : Option Nat} {part : Part}
    (h : layout t x = before ++ (gap, part) :: rest) : Placed t before gap part := by
  obtain ⟨hparts, hgap, -⟩ := layOut_eq_append_cons h
  rw [Bool.false_or] at hgap
  cases part with
  | opening depth y e =>
    refine ⟨(opening_split hparts).1, ?_⟩
    by_cases hnothing : ∀ part ∈ before.map (·.2), part.written = ""
    · rw [hgap, if_neg fun hany => any_written.1 hany hnothing, if_pos hnothing]
    · rw [hgap, if_pos (any_written.2 hnothing), if_neg hnothing]
      rfl
  | closing depth y e =>
    obtain ⟨hy, hopening⟩ := closing_split hparts
    refine ⟨hy, ?_⟩
    have hstart : startTag e ≠ "" := by simp [startTag]
    rw [hgap, if_pos (any_written.2 fun hnothing => hstart (hnothing _ hopening))]
    simp [Part.break?]
  | text | raw | comment | doctype =>
    rw [hgap, Part.break?_eq_none rfl, ite_self]
    rfl

/-- Children that are neither elements nor documents can have no children themselves. -/
theorem plain_of_elementChildren (h : t.WellFormed) (helements : t.elementChildren y = [])
    (hdocuments : ∀ kid ∈ t.children y, t.content? kid ≠ some .document) :
    ∀ kid ∈ t.children y, ∀ content, t.content? kid = some content →
      content.holdsChildren = false := by
  intro kid hkid content hcontent
  cases content with
  | document => exact absurd hcontent (hdocuments kid hkid)
  | fragment =>
    have hparent := h.fragment_parent hcontent
    rw [h.parent_of_child hkid] at hparent
    cases hparent
  | element e =>
    have hmem : kid ∈ t.elementChildren y :=
      List.mem_filter.2 ⟨hkid, by simp [isElement, element?_eq_some.2 hcontent]⟩
    rw [helements] at hmem
    cases hmem
  | doctype | text | comment => rfl

/-- The pretty form of a node is the compact form with line breaks between the parts. A line begins
    with a whole number of copies of the indentation. -/
theorem outer_pretty (h : t.WellFormed) (x : NodeId) (indent : String) :
    let laid := layout t x
    outer t x .compact = String.join (laid.map fun (_, part) => part.written) ∧
    outer t x { indent := some indent } =
      String.join (laid.map fun (gap, part) => lineStart indent gap ++ part.written) ∧
    (∀ before gap part rest, laid = before ++ (gap, part) :: rest → Placed t before gap part) ∧
    ∀ before gap depth y e rest, laid = before ++ (gap, .opening depth y e) :: rest →
      voidTags.contains e.tag = false → t.elementChildren (e.contents.getD y) = [] →
      (∀ kid ∈ t.children (e.contents.getD y), t.content? kid ≠ some .document) →
      ∃ (inside : List Part) (after : List (Option Nat × Part)),
        rest = inside.map (none, ·) ++ (none, .closing depth y e) :: after ∧
        ∀ part ∈ inside, part.isTag = false := by
  intro laid
  have hpieces : outerPieces t x = (outerParts t x).flatMap (Part.pieces t) :=
    nodePieces_eq t t.size 0 x
  refine ⟨?_, ?_, fun before gap part rest => placed_of_layout, ?_⟩
  · rw [outer_compact, ← map_snd_layOut t false (outerParts t x), List.map_map]
    rfl
  · rw [outer, Style.render, hpieces, foldl_write_pretty, String.empty_append]
    rfl
  · intro before gap depth y e rest hlaid hvoid helements hdocuments
    obtain ⟨hparts, -, hrest⟩ := layOut_eq_append_cons hlaid
    obtain ⟨hy, limit, after, hafter⟩ := opening_split hparts
    obtain ⟨inside, hnode, hplain⟩ := nodeParts_plain hy hvoid
      (plain_of_elementChildren h helements hdocuments)
    rw [hnode, List.cons_append, List.append_assoc] at hafter
    refine ⟨inside, layOut t true after, ?_, hplain⟩
    -- the start tag has been written, so the gaps do not depend on what stands before the element
    have hstart : startTag e ≠ "" := by simp [startTag]
    have hstarted :
        (before.map (·.2) ++ [Part.opening depth y e]).any (!·.written.isEmpty) = true :=
      any_written.2 fun hnothing => hstart (hnothing (.opening depth y e) (by simp))
    have hgap : (Part.closing depth y e).break? t = none := by simp [Part.break?, helements]
    rw [hrest, (List.cons.inj hafter).2, layOut_append, layOut_plain hplain, hstarted,
      List.singleton_append, layOut, hgap]
    simp

/-- A text beside a template with a paragraph. -/
def cardEdits : List Operation :=
  [.createElement "div", .createText "a<b", .createElement "template", .createElement "p",
    .insert (.slot 1) (.slot 2) none, .insert (.slot 1) (.slot 3) none,
    .insert (.slot 4) (.slot 5) none]

theorem outer_pretty_card :
    let t := Tree.empty.after cardEdits
    t.WellFormed ∧ outer t (.slot 1) .compact = "<div>a&lt;b<template><p></p></template></div>" ∧
      outer t (.slot 1) .pretty =
        "<div>a&lt;b\n  <template>\n    <p></p>\n  </template>\n</div>" := by
  intro t
  have ht : t.WellFormed := (edited_after Tree.empty cardEdits).wellFormed wellFormed_empty
  obtain ⟨hcompact, hpretty, -⟩ := outer_pretty ht (.slot 1) "  "
  have hlaid : (layout t (.slot 1)).map (fun (gap, part) => (gap, part.written)) =
      [(none, "<div>"), (none, "a&lt;b"), (some 1, "<template>"), (some 2, "<p>"), (none, "</p>"),
        (some 1, "</template>"), (some 0, "</div>")] := by decide +kernel
  have hwritten := congrArg (List.map Prod.snd) hlaid
  have hlines := congrArg (List.map fun (gap, s) => lineStart "  " gap ++ s) hlaid
  rw [List.map_map] at hwritten hlines
  refine ⟨ht, hcompact.trans ((congrArg String.join hwritten).trans (by decide +kernel)), ?_⟩
  exact hpretty.trans ((congrArg String.join hlines).trans (by decide +kernel))

/-! ## A document inside an element -/

/-- Whether no line is broken inside an element without element children. -/
def Unbroken (t : Tree) (x : NodeId) : Prop :=
  ∀ before gap depth y e rest, layout t x = before ++ (gap, .opening depth y e) :: rest →
    voidTags.contains e.tag = false → t.elementChildren (e.contents.getD y) = [] →
    ∃ (inside : List Part) (after : List (Option Nat × Part)),
      rest = inside.map (none, ·) ++ (none, .closing depth y e) :: after

/-- A copy of a document with one paragraph, put into an element. -/
def nestedEdits : List Operation :=
  [.createElement "div", .createElement "p", .insert .document (.slot 2) none,
    .copy .document true, .insert (.slot 1) (.slot 3) none]

theorem grounded_nested : (Tree.empty.after nestedEdits).Grounded :=
  InOrder.grounded (by decide +kernel)

/-- A line is broken in an element that has no element children, but holds a document. -/
theorem not_unbroken_nested :
    let t := Tree.empty.after nestedEdits
    t.WellFormed ∧ t.Grounded ∧ t.elementChildren (.slot 1) = [] ∧
      outer t (.slot 1) .compact = "<div><p></p></div>" ∧
      outer t (.slot 1) .pretty = "<div>\n  <p></p></div>" ∧ ¬ Unbroken t (.slot 1) := by
  intro t
  have hlayout : layout t (.slot 1) =
      [(none, .opening 0 (.slot 1) (.ofTag "div")), (some 1, .opening 1 (.slot 4) (.ofTag "p")),
        (none, .closing 1 (.slot 4) (.ofTag "p")),
        (none, .closing 0 (.slot 1) (.ofTag "div"))] := by
    decide +kernel
  refine ⟨(edited_after Tree.empty nestedEdits).wellFormed wellFormed_empty, grounded_nested,
    by decide +kernel, by decide +kernel, by decide +kernel, fun hunbroken => ?_⟩
  obtain ⟨inside, after, hrest⟩ :=
    hunbroken [] none 0 (.slot 1) (.ofTag "div") _ hlayout (by decide +kernel)
      (by decide +kernel)
  cases inside with
  | nil => simp at hrest
  | cons part inside => simp at hrest

end Repeater.Markup
