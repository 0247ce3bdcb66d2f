/-
  Repeater/Proofs/Markup/Frames.lean
  ==================================
  **Markup with places for texts.**

  Two trees that are alike up to the texts in some of their elements are printed alike up to these
  texts. The markup they have in common is a frame: fixed markup with places in it, each a whole
  element in which a text is still to be put in (`Segment`). Both trees are printed as the one frame
  with their own texts (`Framing.outer_framed`).

  How a text comes out is up to the element. As a rule its characters are escaped, so that it can
  bring no tag into the markup (`innerText_plain`); in scripts and styles it is written as it is.
-/
import Repeater.Proofs.Dom.Shapes
import Repeater.Proofs.Markup.Layout
import Repeater.Proofs.Stamp.Texts

namespace Repeater.Markup

open Dom Dom.Tree Stamp

variable {t t' : Tree} {x y : NodeId} {e e' : Element} {limit limit' depth depth' : Nat}
  {s s' a a' : String} {value value' : String → String} {P : Element → String → Prop}
  {R : NodeId → NodeId → Prop}

/-! ## Frames -/

/-- What is written of a text in an element. -/
def innerText (e : Element) (s : String) : String :=
  if rawTags.contains e.tag then s else escapeText s

/-- Outside of scripts and styles a text shows no character that could begin or end a tag. -/
theorem innerText_plain (h : rawTags.contains e.tag = false) (s : String) :
    ∀ c ∈ (innerText e s).toList, c ≠ '<' ∧ c ≠ '>' := by
  have hall : ∀ {s : List Char} {d}, d ∈ s → (s.all fun d => d != '<' && d != '>') = true →
      d ≠ '<' ∧ d ≠ '>' := fun hd h => by simpa using List.all_eq_true.1 h _ hd
  have hescaped : ∀ c, ∀ d ∈ escapeTextChar c, d ≠ '<' ∧ d ≠ '>' := by
    intro c d hd
    unfold escapeTextChar at hd
    split at hd
    · exact hall hd (by decide)
    · exact hall hd (by decide)
    · exact hall hd (by decide)
    · next hlt hgt =>
      rw [List.mem_singleton] at hd
      subst hd
      exact ⟨hlt, hgt⟩
  intro d hd
  unfold innerText escapeText at hd
  rw [h, if_neg Bool.false_ne_true, String.toList_ofList] at hd
  obtain ⟨c, -, hc⟩ := List.mem_flatMap.1 hd
  exact hescaped c d hc

/-- A segment of markup: fixed, or an element with the text of a name in it. -/
inductive Segment where
  | fixed (s : String)
  | slot (e : Element) (name : String)
deriving DecidableEq, Repr

/-- The markup of a segment, where the names have these values. -/
def Segment.written (value : String → String) : Segment → String
  | fixed s => s
  | slot e name => startTag e ++ innerText e (value name) ++ endTag e

/-- The markup of a frame, where the names have these values. -/
def frameText (value : String → String) (frame : List Segment) : String :=
  String.join (frame.map (Segment.written value))

/-- Whether two texts are one frame with the two values of its names. The places of the frame
    satisfy `P`. -/
def Framed (P : Element → String → Prop) (value value' : String → String) (s s' : String) : Prop :=
  ∃ frame, (∀ e name, .slot e name ∈ frame → P e name) ∧ s = frameText value frame ∧
    s' = frameText value' frame

namespace Framed

theorem fixed (P : Element → String → Prop) (value value' : String → String) (s : String) :
    Framed P value value' s s :=
  ⟨[.fixed s], by simp, by simp [frameText, Segment.written], by simp [frameText, Segment.written]⟩

theorem mono {Q : Element → String → Prop} (h : Framed P value value' s s')
    (hPQ : ∀ e name, P e name → Q e name) : Framed Q value value' s s' := by
  obtain ⟨frame, hslots, htext, htext'⟩ := h
  exact ⟨frame, fun e name hmem => hPQ e name (hslots e name hmem), htext, htext'⟩

theorem slot {name : String} (h : P e name) :
    Framed P value value' (startTag e ++ innerText e (value name) ++ endTag e)
      (startTag e ++ innerText e (value' name) ++ endTag e) := by
  refine ⟨[.slot e name], fun e' name' hmem => ?_, by simp [frameText, Segment.written],
    by simp [frameText, Segment.written]⟩
  obtain ⟨rfl, rfl⟩ := Segment.slot.inj (List.mem_singleton.1 hmem)
  exact h

theorem append (h : Framed P value value' s s') (h' : Framed P value value' a a') :
    Framed P value value' (s ++ a) (s' ++ a') := by
  obtain ⟨frame, hslots, rfl, rfl⟩ := h
  obtain ⟨frame', hslots', rfl, rfl⟩ := h'
  refine ⟨frame ++ frame', fun e name hmem => ?_, by simp [frameText], by simp [frameText]⟩
  rcases List.mem_append.1 hmem with hmem | hmem
  · exact hslots e name hmem
  · exact hslots' e name hmem

theorem join {α β : Type} {f : α → String} {g : β → String} {l : List α} {l' : List β}
    (h : List.Forall₂ (fun a b => Framed P value value' (f a) (g b)) l l') :
    Framed P value value' (String.join (l.map f)) (String.join (l'.map g)) := by
  induction h with
  | nil => exact fixed P value value' ""
  | cons hab _ ih =>
    rw [List.map_cons, List.map_cons, String.join_cons, String.join_cons]
    exact hab.append ih

end Framed

/-- The characters with which tags begin and end, in their order. -/
def brackets (s : String) : List Char := s.toList.filter fun c => c = '<' ∨ c = '>'

theorem brackets_append (s s' : String) : brackets (s ++ s') = brackets s ++ brackets s' := by
  simp [brackets]

theorem brackets_innerText (h : rawTags.contains e.tag = false) (s : String) :
    brackets (innerText e s) = [] := by
  refine List.filter_eq_nil_iff.2 fun c hc => ?_
  obtain ⟨hlt, hgt⟩ := innerText_plain h s c hc
  simp [hlt, hgt]

/-- The values put no tags into a frame that has no place in scripts and styles. -/
theorem brackets_frameText {frame : List Segment}
    (h : ∀ e name, .slot e name ∈ frame → rawTags.contains e.tag = false)
    (value value' : String → String) :
    brackets (frameText value' frame) = brackets (frameText value frame) := by
  induction frame with
  | nil => rfl
  | cons segment rest ih =>
    have hrest := ih fun e name hmem => h e name (List.mem_cons_of_mem _ hmem)
    unfold frameText at hrest ⊢
    rw [List.map_cons, List.map_cons, String.join_cons, String.join_cons, brackets_append,
      brackets_append, hrest]
    congr 1
    cases segment with
    | fixed s => rfl
    | slot e name =>
      have hplain := h e name List.mem_cons_self
      simp only [Segment.written, brackets_append, brackets_innerText hplain]

/-! ## The markup of an element -/

/-- The markup of parts. -/
def partsText (parts : List Part) : String := String.join (parts.map Part.written)

/-- What is written between the tags of an element that has its children in `holder`. -/
def insideText (t : Tree) (limit depth : Nat) (e : Element) (holder : NodeId) : String :=
  if rawTags.contains e.tag then String.join ((t.children holder).filterMap t.text?)
  else String.join ((t.children holder).map fun kid => partsText (nodeParts t limit depth kid))

theorem partsText_flatMap (kids : List NodeId) (f : NodeId → List Part) :
    partsText (kids.flatMap f) = String.join (kids.map fun kid => partsText (f kid)) := by
  induction kids with
  | nil => rfl
  | cons kid rest ih =>
    rw [List.flatMap_cons, List.map_cons, String.join_cons, ← ih]
    simp [partsText]

theorem partsText_element (hx : t.element? x = some e) (limit depth : Nat) :
    partsText (nodeParts t (limit + 1) depth x) =
      if voidTags.contains e.tag then startTag e
      else startTag e ++ insideText t limit (depth + 1) e (e.contents.getD x) ++ endTag e := by
  have hcontent := element?_eq_some.1 hx
  simp only [nodeParts, hcontent]
  split
  · simp [partsText, Part.written]
  · have hsplit : ∀ inside : List Part,
        partsText (.opening depth x e :: (inside ++ [.closing depth x e])) =
          startTag e ++ partsText inside ++ endTag e := by
      intro inside
      simp [partsText, Part.written, String.append_assoc]
    rw [hsplit]
    unfold insideText
    split
    · have hraw : ∀ texts : List String, partsText (texts.map Part.raw) = String.join texts := by
        intro texts
        unfold partsText
        rw [List.map_map]
        exact congrArg String.join (List.map_id texts)
      rw [hraw]
    · rw [partsText_flatMap]

/-- What is written inside an element that holds one text and nothing else. -/
theorem insideText_of_holdsText (h : t.WellFormed) (hg : t.GroundedFrom x) (hx : HoldsText t x s)
    (hlimit : t.spread x ≤ limit + 1) : insideText t limit depth e x = innerText e s := by
  unfold HoldsText at hx
  unfold insideText innerText
  split at hx
  · next hempty =>
    obtain rfl : s = "" := String.isEmpty_iff.1 hempty
    rw [hx]
    split <;> rfl
  · obtain ⟨v, hv, hcontent⟩ := hx
    have hspread : t.spread v < t.spread x :=
      spread_lt h hg (encloses_of_parent (h.parent_of_child (by simp [hv])))
    have hpos : 0 < t.spread v := spread_pos (has_of_content hcontent)
    have htext : t.text? v = some s := by simp [text?, hcontent, Content.text?]
    obtain _ | limit := limit
    · omega
    rw [hv]
    split
    · simp [htext]
    · simp [partsText, nodeParts, hcontent, Part.written]

/-! ## Trees alike up to texts -/

/-- Nodes of two trees are paired such that paired nodes say the same, and either hold paired nodes,
    one by one, or are an element that holds the text of a name and nothing else. -/
structure Framing (t t' : Tree) (P : Element → String → Prop) (value value' : String → String)
    (R : NodeId → NodeId → Prop) : Prop where
  bare : ∀ x y, R x y → (t'.content? y).map Content.bare = (t.content? x).map Content.bare
  contents : ∀ x y, R x y → Option.Rel R (t.contents? x) (t'.contents? y)
  children : ∀ x y, R x y → List.Forall₂ R (t.children x) (t'.children y) ∨
    ∃ e name, t.element? x = some e ∧ P e name ∧ HoldsText t x (value name) ∧
      HoldsText t' y (value' name)

/-- Paired nodes with all that they enclose, as deep as the limits go. -/
structure Reach (t t' : Tree) (R : NodeId → NodeId → Prop) (limit limit' : Nat) (x y : NodeId) :
    Prop where
  paired : R x y
  has : t.Has x
  grounded : t.GroundedFrom x
  grounded' : t'.GroundedFrom y
  spread : t.spread x ≤ limit
  spread' : t'.spread y ≤ limit'

/-- The children of what two nodes are or hold do not go as deep as these. -/
theorem Reach.children (h : Reach t t' R (limit + 1) (limit' + 1) x y) (ht : t.WellFormed)
    (ht' : t'.WellFormed) {z w : NodeId} (hxz : t.AtOrEncloses x z) (hyw : t'.AtOrEncloses y w)
    (hpairs : List.Forall₂ R (t.children z) (t'.children w)) :
    List.Forall₂ (Reach t t' R limit limit') (t.children z) (t'.children w) := by
  refine (forall₂_mem hpairs).imp ?_
  rintro kid kid' ⟨hkid, hkid', hpair⟩
  have hinside := hxz.trans_encloses (encloses_of_parent (ht.parent_of_child hkid))
  have hinside' := hyw.trans_encloses (encloses_of_parent (ht'.parent_of_child hkid'))
  have hbelow := spread_lt ht h.grounded hinside
  have hbelow' := spread_lt ht' h.grounded' hinside'
  have hspread := h.spread
  have hspread' := h.spread'
  exact ⟨hpair, ht.has_of_child hkid, h.grounded.enclosed hinside.atOrEncloses,
    h.grounded'.enclosed hinside'.atOrEncloses, by omega, by omega⟩

/-- Whether paired nodes are printed as one frame, as deep as the limit goes. -/
def FramedTo (t t' : Tree) (P : Element → String → Prop) (value value' : String → String)
    (R : NodeId → NodeId → Prop) (limit : Nat) : Prop :=
  ∀ {limit' depth depth' x y}, Reach t t' R limit limit' x y →
    Framed P value value' (partsText (nodeParts t limit depth x))
      (partsText (nodeParts t' limit' depth' y))

theorem FramedTo.join {kids kids' : List NodeId} (h : FramedTo t t' P value value' R limit)
    (hkids : List.Forall₂ (Reach t t' R limit limit') kids kids') (depth depth' : Nat) :
    Framed P value value'
      (String.join (kids.map fun kid => partsText (nodeParts t limit depth kid)))
      (String.join (kids'.map fun kid => partsText (nodeParts t' limit' depth' kid))) :=
  Framed.join (hkids.imp fun _ _ hpair => h hpair)

namespace Framing

variable (h : Framing t t' P value value' R)
include h

theorem text?_eq (hxy : R x y) : t'.text? y = t.text? x := by
  have hfactor : ∀ content : Option Content,
      content.bind Content.text? = (content.map Content.bare).bind Content.text? := by
    rintro (_ | _ | _ | _ | _ | _ | _) <;> rfl
  unfold text?
  rw [hfactor, h.bare x y hxy, ← hfactor]

theorem texts_eq {kids kids' : List NodeId} (hkids : List.Forall₂ R kids kids') :
    kids'.filterMap t'.text? = kids.filterMap t.text? := by
  induction hkids with
  | nil => rfl
  | cons hxy _ ih => rw [List.filterMap_cons, List.filterMap_cons, h.text?_eq hxy, ih]

/-- A node that is no element holds what its partner holds, one by one. -/
theorem children_of_plain (hxy : R x y) (hx : t.element? x = none) :
    List.Forall₂ R (t.children x) (t'.children y) := by
  rcases h.children x y hxy with hkids | ⟨e, name, he, -⟩
  · exact hkids
  · rw [hx] at he
    cases he

/-- Equal tags with paired nodes between them are printed as one frame. -/
theorem framed_inside (hdone : FramedTo t t' P value value' R limit) {z w : NodeId}
    (hkids : List.Forall₂ (Reach t t' R limit limit') (t.children z) (t'.children w))
    (e : Element) (depth depth' : Nat) :
    Framed P value value' (startTag e ++ insideText t limit depth e z ++ endTag e)
      (startTag e ++ insideText t' limit' depth' e w ++ endTag e) := by
  have hfixed := Framed.fixed P value value'
  refine ((hfixed _).append ?_).append (hfixed _)
  unfold insideText
  split
  · rw [h.texts_eq (hkids.imp fun _ _ hpair => hpair.paired)]
    exact hfixed _
  · exact hdone.join hkids depth depth'

variable (ht : t.WellFormed) (ht' : t'.WellFormed)
include ht ht'

/-- Paired elements are printed as one frame, if this is so of what they enclose. -/
theorem framed_element (hdone : FramedTo t t' P value value' R limit)
    (hxy : Reach t t' R (limit + 1) (limit' + 1) x y) (he : t.element? x = some e) :
    Framed P value value' (partsText (nodeParts t (limit + 1) depth x))
      (partsText (nodeParts t' (limit' + 1) depth' y)) := by
  have hbare := h.bare x y hxy.paired
  rw [element?_eq_some.1 he] at hbare
  obtain ⟨content', hcontent', hbare⟩ := Option.map_eq_some_iff.1 hbare
  obtain ⟨e', rfl, htag, hattributes⟩ := Content.eq_element_of_bare hbare
  have he' := element?_eq_some.2 hcontent'
  have hstart : startTag e' = startTag e := by simp only [startTag, htag, hattributes]
  have hend : endTag e' = endTag e := by simp only [endTag, htag]
  have hsame : ∀ holder, insideText t' limit' (depth' + 1) e' holder =
      insideText t' limit' (depth' + 1) e holder := by
    intro holder
    simp only [insideText, htag]
  rw [partsText_element he, partsText_element he', hstart, hend, htag, hsame]
  split
  · exact Framed.fixed P value value' _
  have hcontents := h.contents x y hxy.paired
  have hown : t.contents? x = e.contents := by simp [contents?, he]
  have hown' : t'.contents? y = e'.contents := by simp [contents?, he']
  rw [hown, hown'] at hcontents
  generalize e.contents = holder at hcontents hown ⊢
  generalize e'.contents = holder' at hcontents hown' ⊢
  cases hcontents with
  | @some f f' hpair =>
    -- a template is printed with what it holds in place of its children
    have hplain : t.element? f = none := by
      simp [element?, ht.contents_fragment hown, Content.element?]
    exact h.framed_inside hdone (hxy.children ht ht' (encloses_of_contents hown).atOrEncloses
      (encloses_of_contents hown').atOrEncloses (h.children_of_plain hpair hplain)) e _ _
  | none =>
    rcases h.children x y hxy.paired with hpairs | ⟨e'', name, he'', hslot, hheld, hheld'⟩
    · exact h.framed_inside hdone (hxy.children ht ht' (.refl t x) (.refl t' y) hpairs) e _ _
    · obtain rfl := Option.some.inj (he.symm.trans he'')
      rw [Option.getD_none, Option.getD_none,
        insideText_of_holdsText ht hxy.grounded hheld hxy.spread,
        insideText_of_holdsText ht' hxy.grounded' hheld' hxy.spread']
      exact Framed.slot hslot

/-- Paired nodes are printed as one frame. -/
theorem framed (limit : Nat) : FramedTo t t' P value value' R limit := by
  induction limit with
  | zero =>
    intro limit' depth depth' x y hxy
    have hpos := spread_pos hxy.has
    have hspread := hxy.spread
    omega
  | succ limit ih =>
    intro limit' depth depth' x y hxy
    obtain ⟨content, hcontent⟩ := has_iff_content.1 hxy.has
    have hbare := h.bare x y hxy.paired
    rw [hcontent] at hbare
    obtain ⟨content', hcontent', hbare⟩ := Option.map_eq_some_iff.1 hbare
    obtain _ | limit' := limit'
    · have hpos := spread_pos (has_of_content hcontent')
      have hspread := hxy.spread'
      omega
    -- a document or a fragment is printed as its children
    have hkids : t.element? x = none → Framed P value value'
        (String.join ((t.children x).map fun kid => partsText (nodeParts t limit depth kid)))
        (String.join ((t'.children y).map fun kid =>
          partsText (nodeParts t' limit' depth' kid))) := by
      intro hplain
      have hpairs := h.children_of_plain hxy.paired hplain
      exact FramedTo.join ih (hxy.children ht ht' (.refl t x) (.refl t' y) hpairs) depth depth'
    cases content with
    | element e => exact h.framed_element ht ht' ih hxy (element?_eq_some.2 hcontent)
    | document | fragment =>
      obtain rfl := Content.eq_of_bare hbare rfl
      simpa only [nodeParts, hcontent, hcontent', partsText_flatMap] using
        hkids (by simp [element?, hcontent, Content.element?])
    | text | comment | doctype =>
      obtain rfl := Content.eq_of_bare hbare rfl
      simp only [nodeParts, hcontent, hcontent']
      exact Framed.fixed P value value' _

/-- Trees that are alike up to texts are printed alike up to these texts. -/
theorem outer_framed (hg : t.GroundedFrom x) (hg' : t'.GroundedFrom y) (hxy : R x y)
    (hx : t.Has x) : Framed P value value' (outer t x .compact) (outer t' y .compact) := by
  rw [outer_compact, outer_compact]
  exact h.framed ht ht' t.size ⟨hxy, hx, hg, hg', spread_le_size t x, spread_le_size t' y⟩

end Framing

end Repeater.Markup
