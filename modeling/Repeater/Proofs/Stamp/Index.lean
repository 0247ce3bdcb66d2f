/-
  Repeater/Proofs/Stamp/Index.lean
  ================================
  **What stamping the index tokens of a subtree does.**

  Each marked element goes through `stampedElement`: in the attributes that its mark lists, one
  after the other, the tokens are replaced. So an attribute listed once ends up with its tokens
  replaced once, and one that is not listed as it was (`get?_stampedElement`). On a well-formed tree
  stamping never fails, and where no template holds itself it sends exactly the marked elements that
  the root encloses through `stampedElement`, each once (`exec_stampIndex`).
-/
import Mathlib.Logic.Function.Iterate
import Repeater.Proofs.Dom.Shapes
import Repeater.Proofs.Stamp.IndexMarks

namespace Repeater

open Dom Tree

/-! ## Elements -/

namespace Dom.Element

theorem get?_cons (tag name : String) (contents : Option NodeId) (a : Attribute)
    (rest : List Attribute) : get? ⟨tag, a :: rest, contents⟩ name =
      if a.name = name then some a.value else get? ⟨tag, rest, contents⟩ name := by
  unfold get?
  rw [List.find?_cons]
  by_cases h : a.name = name
  · simp [h]
  · simp only [beq_false_of_ne h, h, if_false]

theorem get?_set (e : Element) (name value other : String) :
    (e.set name value).get? other = if other = name then some value else e.get? other := by
  obtain ⟨tag, attributes, contents⟩ := e
  unfold set
  dsimp only
  induction attributes with
  | nil => simp only [setIn, get?_cons, eq_comm]
  | cons a rest ih =>
    unfold setIn
    by_cases ha : a.name = name
    · simp only [ha, BEq.rfl, if_true, get?_cons]
      by_cases h : other = name
      · simp [h]
      · simp [h, Ne.symm h]
    · simp only [beq_iff_eq, ha, if_false, get?_cons, ih]
      by_cases h : other = name
      · simp [h, ha]
      · simp [h]

/-- Setting an attribute to the value it has changes nothing. -/
theorem set_of_get? {e : Element} {name value : String} (h : e.get? name = some value) :
    e.set name value = e := by
  obtain ⟨tag, attributes, contents⟩ := e
  unfold set
  suffices setIn name value attributes = attributes by rw [this]
  induction attributes with
  | nil => simp [get?] at h
  | cons a rest ih =>
    unfold setIn
    rw [get?_cons] at h
    by_cases ha : a.name = name
    · rw [if_pos ha, Option.some.injEq] at h
      rw [if_pos (by simpa using ha), ← h]
    · rw [if_neg ha] at h
      simp [ha, ih h]

end Dom.Element

namespace Stamp

variable {t t' u : Tree} {root m x y : NodeId} {scope : String} {counter : Nat}

/-- Replaces the tokens in one attribute of an element, if it has the attribute. -/
def substituteIn (scope : String) (counter : Nat) (e : Element) (name : String) : Element :=
  match e.get? name with
  | none => e
  | some value => e.set name (substitute value scope counter)

/-- Replaces the tokens in the attributes that a mark lists; an element without a mark stays. -/
def stampedElement (scope : String) (counter : Nat) (e : Element) : Element :=
  match e.get? Directive.index.name with
  | none => e
  | some list => (listedNames list).foldl (substituteIn scope counter) e

theorem get?_substituteIn (e : Element) (name other : String) :
    (substituteIn scope counter e name).get? other =
      if other = name then (e.get? other).map (substitute · scope counter) else e.get? other := by
  unfold substituteIn
  rcases h : e.get? name with _ | value
  · by_cases hother : other = name <;> simp [hother, h]
  · by_cases hother : other = name <;> simp [hother, h, Element.get?_set]

/-- A value is rewritten as often as its attribute is listed. -/
theorem get?_foldl_substituteIn (e : Element) (names : List String) (name : String) :
    (names.foldl (substituteIn scope counter) e).get? name =
      (Option.map (substitute · scope counter))^[names.count name] (e.get? name) := by
  induction names generalizing e with
  | nil => rfl
  | cons first rest ih =>
    rw [List.foldl_cons, ih, get?_substituteIn, List.count_cons]
    by_cases h : first = name
    · simp [h, Function.iterate_succ_apply]
    · simp [h, Ne.symm h]

/-- The names that an element lists for its tokens. -/
def indexedNames (e : Element) : List String := (e.get? Directive.index.name).elim [] listedNames

theorem stampedElement_eq (scope : String) (counter : Nat) (e : Element) :
    stampedElement scope counter e = (indexedNames e).foldl (substituteIn scope counter) e := by
  unfold stampedElement indexedNames
  cases e.get? Directive.index.name <;> rfl

theorem get?_stampedElement_once {e : Element} {name : String}
    (hname : (indexedNames e).count name = 1) :
    (stampedElement scope counter e).get? name = (e.get? name).map (substitute · scope counter) := by
  rw [stampedElement_eq, get?_foldl_substituteIn, hname]
  rfl

theorem get?_stampedElement_other {e : Element} {name : String} (hname : name ∉ indexedNames e) :
    (stampedElement scope counter e).get? name = e.get? name := by
  rw [stampedElement_eq, get?_foldl_substituteIn, List.count_eq_zero.2 hname]
  rfl

/-- One if replacing the tokens in an attribute changes it, else zero. -/
def changesAt (scope : String) (counter : Nat) (e : Element) (name : String) : Nat :=
  match e.get? name with
  | none => 0
  | some value => if substitute value scope counter = value then 0 else 1

/-- What replacing the tokens in listed attributes counts, one attribute after the other. -/
def changesIn (scope : String) (counter : Nat) : Element → List String → List Nat
  | _, [] => []
  | e, name :: rest =>
    changesAt scope counter e name :: changesIn scope counter (substituteIn scope counter e name) rest

/-- Stamping changes nothing but the values of attributes, and makes none empty. -/
structure SameBut (e e' : Element) : Prop where
  tag : e'.tag = e.tag
  contents : e'.contents = e.contents
  names : e'.attributes.map (·.name) = e.attributes.map (·.name)
  nonempty : ∀ name value, e.get? name = some value → value.isEmpty = false →
    ∃ value', e'.get? name = some value' ∧ value'.isEmpty = false

theorem SameBut.refl (e : Element) : SameBut e e := ⟨rfl, rfl, rfl, fun _ value h h' => ⟨value, h, h'⟩⟩

theorem SameBut.trans {e e' e'' : Element} (h : SameBut e e') (h' : SameBut e' e'') :
    SameBut e e'' := by
  refine ⟨h'.tag.trans h.tag, h'.contents.trans h.contents, h'.names.trans h.names, ?_⟩
  intro name value hvalue hempty
  obtain ⟨value', hvalue', hempty'⟩ := h.nonempty name value hvalue hempty
  exact h'.nonempty name value' hvalue' hempty'

theorem mem_names_of_get? {e : Element} {name value : String} (h : e.get? name = some value) :
    name ∈ e.attributes.map (·.name) := by
  unfold Element.get? at h
  obtain ⟨a, ha, -⟩ := Option.map_eq_some_iff.1 h
  have := List.find?_some ha
  exact List.mem_map.2 ⟨a, List.mem_of_find?_eq_some ha, by simpa using this⟩

theorem sameBut_substituteIn (e : Element) (name : String) :
    SameBut e (substituteIn scope counter e name) := by
  unfold substituteIn
  rcases h : e.get? name with _ | value
  · exact .refl e
  · refine ⟨rfl, rfl, ?_, ?_⟩
    · show (Element.setIn name _ e.attributes).map (·.name) = _
      rw [Element.map_name_setIn, if_pos (mem_names_of_get? h)]
    · intro other value' hvalue' hempty
      dsimp only
      rw [Element.get?_set]
      by_cases hother : other = name
      · subst hother
        rw [h, Option.some.injEq] at hvalue'
        exact ⟨_, if_pos rfl, isEmpty_substitute (hvalue' ▸ hempty)⟩
      · exact ⟨value', by rw [if_neg hother, hvalue'], hempty⟩

theorem sameBut_stampedElement (scope : String) (counter : Nat) (e : Element) :
    SameBut e (stampedElement scope counter e) := by
  unfold stampedElement
  split
  · exact .refl e
  · next list _ =>
    generalize listedNames list = names
    clear * -
    induction names generalizing e with
    | nil => exact .refl e
    | cons name rest ih => exact (sameBut_substituteIn e name).trans (ih _)

theorem SameBut.isSome_get? {e e' : Element} (h : SameBut e e') (name : String) :
    (e'.get? name).isSome = (e.get? name).isSome := by
  have key : ∀ e : Element, (e.get? name).isSome = decide (name ∈ e.attributes.map (·.name)) := by
    intro e
    unfold Element.get?
    rw [Option.isSome_map, List.isSome_find?, Bool.eq_iff_iff]
    simp
  rw [key, key, h.names]

/-! ## Trees -/

theorem exec_stampAttribute {e : Element} (hx : t.element? x = some e) (scope : String)
    (counter : Nat) (name : String) :
    exec (stampAttribute x scope counter name) t = (.ok (changesAt scope counter e name),
      t.setContent x (.element (substituteIn scope counter e name))) := by
  have hself : t.setContent x (.element e) = t := setContent_of_content (element?_eq_some.1 hx)
  have hvalue : t.attribute? x name = e.get? name := by simp [attribute?, hx]
  unfold stampAttribute substituteIn changesAt
  rw [exec_get_bind, hvalue]
  rcases h : e.get? name with _ | value
  · simp [hself]
  · dsimp only
    by_cases hsame : substitute value scope counter = value
    · rw [if_pos (by simpa using hsame), if_pos hsame, hsame, Element.set_of_get? h, hself,
        exec_pure]
    · have hrun : exec (edit (Edit.setAttribute x name (substitute value scope counter))) t =
          (.ok ⟨⟩, t.setContent x (.element (e.set name (substitute value scope counter)))) := by
        unfold edit
        rw [exec_adapt, Edit.exec_setAttribute hx]
        rfl
      rw [if_neg (by simpa using hsame), if_neg hsame, exec_bind_ok hrun, exec_pure]

theorem element?_setContent {e : Element} (hx : t.Has x) :
    (t.setContent x (.element e)).element? x = some e := by
  rw [element?_eq_some, content?_setContent, if_pos ⟨rfl, hx⟩]

theorem exec_stampAttributes {e : Element} (hx : t.element? x = some e) (scope : String)
    (counter : Nat) (names : List String) :
    exec (names.mapM (stampAttribute x scope counter)) t = (.ok (changesIn scope counter e names),
      t.setContent x (.element (names.foldl (substituteIn scope counter) e))) := by
  induction names generalizing t e with
  | nil =>
    rw [List.foldl_nil, setContent_of_content (element?_eq_some.1 hx)]
    rfl
  | cons name rest ih =>
    have hrun := exec_stampAttribute hx scope counter name
    have hmore := ih (element?_setContent (e := substituteIn scope counter e name)
      (has_of_element hx))
    rw [List.mapM_cons, exec_bind_ok hrun, exec_bind_ok hmore, exec_pure, setContent_setContent,
      List.foldl_cons, changesIn]

/-- What stamping a node counts. -/
def changesOf (t : Tree) (scope : String) (counter : Nat) (m : NodeId) : Nat :=
  (t.element? m).elim 0 fun e => total (changesIn scope counter e (indexedNames e))

theorem exec_stampElement {e : Element} (hx : t.element? x = some e) (scope : String)
    (counter : Nat) :
    exec (stampElement scope counter x) t = (.ok (changesOf t scope counter x),
      t.setContent x (.element (stampedElement scope counter e))) := by
  have hmark : t.attribute? x Directive.index.name = e.get? Directive.index.name := by
    simp [attribute?, hx]
  unfold stampElement stampedElement changesOf indexedNames
  rw [exec_get_bind, hmark, hx, Option.elim_some]
  rcases e.get? Directive.index.name with _ | list
  · rw [setContent_of_content (element?_eq_some.1 hx)]
    rfl
  · dsimp only [Option.elim_some]
    rw [exec_bind_ok (exec_stampAttributes hx scope counter (listedNames list)), exec_pure]

/-- What a node says after stamping. -/
def stampedContent (scope : String) (counter : Nat) : Content → Content
  | .element e => .element (stampedElement scope counter e)
  | content => content

/-- A tree that differs only in the values of attributes, where no value has become empty. -/
structure Reworded (t t' : Tree) : Prop where
  wellFormed : t'.WellFormed
  size : t'.size = t.size
  parent : ∀ y, t'.parent? y = t.parent? y
  children : ∀ y, t'.children y = t.children y
  content : ∀ y, t'.content? y = t.content? y ∨ ∃ e e', t.content? y = some (.element e) ∧
    t'.content? y = some (.element e') ∧ SameBut e e'

namespace Reworded

theorem refl (h : t.WellFormed) : Reworded t t :=
  ⟨h, rfl, fun _ => rfl, fun _ => rfl, fun _ => .inl rfl⟩

theorem trans (h : Reworded t t') (h' : Reworded t' u) : Reworded t u where
  wellFormed := h'.wellFormed
  size := h'.size.trans h.size
  parent y := (h'.parent y).trans (h.parent y)
  children y := (h'.children y).trans (h.children y)
  content := by
    intro y
    rcases h.content y with hy | ⟨e, e', he, he', hsame⟩
    · rw [← hy]
      exact h'.content y
    · rcases h'.content y with hy' | ⟨e₁, e₂, he₁, he₂, hsame'⟩
      · exact .inr ⟨e, e', he, hy'.trans he', hsame⟩
      · rw [he', Option.some.injEq, Content.element.injEq] at he₁
        exact .inr ⟨e, e₂, he, he₂, hsame.trans (he₁ ▸ hsame')⟩

theorem has (h : Reworded t t') : t'.Has y ↔ t.Has y := by
  cases y with
  | none => simp
  | slot i => rw [has_slot, has_slot, h.size]

theorem element (h : Reworded t t') {e : Element} (hy : t.element? y = some e) :
    ∃ e', t'.element? y = some e' ∧ SameBut e e' := by
  rcases h.content y with hsame | ⟨e₁, e', he₁, he', hsame⟩
  · exact ⟨e, (element?_congr hsame).trans hy, .refl e⟩
  · rw [element?_eq_some.1 hy, Option.some.injEq, Content.element.injEq] at he₁
    exact ⟨e', element?_eq_some.2 he', he₁ ▸ hsame⟩

theorem isElement (h : Reworded t t') (y : NodeId) : t'.isElement y = t.isElement y := by
  rcases h.content y with hsame | ⟨e, e', he, he', -⟩
  · exact isElement_congr hsame
  · rw [isElement_of_content he, isElement_of_content he']
    rfl

theorem contents (h : Reworded t t') (y : NodeId) : t'.contents? y = t.contents? y := by
  rcases h.content y with hsame | ⟨e, e', he, he', hsame⟩
  · exact contents?_congr hsame
  · rw [contents?_of_content he, contents?_of_content he']
    exact hsame.contents

theorem isSome_attribute (h : Reworded t t') (y : NodeId) (name : String) :
    (t'.attribute? y name).isSome = (t.attribute? y name).isSome := by
  rcases h.content y with hsame | ⟨e, e', he, he', hsame⟩
  · rw [attribute?_congr hsame]
  · unfold attribute? element?
    rw [he, he']
    exact hsame.isSome_get? name

theorem holds (h : Reworded t t') (x y : NodeId) : t'.Holds x y ↔ t.Holds x y := by
  unfold Holds
  rw [h.parent, h.contents]

theorem grounded (h : Reworded t t') (hg : t.Grounded) : t'.Grounded :=
  hg.mono fun x y => (h.holds x y).1

/-- A tree to which all that is reworded was new still only has nodes to add. -/
theorem extends_old (h : Reworded t t') {u : Tree} (hext : u.Extends t)
    (hold : ∀ y, u.Has y → t'.content? y = t.content? y) : u.Extends t' where
  old := by
    intro y hy
    rw [← hext.old hy]
    exact get?_eq_of_shown h.has.symm (hold y hy) (h.parent y) (h.children y)
  contents_old hx hf := hext.contents_old (h.contents _ ▸ hx) hf
  ranked hab := hext.ranked ((h.holds _ _).1 hab)

end Reworded

/-- What a tree shows after some elements have been stamped. -/
structure Stamped (t : Tree) (scope : String) (counter : Nat) (marks : NodeId → Prop) (t' : Tree) :
    Prop extends Reworded t t' where
  content_mark : ∀ y, marks y → t'.content? y = (t.content? y).map (stampedContent scope counter)
  content_other : ∀ y, ¬ marks y → t'.content? y = t.content? y

theorem stamped_one (h : t.WellFormed) {e : Element} (hx : t.element? x = some e) (scope : String)
    (counter : Nat) :
    Stamped t scope counter (· = x) (t.setContent x (.element (stampedElement scope counter e))) := by
  have hsame := sameBut_stampedElement scope counter e
  have hat : (t.setContent x (.element (stampedElement scope counter e))).content? x =
      some (.element (stampedElement scope counter e)) := by
    rw [content?_setContent, if_pos ⟨rfl, has_of_element hx⟩]
  have hother : ∀ y, y ≠ x → (t.setContent x (.element (stampedElement scope counter e))).content? y =
      t.content? y := fun y hy => by rw [content?_setContent, if_neg fun hyx => hy hyx.1]
  refine ⟨⟨?_, size_setContent .., fun y => parent?_setContent .., fun y => children_setContent ..,
    fun y => ?_⟩, ?_, hother⟩
  · refine wellFormed_setElement h hx hsame.tag hsame.contents ?_
    unfold Element.NamesDiffer
    rw [hsame.names]
    exact h.names_differ hx
  · by_cases hy : y = x
    · subst hy
      exact .inr ⟨e, _, element?_eq_some.1 hx, hat, hsame⟩
    · exact .inl (hother y hy)
  · rintro y rfl
    rw [hat, element?_eq_some.1 hx]
    rfl

/-- Elements are stamped one after the other; the tree is reworded, and if no mark occurs twice,
    each is stamped once, as it was at first. -/
theorem exec_stampElements (h : t.WellFormed) (scope : String) (counter : Nat)
    {marks : List NodeId} (hmarks : ∀ m ∈ marks, ∃ e, t.element? m = some e) :
    ∃ ns t', exec (marks.mapM (stampElement scope counter)) t = (.ok ns, t') ∧ Reworded t t' ∧
      (∀ y, y ∉ marks → t'.content? y = t.content? y) ∧
      (marks.Nodup → ns = marks.map (changesOf t scope counter) ∧ ∀ y ∈ marks,
        t'.content? y = (t.content? y).map (stampedContent scope counter)) := by
  induction marks generalizing t with
  | nil => exact ⟨[], t, rfl, .refl h, fun _ _ => rfl, by simp⟩
  | cons m rest ih =>
    obtain ⟨e, he⟩ := hmarks m (by simp)
    have hrun := exec_stampElement he scope counter
    have hone := stamped_one h he scope counter
    obtain ⟨ns, t', hmore, hrest, hother, hmark⟩ := ih hone.wellFormed fun m' hm' => by
      obtain ⟨e', he'⟩ := hmarks m' (by simp [hm'])
      obtain ⟨e'', he'', -⟩ := hone.toReworded.element he'
      exact ⟨e'', he''⟩
    refine ⟨changesOf t scope counter m :: ns, t', ?_, hone.toReworded.trans hrest, ?_, ?_⟩
    · rw [List.mapM_cons, exec_bind_ok hrun, exec_bind_ok hmore, exec_pure]
    · intro y hy
      rw [List.mem_cons, not_or] at hy
      rw [hother y hy.2, hone.content_other y hy.1]
    · intro hnodup
      rw [List.nodup_cons] at hnodup
      obtain ⟨hcounts, hmark⟩ := hmark hnodup.2
      have hsame : ∀ y ∈ rest, (t.setContent m (.element (stampedElement scope counter e))).content? y
          = t.content? y := fun y hy =>
        hone.content_other y fun hym : y = m => hnodup.1 (hym ▸ hy)
      constructor
      · rw [List.map_cons, hcounts]
        congr 1
        refine List.map_congr_left fun y hy => ?_
        rw [changesOf, changesOf, element?_congr (hsame y hy)]
      · intro y hy
        rcases List.mem_cons.1 hy with rfl | hy
        · rw [hother y hnodup.1, hone.content_mark y rfl]
        · rw [hmark y hy, hsame y hy]

/-- Whatever the nesting of the templates, stamping the index tokens never fails. -/
theorem exec_stampIndex_reworded (h : t.WellFormed) (root : NodeId) (scope : String)
    (counter : Nat) :
    ∃ n t', exec (stampIndex root scope counter) t = (.ok n, t') ∧ Reworded t t' := by
  obtain ⟨ns, t', hrun, hreworded, -⟩ := exec_stampElements h scope counter
    fun m (hm : m ∈ indexMarks t root) => (mem_indexMarksWithin h hm).2.element
  refine ⟨total ns, t', ?_, hreworded⟩
  unfold stampIndex
  rw [exec_get_bind, exec_bind_ok hrun, exec_pure]

/-- The marks that stamping the index tokens at and below `root` goes through. -/
def IndexMarksOf (t : Tree) (root x : NodeId) : Prop := t.AtOrEncloses root x ∧ IndexMarked t x

/-- Every mark counts what stamping it in the tree as it was counts. -/
theorem exec_stampIndex_counts (h : t.WellFormed) (hg : t.GroundedFrom root) (scope : String)
    (counter : Nat) :
    ∃ t', exec (stampIndex root scope counter) t =
        (.ok (total ((indexMarks t root).map (changesOf t scope counter))), t') ∧
      Stamped t scope counter (IndexMarksOf t root) t' := by
  have hmem : ∀ m, m ∈ indexMarks t root ↔ IndexMarksOf t root m := fun m => mem_indexMarks h hg
  obtain ⟨ns, t', hrun, hreworded, hother, hmarks⟩ :=
    exec_stampElements h scope counter fun m hm => ((hmem m).1 hm).2.element
  obtain ⟨rfl, hmark⟩ := hmarks (nodup_indexMarks h hg)
  simp only [hmem] at hmark hother
  refine ⟨t', ?_, hreworded, hmark, hother⟩
  unfold stampIndex
  rw [exec_get_bind, exec_bind_ok hrun, exec_pure]

theorem exec_stampIndex (h : t.WellFormed) (hg : t.GroundedFrom root) (scope : String)
    (counter : Nat) :
    ∃ n t', exec (stampIndex root scope counter) t = (.ok n, t') ∧
      Stamped t scope counter (IndexMarksOf t root) t' :=
  ⟨_, exec_stampIndex_counts h hg scope counter⟩

end Stamp

end Repeater
