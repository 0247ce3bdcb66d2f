/-
  Repeater/Proofs/Stamp/Replacements.lean
  =======================================
  **Which values stamping the index tokens replaces, and what it counts.**

  A marked element lists names of attributes. Every attribute it has gets its tokens replaced once
  for each time it is listed, in the value the replacement before has left; what is counted is how
  many of these replacements changed the value (`total_changesIn`). The list is the one the element
  had before, so a mark that lists itself is rewritten and still counts as it was. Where no template
  holds itself, stamping goes through every marked element that the root encloses once, and touches
  nothing else (`stampIndex_outcome`).
-/
import Repeater.Proofs.Dom.Documents
import Repeater.Proofs.Stamp.Index

namespace Repeater

open Dom Tree

/-! ## Setting an attribute -/

/-- An attribute that an element has stands somewhere in its list, and setting it changes the entry
    there. -/
theorem Dom.Element.attributes_of_get? {e : Element} {name value : String}
    (h : e.get? name = some value) : ∃ front back, e.attributes = front ++ ⟨name, value⟩ :: back ∧
      ∀ new, (e.set name new).attributes = front ++ ⟨name, new⟩ :: back := by
  obtain ⟨tag, attributes, contents⟩ := e
  show ∃ front back, attributes = _ ∧ ∀ new, setIn name new attributes = _
  induction attributes with
  | nil => simp [get?] at h
  | cons a rest ih =>
    rw [get?_cons] at h
    by_cases ha : a.name = name
    · rw [if_pos ha, Option.some.injEq] at h
      subst ha h
      exact ⟨[], rest, rfl, fun new => by rw [setIn, if_pos BEq.rfl, List.nil_append]⟩
    · rw [if_neg ha] at h
      obtain ⟨front, back, hrest, hset⟩ := ih h
      refine ⟨a :: front, back, by rw [hrest, List.cons_append], fun new => ?_⟩
      rw [setIn, if_neg (by simpa using ha), hset, List.cons_append]

namespace Stamp

open Markup

variable {t t' : Tree} {root m : NodeId} {scope : String} {counter : Nat}

/-! ## Counting -/

/-- A value in which the tokens have been replaced so many times. -/
def replaced (scope : String) (counter times : Nat) (value : String) : String :=
  (substitute · scope counter)^[times] value

/-- How many of so many replacements in a row change the value they are given. -/
def changes (scope : String) (counter times : Nat) (value : String) : Nat :=
  (List.range times).countP fun k =>
    replaced scope counter (k + 1) value != replaced scope counter k value

theorem changes_zero (scope : String) (counter : Nat) (value : String) :
    changes scope counter 0 value = 0 := rfl

theorem changes_succ (scope : String) (counter times : Nat) (value : String) :
    changes scope counter (times + 1) value =
      (if substitute value scope counter = value then 0 else 1) +
        changes scope counter times (substitute value scope counter) := by
  unfold changes
  rw [List.range_succ_eq_map, List.countP_cons, List.countP_map, Nat.add_comm]
  by_cases h : substitute value scope counter = value <;>
    simp [replaced, h, Function.comp_def]

theorem total_append (counts more : List Nat) : total (counts ++ more) = total counts + total more := by
  induction counts with
  | nil => rw [List.nil_append, total, Nat.zero_add]
  | cons n rest ih => rw [List.cons_append, total, total, ih, Nat.add_assoc]

/-- What the attributes of an element count when they are listed so. -/
def changesOfAttributes (scope : String) (counter : Nat) (names : List String)
    (attributes : List Attribute) : Nat :=
  total (attributes.map fun a => changes scope counter (names.count a.name) a.value)

theorem changesOfAttributes_append (names : List String) (front back : List Attribute) :
    changesOfAttributes scope counter names (front ++ back) =
      changesOfAttributes scope counter names front +
        changesOfAttributes scope counter names back := by
  unfold changesOfAttributes
  rw [List.map_append, total_append]

theorem changesOfAttributes_cons (names : List String) (a : Attribute) (rest : List Attribute) :
    changesOfAttributes scope counter names (a :: rest) =
      changes scope counter (names.count a.name) a.value +
        changesOfAttributes scope counter names rest := rfl

/-- A name counts for the attributes of that name only. -/
theorem changesOfAttributes_other {name : String} {names : List String}
    {attributes : List Attribute} (h : name ∉ attributes.map (·.name)) :
    changesOfAttributes scope counter (name :: names) attributes =
      changesOfAttributes scope counter names attributes := by
  unfold changesOfAttributes
  congr 1
  refine List.map_congr_left fun a ha => ?_
  rw [List.count_cons_of_ne]
  rintro rfl
  exact h (List.mem_map_of_mem ha)

/-- The first name listed counts on the element as it is, the others on what that one leaves. -/
theorem changesOfAttributes_substituteIn {e : Element} (h : e.NamesDiffer) (name : String)
    (names : List String) : changesOfAttributes scope counter (name :: names) e.attributes =
      changesAt scope counter e name +
        changesOfAttributes scope counter names (substituteIn scope counter e name).attributes := by
  unfold changesAt substituteIn
  rcases hget : e.get? name with _ | value
  · have hname : name ∉ e.attributes.map (·.name) := by
      intro hmem
      obtain ⟨a, ha, rfl⟩ := List.mem_map.1 hmem
      simp only [Element.get?, Option.map_eq_none_iff, List.find?_eq_none] at hget
      exact hget a ha BEq.rfl
    dsimp only
    rw [changesOfAttributes_other hname, Nat.zero_add]
  · obtain ⟨front, back, hattributes, hset⟩ := Element.attributes_of_get? hget
    unfold Element.NamesDiffer at h
    rw [hattributes, List.map_append, List.map_cons, List.nodup_middle, List.nodup_cons,
      List.mem_append, not_or] at h
    dsimp only
    rw [hset, hattributes, changesOfAttributes_append, changesOfAttributes_append,
      changesOfAttributes_cons, changesOfAttributes_cons, changesOfAttributes_other h.1.1,
      changesOfAttributes_other h.1.2, List.count_cons_self, changes_succ]
    dsimp only
    omega

/-- What an element counts: for each of its attributes, the replacements that changed it. -/
theorem total_changesIn {e : Element} (h : e.NamesDiffer) (names : List String) :
    total (changesIn scope counter e names) =
      changesOfAttributes scope counter names e.attributes := by
  induction names generalizing e with
  | nil =>
    rw [changesIn, total]
    induction e.attributes with
    | nil => rfl
    | cons a rest ih => rw [changesOfAttributes_cons, ← ih, List.count_nil, changes_zero]
  | cons name rest ih =>
    have hnext : (substituteIn scope counter e name).NamesDiffer := by
      unfold Element.NamesDiffer
      rw [(sameBut_substituteIn e name).names]
      exact h
    rw [changesIn, total, ih hnext, changesOfAttributes_substituteIn h]

/-! ## Nodes -/

/-- The names that a marked element lists for its tokens. -/
def namesListed (t : Tree) (m : NodeId) : List String :=
  (t.attribute? m Directive.index.name).elim [] listedNames

theorem changesOf_eq (h : t.WellFormed) (m : NodeId) : changesOf t scope counter m =
    changesOfAttributes scope counter (namesListed t m) (t.attributes m) := by
  unfold changesOf namesListed attribute? attributes
  rcases he : t.element? m with _ | e
  · rfl
  · exact total_changesIn (h.names_differ he) _

/-- The values of a stamped element are its old ones, each replaced as often as it is listed. -/
theorem Stamped.attribute_mark {marks : NodeId → Prop} (h : Stamped t scope counter marks t')
    (hm : marks m) (name : String) : t'.attribute? m name =
      (t.attribute? m name).map (replaced scope counter ((namesListed t m).count name)) := by
  have hcontent := h.content_mark m hm
  unfold namesListed attribute? element?
  rw [hcontent]
  rcases t.content? m with _ | _ | _ | _ | e | _ | _
  case some.element =>
    show (stampedElement scope counter e).get? name = (e.get? name).map _
    rw [stampedElement_eq, get?_foldl_substituteIn]
    show (Option.map (substitute · scope counter))^[(indexedNames e).count name] (e.get? name) =
      (e.get? name).map (substitute · scope counter)^[(indexedNames e).count name]
    generalize (indexedNames e).count name = times
    induction times generalizing e with
    | zero => simp
    | succ times ih =>
      rw [Function.iterate_succ_apply', ih, Option.map_map, Function.iterate_succ']
  all_goals rfl

/-- What the index tokens of a subtree leave of the tree: values of listed attributes are replaced,
    and everything else is as it was. -/
structure Replacing (t : Tree) (root : NodeId) (scope : String) (counter : Nat) (t' : Tree) :
    Prop where
  size : t'.size = t.size
  parent : ∀ y, t'.parent? y = t.parent? y
  children : ∀ y, t'.children y = t.children y
  contents : ∀ y, t'.contents? y = t.contents? y
  text : ∀ y, t'.text? y = t.text? y
  tag : ∀ y, t'.tag? y = t.tag? y
  names : ∀ y, (t'.attributes y).map (·.name) = (t.attributes y).map (·.name)
  marked : ∀ m, IndexMarksOf t root m → ∀ name, t'.attribute? m name =
    (t.attribute? m name).map (replaced scope counter ((namesListed t m).count name))
  other : ∀ y, ¬ IndexMarksOf t root y → t'.content? y = t.content? y

theorem Stamped.replacing (h : Stamped t scope counter (IndexMarksOf t root) t') :
    Replacing t root scope counter t' where
  size := h.size
  parent := h.parent
  children := h.children
  contents := h.contents
  text y := by
    rcases h.content y with hsame | ⟨e, e', he, he', -⟩
    · rw [text?, hsame, text?]
    · rw [text?, he', text?, he]
      rfl
  tag y := by
    rcases h.content y with hsame | ⟨e, e', he, he', hsame⟩
    · rw [Tree.tag?, element?_congr hsame, Tree.tag?]
    · rw [Tree.tag?, element?_eq_some.2 he', Tree.tag?, element?_eq_some.2 he, Option.map_some,
        hsame.tag, Option.map_some]
  names y := by
    rcases h.content y with hsame | ⟨e, e', he, he', hsame⟩
    · rw [attributes, element?_congr hsame, attributes]
    · rw [attributes, element?_eq_some.2 he', attributes, element?_eq_some.2 he]
      exact hsame.names
  marked m hm := h.attribute_mark hm
  other := h.content_other

/-- Stamping the index tokens never fails. It goes through every marked element that is the root or
    enclosed by it once, and counts the replacements that changed a value. -/
theorem stampIndex_outcome (h : t.WellFormed) (hg : t.GroundedFrom root) (scope : String)
    (counter : Nat) :
    ∃ (marks : List NodeId) (t' : Tree), marks.Nodup ∧ (∀ m, m ∈ marks ↔ IndexMarksOf t root m) ∧
      exec (stampIndex root scope counter) t = (.ok (total (marks.map fun m =>
        changesOfAttributes scope counter (namesListed t m) (t.attributes m))), t') ∧
      Replacing t root scope counter t' := by
  obtain ⟨t', hrun, hstamped⟩ := exec_stampIndex_counts h hg scope counter
  refine ⟨indexMarks t root, t', nodup_indexMarks h hg, fun m => mem_indexMarks h hg, ?_,
    hstamped.replacing⟩
  rw [hrun, List.map_congr_left fun m _ => changesOf_eq h m]

/-- A mark that lists itself, one name twice and one that the element lacks, and a mark in the
    contents of a template. -/
theorem stampIndex_outcome_nested :
    let t := (documentOf "about:blank" [.element "ul" [] [] [
      .element "li" [⟨"s-index", "id, s-index,,id, for, k{{index}}"⟩, ⟨"id", "row-{{index}}"⟩,
        ⟨"title", "{{index}}"⟩] [] [],
      .element "template" [] [.element "p" [⟨"s-index", "id"⟩,
        ⟨"id", "{{row:index++}}-{{cell:index}}"⟩] [] []] []]]).tree
    t.WellFormed ∧ t.GroundedFrom (.slot 1) ∧
      (exec (stampIndex (.slot 1) "row" 4) t).1 = .ok 3 ∧
      ∃ (marks : List NodeId) (t' : Tree), marks.Nodup ∧ (∀ m, m ∈ marks ↔ IndexMarksOf t (.slot 1) m) ∧
        exec (stampIndex (.slot 1) "row" 4) t = (.ok (total (marks.map fun m =>
          changesOfAttributes "row" 4 (namesListed t m) (t.attributes m))), t') ∧
        Replacing t (.slot 1) "row" 4 t' := by
  intro t
  have hwf : t.WellFormed := (edited_documentOf "about:blank" _).wellFormed wellFormed_empty
  have hg : t.GroundedFrom (.slot 1) := (InOrder.grounded (by decide +kernel)).groundedFrom _
  exact ⟨hwf, hg, by decide +kernel, stampIndex_outcome hwf hg "row" 4⟩

end Stamp

end Repeater
