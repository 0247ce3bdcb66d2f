/-
  Repeater/Stamp/Marks.lean
  =========================
  **Stamping the marked elements of a subtree.**

  Elements marked in the template receive the running number (`stampSequences`), have the index
  tokens of their listed attributes replaced (`stampIndex`), or are filled from data
  (`fillSlots`). Sequences are checked before the first is written. The contents of templates inside
  take part in the replacement of index tokens only.
-/
import Repeater.Dom.Copy
import Repeater.Dom.Selector
import Repeater.Error
import Repeater.Stamp.Token

namespace Repeater.Stamp

open Dom Text

/-- A change of the tree that may fail with an error of the engine. -/
abbrev Stamping (α : Type) := ExceptT Error (StateM Tree) α

/-- A change of the tree as part of a stamping. -/
def edit {α : Type} (change : Edit α) : Stamping α := ExceptT.adapt Error.dom change

/-! ## Sequences -/

/-- A number written with at least as many digits as the pattern has zeros. -/
def sequenceText (pattern : String) (number : Nat) : String :=
  let shown := digits number
  String.ofList (List.replicate (pattern.toList.count '0' - shown.length) '0' ++ shown)

/-- The marks for a sequence below and at `root`. -/
def sequenceMarks (t : Tree) (root : NodeId) : List NodeId :=
  t.selectFrom root (.hasAttribute Directive.sequence.name)

/-- The pattern of a mark, which must not be empty. -/
def pattern? (t : Tree) (id : NodeId) : Option String :=
  (t.attribute? id Directive.sequence.name).filter (! ·.isEmpty)

/-- Whether all marks for a sequence below and at `root` have a pattern. -/
def sequencesReady (t : Tree) (root : NodeId) : Bool :=
  (sequenceMarks t root).all fun id => (pattern? t id).isSome

/-- Writes the number after the counter into all marks for a sequence below and at `root`, and
    counts them. Nothing is written unless every mark has a pattern. -/
def stampSequences (root : NodeId) (counter : Nat) : Stamping Nat := do
  let t ← get
  let stamps ← (sequenceMarks t root).mapM fun id =>
    match pattern? t id with
    | some pattern => pure (id, sequenceText pattern (counter + 1))
    | none => throw (.missingAttribute .sequence)
  stamps.forM fun (id, text) => edit (Edit.setText id text)
  return stamps.length

/-! ## Index tokens -/

/-- The elements marked for index tokens below and at `root`, with those in the contents of
    templates nested at most `depth` deep. -/
def indexMarksWithin (t : Tree) : Nat → NodeId → List NodeId
  | 0, _ => []
  | depth + 1, root =>
    t.selectFrom root (.hasAttribute Directive.index.name)
      ++ ((t.selectFrom root (.tag "template")).filterMap t.contents?).flatMap
        (indexMarksWithin t depth)

/-- The elements marked for index tokens below and at `root`, with those in the contents of
    templates. -/
def indexMarks (t : Tree) (root : NodeId) : List NodeId := indexMarksWithin t t.size root

/-- The names in a comma-separated list, without blank ends; empty ones are left out. -/
def listedNames (list : String) : List String :=
  (((splitAll ',' list.toList).map trimList).filter (! ·.isEmpty)).map String.ofList

/-- What several counts come to. -/
def total : List Nat → Nat
  | [] => 0
  | n :: rest => n + total rest

/-- Replaces the tokens in one attribute; gives one if this changed it, else zero. -/
def stampAttribute (id : NodeId) (scope : String) (counter : Nat) (name : String) :
    Stamping Nat := do
  match (← get).attribute? id name with
  | none => return 0
  | some value =>
    let stamped := substitute value scope counter
    if stamped == value then return 0
    edit (Edit.setAttribute id name stamped)
    return 1

/-- Replaces the tokens in the attributes that a marked element lists. The list is read before the
    first of them is changed. -/
def stampElement (scope : String) (counter : Nat) (id : NodeId) : Stamping Nat := do
  match (← get).attribute? id Directive.index.name with
  | none => return 0
  | some list => return total (← (listedNames list).mapM (stampAttribute id scope counter))

/-- Replaces the tokens of a scope in all elements marked for it below and at `root`, also inside
    templates, and counts the attributes changed. -/
def stampIndex (root : NodeId) (scope : String) (counter : Nat) : Stamping Nat := do
  let t ← get
  return total (← (indexMarks t root).mapM (stampElement scope counter))

/-! ## Slots -/

/-- Writes a text into the first slot of the name below and at `root`; gives one if there is such a
    slot, else zero. -/
def fillSlot (root : NodeId) (entry : String × String) : Stamping Nat := do
  match ((← get).selectFrom root (.attributeIs Directive.slot.name entry.1)).head? with
  | none => return 0
  | some id =>
    edit (Edit.setText id entry.2)
    return 1

/-- Writes texts into slots by name, one after the other, and counts the slots filled. -/
def fillSlots (root : NodeId) (data : List (String × String)) : Stamping Nat := do
  return total (← data.mapM (fillSlot root))

/-! ## Templates -/

/-- Copies the contents of a template into a new fragment and stamps its sequences. -/
def copyTemplate (template : NodeId) (counter : Nat) : Stamping NodeId := do
  match (← get).contents? template with
  | none => throw (.invalidTemplate (.notATemplate template))
  | some contents =>
    let fragment ← edit (Edit.copy contents true)
    let _ ← stampSequences fragment counter
    return fragment

end Repeater.Stamp
