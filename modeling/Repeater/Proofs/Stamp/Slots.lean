/-
  Repeater/Proofs/Stamp/Slots.lean
  ================================
  **Slots that do not get in each other's way.**

  A text that is put into a slot takes the place of everything the slot held, so slots inside it are
  gone. Where no slot stands in another (`SlotsApart`) this never happens: the order of the data
  does not matter, and each name of it that has a slot puts its text there, whatever the other texts
  are (`lastText?_fillings`). So the slots that are filled depend on the names alone.
-/
import Repeater.Proofs.Stamp.Making

namespace Repeater.Stamp

open Dom Tree

variable {t : Tree} {g m x y : NodeId} {name text : String} {texts : List (NodeId × String)}
  {counter : Nat} {data data' : List (String × String)}

/-- The slots at and below a node. -/
def slotMarks (t : Tree) (root : NodeId) : List NodeId :=
  t.selectFrom root (.hasAttribute Directive.slot.name)

/-- Whether no slot stands below another. -/
def SlotsApart (t : Tree) (root : NodeId) : Prop :=
  ∀ x ∈ slotMarks t root, ∀ y ∈ slotMarks t root, x ∉ t.ancestors y

instance (t : Tree) (root : NodeId) : Decidable (SlotsApart t root) :=
  inferInstanceAs (Decidable (∀ x ∈ slotMarks t root, ∀ y ∈ slotMarks t root, x ∉ t.ancestors y))

/-- The slots of a name. -/
theorem mem_slotMarks_of_name (h : t.WellFormed)
    (hx : x ∈ t.selectFrom g (.attributeIs Directive.slot.name name)) :
    x ∈ slotMarks t g ∧ t.attribute? x Directive.slot.name = some name := by
  obtain ⟨hroot, hname⟩ := (mem_selectFrom h).1 hx
  have hname := satisfies_attributeIs.1 hname
  exact ⟨(mem_selectFrom h).2 ⟨hroot, satisfies_hasAttribute.2 (by simp [hname])⟩, hname⟩

/-- The texts that data puts into slots of which those are left that no text of `texts` stands
    above. -/
def slotTexts (t : Tree) (root : NodeId) (texts : List (NodeId × String))
    (data : List (String × String)) : List (NodeId × String) :=
  data.filterMap fun entry => (openSlot? t root texts entry.1).map fun slot => (slot, entry.2)

theorem mem_slotTexts : (x, text) ∈ slotTexts t g texts data ↔
    ∃ name, (name, text) ∈ data ∧ openSlot? t g texts name = some x := by
  unfold slotTexts
  rw [List.mem_filterMap]
  constructor
  · rintro ⟨⟨name, s⟩, hmem, hslot⟩
    obtain ⟨slot, hopen, heq⟩ := Option.map_eq_some_iff.1 hslot
    obtain ⟨rfl, rfl⟩ := Prod.mk.inj heq
    exact ⟨name, hmem, hopen⟩
  · rintro ⟨name, hmem, hopen⟩
    exact ⟨_, hmem, by rw [hopen]; rfl⟩

theorem attribute?_of_openSlot? (h : t.WellFormed) (hopen : openSlot? t g texts name = some x) :
    x ∈ slotMarks t g ∧ t.attribute? x Directive.slot.name = some name :=
  mem_slotMarks_of_name h (mem_of_openSlot? hopen)

namespace SlotsApart

variable (hslots : SlotsApart t g) (h : t.WellFormed)
include hslots h

/-- Texts in slots close no other slot. -/
theorem openSlot?_append {filled : List (NodeId × String)}
    (hfilled : ∀ entry ∈ filled, entry.1 ∈ slotMarks t g) (name : String) :
    openSlot? t g (texts ++ filled) name = openSlot? t g texts name := by
  unfold openSlot?
  rw [← List.head?_filter, ← List.head?_filter]
  congr 1
  refine List.filter_congr fun x hx => ?_
  have hslot := (mem_slotMarks_of_name h hx).1
  unfold liesOpen
  refine decide_eq_decide.2 ?_
  constructor
  · exact fun hopen entry hentry => hopen entry (List.mem_append_left _ hentry)
  · intro hopen entry hentry
    rcases List.mem_append.1 hentry with hentry | hentry
    · exact hopen entry hentry
    · exact hslots entry.1 (hfilled entry hentry) x hslot

/-- The slots that data fills can be told from the names alone, one by one. -/
theorem fillings_eq_append (texts : List (NodeId × String)) (data : List (String × String)) :
    fillings t g texts data = texts ++ slotTexts t g texts data := by
  induction data using List.reverseRecOn with
  | nil => simp [fillings, slotTexts]
  | append_singleton data entry ih =>
    have hfilled : ∀ filled ∈ slotTexts t g texts data, filled.1 ∈ slotMarks t g := by
      rintro ⟨x, text⟩ hmem
      obtain ⟨name, -, hopen⟩ := mem_slotTexts.1 hmem
      exact (attribute?_of_openSlot? h hopen).1
    have hstep : fillings t g texts (data ++ [entry]) =
        addFilling t g (fillings t g texts data) entry := by
      simp [fillings]
    rw [hstep, ih, addFilling, hslots.openSlot?_append h hfilled, slotTexts, slotTexts,
      List.filterMap_append]
    rcases hopen : openSlot? t g texts entry.1 with _ | slot <;> simp [hopen]

end SlotsApart

/-- No slot is filled twice. -/
theorem nodup_slotTexts (h : t.WellFormed) (texts : List (NodeId × String))
    (hdata : (data.map (·.1)).Nodup) : ((slotTexts t g texts data).map (·.1)).Nodup := by
  have hkeys : (slotTexts t g texts data).map (·.1) =
      (data.map (·.1)).filterMap (openSlot? t g texts) := by
    unfold slotTexts
    rw [List.map_filterMap, List.filterMap_map]
    refine List.filterMap_congr fun entry _ => ?_
    simp [Function.comp_def]
  rw [hkeys]
  refine hdata.filterMap fun name name' x hx hx' => ?_
  have hname := (attribute?_of_openSlot? h hx).2
  rw [(attribute?_of_openSlot? h hx').2, Option.some.injEq] at hname
  exact hname.symm

theorem lastText?_append (texts filled : List (NodeId × String)) (x : NodeId) :
    lastText? (texts ++ filled) x = (lastText? filled x).or (lastText? texts x) := by
  unfold lastText?
  rw [List.reverse_append, List.lookup_append]

/-- The text that data has for a name; none is the empty text. -/
def valueOf (data : List (String × String)) (name : String) : String := (data.lookup name).getD ""

theorem mem_of_valueOf (hname : name ∈ data.map (·.1)) : (name, valueOf data name) ∈ data := by
  induction data with
  | nil => cases hname
  | cons entry rest ih =>
    obtain ⟨key, text⟩ := entry
    unfold valueOf
    rw [List.lookup_cons]
    by_cases hkey : name = key
    · subst hkey
      simp
    · rw [beq_false_of_ne hkey]
      refine List.mem_cons_of_mem _ (ih ?_)
      simpa [hkey] using hname

namespace SlotsApart

variable (hslots : SlotsApart t g) (h : t.WellFormed)
include hslots h

/-- The slot of a name has the text of the name. -/
theorem lastText?_of_open (hdata : (data.map (·.1)).Nodup) (hname : name ∈ data.map (·.1))
    (hopen : openSlot? t g texts name = some x) :
    lastText? (fillings t g texts data) x = some (valueOf data name) := by
  have hmem : (x, valueOf data name) ∈ slotTexts t g texts data :=
    mem_slotTexts.2 ⟨name, mem_of_valueOf hname, hopen⟩
  rw [hslots.fillings_eq_append h, lastText?_append,
    (lastText?_of_nodup (nodup_slotTexts h texts hdata)).2 hmem, Option.some_or]

/-- Every other node keeps the text it has. -/
theorem lastText?_of_closed
    (hclosed : ∀ name ∈ data.map (·.1), openSlot? t g texts name ≠ some x) :
    lastText? (fillings t g texts data) x = lastText? texts x := by
  have hnone : lastText? (slotTexts t g texts data) x = none := by
    refine lastText?_eq_none.2 ?_
    rintro ⟨y, text⟩ hmem rfl
    obtain ⟨name, hname, hopen⟩ := mem_slotTexts.1 hmem
    exact hclosed name (List.mem_map.2 ⟨_, hname, rfl⟩) hopen
  rw [hslots.fillings_eq_append h, lastText?_append, hnone, Option.none_or]

/-- Two data with the same names fill the same slots, each with its own texts, and agree on all
    other texts. -/
theorem lastText?_fillings (hdata : (data.map (·.1)).Nodup)
    (hnames : (data.map (·.1)).Perm (data'.map (·.1))) (texts : List (NodeId × String))
    (x : NodeId) :
    (∃ name ∈ data.map (·.1), openSlot? t g texts name = some x ∧
      lastText? (fillings t g texts data) x = some (valueOf data name) ∧
      lastText? (fillings t g texts data') x = some (valueOf data' name)) ∨
    lastText? (fillings t g texts data) x = lastText? texts x ∧
      lastText? (fillings t g texts data') x = lastText? texts x := by
  by_cases hfilled : ∃ name ∈ data.map (·.1), openSlot? t g texts name = some x
  · obtain ⟨name, hname, hopen⟩ := hfilled
    exact .inl ⟨name, hname, hopen, hslots.lastText?_of_open h hdata hname hopen,
      hslots.lastText?_of_open h (hnames.nodup_iff.1 hdata) (hnames.mem_iff.1 hname) hopen⟩
  · push Not at hfilled
    exact .inr ⟨hslots.lastText?_of_closed h hfilled,
      hslots.lastText?_of_closed h fun name hname => hfilled name (hnames.mem_iff.2 hname)⟩

end SlotsApart

end Repeater.Stamp
