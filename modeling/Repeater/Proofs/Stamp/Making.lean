/-
  Repeater/Proofs/Stamp/Making.lean
  =================================
  **What an item looks like, told from its template.**

  An item is made in three steps: the contents of the template are copied and the marks for a
  sequence written, slots are filled, and index tokens are replaced. Where no template holds itself
  only the first can fail, when a mark has no pattern. What the steps make can be told from the
  contents `g` of the template in the tree before (`Made`): every node that shows, that is, does not
  lie below an element written, has a copy, with the tokens of the attributes replaced if it is
  marked for them; the copies stand in the order of the originals; and an element written holds its
  last text, to the letter.
-/
import Repeater.Proofs.Dom.Steady
import Repeater.Proofs.Dom.Templates
import Repeater.Proofs.Stamp.Texts

namespace Repeater.Stamp

open Dom Tree

variable {t t₁ t₂ t' : Tree} {template g f s m x y : NodeId} {φ : NodeId → NodeId} {scope : String}
  {counter : Nat} {texts : List (NodeId × String)}

/-! ## From the template to its copy -/

/-- The texts, given to the copies. -/
def carried (φ : NodeId → NodeId) (texts : List (NodeId × String)) : List (NodeId × String) :=
  texts.map fun entry => (φ entry.1, entry.2)

/-- The texts for the marks of a sequence. -/
def numbering (t : Tree) (root : NodeId) (counter : Nat) : List (NodeId × String) :=
  (sequenceMarks t root).map fun mark => (mark, markText t counter mark)

/-- Whether all texts are for elements in what `g` encloses. -/
def Within (t : Tree) (g : NodeId) (texts : List (NodeId × String)) : Prop :=
  ∀ entry ∈ texts, t.AtOrEncloses g entry.1 ∧ t.isElement entry.1 = true

theorem within_numbering (h : t.WellFormed) : Within t g (numbering t g counter) := by
  intro entry hentry
  obtain ⟨mark, hmark, rfl⟩ := List.mem_map.1 hentry
  obtain ⟨hroot, hmarked⟩ := (mem_sequenceMarks h).1 hmark
  exact ⟨hroot.atOrEncloses, isElement_of_attribute hmarked⟩

theorem Within.addFilling (htexts : Within t g texts) (h : t.WellFormed)
    (entry : String × String) : Within t g (addFilling t g texts entry) := by
  unfold Stamp.addFilling
  split
  · exact htexts
  · next slot hslot =>
    intro other hother
    rcases List.mem_append.1 hother with hother | hother
    · exact htexts other hother
    · rw [List.mem_singleton.1 hother]
      obtain ⟨hroot, hslot⟩ := (mem_selectFrom h).1 (mem_of_openSlot? hslot)
      exact ⟨hroot.atOrEncloses, isElement_of_satisfies hslot⟩

theorem Within.fillings (htexts : Within t g texts) (h : t.WellFormed)
    (data : List (String × String)) : Within t g (fillings t g texts data) := by
  induction data generalizing texts with
  | nil => exact htexts
  | cons entry rest ih => exact ih (htexts.addFilling h entry)

theorem Within.lastText?_eq_none (htexts : Within t g texts) (hx : t.isElement x = false) :
    lastText? texts x = none := by
  refine Stamp.lastText?_eq_none.2 ?_
  rintro entry hentry rfl
  simp [(htexts entry hentry).2] at hx

theorem Within.lastText?_fragment (htexts : Within t g texts) (hg : t.content? g = some .fragment) :
    lastText? texts g = none := htexts.lastText?_eq_none (isElement_of_content hg)

theorem lastText?_carried (hφ : t.Isomorphism g t₁ f φ) (htexts : Within t g texts)
    (hx : t.AtOrEncloses g x) : lastText? (carried φ texts) (φ x) = lastText? texts x := by
  induction texts using List.reverseRecOn with
  | nil => rfl
  | append_singleton texts entry ih =>
    have hentry := (htexts entry (by simp)).1
    have hsame : φ x = φ entry.1 ↔ x = entry.1 := ⟨hφ.injective hx hentry, congrArg φ⟩
    have hmore := ih fun other hother => htexts other (by simp [hother])
    unfold carried at hmore ⊢
    rw [List.map_append, List.map_singleton, lastText?_concat, lastText?_concat, hmore]
    simp only [hsame]

theorem pattern?_carried (hφ : t.Isomorphism g t₁ f φ) (h : t.WellFormed)
    (hm : m ∈ sequenceMarks t g) : pattern? t₁ (φ m) = pattern? t m := by
  unfold pattern?
  rw [hφ.attribute?_eq ((mem_sequenceMarks h).1 hm).1.atOrEncloses]

namespace CopyOf

variable (hφ : t.Isomorphism g t₁ f φ) (h : t.WellFormed) (h₁ : t₁.WellFormed) (hg : t.Has g)
include hφ h h₁ hg

theorem liesOpen_eq (htexts : Within t g texts) (hx : t.AtOrEncloses g x) :
    liesOpen t₁ (carried φ texts) (φ x) = liesOpen t texts x := by
  refine decide_eq_decide.2 (List.forall_mem_map.trans (forall₂_congr fun entry hentry => ?_))
  have hin := (htexts entry hentry).1
  rw [mem_ancestors h₁, mem_ancestors h, hφ.above_iff h h₁ hin hx (h.has_atOrEnclosed hin hg)]

theorem selectFrom_root (selector : Selector) :
    t₁.selectFrom f selector = (t.selectFrom g selector).map φ := by
  rw [← hφ.root]
  exact hφ.selectFrom_eq h h₁ (.refl t g) hg selector

theorem openSlot?_eq (htexts : Within t g texts) (name : String) :
    openSlot? t₁ f (carried φ texts) name = (openSlot? t g texts name).map φ := by
  unfold openSlot?
  rw [selectFrom_root hφ h h₁ hg, ← List.head?_filter, ← List.head?_filter, List.filter_map,
    List.head?_map]
  congr 2
  exact List.filter_congr fun x hx =>
    liesOpen_eq hφ h h₁ hg htexts ((mem_selectFrom h).1 hx).1.atOrEncloses

theorem addFilling_eq (htexts : Within t g texts) (entry : String × String) :
    addFilling t₁ f (carried φ texts) entry = carried φ (addFilling t g texts entry) := by
  unfold addFilling
  rw [openSlot?_eq hφ h h₁ hg htexts]
  cases openSlot? t g texts entry.1 <;> simp [carried]

theorem fillings_eq (htexts : Within t g texts) (data : List (String × String)) :
    fillings t₁ f (carried φ texts) data = carried φ (fillings t g texts data) := by
  induction data generalizing texts with
  | nil => rfl
  | cons entry rest ih =>
    unfold fillings at ih ⊢
    rw [List.foldl_cons, List.foldl_cons, addFilling_eq hφ h h₁ hg htexts,
      ih (htexts.addFilling h entry)]

theorem numbering_eq : numbering t₁ f counter = carried φ (numbering t g counter) := by
  unfold numbering carried sequenceMarks
  rw [selectFrom_root hφ h h₁ hg, List.map_map, List.map_map]
  refine List.map_congr_left fun m hm => ?_
  simp only [Function.comp_apply, markText, pattern?_carried hφ h hm]

theorem sequencesReady_eq : sequencesReady t₁ f = sequencesReady t g := by
  unfold sequencesReady
  rw [sequenceMarks, selectFrom_root hφ h h₁ hg, List.all_map]
  rw [Bool.eq_iff_iff, List.all_eq_true, List.all_eq_true]
  refine forall₂_congr fun m hm => ?_
  rw [Function.comp_apply, pattern?_carried hφ h hm]

end CopyOf

/-! ## The three steps -/

/-- What a tree shows of a fragment `f` whose nodes are copies of what `g` encloses, after texts
    have been given to them. -/
structure Inscribed (t : Tree) (g : NodeId) (texts : List (NodeId × String)) (f : NodeId)
    (t' : Tree) : Prop where
  extends_old : t.Extends t'
  within_contents : Within t g texts
  original : t.Has g
  copied : ∃ t₁ φ, t₁.WellFormed ∧ t.Extends t₁ ∧ t.Copied g true t₁ f ∧
    t.Isomorphism g t₁ f φ ∧ Written t₁ (carried φ texts) t'

theorem exec_copy_contents (h : t.WellFormed) (hg : t.Has g) (hgrounded : t.GroundedFrom g) :
    ∃ f t₁ φ, exec (edit (Edit.copy g true)) t = (.ok f, t₁) ∧ t₁.WellFormed ∧ t.Extends t₁ ∧
      t.Copied g true t₁ f ∧ t.Isomorphism g t₁ f φ := by
  obtain ⟨f, t₁, hrun, -⟩ := Edit.exec_copy_grounded h hgrounded hg true
  obtain ⟨_, _, hrun', h₁, hext, hcopied⟩ := Edit.exec_copy h g true
  cases hrun.symm.trans hrun'
  have hcopied := hcopied f rfl
  have hnew : ¬ t.Has f := hcopied.new ▸ not_has_new t
  obtain ⟨φ, hφ⟩ := exists_isomorphism h h₁ hgrounded (hext.groundedFrom_new h h₁ hnew) hg
    hcopied.has (hcopied.shape rfl)
  refine ⟨f, t₁, φ, ?_, h₁, hext, hcopied, hφ⟩
  rw [exec_edit, hrun]
  rfl

theorem exec_copyTemplate_ready (h : t.WellFormed) (hg : t.contents? template = some g)
    (hgrounded : t.GroundedFrom g) (hready : sequencesReady t g = true) (counter : Nat) :
    ∃ f t', exec (copyTemplate template counter) t = (.ok f, t') ∧
      Inscribed t g (numbering t g counter) f t' := by
  have hhas := h.has_contents hg
  obtain ⟨f, t₁, φ, hrun, h₁, hext, hcopied, hφ⟩ := exec_copy_contents h hhas hgrounded
  have hready₁ : sequencesReady t₁ f = true := (CopyOf.sequencesReady_eq hφ h h₁ hhas).trans hready
  obtain ⟨t₂, hrun₂, hset, hext₂⟩ := exec_stampSequences_ready h₁ hready₁ counter
  refine ⟨f, t₂, ?_, ?_, within_numbering h, hhas, t₁, φ, h₁, hext, hcopied, hφ, ?_⟩
  · unfold copyTemplate
    rw [exec_get_bind, hg]
    dsimp only
    rw [exec_bind_ok hrun, exec_bind_ok hrun₂, exec_pure]
  · exact hext₂ t h hext fun m hm =>
      hext.new_below h (hcopied.new ▸ not_has_new t) ((mem_sequenceMarks h₁).1 hm).1
  · rw [← CopyOf.numbering_eq hφ h h₁ hhas]
    exact Written.of_sequencesSet h₁ hset

theorem exec_copyTemplate_notReady (h : t.WellFormed) (hg : t.contents? template = some g)
    (hgrounded : t.GroundedFrom g) (hready : sequencesReady t g = false) (counter : Nat) :
    ∃ t', exec (copyTemplate template counter) t = (.error (.missingAttribute .sequence), t') ∧
      t'.WellFormed ∧ t.Extends t' := by
  have hhas := h.has_contents hg
  obtain ⟨f, t₁, φ, hrun, h₁, hext, hcopied, hφ⟩ := exec_copy_contents h hhas hgrounded
  have hready₁ : sequencesReady t₁ f = false :=
    (CopyOf.sequencesReady_eq hφ h h₁ hhas).trans hready
  refine ⟨t₁, ?_, h₁, hext⟩
  unfold copyTemplate
  rw [exec_get_bind, hg]
  dsimp only
  rw [exec_bind_ok hrun, exec_bind_error (exec_stampSequences_notReady hready₁ counter)]

namespace Inscribed

theorem new (h : Inscribed t g texts f t') : ¬ t.Has f := by
  obtain ⟨t₁, φ, -, -, hcopied, -, -⟩ := h.copied
  exact hcopied.new ▸ not_has_new t

theorem wellFormed (h : Inscribed t g texts f t') : t'.WellFormed := by
  obtain ⟨t₁, φ, -, -, -, -, hwritten⟩ := h.copied
  exact hwritten.wellFormed

theorem exec_fillSlots (h : Inscribed t g texts f t') (ht : t.WellFormed)
    (data : List (String × String)) :
    ∃ n t'', exec (fillSlots f data) t' = (.ok n, t'') ∧
      Inscribed t g (fillings t g texts data) f t'' := by
  obtain ⟨t₁, φ, h₁, hext, hcopied, hφ, hwritten⟩ := h.copied
  obtain ⟨n, t'', hrun, hwritten'⟩ :=
    exec_fillSlots_written h₁ hwritten hcopied.has (liesOpen_root hcopied.parent) data
  obtain ⟨content, hcontent⟩ := has_iff_content.1 (hwritten.has hcopied.has)
  obtain ⟨_, _, hrun', -, hext', -⟩ :=
    Stamp.exec_fillSlots ht h.wellFormed h.extends_old h.new hcontent data
  cases hrun.symm.trans hrun'
  rw [CopyOf.fillings_eq hφ ht h₁ h.original h.within_contents] at hwritten'
  exact ⟨n, t'', hrun, hext', h.within_contents.fillings ht data, h.original, t₁, φ, h₁, hext,
    hcopied, hφ, hwritten'⟩

end Inscribed

/-! ## The item -/

/-- What a copy says of what its original says: the tokens of a marked element are replaced, and a
    template holds the copy of its contents. -/
def madeContent (scope : String) (counter : Nat) (φ : NodeId → NodeId) : Content → Content
  | .element e => .element { stampedElement scope counter e with contents := e.contents.map φ }
  | content => content

/-- Whether `x` is `s` or shows below it: it is reached by children of nodes that no text has been
    given to, and through contents of templates. -/
def Shows (t : Tree) (texts : List (NodeId × String)) : NodeId → NodeId → Prop :=
  Relation.ReflTransGen fun a b =>
    lastText? texts a = none ∧ t.parent? b = some a ∨ t.contents? a = some b

theorem Shows.atOrEncloses (h : Shows t texts s x) : t.AtOrEncloses s x :=
  Relation.ReflTransGen.mono (fun _ _ hab => hab.imp And.right id) _ _ h

/-- What a tree shows of the item made from what `s` encloses in the tree `t`: everything that
    shows has a new node for its copy. -/
structure Made (t : Tree) (s : NodeId) (texts : List (NodeId × String)) (scope : String)
    (counter : Nat) (t' : Tree) (φ : NodeId → NodeId) : Prop where
  new : ∀ x, Shows t texts s x → ¬ t.Has (φ x)
  injective : ∀ x y, Shows t texts s x → Shows t texts s y → φ x = φ y → x = y
  content : ∀ x, Shows t texts s x →
    t'.content? (φ x) = (t.content? x).map (madeContent scope counter φ)
  children : ∀ x, Shows t texts s x → lastText? texts x = none →
    t'.children (φ x) = (t.children x).map φ
  texts : ∀ x text, Shows t texts s x → lastText? texts x = some text → HoldsText t' (φ x) text

theorem Made.shown (h : Made t s texts scope counter t' φ) (hx : Shows t texts s x) :
    Made t x texts scope counter t' φ where
  new y hy := h.new y (hx.trans hy)
  injective y z hy hz := h.injective y z (hx.trans hy) (hx.trans hz)
  content y hy := h.content y (hx.trans hy)
  children y hy := h.children y (hx.trans hy)
  texts y text hy := h.texts y text (hx.trans hy)

theorem isElement_madeContent (content : Option Content) :
    ((content.map (madeContent scope counter φ)).bind Content.element?).isSome =
      (content.bind Content.element?).isSome := by
  rcases content with _ | content
  · rfl
  · cases content <;> rfl

/-- The elements of an item are the copies of the elements in its template. -/
theorem Made.elementChildren (h : Made t g texts scope counter t' φ) (ht : t.WellFormed)
    (hg : t.content? g = some .fragment) (htexts : Within t g texts) :
    t'.elementChildren (φ g) = (t.elementChildren g).map φ := by
  have hnone := htexts.lastText?_fragment hg
  unfold Tree.elementChildren
  rw [h.children g .refl hnone, List.filter_map]
  congr 1
  apply List.filter_congr
  intro s hs
  have hgs : Shows t texts g s := .single (.inl ⟨hnone, ht.parent_of_child hs⟩)
  rw [Function.comp_apply, Tree.isElement, Tree.element?, h.content s hgs, isElement_madeContent]
  rfl

theorem stampedElement_contents (scope : String) (counter : Nat) (e : Element)
    (contents : Option NodeId) :
    stampedElement scope counter { e with contents } =
      { stampedElement scope counter e with contents } := by
  have hext : ∀ a b : Element, a.tag = b.tag → a.attributes = b.attributes →
      a.contents = b.contents → a = b := by
    rintro ⟨⟩ ⟨⟩ rfl rfl rfl
    rfl
  have hsame := sameBut_stampedElement scope counter { e with contents }
  exact hext _ _ (hsame.tag.trans (sameBut_stampedElement scope counter e).tag.symm)
    (attributes_stampedElement_congr rfl) hsame.contents

/-- What stamping makes of what is enclosed. -/
theorem content_of_stamped (hstamped : Stamped t₂ scope counter (IndexMarksOf t₂ f) t')
    (hx : t₂.AtOrEncloses f x) :
    t'.content? x = (t₂.content? x).map (stampedContent scope counter) := by
  by_cases hmark : IndexMarked t₂ x
  · exact hstamped.content_mark x ⟨hx, hmark⟩
  · rw [hstamped.content_other x fun hmarked => hmark hmarked.2]
    rcases hcontent : t₂.content? x with _ | content
    · rfl
    · cases content with
      | element e =>
        rw [Option.map_some, stampedContent,
          stampedElement_of_not_marked (element?_eq_some.2 hcontent) hmark]
      | _ => rfl

theorem stampedContent_copied (hφ : t.Isomorphism g t₁ f φ) (hx : t.AtOrEncloses g x) :
    (t₁.content? (φ x)).map (stampedContent scope counter) =
      (t.content? x).map (madeContent scope counter φ) := by
  rcases he : t.element? x with _ | e
  · rw [hφ.content_of_plain hx he]
    rcases hcontent : t.content? x with _ | content
    · rfl
    · cases content with
      | element e =>
        rw [element?_eq_some.2 hcontent] at he
        cases he
      | _ => rfl
  · obtain ⟨e', he', htag, hattributes, hcontents⟩ := hφ.element_of_element hx he
    obtain rfl : e' = { e with contents := e.contents.map φ } := by
      obtain ⟨⟩ := e'
      dsimp only at htag hattributes hcontents
      rw [htag, hattributes, hcontents]
    rw [element?_eq_some.1 he', element?_eq_some.1 he, Option.map_some, Option.map_some,
      stampedContent, madeContent, stampedElement_contents]

namespace Inscribed

/-- What shows has its copy in the fragment. -/
theorem enclosed_copy (hφ : t.Isomorphism g t₁ f φ) (ht : t.WellFormed)
    (hhas : t.Has g) (htexts : Within t g texts) (hwritten : Written t₁ (carried φ texts) t₂)
    (hx : Shows t texts g x) : t₂.AtOrEncloses f (φ x) := by
  induction hx with
  | refl =>
    rw [hφ.root]
    exact .refl t₂ f
  | @tail a b ha hstep ih =>
    have hga := Shows.atOrEncloses ha
    have ha₁ := hφ.has hga (ht.has_atOrEnclosed hga hhas)
    refine ih.trans (Encloses.atOrEncloses ?_)
    rcases hstep with ⟨hnone, hparent⟩ | hcontents
    · apply encloses_of_parent
      apply hwritten.wellFormed.parent_of_child
      rw [hwritten.children _ ha₁ ((lastText?_carried hφ htexts hga).trans hnone), hφ.children hga]
      exact List.mem_map_of_mem (ht.child_of_parent hparent)
    · apply encloses_of_contents
      rw [contents?_congr (hwritten.content _ ha₁), hφ.contents hga, hcontents]
      rfl

/-- Once the tokens are replaced, the item is made. -/
theorem exec_stampIndex (h : Inscribed t g texts f t₂) (ht : t.WellFormed) (scope : String)
    (counter : Nat) :
    ∃ n t' φ, exec (stampIndex f scope counter) t₂ = (.ok n, t') ∧ t'.WellFormed ∧ t.Extends t' ∧
      φ g = f ∧ Made t g texts scope counter t' φ := by
  obtain ⟨t₁, φ, h₁, hext, hcopied, hφ, hwritten⟩ := h.copied
  obtain ⟨n, t', hrun, hstamped, hext'⟩ :=
    exec_stampIndex_new ht h.wellFormed h.extends_old h.new scope counter
  have hlast : ∀ {x}, Shows t texts g x → lastText? (carried φ texts) (φ x) = lastText? texts x :=
    fun hx => lastText?_carried hφ h.within_contents (Shows.atOrEncloses hx)
  have hhas : ∀ {x}, Shows t texts g x → t₁.Has (φ x) := fun hx =>
    hφ.has (Shows.atOrEncloses hx) (ht.has_atOrEnclosed (Shows.atOrEncloses hx) h.original)
  have henclosed : ∀ {x}, Shows t texts g x → t₂.AtOrEncloses f (φ x) := fun hx =>
    enclosed_copy hφ ht h.original h.within_contents hwritten hx
  refine ⟨n, t', φ, hrun, hstamped.wellFormed, hext', hφ.root, ?_⟩
  constructor
  case new =>
    intro x hx
    exact h.extends_old.new_encloses ht h.wellFormed h.new (henclosed hx)
  case injective =>
    exact fun x y hx hy => hφ.injective (Shows.atOrEncloses hx) (Shows.atOrEncloses hy)
  case content =>
    intro x hx
    rw [content_of_stamped hstamped (henclosed hx), hwritten.content _ (hhas hx),
      stampedContent_copied hφ (Shows.atOrEncloses hx)]
  case children =>
    intro x hx hnone
    rw [hstamped.children, hwritten.children _ (hhas hx) ((hlast hx).trans hnone),
      hφ.children (Shows.atOrEncloses hx)]
  case texts =>
    intro x text hx htext
    exact (hwritten.texts (φ x) text ((hlast hx).trans htext)).congr (hstamped.children _)
      fun v hcontent => hstamped.content_of_not_element hcontent rfl

end Inscribed

/-! ## The item in its place -/

/-- What a tree shows after an item, made from what the children of `g` enclose, has come in among
    the children of `p`. All nodes that were there are as they were, but for the list of children of
    `p`; what is new is held by nodes made before it. -/
structure Gained (t : Tree) (g : NodeId) (texts : List (NodeId × String)) (scope : String)
    (counter : Nat) (p : NodeId) (reference : Option NodeId) (t' : Tree) (φ : NodeId → NodeId) :
    Prop where
  wellFormed : t'.WellFormed
  size_le : t.size ≤ t'.size
  old : ∀ x, t.Has x → x ≠ p → t'.get? x = t.get? x
  content : t'.content? p = t.content? p
  parent : t'.parent? p = t.parent? p
  children : t'.children p = listWithRun ((t.children g).map φ) reference (t.children p)
  item : ∀ s ∈ t.children g, t'.parent? (φ s) = some p ∧ Made t s texts scope counter t' φ
  contents_old : ∀ x y, t'.contents? x = some y → t.Has y → t.Has x
  ranked : ∀ a b, t'.Holds a b → t.Holds a b ∨ a.Precedes b

section place

variable {p : NodeId} {reference : Option NodeId}
  (ht : t.WellFormed) (hg : t.content? g = some .fragment) (hgrounded : t.GroundedFrom g)
  (h₁ : t₁.WellFormed) (hext : t.Extends t₁) (hmade : Made t g texts scope counter t₁ φ)
  (htexts : Within t g texts) (hp : t.Has p) (hspliced : t₁.Spliced p (φ g) reference t')
include ht hg hgrounded h₁ hext hmade htexts hp hspliced

omit h₁ hext in
/-- What is below the place of an item is as it was made. -/
theorem Made.spliced (hs : s ∈ t.children g) : Made t s texts scope counter t' φ := by
  have hnone : lastText? texts g = none := htexts.lastText?_fragment hg
  have hgs : Shows t texts g s := .single (.inl ⟨hnone, ht.parent_of_child hs⟩)
  have hmades := hmade.shown hgs
  have hkids : ∀ x, Shows t texts s x → t'.children (φ x) = t₁.children (φ x) := by
    intro x hx
    apply hspliced.children_other
    · intro heq
      exact hmades.new x hx (heq ▸ hp)
    · intro heq
      obtain rfl : x = g := hmade.injective x g (hgs.trans hx) .refl heq
      exact hgrounded x (.refl t x) ((encloses_of_parent (ht.parent_of_child hs)).trans_atOrEncloses
        hx.atOrEncloses)
  constructor
  case new => exact hmades.new
  case injective => exact hmades.injective
  case content => exact fun x hx => (hspliced.content _).trans (hmades.content x hx)
  case children => exact fun x hx hnone => (hkids x hx).trans (hmades.children x hx hnone)
  case texts =>
    intro x text hx htext
    exact (hmades.texts x text hx htext).congr (hkids x hx) fun v hcontent =>
      (hspliced.content v).trans hcontent

theorem gained_of_spliced : Gained t g texts scope counter p reference t' φ := by
  have hnone : lastText? texts g = none := htexts.lastText?_fragment hg
  have hf : ¬ t.Has (φ g) := hmade.new g .refl
  have hrun : t₁.children (φ g) = (t.children g).map φ := hmade.children g .refl hnone
  have hparent : ∀ x, t.Has x → t'.parent? x = t.parent? x := fun x hx =>
    hext.parent_of_spliced ht h₁ hf hspliced hx
  constructor
  case wellFormed => exact hspliced.wellFormed
  case size_le =>
    rw [hspliced.size]
    exact hext.size_le
  case old =>
    intro x hx hxp
    have hcontent := (hspliced.content x).trans (hext.content? hx)
    refine get?_eq_of_shown ?_ hcontent (hparent x hx) ?_
    · simp only [has_iff_content, hcontent]
    · rw [hspliced.children_other x hxp, hext.children hx]
      rintro rfl
      exact hf hx
  case content => exact (hspliced.content p).trans (hext.content? hp)
  case parent => exact hparent p hp
  case children => rw [hspliced.children_place, hrun, hext.children hp]
  case item =>
    intro s hs
    refine ⟨?_, hmade.spliced ht hg hgrounded htexts hp hspliced hs⟩
    rw [hspliced.parent, if_pos]
    rw [hrun]
    exact List.mem_map_of_mem hs
  case contents_old =>
    intro x y hxy hy
    rw [contents?_congr (hspliced.content x)] at hxy
    exact hext.contents_old hxy hy
  case ranked =>
    rintro a b (hab | hab)
    · rw [hspliced.parent] at hab
      split at hab
      · next hb =>
        cases hab
        have hbf := h₁.parent_of_child hb
        exact .inr (precedes_of_old_new hp (hext.new_child ht hbf hf) (h₁.has_of_child hb))
      · exact hext.ranked (.inl hab)
    · rw [contents?_congr (hspliced.content a)] at hab
      exact hext.ranked (.inr hab)

end place

end Repeater.Stamp
