/-
  Repeater/Proofs/Stamp/Drafts.lean
  =================================
  **What becomes of a template when an item is made from it.**

  The contents of the template are copied into a new fragment (`exec_copyTemplate`), the sequences
  of the copy are stamped, and then its index tokens. However far this gets, it only adds nodes to
  the tree. `StampedCopy` says what the result has to do with the template: an element of the copy
  stands where an element of the template stands, has its tag and its attributes with the tokens
  replaced, and holds only its number if it is marked for one (`Numbered.drafted`).
-/
import Repeater.Proofs.Stamp.Index
import Repeater.Proofs.Stamp.Sequences

namespace Repeater

open Dom Tree

namespace Stamp

variable {t t' t₁ t₂ : Tree} {template g f root m x y : NodeId} {scope : String} {counter : Nat}

/-! ## Copying a template -/

/-- What a tree shows of a copy of the contents `g` of a template after its sequences have been
    stamped. -/
structure Numbered (t : Tree) (template : NodeId) (counter : Nat) (f : NodeId) (t' : Tree) : Prop
    where
  wellFormed : t'.WellFormed
  extends_old : t.Extends t'
  copied : ∃ g t₁, t.contents? template = some g ∧ t₁.WellFormed ∧ t.Extends t₁ ∧
    t.Copied g true t₁ f ∧ sequencesReady t₁ f = true ∧ SequencesSet t₁ f counter t'

theorem exec_edit {α : Type} (change : Edit α) (t : Tree) :
    exec (edit change) t = ((exec change t).1.mapError Error.dom, (exec change t).2) :=
  exec_adapt Error.dom change t

/-- However copying a template ends, it has only added nodes. -/
theorem exec_copyTemplate (h : t.WellFormed) (template : NodeId) (counter : Nat) :
    ∃ result t', exec (copyTemplate template counter) t = (result, t') ∧ t'.WellFormed ∧
      t.Extends t' ∧ ∀ f, result = .ok f → Numbered t template counter f t' := by
  unfold copyTemplate
  rw [exec_get_bind]
  rcases hg : t.contents? template with _ | g
  · exact ⟨_, _, rfl, h, .refl t, by simp⟩
  obtain ⟨result, t₁, hrun, h₁, hext₁, hcopied⟩ := Edit.exec_copy h g true
  have hrun₁ := exec_edit (Edit.copy g true) t
  rw [hrun] at hrun₁
  cases result with
  | error e => exact ⟨.error (.dom e), t₁, exec_bind_error hrun₁, h₁, hext₁, by simp⟩
  | ok f =>
    have hcopied := hcopied f rfl
    dsimp only
    rw [exec_bind_ok hrun₁]
    by_cases hready : sequencesReady t₁ f = true
    · obtain ⟨t₂, hrun₂, hset, hext₂⟩ := exec_stampSequences_ready h₁ hready counter
      have hext := hext₂ t h hext₁ fun m hm =>
        hext₁.new_below h (hcopied.new ▸ not_has_new t) ((mem_sequenceMarks h₁).1 hm).1
      refine ⟨.ok f, t₂, ?_, hset.wellFormed, hext, ?_⟩
      · rw [exec_bind_ok hrun₂, exec_pure]
      · rintro _ ⟨⟩
        exact ⟨hset.wellFormed, hext, g, t₁, hg, h₁, hext₁, hcopied, hready, hset⟩
    · refine ⟨.error (.missingAttribute .sequence), t₁, ?_, h₁, hext₁, by simp⟩
      exact exec_bind_error (exec_stampSequences_notReady (by simpa using hready) counter)

/-! ## What the copy has to do with the template -/

/-- What an element of a stamped copy has to do with its original: at a place that is not in the
    contents of an inner template, a mark for a sequence is heeded as well. -/
structure StampedElement (e : Element) (scope : String) (counter : Nat) (place : List Step)
    (t' : Tree) (x : NodeId) (e' : Element) : Prop where
  tag : e'.tag = e.tag
  attributes : e'.attributes = (stampedElement scope counter e).attributes
  sequence : ∀ pattern, Step.contents ∉ place → e.get? Directive.sequence.name = some pattern →
    ∃ n, t'.children x = [n] ∧ t'.content? n = some (.text (sequenceText pattern (counter + 1)))

/-- Whether each element at or below `c`, also in the contents of inner templates, is the stamped
    copy of the element that stands at the same place from `s`. -/
def StampedCopy (t : Tree) (s : NodeId) (scope : String) (counter : Nat) (t' : Tree)
    (c : NodeId) : Prop :=
  ∀ place x e', t'.follow? c place = some x → t'.element? x = some e' →
    ∃ y e, t.follow? s place = some y ∧ t.element? y = some e ∧
      StampedElement e scope counter place t' x e'

/-- In a copy whose sequences have been stamped, elements stand where they stood before. -/
theorem follow?_of_sequencesSet (h₁ : t₁.WellFormed) (hset : SequencesSet t₁ root counter t₂)
    {place : List Step} {e : Element} (hy : t₁.Has y) (hx : t₂.follow? y place = some x)
    (he : t₂.element? x = some e) :
    t₁.follow? y place = some x ∧ t₁.element? x = some e := by
  induction place generalizing y with
  | nil =>
    cases hx
    exact ⟨rfl, (element?_congr (hset.content x hy)).symm.trans he⟩
  | cons step place ih =>
    cases step with
    | child i =>
      obtain ⟨z, hz, hzx⟩ := Option.bind_eq_some_iff.1 hx
      by_cases hmark : y ∈ sequenceMarks t₁ root
      · -- below a mark there is nothing but a text
        obtain ⟨n, hn, hnew, htext⟩ := hset.children_mark y (markText t₁ counter y)
          (List.mem_map.2 ⟨y, hmark, rfl⟩)
        rw [hn] at hz
        have hzn : z = n := by
          have := List.mem_of_getElem? hz
          simpa using this
        subst hzn
        cases place with
        | nil =>
          cases hzx
          rw [element?_eq_some, htext] at he
          simp at he
        | cons step rest =>
          cases step with
          | child j =>
            have hempty := hset.wellFormed.children_eq_nil htext rfl
            simp [follow?, hempty] at hzx
          | contents =>
            have hnone : t₂.contents? z = none := contents?_of_content htext
            simp [follow?, hnone] at hzx
      · have hkids : t₂.children y = t₁.children y :=
          hset.children_other y (by simpa using hmark) hy
        rw [hkids] at hz
        obtain ⟨hzx', he'⟩ := ih (h₁.has_of_child (List.mem_of_getElem? hz)) hzx
        exact ⟨Option.bind_eq_some_iff.2 ⟨z, hz, hzx'⟩, he'⟩
    | contents =>
      obtain ⟨f, hf, hfx⟩ := Option.bind_eq_some_iff.1 hx
      rw [contents?_congr (hset.content y hy)] at hf
      obtain ⟨hfx', he'⟩ := ih (h₁.has_contents hf) hfx
      exact ⟨Option.bind_eq_some_iff.2 ⟨f, hf, hfx'⟩, he'⟩

/-- An element of a deep copy stands where an element of the original stands. -/
theorem original_of_copied (hcopied : t.Copied g true t₁ f) {place : List Step} {e₁ : Element}
    (hx : t₁.follow? f place = some x) (he : t₁.element? x = some e₁) :
    ∃ y e, t.follow? g place = some y ∧ t.element? y = some e ∧ e₁.tag = e.tag ∧
      e₁.attributes = e.attributes := by
  have hshape := congrFun (hcopied.shape rfl) place
  unfold shape at hshape
  rw [hx, Option.bind_some, element?_eq_some.1 he] at hshape
  obtain ⟨y, hy, hbare⟩ := Option.bind_eq_some_iff.1 hshape.symm
  obtain ⟨content, hcontent, hbare⟩ := Option.map_eq_some_iff.1 hbare
  obtain ⟨e, rfl, htag, hattributes⟩ := Content.eq_element_of_bare hbare
  exact ⟨y, e, hy, element?_eq_some.2 hcontent, htag.symm, hattributes.symm⟩

theorem get?_congr {e e' : Element} (h : e'.attributes = e.attributes) (name : String) :
    e'.get? name = e.get? name := by
  unfold Element.get?
  rw [h]

/-- What stamping makes of the attributes depends on the attributes only. -/
theorem attributes_stampedElement_congr {e e' : Element} (h : e'.attributes = e.attributes) :
    (stampedElement scope counter e').attributes = (stampedElement scope counter e).attributes := by
  have hone : ∀ {e e' : Element}, e'.attributes = e.attributes → ∀ name,
      (substituteIn scope counter e' name).attributes =
        (substituteIn scope counter e name).attributes := by
    intro e e' h name
    unfold substituteIn
    rw [get?_congr h]
    cases e.get? name with
    | none => exact h
    | some value => simp [Element.set, h]
  unfold stampedElement
  rw [get?_congr h]
  cases e.get? Directive.index.name with
  | none => exact h
  | some list =>
    dsimp only
    generalize listedNames list = names
    induction names generalizing e e' with
    | nil => exact h
    | cons name rest ih => exact ih (hone h name)

theorem stampedElement_of_not_marked {e : Element} (hx : t.element? x = some e)
    (hmark : ¬ IndexMarked t x) : stampedElement scope counter e = e := by
  unfold IndexMarked attribute? at hmark
  rw [hx, Option.bind_some] at hmark
  unfold stampedElement
  cases h : e.get? Directive.index.name <;> simp_all

/-- Where stamping meets every mark enclosed by `f`, it sends each element there through
    `stampedElement`. -/
theorem element_of_stamped (hstamped : Stamped t₂ scope counter (IndexMarksOf t₂ f) t')
    (hx : t₂.AtOrEncloses f x) {e' : Element} (he' : t'.element? x = some e') :
    ∃ e, t₂.element? x = some e ∧ e' = stampedElement scope counter e := by
  have helement := hstamped.toReworded.isElement x
  obtain ⟨e, he⟩ : ∃ e, t₂.element? x = some e := by
    unfold Tree.isElement at helement
    rw [he'] at helement
    exact Option.isSome_iff_exists.1 helement.symm
  refine ⟨e, he, ?_⟩
  by_cases hmark : IndexMarked t₂ x
  · have hcontent := hstamped.content_mark x ⟨hx, hmark⟩
    rw [element?_eq_some.1 he', element?_eq_some.1 he] at hcontent
    simpa [stampedContent] using hcontent
  · have hcontent := hstamped.content_other x fun hmarked => hmark hmarked.2
    rw [element?_eq_some.1 he', element?_eq_some.1 he] at hcontent
    rw [stampedElement_of_not_marked he hmark]
    simpa using hcontent

/-- A copy whose sequences and index tokens have been stamped is a stamped copy. -/
theorem stampedCopy_of_stamped (h₁ : t₁.WellFormed) (hcopied : t.Copied g true t₁ f)
    (hready : sequencesReady t₁ f = true) (hset : SequencesSet t₁ f counter t₂)
    (hstamped : Stamped t₂ scope counter (IndexMarksOf t₂ f) t') :
    StampedCopy t g scope counter t' f := by
  intro place x e' hx he'
  have hfollow : t'.follow? f place = t₂.follow? f place :=
    follow?_congr (S := fun _ => True) ⟨fun _ _ => trivial, fun _ _ => trivial⟩
      (fun y _ => hstamped.children y) (fun y _ => hstamped.toReworded.contents y) trivial place
  rw [hfollow] at hx
  obtain ⟨e₂, he₂, rfl⟩ := element_of_stamped hstamped
    (atOrEncloses_of_follow? hset.wellFormed hx) he'
  obtain ⟨hx₁, he₁⟩ := follow?_of_sequencesSet h₁ hset hcopied.has hx he₂
  obtain ⟨y, e, hy, he, htag, hattributes⟩ := original_of_copied hcopied hx₁ he₁
  refine ⟨y, e, hy, he, ?_, attributes_stampedElement_congr hattributes, ?_⟩
  · rw [(sameBut_stampedElement scope counter e₂).tag, htag]
  · intro pattern hlight hpattern
    have hmarked : t₁.attribute? x Directive.sequence.name = some pattern := by
      rw [attribute?, he₁, Option.bind_some, get?_congr hattributes, hpattern]
    have hmark : x ∈ sequenceMarks t₁ f :=
      (mem_sequenceMarks h₁).2 ⟨atOrAbove_of_follow? h₁ hlight hx₁, by rw [hmarked]; rfl⟩
    obtain ⟨n, hn, hnew, htext⟩ := hset.children_mark x (markText t₁ counter x)
      (List.mem_map.2 ⟨x, hmark, rfl⟩)
    refine ⟨n, by rw [hstamped.children, hn], ?_⟩
    rw [hstamped.content_other n, htext, markText_of_ready hready hmark hmarked]
    rintro ⟨-, hmark⟩
    obtain ⟨e, he⟩ := hmark.element
    rw [element?_eq_some, htext] at he
    simp at he

/-! ## Drafts of items -/

/-- What a tree shows of the fragment `f` that was made from a template and is ready to be inserted:
    its children are the stamped copies of what the template holds, in order. -/
structure Drafted (t : Tree) (template : NodeId) (scope : String) (counter : Nat) (f : NodeId)
    (t' : Tree) : Prop where
  wellFormed : t'.WellFormed
  extends_old : t.Extends t'
  new : ¬ t.Has f
  fragment : t'.content? f = some .fragment
  kids : ∃ g, t.contents? template = some g ∧ List.Forall₂ (fun s c =>
    t'.isElement c = t.isElement s ∧ (t.isElement s = false → t'.content? c = t.content? s) ∧
      StampedCopy t s scope counter t' c) (t.children g) (t'.children f)

theorem StampedCopy.child (h : StampedCopy t x scope counter t' y) {i : Nat} {s c : NodeId}
    (hs : (t.children x)[i]? = some s) (hc : (t'.children y)[i]? = some c) :
    StampedCopy t s scope counter t' c := by
  intro place z e' hz he'
  obtain ⟨w, e, hw, he, hstamped⟩ := h (.child i :: place) z e'
    (Option.bind_eq_some_iff.2 ⟨c, hc, hz⟩) he'
  obtain ⟨s', hs', hw⟩ := Option.bind_eq_some_iff.1 hw
  rw [hs, Option.some.injEq] at hs'
  subst hs'
  exact ⟨w, e, hw, he, hstamped.tag, hstamped.attributes, fun pattern hlight =>
    hstamped.sequence pattern (by simpa using hlight)⟩

/-- Nodes of one shape have children of one kind, in one order. -/
theorem children_of_shape (h : t.WellFormed) (h' : t'.WellFormed) (hshape : t'.shape y = t.shape x) :
    (t.children x).length = (t'.children y).length ∧ ∀ (i : Nat) s c, (t.children x)[i]? = some s →
      (t'.children y)[i]? = some c → (t'.content? c).map Content.bare =
        (t.content? s).map Content.bare := by
  have hplace : ∀ i : Nat, (t'.children y)[i]?.bind (fun c => (t'.content? c).map Content.bare) =
      (t.children x)[i]?.bind fun s => (t.content? s).map Content.bare := by
    intro i
    have := congrFun hshape [.child i]
    rwa [shape_child, shape_child] at this
  have hsome : ∀ {u : Tree} {z : NodeId} {i : Nat}, u.WellFormed →
      ((u.children z)[i]?.bind fun s => (u.content? s).map Content.bare).isSome =
        decide (i < (u.children z).length) := by
    intro u z i hu
    by_cases hi : i < (u.children z).length
    · obtain ⟨content, hcontent⟩ := has_iff_content.1
        (hu.has_of_child (List.getElem_mem hi))
      simp [hcontent, hi]
    · simp [hi]
  constructor
  · have hlt : ∀ i, i < (t.children x).length ↔ i < (t'.children y).length := by
      intro i
      have := congrArg Option.isSome (hplace i)
      rw [hsome h', hsome h] at this
      simpa using this.symm
    have h₁ := hlt (t.children x).length
    have h₂ := hlt (t'.children y).length
    omega
  · intro i s c hs hc
    have := hplace i
    rwa [hs, hc] at this

/-- Stamping the index tokens of something new only adds nodes. -/
theorem exec_stampIndex_new (h : t.WellFormed) (h₂ : t₂.WellFormed) (hext : t.Extends t₂)
    (hf : ¬ t.Has f) (scope : String) (counter : Nat) :
    ∃ n t', exec (stampIndex f scope counter) t₂ = (.ok n, t') ∧
      Stamped t₂ scope counter (IndexMarksOf t₂ f) t' ∧ t.Extends t' := by
  obtain ⟨n, t', hrun, hstamped⟩ := exec_stampIndex h₂ (hext.groundedFrom_new h h₂ hf) scope counter
  refine ⟨n, t', hrun, hstamped, hstamped.toReworded.extends_old hext fun y hy => ?_⟩
  exact hstamped.content_other y fun hmark => hext.new_encloses h h₂ hf hmark.1 hy

theorem Numbered.new (h : Numbered t template counter f t₂) : ¬ t.Has f := by
  obtain ⟨g, t₁, -, -, -, hcopied, -⟩ := h.copied
  exact hcopied.new ▸ not_has_new t

theorem Numbered.fragment (h : t.WellFormed) (hnumbered : Numbered t template counter f t₂) :
    t₂.content? f = some .fragment := by
  obtain ⟨g, t₁, hcontents, -, -, hcopied, -, hset⟩ := hnumbered.copied
  have hbare := hcopied.bare
  rw [h.contents_fragment hcontents] at hbare
  obtain ⟨content, hcontent, hbare⟩ := Option.map_eq_some_iff.1 hbare
  rw [hset.content f hcopied.has, hcontent, Content.bare_eq_fragment.1 hbare]

theorem Stamped.content_of_not_element {marks : NodeId → Prop}
    (h : Stamped t scope counter marks t') {content : Content} (hx : t.content? x = some content)
    (hnot : content.element? = none) : t'.content? x = some content := by
  rcases h.content x with hsame | ⟨e, e', he, -⟩
  · rw [hsame, hx]
  · rw [hx, Option.some.injEq] at he
    simp [he, Content.element?] at hnot

theorem children_of_sequencesSet (h : t₁.WellFormed) (hset : SequencesSet t₁ root counter t₂)
    {content : Content} (hx : t₁.content? x = some content) (hnot : content.element? = none) :
    t₂.children x = t₁.children x := by
  refine hset.children_other x ?_ (has_of_content hx)
  intro hmark
  obtain ⟨stamp, hstamp, rfl⟩ := List.mem_map.1 hmark
  obtain ⟨m, hm, rfl⟩ := List.mem_map.1 hstamp
  have helement := isElement_of_attribute ((mem_sequenceMarks h).1 hm).2
  rw [isElement_of_content hx, hnot] at helement
  cases helement

theorem Numbered.drafted (h : t.WellFormed) (hnumbered : Numbered t template counter f t₂)
    (hstamped : Stamped t₂ scope counter (IndexMarksOf t₂ f) t') (hext : t.Extends t') :
    Drafted t template scope counter f t' := by
  have hfragment := hnumbered.fragment h
  obtain ⟨g, t₁, hcontents, h₁, hext₁, hcopied, hready, hset⟩ := hnumbered.copied
  have hcopy := stampedCopy_of_stamped h₁ hcopied hready hset hstamped
  have hkids : t'.children f = t₁.children f := by
    rw [hstamped.children]
    exact children_of_sequencesSet h₁ hset ((hset.content f hcopied.has).symm.trans hfragment) rfl
  obtain ⟨hlength, hkinds⟩ := children_of_shape h h₁ (hcopied.shape rfl)
  refine ⟨hstamped.wellFormed, hext, hnumbered.new, hstamped.content_of_not_element hfragment rfl, g,
    hcontents, List.forall₂_iff_get.2 ⟨by rw [hlength, hkids], fun i hi hi' => ?_⟩⟩
  simp only [List.get_eq_getElem]
  have hs := List.getElem?_eq_getElem hi
  have hc := List.getElem?_eq_getElem hi'
  have hbare := hkinds i _ _ hs (by rw [← hkids, hc])
  have hkid₁ : t₁.Has (t'.children f)[i] := by
    refine h₁.has_of_child (p := f) ?_
    rw [← hkids]
    exact List.getElem_mem hi'
  have hcontent₂ := hset.content _ hkid₁
  generalize (t.children g)[i] = s at *
  generalize (t'.children f)[i] = c at *
  obtain ⟨content, hcontent⟩ := has_iff_content.1 hkid₁
  rw [hcontent] at hbare hcontent₂
  obtain ⟨original, horiginal, hbare⟩ := Option.map_eq_some_iff.1 hbare.symm
  have hkind : content.element?.isSome = original.element?.isSome := by
    rw [← Content.isSome_element?_bare, ← hbare, Content.isSome_element?_bare]
  have helement : t₂.isElement c = t.isElement s := by
    simp [Tree.isElement, Tree.element?, hcontent₂, horiginal, hkind]
  refine ⟨(hstamped.toReworded.isElement c).trans helement, fun hnot => ?_, hcopy.child hs hc⟩
  have hnone : original.element? = none := by
    simpa [Tree.isElement, Tree.element?, horiginal] using hnot
  have hsame : content = original := Content.eq_of_bare hbare.symm hnone
  rw [hstamped.content_of_not_element hcontent₂ (hsame ▸ hnone), horiginal, hsame]

/-- The children of something new are new. -/
theorem new_of_mem_elementChildren (h : t.WellFormed) (h' : t'.WellFormed) (hext : t.Extends t')
    (hf : ¬ t.Has f) (hx : x ∈ t'.elementChildren f) : ¬ t.Has x ∧ t'.Has x := by
  have hchild : x ∈ t'.children f := List.mem_of_mem_filter hx
  exact ⟨hext.new_child h (h'.parent_of_child hchild) hf, h'.has_of_child hchild⟩

/-- Once a template has been copied, its draft is made. -/
theorem Numbered.exec_stampIndex (h : t.WellFormed) (hnumbered : Numbered t template counter f t₂)
    (scope : String) :
    ∃ n t', exec (stampIndex f scope counter) t₂ = (.ok n, t') ∧
      Drafted t template scope counter f t' := by
  obtain ⟨n, t', hrun, hstamped, hext⟩ := exec_stampIndex_new h hnumbered.wellFormed
    hnumbered.extends_old hnumbered.new scope counter
  exact ⟨n, t', hrun, hnumbered.drafted h hstamped hext⟩

/-! ## Slots -/

theorem exec_fillSlot {u : Tree} (hu : u.WellFormed) (h : t.WellFormed) (hext : u.Extends t)
    (hroot : ¬ u.Has root) (entry : String × String) :
    ∃ result t', exec (fillSlot root entry) t = (result, t') ∧ t'.WellFormed ∧ u.Extends t' ∧
      ∀ y, t.Has y → t'.content? y = t.content? y := by
  unfold fillSlot
  rw [exec_get_bind]
  rcases hslot : (t.selectFrom root (.attributeIs Directive.slot.name entry.1)).head? with _ | m
  · exact ⟨_, t, rfl, h, hext, fun _ _ => rfl⟩
  · obtain ⟨hrootm, hm⟩ := (mem_selectFrom h).1 (List.mem_of_head? hslot)
    obtain ⟨e, he⟩ := Option.isSome_iff_exists.1 (isElement_of_satisfies hm)
    obtain ⟨t', hrun, hset⟩ := Edit.exec_setText_holder h (element?_eq_some.1 he) rfl entry.2
    have hedit := exec_edit (Edit.setText m entry.2) t
    rw [hrun] at hedit
    refine ⟨.ok 1, t', by dsimp only; rw [exec_bind_ok hedit, exec_pure], hset.wellFormed,
      hext.textSet hu h hset (hext.new_below hu hroot hrootm) (has_of_element he), ?_⟩
    intro y hy
    rw [hset.content, if_neg]
    rintro ⟨-, rfl⟩
    exact not_has_new t hy

/-- Filling the slots of something new only adds nodes. -/
theorem exec_fillSlots {u : Tree} (hu : u.WellFormed) (h : t.WellFormed) (hext : u.Extends t)
    (hroot : ¬ u.Has root) {content : Content} (hcontent : t.content? root = some content)
    (data : List (String × String)) :
    ∃ result t', exec (fillSlots root data) t = (result, t') ∧ t'.WellFormed ∧ u.Extends t' ∧
      t'.content? root = some content := by
  have hloop : ∃ result t', exec (data.mapM (fillSlot root)) t = (result, t') ∧ t'.WellFormed ∧
      u.Extends t' ∧ t'.content? root = some content := by
    induction data generalizing t with
    | nil => exact ⟨_, t, rfl, h, hext, hcontent⟩
    | cons entry rest ih =>
      obtain ⟨result, t₁, hrun, h₁, hext₁, hkept⟩ := exec_fillSlot hu h hext hroot entry
      rw [List.mapM_cons]
      have hcontent₁ := (hkept root (has_of_content hcontent)).trans hcontent
      cases result with
      | error e => exact ⟨_, t₁, exec_bind_error hrun, h₁, hext₁, hcontent₁⟩
      | ok n =>
        obtain ⟨result, t₂, hrun₂, h₂, hext₂, hcontent₂⟩ := ih h₁ hext₁ hcontent₁
        rw [exec_bind_ok hrun]
        cases result with
        | error e => exact ⟨_, t₂, exec_bind_error hrun₂, h₂, hext₂, hcontent₂⟩
        | ok ns => exact ⟨_, t₂, by rw [exec_bind_ok hrun₂, exec_pure], h₂, hext₂, hcontent₂⟩
  obtain ⟨result, t', hrun, hrest⟩ := hloop
  unfold fillSlots
  cases result with
  | error e => exact ⟨_, t', exec_bind_error hrun, hrest⟩
  | ok ns => exact ⟨_, t', by rw [exec_bind_ok hrun, exec_pure], hrest⟩

end Stamp

end Repeater
