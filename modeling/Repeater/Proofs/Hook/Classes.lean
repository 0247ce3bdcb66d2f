/-
  Repeater/Proofs/Hook/Classes.lean
  =================================
  **Class lists in hook code.**

  Adding a class takes the argument out of the class list, as one text, and writes it behind the
  rest; removing only takes it out. What is written is read as words again. So all words of the
  argument are classes after adding it, and the other classes stay as they were. An argument with
  blanks is no entry of any class list, though: where it has words it is written once more each time
  it is added, and removing it takes nothing away (`addClass_then_removeClass`).
-/
import Repeater.Hook.Run
import Repeater.Proofs.Dom.Lasting
import Repeater.Proofs.Stamp.Index
import Repeater.Proofs.Text.Words

namespace Repeater.Hook

open Dom Text Tree

variable {t : Tree} {x : NodeId} {e : Element} {argument : String} {classes : List String}

/-! ## Elements with another class list -/

/-- The element with the classes of the argument. -/
def withClass (argument : String) (e : Element) : Element :=
  e.set "class" (" ".intercalate (withoutClass argument e.classes ++ [argument]))

/-- The element without the class that the argument is. -/
def lessClass (argument : String) (e : Element) : Element :=
  e.set "class" (" ".intercalate (withoutClass argument e.classes))

theorem exec_addClass (hx : t.element? x = some e) (argument : String) :
    exec (ElementMethod.addClass.apply x [argument]) t =
      (.ok ⟨⟩, t.setContent x (.element (withClass argument e))) := by
  have hvalue : t.attribute? x "class" = e.get? "class" := by
    rw [attribute?, hx, Option.bind_some]
  rw [ElementMethod.apply, exec_get_bind, hvalue]
  exact Edit.exec_setAttribute hx "class" _

theorem exec_removeClass (hx : t.element? x = some e) (argument : String) :
    exec (ElementMethod.removeClass.apply x [argument]) t =
      (.ok ⟨⟩, t.setContent x (.element (lessClass argument e))) := by
  have hvalue : t.attribute? x "class" = e.get? "class" := by
    rw [attribute?, hx, Option.bind_some]
  rw [ElementMethod.apply, exec_get_bind, hvalue]
  exact Edit.exec_setAttribute hx "class" _

/-! ## What is read of a class list that was written -/

theorem classes_set (e : Element) (value : String) :
    (e.set "class" value).classes = words value := by
  rw [Element.classes, Element.get?_set, if_pos rfl, Option.getD_some]

theorem isWord_of_mem_classes {name : String} (h : name ∈ e.classes) : IsWord name :=
  isWord_of_mem_words h

theorem mem_withoutClass {name : String} :
    name ∈ withoutClass argument classes ↔ name ∈ classes ∧ name ≠ argument := by
  rw [withoutClass, List.mem_filter, bne_iff_ne]

theorem withoutClass_append (argument : String) (first second : List String) :
    withoutClass argument (first ++ second) =
      withoutClass argument first ++ withoutClass argument second := List.filter_append ..

/-- A class that is not in the list is not taken out of it. -/
theorem withoutClass_of_not_mem (h : argument ∉ classes) :
    withoutClass argument classes = classes := by
  apply List.filter_eq_self.2
  intro name hname
  rw [bne_iff_ne]
  rintro rfl
  exact h hname

theorem withoutClass_withoutClass (argument : String) (classes : List String) :
    withoutClass argument (withoutClass argument classes) = withoutClass argument classes := by
  apply withoutClass_of_not_mem
  intro h
  exact (mem_withoutClass.1 h).2 rfl

theorem flatMap_words_withoutClass (argument : String) (e : Element) :
    (withoutClass argument e.classes).flatMap words = withoutClass argument e.classes := by
  apply flatMap_words
  intro name hname
  exact isWord_of_mem_classes (mem_withoutClass.1 hname).1

theorem classes_withClass (argument : String) (e : Element) :
    (withClass argument e).classes = withoutClass argument e.classes ++ words argument := by
  rw [withClass, classes_set, words_intercalate, List.flatMap_append,
    flatMap_words_withoutClass, List.flatMap_singleton]

theorem classes_lessClass (argument : String) (e : Element) :
    (lessClass argument e).classes = withoutClass argument e.classes := by
  rw [lessClass, classes_set, words_intercalate, flatMap_words_withoutClass]

/-- Classes that are no words of the argument are not taken out. -/
theorem others_withoutClass (argument : String) (e : Element) :
    (withoutClass argument e.classes).filter (· ∉ words argument) =
      e.classes.filter (· ∉ words argument) := by
  rw [withoutClass, List.filter_filter]
  apply List.filter_congr
  intro name hname
  by_cases hsame : name = argument
  · -- a class that is the argument is its only word
    have hmem : name ∈ words argument := by
      subst hsame
      rw [(isWord_of_mem_classes hname).words]
      exact List.mem_singleton_self name
    simp [hmem]
  · simp [hsame]

/-! ## Adding twice, and removing -/

/-- Without words, or as a single word, the argument leaves nothing of its words in the list once it
    is taken out of them. -/
theorem withoutClass_words (h : words argument = [] ∨ IsWord argument) :
    withoutClass argument (words argument) = [] := by
  rcases h with hnone | hword
  · rw [hnone]
    rfl
  · rw [hword.words, withoutClass]
    simp

/-- Any other argument is none of its own words. -/
theorem withoutClass_words_of_not (h : ¬ IsWord argument) :
    withoutClass argument (words argument) = words argument := by
  apply withoutClass_of_not_mem
  intro hmem
  exact h (isWord_of_mem_words hmem)

theorem withClass_withClass (argument : String) (e : Element) :
    withClass argument (withClass argument e) = e.set "class" (" ".intercalate
      (withoutClass argument e.classes ++ withoutClass argument (words argument) ++ [argument])) := by
  rw [withClass, classes_withClass, withoutClass_append, withoutClass_withoutClass, withClass,
    Element.set_set]

/-- Adding the argument again changes nothing if it leaves nothing of itself, and only then. -/
theorem withClass_idem : (withClass argument (withClass argument e)).get? "class" =
      (withClass argument e).get? "class" ↔ words argument = [] ∨ IsWord argument := by
  constructor
  · intro hsame
    by_contra hother
    rw [not_or] at hother
    have hclasses : (withClass argument (withClass argument e)).classes =
        (withClass argument e).classes := by rw [Element.classes, hsame, Element.classes]
    have hkept := withoutClass_words_of_not hother.2
    rw [classes_withClass, classes_withClass, withoutClass_append, withoutClass_withoutClass,
      hkept, List.append_assoc, List.append_cancel_left_eq] at hclasses
    exact hother.1 (by simpa using hclasses)
  · intro honce
    rw [withClass_withClass, withoutClass_words honce, List.append_nil, withClass]

/-- **Adding and removing classes.** After an argument has been added, each of its words is a class,
    and the other classes are those there were, in their order. Adding it again leaves the class list
    alone, and removing it takes all its words away, if and only if it has no words or is a single
    word. -/
theorem addClass_then_removeClass (hx : t.element? x = some e) (argument : String) :
    let add := ElementMethod.addClass.apply x [argument]
    let remove := ElementMethod.removeClass.apply x [argument]
    ∃ once twice gone : Element,
      exec add t = (.ok ⟨⟩, t.setContent x (.element once)) ∧
      exec (add >>= fun _ => add) t = (.ok ⟨⟩, t.setContent x (.element twice)) ∧
      exec (add >>= fun _ => remove) t = (.ok ⟨⟩, t.setContent x (.element gone)) ∧
      (∀ name ∈ words argument, name ∈ once.classes) ∧
      once.classes.filter (· ∉ words argument) = e.classes.filter (· ∉ words argument) ∧
      gone.classes.filter (· ∉ words argument) = e.classes.filter (· ∉ words argument) ∧
      (twice.get? "class" = once.get? "class" ↔ words argument = [] ∨ IsWord argument) ∧
      ((∀ name ∈ words argument, name ∉ gone.classes) ↔
        words argument = [] ∨ IsWord argument) := by
  intro add remove
  have hadd := exec_addClass hx argument
  have honce : (t.setContent x (.element (withClass argument e))).element? x =
      some (withClass argument e) := by
    rw [element?_eq_some, content?_setContent, if_pos ⟨rfl, has_of_element hx⟩]
  have hgone : (lessClass argument (withClass argument e)).classes =
      withoutClass argument e.classes ++ withoutClass argument (words argument) := by
    rw [classes_lessClass, classes_withClass, withoutClass_append, withoutClass_withoutClass]
  have hwords : (words argument).filter (· ∉ words argument) = [] := by
    simp
  refine ⟨withClass argument e, withClass argument (withClass argument e),
    lessClass argument (withClass argument e), hadd, ?_, ?_, ?_, ?_, ?_, withClass_idem, ?_⟩
  · rw [exec_bind_ok hadd, exec_addClass honce, setContent_setContent]
  · rw [exec_bind_ok hadd, exec_removeClass honce, setContent_setContent]
  · intro name hname
    rw [classes_withClass]
    exact List.mem_append_right _ hname
  · rw [classes_withClass, List.filter_append, others_withoutClass, hwords, List.append_nil]
  · have hrest : (withoutClass argument (words argument)).filter (· ∉ words argument) = [] := by
      apply List.filter_eq_nil_iff.2
      intro name hname
      simpa using (mem_withoutClass.1 hname).1
    rw [hgone, List.filter_append, others_withoutClass, hrest, List.append_nil]
  · rw [hgone]
    constructor
    · intro hnone
      by_contra hother
      rw [not_or] at hother
      obtain ⟨name, hname⟩ := List.exists_mem_of_ne_nil _ hother.1
      apply hnone name hname
      rw [withoutClass_words_of_not hother.2]
      exact List.mem_append_right _ hname
    · intro hplain name hname hmem
      rw [withoutClass_words hplain, List.append_nil, mem_withoutClass] at hmem
      rcases hplain with hempty | hword
      · rw [hempty] at hname
        cases hname
      · rw [hword.words, List.mem_singleton] at hname
        exact hmem.2 hname

/-- Two classes as one argument: they are written twice, and removing takes neither away. -/
theorem addClass_then_removeClass_pair :
    let row : Element := { tag := "li", attributes := [⟨"class", " row  new"⟩] }
    let t : Tree := ⟨#[{ content := .document }, { content := .element row }]⟩
    let add := ElementMethod.addClass.apply (.slot 1) ["new item"]
    let remove := ElementMethod.removeClass.apply (.slot 1) ["new item"]
    t.element? (.slot 1) = some row ∧ words "new item" = ["new", "item"] ∧
      ∃ once twice gone : Element,
        exec add t = (.ok ⟨⟩, t.setContent (.slot 1) (.element once)) ∧
        exec (add >>= fun _ => add) t = (.ok ⟨⟩, t.setContent (.slot 1) (.element twice)) ∧
        exec (add >>= fun _ => remove) t = (.ok ⟨⟩, t.setContent (.slot 1) (.element gone)) ∧
        "new" ∈ once.classes ∧ "item" ∈ once.classes ∧
        twice.get? "class" ≠ once.get? "class" ∧ ("new" ∈ gone.classes ∨ "item" ∈ gone.classes) := by
  intro row t add remove
  have hrow : t.element? (.slot 1) = some row := rfl
  have hwords : words "new item" = ["new", "item"] := by decide +kernel
  have hneither : ¬ (words "new item" = [] ∨ IsWord "new item") := by
    rintro (hnone | hword)
    · simp [hwords] at hnone
    · simp [hword.words] at hwords
  obtain ⟨once, twice, gone, hadd, htwice, hgone, hall, -, -, hidem, hless⟩ :=
    addClass_then_removeClass hrow "new item"
  refine ⟨hrow, hwords, once, twice, gone, hadd, htwice, hgone, ?_, ?_, ?_, ?_⟩
  · exact hall "new" (by simp [hwords])
  · exact hall "item" (by simp [hwords])
  · intro hsame
    exact hneither (hidem.1 hsame)
  · by_contra hnone
    rw [not_or] at hnone
    apply hneither (hless.1 _)
    rw [hwords]
    simpa using hnone

end Repeater.Hook
