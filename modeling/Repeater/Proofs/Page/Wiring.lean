/-
  Repeater/Proofs/Page/Wiring.lean
  ================================
  **The listeners of the scopes.**

  `Wired` says how the listeners belong to the scopes: no two do the same, each started scope has
  its trigger wired, and only started scopes have listeners. Adding items, deleting an item and
  starting a scope keep it. At a start this is so because the listeners that outlive the start are
  for items outside the container, and those it adds for items in it.
-/
import Repeater.Proofs.Scope.Deleting
import Repeater.Proofs.Scope.Starting

namespace Repeater

open Dom Scope Tree

/-- How listeners belong to scopes; `trigger` gives the trigger of each started scope. -/
structure Wired (trigger : Nat → Option NodeId) (t : Tree) (ls : Listeners Action) : Prop where
  distinct : (ls.entries.map (·.handler)).Nodup
  onTrigger : ∀ l ∈ ls.entries, ∀ n, l.handler = .add n →
    trigger n = some l.target ∧ l.kind = .click
  onItem : ∀ l ∈ ls.entries, ∀ n item, l.handler = .delete n item →
    (trigger n).isSome ∧ t.Has item
  present : ∀ n x, trigger n = some x → ∃ l ∈ ls.entries, l.handler = .add n

namespace Wired

variable {trigger : Nat → Option NodeId} {t t' : Tree} {ls ls' : Listeners Action} {n : Nat}
  {item x : NodeId} {items : List NodeId} {added : List (Listener Action)}

theorem empty (t : Tree) : Wired (fun _ => none) t {} where
  distinct := List.nodup_nil
  onTrigger := by simp
  onItem := by simp
  present := by simp

theorem mono (h : Wired trigger t ls) (hhas : ∀ x, t.Has x → t'.Has x) : Wired trigger t' ls where
  distinct := h.distinct
  onTrigger := h.onTrigger
  onItem l hl n item hitem := ⟨(h.onItem l hl n item hitem).1, hhas _ (h.onItem l hl n item hitem).2⟩
  present := h.present

/-- What listeners for items do, in terms of the items. -/
theorem handler_of_sublist (hsub : (added.map (·.handler)).Sublist (items.map (.delete n)))
    {l : Listener Action} (hl : l ∈ added) : ∃ item ∈ items, l.handler = .delete n item := by
  obtain ⟨item, hitem, hhandler⟩ := List.mem_map.1 (hsub.subset (List.mem_map_of_mem hl))
  exact ⟨item, hitem, hhandler.symm⟩

theorem nodup_deletes (n : Nat) (h : items.Nodup) : (items.map (Action.delete n)).Nodup :=
  h.map fun _ _ heq => (Action.delete.inj heq).2

/-- New items may be wired. -/
theorem addItems (h : Wired trigger t ls) (hn : (trigger n).isSome)
    (hentries : ls'.entries = ls.entries ++ added)
    (hsub : (added.map (·.handler)).Sublist (items.map (.delete n))) (hnodup : items.Nodup)
    (hnew : ∀ item ∈ items, ¬ t.Has item ∧ t'.Has item) (hhas : ∀ x, t.Has x → t'.Has x) :
    Wired trigger t' ls' := by
  constructor
  case distinct =>
    rw [hentries, List.map_append, List.nodup_append']
    refine ⟨h.distinct, (nodup_deletes n hnodup).sublist hsub, ?_⟩
    intro action hold hadded
    obtain ⟨item, hitem, rfl⟩ := List.mem_map.1 (hsub.subset hadded)
    obtain ⟨l, hl, hhandler⟩ := List.mem_map.1 hold
    exact (hnew item hitem).1 (h.onItem l hl n item hhandler).2
  case onTrigger =>
    intro l hl m hm
    rw [hentries, List.mem_append] at hl
    rcases hl with hl | hl
    · exact h.onTrigger l hl m hm
    · obtain ⟨item, -, hhandler⟩ := handler_of_sublist hsub hl
      simp [hhandler] at hm
  case onItem =>
    intro l hl m item hm
    rw [hentries, List.mem_append] at hl
    rcases hl with hl | hl
    · exact ⟨(h.onItem l hl m item hm).1, hhas _ (h.onItem l hl m item hm).2⟩
    · obtain ⟨item', hitem, hhandler⟩ := handler_of_sublist hsub hl
      rw [hhandler, Action.delete.injEq] at hm
      obtain ⟨rfl, rfl⟩ := hm
      exact ⟨hn, (hnew _ hitem).2⟩
  case present =>
    intro m x hm
    obtain ⟨l, hl, hhandler⟩ := h.present m x hm
    exact ⟨l, by rw [hentries]; exact List.mem_append_left _ hl, hhandler⟩

theorem mem_retain {keep : Action → Bool} {l : Listener Action} :
    l ∈ (ls.retain keep).entries ↔ l ∈ ls.entries ∧ keep l.handler = true := List.mem_filter

/-- Listeners for an item may go. -/
theorem dropItem (h : Wired trigger t ls) (item : NodeId) : Wired trigger t (without item ls) where
  distinct := h.distinct.sublist (List.filter_sublist.map _)
  onTrigger l hl := h.onTrigger l (mem_retain.1 hl).1
  onItem l hl := h.onItem l (mem_retain.1 hl).1
  present := by
    intro n x hn
    obtain ⟨l, hl, hhandler⟩ := h.present n x hn
    exact ⟨l, mem_retain.2 ⟨hl, by simp [hhandler, Action.deletes?]⟩, hhandler⟩

/-- A scope may be started, with the items in its container wired. -/
theorem start (h : Wired trigger t ls) (ht : t.WellFormed) {container : NodeId}
    {wired : Listeners Action}
    (hentries : wired.entries = (ls.retain (outlivesStart t n container)).entries ++ added)
    (hsub : (added.map (·.handler)).Sublist
      ((t.elementChildren container).map (.delete n)))
    (hhas : ∀ x, t.Has x → t'.Has x) (x : NodeId) :
    Wired (Function.update trigger n (some x)) t' (wired.add x .click (.add n)) := by
  have hchild : ∀ item ∈ t.elementChildren container, t.parent? item = some container :=
    fun item hitem => ht.parent_of_child (List.mem_of_mem_filter hitem)
  have hmem : ∀ l, l ∈ (wired.add x .click (.add n)).entries ↔
      (l ∈ ls.entries ∧ outlivesStart t n container l.handler = true) ∨ l ∈ added ∨
        l = ⟨wired.next, x, .click, .add n⟩ := by
    intro l
    show l ∈ wired.entries ++ [_] ↔ _
    rw [hentries, List.mem_append, List.mem_append, mem_retain, List.mem_singleton, or_assoc]
  have hstays : ∀ m, (Function.update trigger n (some x) m).isSome = true ↔
      m = n ∨ (trigger m).isSome := by
    intro m
    by_cases hm : m = n <;> simp [Function.update, hm]
  constructor
  case distinct =>
    show ((wired.entries ++ [_]).map _).Nodup
    rw [hentries, List.map_append, List.map_append, List.nodup_append', List.nodup_append']
    refine ⟨⟨h.distinct.sublist (List.filter_sublist.map _), ?_, ?_⟩, by simp, ?_⟩
    · exact (nodup_deletes n ((ht.nodup_children container).filter _)).sublist hsub
    · -- a listener that outlives the start is for an item that is not in the container
      intro action hold hadded
      obtain ⟨item, hitem, rfl⟩ := List.mem_map.1 (hsub.subset hadded)
      obtain ⟨l, hl, hhandler⟩ := List.mem_map.1 hold
      have hkept := (mem_retain.1 hl).2
      simp [hhandler, outlivesStart, hchild item hitem] at hkept
    · intro action hold hnew
      obtain rfl : action = .add n := by simpa using hnew
      rcases List.mem_append.1 hold with hold | hold
      · obtain ⟨l, hl, hhandler⟩ := List.mem_map.1 hold
        have hkept := (mem_retain.1 hl).2
        simp [hhandler, outlivesStart] at hkept
      · obtain ⟨item, -, hhandler⟩ := List.mem_map.1 (hsub.subset hold)
        simp at hhandler
  case onTrigger =>
    intro l hl m hm
    rcases (hmem l).1 hl with ⟨hl, hkept⟩ | hl | rfl
    · have hne : m ≠ n := by
        rintro rfl
        simp [hm, outlivesStart] at hkept
      rw [Function.update_of_ne hne]
      exact h.onTrigger l hl m hm
    · obtain ⟨item, -, hhandler⟩ := handler_of_sublist hsub hl
      simp [hhandler] at hm
    · rw [← Action.add.inj hm, Function.update_self]
      exact ⟨rfl, rfl⟩
  case onItem =>
    intro l hl m item hm
    rw [hstays]
    rcases (hmem l).1 hl with ⟨hl, -⟩ | hl | rfl
    · exact ⟨.inr (h.onItem l hl m item hm).1, hhas _ (h.onItem l hl m item hm).2⟩
    · obtain ⟨item', hitem, hhandler⟩ := handler_of_sublist hsub hl
      rw [hhandler, Action.delete.injEq] at hm
      obtain ⟨rfl, rfl⟩ := hm
      exact ⟨.inl rfl, hhas _ (ht.has_of_child (List.mem_of_mem_filter hitem))⟩
    · simp at hm
  case present =>
    intro m y hm
    by_cases hmn : m = n
    · subst hmn
      exact ⟨_, (hmem _).2 (.inr (.inr rfl)), rfl⟩
    · rw [Function.update_of_ne hmn] at hm
      obtain ⟨l, hl, hhandler⟩ := h.present m y hm
      refine ⟨l, (hmem l).2 (.inl ⟨hl, ?_⟩), hhandler⟩
      simp [hhandler, outlivesStart, hmn]

end Wired

end Repeater
