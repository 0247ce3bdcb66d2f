/-
  Repeater/Proofs/Dom/Nesting.lean
  ================================
  **Nodes that hold others, through the contents of templates as well.**

  A node holds its children, and a template its contents. What a node encloses is reached from it by
  one or more such steps. Parents alone never lead in a circle in a well-formed tree; contents can,
  when a template is moved into its own contents. In a `Grounded` tree this has not happened.

  In a well-formed tree no node has two holders (`WellFormed.holder_unique`), so the nodes that
  enclose one node are on one line. How much a node encloses is counted by `spread`; it shrinks
  inwards unless a template holds itself.
-/
import Mathlib.Data.Finset.Card
import Repeater.Proofs.Dom.Edits

namespace Repeater.Dom

/-- Whether the first id was handed out before the second. -/
def NodeId.Precedes : NodeId → NodeId → Prop
  | .slot i, .slot j => i < j
  | _, _ => False

theorem NodeId.Precedes.trans {a b c : NodeId} (h : a.Precedes b) (h' : b.Precedes c) :
    a.Precedes c := by
  cases a <;> cases b <;> cases c <;> simp_all [Precedes]
  omega

theorem Tree.precedes_new {t : Tree} {x : NodeId} (hx : t.Has x) : x.Precedes (.slot t.size) := by
  obtain ⟨i, hi, rfl⟩ := has_iff_slot.1 hx
  exact hi

instance : DecidableRel NodeId.Precedes
  | .slot i, .slot j => inferInstanceAs (Decidable (i < j))
  | .none, _ => isFalse id
  | .slot _, .none => isFalse id

theorem NodeId.Precedes.irrefl (a : NodeId) : ¬ a.Precedes a := by
  cases a <;> simp [Precedes]

namespace Tree

open Relation

/-- Whether `b` is a child of `a` or its contents. -/
def Holds (t : Tree) (a b : NodeId) : Prop := t.parent? b = some a ∨ t.contents? a = some b

/-- Whether `b` is below `a`, or in the contents of a template at or below `a`, at any depth. -/
def Encloses (t : Tree) : NodeId → NodeId → Prop := TransGen t.Holds

/-- Whether `a` is `b` itself or encloses it. -/
def AtOrEncloses (t : Tree) : NodeId → NodeId → Prop := ReflTransGen t.Holds

/-- No node encloses itself: no template holds itself. -/
def Grounded (t : Tree) : Prop := ∀ x, ¬ t.Encloses x x

/-- No template at or below `root`, or within one that is, holds itself. -/
def GroundedFrom (t : Tree) (root : NodeId) : Prop := ∀ x, t.AtOrEncloses root x → ¬ t.Encloses x x

variable {t t' : Tree} {a b c p x y f : NodeId}

theorem encloses_of_parent (h : t.parent? b = some a) : t.Encloses a b := TransGen.single (.inl h)

theorem encloses_of_contents (h : t.contents? a = some b) : t.Encloses a b :=
  TransGen.single (.inr h)

theorem AtOrEncloses.refl (t : Tree) (a : NodeId) : t.AtOrEncloses a a := ReflTransGen.refl

theorem Encloses.atOrEncloses (h : t.Encloses a b) : t.AtOrEncloses a b := TransGen.to_reflTransGen h

theorem Encloses.trans (h : t.Encloses a b) (h' : t.Encloses b c) : t.Encloses a c :=
  TransGen.trans h h'

theorem AtOrEncloses.trans (h : t.AtOrEncloses a b) (h' : t.AtOrEncloses b c) :
    t.AtOrEncloses a c := ReflTransGen.trans h h'

theorem Encloses.trans_atOrEncloses (h : t.Encloses a b) (h' : t.AtOrEncloses b c) :
    t.Encloses a c := TransGen.trans_left h h'

theorem AtOrEncloses.trans_encloses (h : t.AtOrEncloses a b) (h' : t.Encloses b c) :
    t.Encloses a c := TransGen.trans_right h h'

theorem atOrEncloses_iff : t.AtOrEncloses a b ↔ a = b ∨ t.Encloses a b := by
  unfold AtOrEncloses Encloses
  rw [reflTransGen_iff_eq_or_transGen, eq_comm]

/-- What encloses a node holds it or encloses a node that does. -/
theorem encloses_iff_holder : t.Encloses a b ↔ ∃ p, t.Holds p b ∧ t.AtOrEncloses a p := by
  constructor
  · intro h
    obtain ⟨p, hap, hpb⟩ := TransGen.tail'_iff.1 h
    exact ⟨p, hpb, hap⟩
  · rintro ⟨p, hpb, hap⟩
    exact TransGen.tail' hap hpb

theorem Encloses.exists_held (h : t.Encloses a b) : ∃ x, t.Holds a x ∧ t.AtOrEncloses x b :=
  TransGen.head'_iff.1 h

theorem Above.encloses (h : t.Above a b) : t.Encloses a b :=
  TransGen.mono (fun _ _ hx => .inl hx) _ _ h

theorem AtOrAbove.atOrEncloses (h : t.AtOrAbove a b) : t.AtOrEncloses a b :=
  ReflTransGen.mono (fun _ _ hx => .inl hx) _ _ h

theorem Encloses.mono (hsub : ∀ a b, t.Holds a b → t'.Holds a b) (h : t.Encloses a b) :
    t'.Encloses a b := TransGen.mono hsub _ _ h

theorem AtOrEncloses.mono (hsub : ∀ a b, t.Holds a b → t'.Holds a b) (h : t.AtOrEncloses a b) :
    t'.AtOrEncloses a b := ReflTransGen.mono hsub _ _ h

theorem Grounded.mono (hsub : ∀ a b, t'.Holds a b → t.Holds a b) (h : t.Grounded) : t'.Grounded :=
  fun x hx => h x (hx.mono hsub)

/-- Every node was handed out after the node that holds it. -/
def InOrder (t : Tree) : Prop := ∀ i < t.size,
  (∀ p ∈ t.parent? (.slot i), p.Precedes (.slot i)) ∧
    ∀ f ∈ t.contents? (.slot i), NodeId.Precedes (.slot i) f

instance (t : Tree) : Decidable t.InOrder := inferInstanceAs (Decidable (∀ i < t.size, _ ∧ _))

/-- A transitive relation that leads from each parent to its children and from each template to its
    contents leads from each node to all that it encloses. -/
theorem Encloses.of_slots {r : NodeId → NodeId → Prop}
    (htrans : ∀ {a b c}, r a b → r b c → r a c)
    (h : ∀ i < t.size, (∀ p ∈ t.parent? (.slot i), r p (.slot i)) ∧
      ∀ f ∈ t.contents? (.slot i), r (.slot i) f) (hab : t.Encloses a b) : r a b := by
  have hstep : ∀ {a b}, t.Holds a b → r a b := by
    rintro a b (hparent | hcontents)
    · obtain ⟨i, hi, rfl⟩ := has_iff_slot.1 (has_of_parent hparent)
      exact (h i hi).1 a hparent
    · obtain ⟨i, hi, rfl⟩ := has_iff_slot.1 (has_of_contents hcontents)
      exact (h i hi).2 b hcontents
  induction hab with
  | single hab => exact hstep hab
  | tail _ hbc ih => exact htrans ih (hstep hbc)

theorem InOrder.precedes (h : t.InOrder) (hab : t.Encloses a b) : a.Precedes b :=
  hab.of_slots NodeId.Precedes.trans h

/-- As long as nothing has been moved, no template holds itself. -/
theorem InOrder.grounded (h : t.InOrder) : t.Grounded :=
  fun x hx => NodeId.Precedes.irrefl x (h.precedes hx)

/-- The document comes before all others. -/
theorem InOrder.not_encloses_document (h : t.InOrder) : ¬ t.Encloses x .document := by
  intro hx
  have hbefore := h.precedes hx
  cases x with
  | slot i => exact Nat.not_lt_zero i hbefore
  | none => exact hbefore

/-- No node encloses itself when every node ranks above the one that holds it. -/
theorem grounded_of_rank (rank : NodeId → Nat) (h : ∀ i < t.size,
    (∀ p ∈ t.parent? (.slot i), rank p < rank (.slot i)) ∧
      ∀ f ∈ t.contents? (.slot i), rank (.slot i) < rank f) : t.Grounded := by
  intro x hx
  have hrises : rank x < rank x := hx.of_slots (r := fun a b => rank a < rank b) Nat.lt_trans h
  exact Nat.lt_irrefl _ hrises

/-- A tree is grounded when no template is enclosed by its own contents. -/
theorem grounded_iff_contents (h : t.WellFormed) :
    t.Grounded ↔ ∀ x f, t.contents? x = some f → ¬ t.AtOrEncloses f x := by
  constructor
  · exact fun hg x f hf hfx => hg x ((encloses_of_contents hf).trans_atOrEncloses hfx)
  · intro hno x hx
    -- a circle that never goes through contents is one of parents
    have key : ∀ {y}, t.Encloses x y → t.Above x y ∨ ∃ z f, t.contents? z = some f ∧
        t.AtOrEncloses x z ∧ t.AtOrEncloses f y := by
      intro y hy
      induction hy with
      | single hstep =>
        rcases hstep with hstep | hstep
        · exact .inl (above_of_parent hstep)
        · exact .inr ⟨x, _, hstep, .refl t x, .refl t _⟩
      | tail hxy hstep ih =>
        rcases hstep with hstep | hstep
        · rcases ih with ih | ⟨z, f, hf, hxz, hfy⟩
          · exact .inl (ih.trans (above_of_parent hstep))
          · exact .inr ⟨z, f, hf, hxz, hfy.trans (encloses_of_parent hstep).atOrEncloses⟩
        · exact .inr ⟨_, _, hstep, Encloses.atOrEncloses hxy, .refl t _⟩
    rcases key hx with hx | ⟨z, f, hf, hxz, hfx⟩
    · exact h.acyclic x hx
    · exact hno z f hf (hfx.trans hxz)

namespace WellFormed

theorem holder_unique (h : t.WellFormed) (ha : t.Holds a x) (hb : t.Holds b x) : a = b := by
  rcases ha with ha | ha <;> rcases hb with hb | hb
  · rw [ha, Option.some.injEq] at hb
    exact hb
  · simp [h.fragment_parent (h.contents_fragment hb)] at ha
  · simp [h.fragment_parent (h.contents_fragment ha)] at hb
  · exact h.contents_injective ha hb

theorem has_holder (h : t.WellFormed) (hab : t.Holds a b) : t.Has a := by
  rcases hab with hab | hab
  · exact h.has_parent hab
  · exact has_of_contents hab

theorem has_held (h : t.WellFormed) (hab : t.Holds a b) : t.Has b := by
  rcases hab with hab | hab
  · exact has_of_parent hab
  · exact h.has_contents hab

theorem has_encloses (h : t.WellFormed) (hab : t.Encloses a b) : t.Has a := by
  obtain ⟨x, hx, -⟩ := hab.exists_held
  exact h.has_holder hx

theorem has_enclosed (h : t.WellFormed) (hab : t.Encloses a b) : t.Has b := by
  obtain ⟨p, hp, -⟩ := encloses_iff_holder.1 hab
  exact h.has_held hp

/-- Two nodes that enclose one node are on one line. -/
theorem total_atOrEncloses (h : t.WellFormed) (ha : t.AtOrEncloses a x)
    (hb : t.AtOrEncloses b x) : t.AtOrEncloses a b ∨ t.AtOrEncloses b a := by
  have hunique : Relator.RightUnique (Function.swap t.Holds) := fun _ _ _ => h.holder_unique
  rw [or_comm]
  exact (ReflTransGen.total_of_right_unique hunique (reflTransGen_swap.2 ha)
    (reflTransGen_swap.2 hb)).imp reflTransGen_swap.1 reflTransGen_swap.1

/-- What encloses a node encloses its parent or is the parent. -/
theorem atOrEncloses_parent (h : t.WellFormed) (hab : t.Encloses a b)
    (hp : t.parent? b = some p) : t.AtOrEncloses a p := by
  obtain ⟨q, hq, haq⟩ := encloses_iff_holder.1 hab
  exact h.holder_unique hq (.inl hp) ▸ haq

end WellFormed

theorem Grounded.groundedFrom (h : t.Grounded) (root : NodeId) : t.GroundedFrom root :=
  fun x _ => h x

theorem GroundedFrom.enclosed (h : t.GroundedFrom a) (hab : t.AtOrEncloses a b) :
    t.GroundedFrom b := fun x hbx => h x (hab.trans hbx)

theorem GroundedFrom.not_encloses (h : t.GroundedFrom a) (hab : t.AtOrEncloses a b) :
    ¬ t.Encloses b a := fun hba => h a (.refl t a) (hab.trans_encloses hba)

theorem WellFormed.has_atOrEncloses (h : t.WellFormed) (hab : t.AtOrEncloses a b) (hb : t.Has b) :
    t.Has a := by
  rcases atOrEncloses_iff.1 hab with rfl | hab
  · exact hb
  · exact h.has_encloses hab

theorem WellFormed.has_atOrEnclosed (h : t.WellFormed) (hab : t.AtOrEncloses a b) (ha : t.Has a) :
    t.Has b := by
  rcases atOrEncloses_iff.1 hab with rfl | hab
  · exact ha
  · exact h.has_enclosed hab

/-- What encloses a node below `x` and has no parent encloses `x`. -/
theorem WellFormed.atOrEncloses_of_detached (h : t.WellFormed) (hf : t.parent? f = none)
    (hxy : t.AtOrAbove x y) (hfy : t.AtOrEncloses f y) : t.AtOrEncloses f x := by
  induction hxy with
  | refl => exact hfy
  | tail _ hstep ih =>
    rcases atOrEncloses_iff.1 hfy with rfl | hfy
    · simp [hf] at hstep
    · exact ih (h.atOrEncloses_parent hfy hstep)

/-- What a node encloses is below it, or in the contents of a template at or below it. -/
theorem atOrEncloses_cases (hxy : t.AtOrEncloses x y) : t.AtOrAbove x y ∨
    ∃ z f, t.AtOrAbove x z ∧ t.contents? z = some f ∧ t.AtOrEncloses f y := by
  induction hxy with
  | refl => exact .inl (.refl t x)
  | tail hxy hstep ih =>
    rcases ih with hxy | ⟨z, f, hxz, hf, hfy⟩
    · rcases hstep with hstep | hstep
      · exact .inl (hxy.trans (above_of_parent hstep).atOrAbove)
      · exact .inr ⟨_, _, hxy, hstep, .refl t _⟩
    · exact .inr ⟨z, f, hxz, hf, ReflTransGen.tail hfy hstep⟩

/-! ## How much a node encloses -/

open Classical in
/-- The number of nodes that are `x` or enclosed by it. -/
noncomputable def spread (t : Tree) (x : NodeId) : Nat :=
  ((Finset.range t.size).filter fun i => t.AtOrEncloses x (.slot i)).card

theorem spread_le_size (t : Tree) (x : NodeId) : t.spread x ≤ t.size := by
  classical
  have := Finset.card_filter_le (Finset.range t.size) fun i => t.AtOrEncloses x (.slot i)
  rwa [Finset.card_range] at this

theorem spread_pos (hx : t.Has x) : 0 < t.spread x := by
  classical
  obtain ⟨i, hi, rfl⟩ := has_iff_slot.1 hx
  exact Finset.card_pos.2 ⟨i, by simpa using ⟨hi, .refl t _⟩⟩

theorem spread_lt (h : t.WellFormed) (hg : t.GroundedFrom a) (hab : t.Encloses a b) :
    t.spread b < t.spread a := by
  classical
  obtain ⟨i, hi, rfl⟩ := has_iff_slot.1 (h.has_encloses hab)
  refine Finset.card_lt_card (Finset.ssubset_iff_of_subset ?_ |>.2 ⟨i, ?_, ?_⟩)
  · intro j hj
    rw [Finset.mem_filter] at hj ⊢
    exact ⟨hj.1, (hab.trans_atOrEncloses hj.2).atOrEncloses⟩
  · simpa using ⟨hi, .refl t _⟩
  · simp only [Finset.mem_filter, not_and]
    exact fun _ hba => hg.not_encloses (.refl t _) (hab.trans_atOrEncloses hba)

end Tree

end Repeater.Dom
