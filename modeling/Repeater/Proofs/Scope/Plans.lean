/-
  Repeater/Proofs/Scope/Plans.lean
  ================================
  **Plans of additions.**

  What an addition is to bring in, and where, is settled before it is made, but for the number that
  its item gets (`Plan`). Items of a list of plans are numbered scope by scope (`numbered`). Two
  lists of plans can be carried out in either order when all items of a scope come in at one spot,
  and wherever both serve the same spot, they bring in the same there (`Exchangeable.sameOrders`).
-/
import Mathlib.Data.List.Basic
import Repeater.Dom.Node

namespace Repeater.Scope

open Dom

/-! ## Plans and items -/

/-- What the items of a scope are made from, and where they come in: last among the children of
    `place`, or right before one of them. -/
structure Plan where
  number : Nat
  identifier : String
  source : NodeId
  data : List (String × String)
  place : NodeId
  reference : Option NodeId
deriving DecidableEq

def Plan.spot (plan : Plan) : NodeId × Option NodeId := (plan.place, plan.reference)

/-- An item that has come in: its plan, the counter it was given, and the function that takes what
    it was made from to its nodes. -/
structure Item where
  plan : Plan
  counter : Nat
  copy : NodeId → NodeId

def Item.order (item : Item) : Plan × Nat := (item.plan, item.counter)

/-- Whether the same has come in at every spot, in the same order. -/
def SameOrders (items items' : List Item) : Prop :=
  ∀ spot, (items.filter (·.plan.spot = spot)).map Item.order =
    (items'.filter (·.plan.spot = spot)).map Item.order

/-! ## Counting -/

/-- The plans with the counters that their items get, where `start` tells how far each scope has
    counted before. -/
def numbered (start : Nat → Nat) : List Plan → List (Plan × Nat)
  | [] => []
  | plan :: rest =>
    (plan, start plan.number) ::
      numbered (Function.update start plan.number (start plan.number + 1)) rest

variable {start start' : Nat → Nat} {plans first second : List Plan} {plan : Plan}

theorem numbered_concat (start : Nat → Nat) (plans : List Plan) (plan : Plan) :
    numbered start (plans ++ [plan]) = numbered start plans ++
      [(plan, start plan.number + plans.countP (·.number = plan.number))] := by
  induction plans generalizing start with
  | nil => rfl
  | cons head rest ih =>
    rw [List.cons_append, numbered, ih, numbered, List.cons_append, List.countP_cons]
    by_cases hnumber : plan.number = head.number
    · simp [hnumber, Nat.add_assoc, Nat.add_comm]
    · simp [hnumber, Ne.symm hnumber]

theorem map_fst_numbered (start : Nat → Nat) (plans : List Plan) :
    (numbered start plans).map Prod.fst = plans := by
  induction plans generalizing start with
  | nil => rfl
  | cons plan rest ih => rw [numbered, List.map_cons, ih]

theorem numbered_congr (h : ∀ plan ∈ plans, start plan.number = start' plan.number) :
    numbered start plans = numbered start' plans := by
  induction plans generalizing start start' with
  | nil => rfl
  | cons plan rest ih =>
    have hplan := h plan (by simp)
    rw [numbered, numbered, hplan]
    congr 1
    refine ih fun other hother => ?_
    by_cases hnumber : other.number = plan.number
    · rw [hnumber, Function.update_self, Function.update_self]
    · rw [Function.update_of_ne hnumber, Function.update_of_ne hnumber]
      exact h other (by simp [hother])

/-- Where all items of a scope come in at one spot, what comes in elsewhere does not matter for
    their counters. -/
theorem filter_numbered (start : Nat → Nat) {plans : List Plan}
    (h : ∀ plan ∈ plans, ∀ other ∈ plans, plan.number = other.number → plan.spot = other.spot)
    (spot : NodeId × Option NodeId) :
    (numbered start plans).filter (·.1.spot = spot) =
      numbered start (plans.filter (·.spot = spot)) := by
  induction plans generalizing start with
  | nil => rfl
  | cons plan rest ih =>
    have hrest := fun start => ih start fun other hother another hanother =>
      h other (by simp [hother]) another (by simp [hanother])
    rw [numbered]
    by_cases hspot : plan.spot = spot
    · rw [List.filter_cons_of_pos (by simpa using hspot),
        List.filter_cons_of_pos (by simpa using hspot), hrest, numbered]
    · rw [List.filter_cons_of_neg (by simpa using hspot),
        List.filter_cons_of_neg (by simpa using hspot), hrest]
      refine numbered_congr fun other hother => ?_
      obtain ⟨hother, hsame⟩ := List.mem_filter.1 hother
      refine Function.update_of_ne (fun hnumber => hspot ?_) _ _
      rw [← of_decide_eq_true hsame]
      exact h plan (by simp) other (by simp [hother]) hnumber.symm

/-- Whether a spot that both lists of plans serve is served only by their common last ones. -/
def Parted (first second : List Plan) : Prop :=
  ∃ front front' common, first = front ++ common ∧ second = front' ++ common ∧
    (∀ plan ∈ front, ∀ other ∈ second, plan.spot ≠ other.spot) ∧
      ∀ plan ∈ front', ∀ other ∈ first, plan.spot ≠ other.spot

theorem Parted.of_ne (h : ∀ plan ∈ first, ∀ other ∈ second, plan.spot ≠ other.spot) :
    Parted first second :=
  ⟨first, second, [], by simp, by simp, h, fun plan hplan other hother =>
    (h other hother plan hplan).symm⟩

/-- Plans that may be carried out before or after others: all items of a scope come in at one spot,
    and a spot that both serve gets the same from both. -/
structure Exchangeable (first second : List Plan) : Prop where
  spot_eq : ∀ plan ∈ first ++ second, ∀ other ∈ first ++ second,
    plan.number = other.number → plan.spot = other.spot
  parted : Parted first second

theorem Exchangeable.filter (h : Exchangeable first second) (keep : Plan → Bool) :
    Exchangeable (first.filter keep) (second.filter keep) where
  spot_eq plan hplan other hother := by
    rw [← List.filter_append] at hplan hother
    exact h.spot_eq plan (List.mem_of_mem_filter hplan) other (List.mem_of_mem_filter hother)
  parted := by
    obtain ⟨front, front', common, rfl, rfl, hfront, hfront'⟩ := h.parted
    refine ⟨front.filter keep, front'.filter keep, common.filter keep, List.filter_append ..,
      List.filter_append .., ?_, ?_⟩
    · exact fun plan hplan other hother =>
        hfront plan (List.mem_of_mem_filter hplan) other (List.mem_of_mem_filter hother)
    · exact fun plan hplan other hother =>
        hfront' plan (List.mem_of_mem_filter hplan) other (List.mem_of_mem_filter hother)

/-- At a spot, one of the two brings in nothing, or both bring in the same. -/
theorem Exchangeable.filter_append_comm (h : Exchangeable first second)
    (spot : NodeId × Option NodeId) :
    first.filter (·.spot = spot) ++ second.filter (·.spot = spot) =
      second.filter (·.spot = spot) ++ first.filter (·.spot = spot) := by
  obtain ⟨front, front', common, hfirst, hsecond, hfront, hfront'⟩ := h.parted
  by_cases hserved : ∃ plan ∈ front, plan.spot = spot
  · obtain ⟨plan, hplan, rfl⟩ := hserved
    rw [List.filter_eq_nil_iff (l := second)|>.2 fun other hother =>
      by simpa using (hfront plan hplan other hother).symm]
    simp
  by_cases hserved' : ∃ plan ∈ front', plan.spot = spot
  · obtain ⟨plan, hplan, rfl⟩ := hserved'
    rw [List.filter_eq_nil_iff (l := first)|>.2 fun other hother =>
      by simpa using (hfront' plan hplan other hother).symm]
    simp
  have hnone : ∀ {l : List Plan}, (¬ ∃ plan ∈ l, plan.spot = spot) →
      l.filter (·.spot = spot) = [] := fun hnot => List.filter_eq_nil_iff.2 fun plan hplan =>
    by simpa using fun hspot => hnot ⟨plan, hplan, hspot⟩
  rw [hfirst, hsecond, List.filter_append, List.filter_append, hnone hserved, hnone hserved']

/-- Either way, the same comes in at every spot. -/
theorem Exchangeable.sameOrders {items items' : List Item} (h : Exchangeable first second)
    (hitems : items.map Item.order = numbered start (first ++ second))
    (hitems' : items'.map Item.order = numbered start (second ++ first)) :
    SameOrders items items' := by
  have hfilter : ∀ (items : List Item) (spot : NodeId × Option NodeId),
      (items.filter (·.plan.spot = spot)).map Item.order =
        (items.map Item.order).filter (·.1.spot = spot) := by
    intro items spot
    rw [List.filter_map]
    rfl
  intro spot
  rw [hfilter, hfilter, hitems, hitems', filter_numbered start h.spot_eq,
    filter_numbered start (fun plan hplan other hother => h.spot_eq plan ?_ other ?_),
    List.filter_append, List.filter_append, h.filter_append_comm]
  · exact List.mem_append.2 (List.mem_append.1 hplan).symm
  · exact List.mem_append.2 (List.mem_append.1 hother).symm

end Repeater.Scope
