/-
  Repeater/Text/CharSet.lean
  ==========================
  **Sets of characters as ascending bounds.**

  A property of the Unicode standard holds on a number of ranges of codes. `CharSet` lists the
  bounds of these ranges in ascending order: the first code inside, the first code outside again,
  and so on. A character is in the set when an odd number of bounds is at or below its code.
-/

namespace Repeater.Text

/-- A set of characters, given by the codes at which membership changes. -/
structure CharSet where
  bounds : List Nat
deriving Repr, DecidableEq

namespace CharSet

/-- Whether the code `n` is inside, when membership just before the first of the bounds is
    `inside`. -/
def holdsFrom (n : Nat) : Bool → List Nat → Bool
  | inside, [] => inside
  | inside, b :: rest => if n < b then inside else holdsFrom n (!inside) rest

/-- Whether the character is in the set. -/
def contains (set : CharSet) (c : Char) : Bool := holdsFrom c.toNat false set.bounds

/-- Membership is the parity of the number of ascending bounds passed. -/
theorem holdsFrom_eq_parity (n : Nat) (inside : Bool) (bounds : List Nat)
    (ascending : bounds.Pairwise (· ≤ ·)) :
    holdsFrom n inside bounds = (inside ^^ (bounds.countP (· ≤ n)) % 2 == 1) := by
  induction bounds generalizing inside with
  | nil => simp [holdsFrom]
  | cons b rest ih =>
    rw [List.pairwise_cons] at ascending
    by_cases h : n < b
    · have none_passed : rest.countP (· ≤ n) = 0 := by
        rw [List.countP_eq_zero]
        intro x hx
        have := ascending.1 x hx
        simp; omega
      have : ¬ b ≤ n := by omega
      simp [holdsFrom, h, none_passed, this]
    · have passed : b ≤ n := by omega
      have step := ih (!inside) ascending.2
      simp only [holdsFrom, h, if_false, step]
      rw [List.countP_cons]
      simp only [passed, decide_true, if_true]
      rcases Nat.mod_two_eq_zero_or_one (rest.countP (· ≤ n)) with h0 | h1
      · have : (rest.countP (· ≤ n) + 1) % 2 = 1 := by omega
        simp [h0, this]
      · have : (rest.countP (· ≤ n) + 1) % 2 = 0 := by omega
        simp [h1, this]

end CharSet

end Repeater.Text
