/-
  Repeater/Text/Decimal.lean
  ==========================
  **Whole numbers in decimal form.**

  Counters, offsets and hook integers are written in decimal form, a negative number with a leading
  minus sign. Integers are of 64 bits: a counter is read as signed by two's complement, and a value
  outside the range is told by `inWord`.
-/

namespace Repeater.Text

/-- The decimal digits of a natural number. -/
def digits (n : Nat) : List Char := Nat.toDigits 10 n

/-- The decimal form of an integer. -/
def decimal (n : Int) : List Char :=
  if n < 0 then '-' :: digits n.natAbs else digits n.natAbs

/-- Whether the integer fits in a signed word of 64 bits. -/
def inWord (n : Int) : Bool := -0x8000000000000000 ≤ n && n < 0x8000000000000000

/-- The signed word of 64 bits that has the same residue as `n`. -/
def wrapWord (n : Int) : Int := Int.bmod n 0x10000000000000000

/-- The number that a non-empty run of decimal digits denotes. -/
def ofDigits? (cs : List Char) : Option Nat :=
  if cs.isEmpty || !cs.all Char.isDigit then none
  else some (cs.foldl (fun n c => n * 10 + (c.toNat - '0'.toNat)) 0)

theorem isDigit_of_mem_digits {n : Nat} {c : Char} (h : c ∈ digits n) : c.isDigit = true :=
  Nat.isDigit_of_mem_toDigits (by decide) (by decide) h

theorem mem_decimal {n : Int} {c : Char} (h : c ∈ decimal n) : c = '-' ∨ c.isDigit = true := by
  unfold decimal at h
  split at h
  · exact (List.mem_cons.1 h).imp_right isDigit_of_mem_digits
  · exact .inr (isDigit_of_mem_digits h)

theorem ofDigits?_digits (n : Nat) : ofDigits? (digits n) = some n := by
  have hne : digits n ≠ [] := Nat.toDigits_ne_nil
  have hall : (digits n).all Char.isDigit = true :=
    List.all_eq_true.2 fun _ hc => isDigit_of_mem_digits hc
  have hread : Nat.ofDigitChars 10 (digits n) 0 = n :=
    Nat.ofDigitChars_toDigits (by decide) (by decide)
  simp only [Nat.ofDigitChars, Nat.mul_comm 10] at hread
  unfold ofDigits?
  rw [hread, hall]
  simp [hne]

/-- Zeros in front of digits do not change the number that they denote. -/
theorem ofDigits?_padded {cs : List Char} (h : cs ≠ []) (zeros : Nat) :
    ofDigits? (List.replicate zeros '0' ++ cs) = ofDigits? cs := by
  induction zeros with
  | zero => rfl
  | succ zeros ih =>
    rw [← ih]
    simp [List.replicate_succ, ofDigits?, h]

/-- The value of a hexadecimal digit. -/
def hexDigit? (c : Char) : Option Nat :=
  if c.isDigit then some (c.toNat - '0'.toNat)
  else if 'a' ≤ c && c ≤ 'f' then some (c.toNat - 'a'.toNat + 10)
  else if 'A' ≤ c && c ≤ 'F' then some (c.toNat - 'A'.toNat + 10)
  else none

end Repeater.Text
