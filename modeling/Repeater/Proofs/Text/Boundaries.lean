/-
  Repeater/Proofs/Text/Boundaries.lean
  ====================================
  **Where a text can be cut.**

  A cut at a byte gives the characters before it and those after it (`splitAtByte?_eq_some`), so a
  text can be cut exactly at the byte positions that are valid in it (`isSome_splitAtByte?`).
-/
import Repeater.Text.Bytes
import Repeater.Text.Slice

namespace Repeater.Text

variable {cs before after part : List Char} {n : Nat}

theorem byteCount_eq_zero : byteCount cs = 0 ↔ cs = [] := by
  cases cs with
  | nil => simp [byteCount]
  | cons c rest =>
    have hpos := c.utf8Size_pos
    simp only [byteCount, reduceCtorEq, iff_false]
    omega

/-- A cut at a byte parts the text at a character, with as many bytes before it. -/
theorem splitAtByte?_eq_some :
    splitAtByte? n cs = some (before, after) ↔ cs = before ++ after ∧ byteCount before = n := by
  fun_induction splitAtByte? n cs generalizing before after with
  | case1 cs =>
    rw [Option.some.injEq, Prod.mk.injEq, byteCount_eq_zero]
    constructor
    · rintro ⟨rfl, rfl⟩
      exact ⟨rfl, rfl⟩
    · rintro ⟨rfl, rfl⟩
      exact ⟨rfl, rfl⟩
  | case2 n =>
    simp only [reduceCtorEq, false_iff, List.nil_eq, List.append_eq_nil_iff]
    rintro ⟨⟨rfl, -⟩, ⟨⟩⟩
  | case3 n c cs hle ih =>
    rw [Option.map_eq_some_iff]
    constructor
    · rintro ⟨⟨front, back⟩, hcut, ⟨⟩⟩
      obtain ⟨rfl, hcount⟩ := ih.1 hcut
      exact ⟨rfl, by rw [byteCount, hcount]; omega⟩
    · rintro ⟨hcs, hcount⟩
      obtain _ | ⟨d, front⟩ := before
      · cases hcount
      · obtain ⟨rfl, rfl⟩ := List.cons.inj hcs
        rw [byteCount] at hcount
        exact ⟨(front, after), ih.2 ⟨rfl, by omega⟩, rfl⟩
  | case4 n c cs hlt =>
    simp only [reduceCtorEq, false_iff]
    rintro ⟨hcs, hcount⟩
    obtain _ | ⟨d, front⟩ := before
    · cases hcount
    · obtain ⟨rfl, rfl⟩ := List.cons.inj hcs
      rw [byteCount] at hcount
      omega

theorem from?_append (before after : List Char) :
    from? (byteCount before) (before ++ after) = some after := by
  rw [from?, splitAtByte?_eq_some.2 ⟨rfl, rfl⟩]
  rfl

theorem between?_append (before part after : List Char) :
    between? (byteCount before) (byteCount (before ++ part)) (before ++ part ++ after) =
      some part := by
  have hcut := splitAtByte?_eq_some.2 ⟨(rfl : before ++ part ++ after = _), rfl⟩
  rw [between?, hcut]
  exact from?_append before part

/-! ## Texts and their valid positions -/

theorem byteCount_toList (s : String) : byteCount s.toList = s.utf8ByteSize := by
  have hlist : ∀ cs : List Char, byteCount cs = (String.ofList cs).utf8ByteSize := by
    intro cs
    induction cs with
    | nil => rfl
    | cons c rest ih =>
      rw [byteCount, ih, String.ofList_cons, String.utf8ByteSize_append,
        String.utf8ByteSize_singleton]
  rw [hlist, String.ofList_toList]

/-- A byte position is valid in a text exactly if the text can be parted there. -/
theorem isValid_iff {s : String} : (String.Pos.Raw.mk n).IsValid s ↔
    ∃ before after, s.toList = before ++ after ∧ byteCount before = n := by
  rw [String.Pos.Raw.isValid_iff_exists_append]
  constructor
  · rintro ⟨front, back, rfl, hn⟩
    refine ⟨front.toList, back.toList, String.toList_append, ?_⟩
    rw [byteCount_toList]
    exact congrArg String.Pos.Raw.byteIdx hn.symm
  · rintro ⟨before, after, hs, rfl⟩
    refine ⟨String.ofList before, String.ofList after, ?_, ?_⟩
    · rw [← String.ofList_append, ← hs, String.ofList_toList]
    · rw [← String.toList_ofList (l := before), byteCount_toList, String.ofList_toList]
      rfl

/-- A text can be cut exactly at the valid positions. -/
theorem isSome_splitAtByte? {s : String} :
    (splitAtByte? n s.toList).isSome ↔ (String.Pos.Raw.mk n).IsValid s := by
  rw [Option.isSome_iff_exists, isValid_iff]
  constructor
  · rintro ⟨⟨before, after⟩, hcut⟩
    exact ⟨before, after, splitAtByte?_eq_some.1 hcut⟩
  · rintro ⟨before, after, hcut⟩
    exact ⟨(before, after), splitAtByte?_eq_some.2 hcut⟩

end Repeater.Text
