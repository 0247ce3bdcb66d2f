/-
  Repeater/Text/Bytes.lean
  ========================
  **The length of a text in bytes.**

  Offsets in messages count the bytes of the text in UTF-8.
-/

namespace Repeater.Text

/-- The number of bytes of a text in UTF-8. -/
def byteCount : List Char → Nat
  | [] => 0
  | c :: rest => c.utf8Size + byteCount rest

theorem byteCount_append (cs ds : List Char) :
    byteCount (cs ++ ds) = byteCount cs + byteCount ds := by
  induction cs with
  | nil => simp [byteCount]
  | cons c rest ih => simp only [List.cons_append, byteCount, ih, Nat.add_assoc]

end Repeater.Text
