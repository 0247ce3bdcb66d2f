/-
  Repeater/Proofs/Hook/ByByte.lean
  ================================
  **The lexer by bytes is the lexer.**

  The lexer that goes by byte positions is always at the byte at which what is left of the code
  starts (`place`). Each of its steps therefore follows the one that takes characters off a list,
  up to the whole of it (`marks_lexes`): it ends, it never cuts the code inside a character, and
  it finds the same tokens at the same bytes, or the same fault.
-/
import Repeater.Proofs.Hook.Lexing
import Repeater.Proofs.Hook.Readings
import Repeater.Proofs.Text.Boundaries

namespace Repeater.Hook.ByByte

open Text

variable {code rest left part : List Char} {c quote : Char} {start : Nat} {p : Char → Bool}

/-- The byte at which what is left of the code starts. -/
def place (code left : List Char) : Nat := byteCount code - byteCount left

theorem place_append (before left : List Char) :
    place (before ++ left) left = byteCount before := by
  rw [place, byteCount_append, Nat.add_sub_cancel]

/-- The lexer follows a reading of characters. At which place it is refused does not matter, for it
    reports the start of a token. -/
abbrev Lexes (code : List Char) {α : Type} (program : Reading Nat α) (rest : List Char)
    (result : Except Error (α × List Char)) : Prop :=
  Follows (place code) (fun _ _ => True) program rest result

/-! ## Looking and taking -/

theorem peek_ends (h : rest <:+ code) :
    Ends (peek code) (place code rest) (.ok rest.head?) (place code rest) := by
  obtain ⟨before, rfl⟩ := h
  refine (Ends.get _).bind ?_
  rw [place_append, from?_append]
  exact .pure _ _

-- a byte inside a character is no place
example : Ends (peek ['é']) 1 (.error .misread) 1 := rfl

theorem place_cons (h : c :: rest <:+ code) :
    place code (c :: rest) + c.utf8Size = place code rest := by
  obtain ⟨before, rfl⟩ := h
  rw [place_append, place, byteCount_append, byteCount]
  omega

theorem bump_cons (h : c :: rest <:+ code) :
    Ends (bump code) (place code (c :: rest)) (.ok (some c)) (place code rest) := by
  refine (peek_ends h).bind ((Ends.modify _ _).bind ?_)
  rw [place_cons h]
  exact .pure _ _

theorem bump_nil : Ends (bump code) (place code []) (.ok none) (place code []) :=
  (peek_ends (List.nil_suffix)).bind (.pure _ _)

theorem since_ends (h : part ++ left <:+ code) :
    Ends (since code (place code (part ++ left))) (place code left) (.ok part)
      (place code left) := by
  obtain ⟨before, rfl⟩ := h
  refine (Ends.get _).bind ?_
  have hstop : place (before ++ (part ++ left)) left = byteCount (before ++ part) := by
    rw [← List.append_assoc, place_append]
  rw [hstop, place_append, ← List.append_assoc, between?_append]
  exact .pure _ _

theorem skipWhile_ends (h : rest <:+ code) :
    Ends (skipWhile code p) (place code rest) (.ok ⟨⟩) (place code (rest.dropWhile p)) := by
  induction rest with
  | nil =>
    rw [skipWhile]
    exact (peek_ends h).bind (.pure _ _)
  | cons c rest ih =>
    have hrest := (List.suffix_cons c rest).trans h
    rw [skipWhile]
    refine (peek_ends h).bind ?_
    rw [List.dropWhile_cons, List.head?_cons, Option.any_some]
    split
    · exact (bump_cons h).discard.bind (ih hrest)
    · exact .pure _ _

/-- The code from a place up to where a run ends that goes on behind `front`. -/
theorem since_run (front : List Char) (h : front ++ rest <:+ code) :
    Ends (since code (place code (front ++ rest))) (place code (rest.dropWhile p))
      (.ok (front ++ rest.takeWhile p)) (place code (rest.dropWhile p)) := by
  have hrun : front ++ rest = (front ++ rest.takeWhile p) ++ rest.dropWhile p := by
    rw [List.append_assoc, List.takeWhile_append_dropWhile]
  rw [hrun] at h ⊢
  exact since_ends h

theorem leads_ends {first : Char} (h : rest <:+ code) :
    Ends (leads code c first p) (place code rest) (.ok (c == first && rest.head?.any p))
      (place code rest) := by
  unfold leads
  split
  · next hfirst =>
    rw [hfirst, Bool.true_and]
    exact (peek_ends h).bind (.pure _ _)
  · next hother =>
    rw [Bool.eq_false_iff.2 hother, Bool.false_and]
    exact .pure _ _

/-! ## Tokens -/

/-- What a text comes to of which `read` has been read, and the rest as given. -/
def textFrom (start : Nat) (read : List Char) :
    Option (List Char × List Char) → Except Error (List Char × List Char)
  | some (s, left) => .ok (read ++ s, left)
  | none => .error (.hookSyntax start .unterminatedText)

theorem textFrom_cons (read : List Char) (more : Option (List Char × List Char)) :
    textFrom start read (more.map fun (s, left) => (c :: s, left)) =
      textFrom start (read ++ [c]) more := by
  rcases more with _ | ⟨s, left⟩
  · rfl
  · simp [textFrom]

theorem text_lexes (start : Nat) (hquote : quote ≠ '\\') (h : rest <:+ code) (read : List Char) :
    Lexes code (text code quote start read) rest (textFrom start read (readText quote rest)) := by
  have htail : ∀ {c : Char} {rest : List Char}, c :: rest <:+ code → rest <:+ code :=
    fun h => (List.suffix_cons _ _).trans h
  have hescape : ('\\' == quote) = false := beq_eq_false_iff_ne.2 hquote.symm
  -- the lists look for an escape first and the positions for the quote, which is no escape
  fun_induction readText quote rest generalizing read with
  | case1 =>
    rw [text]
    exact .step bump_nil List.suffix_rfl (.refused List.suffix_rfl trivial (.throw _ _))
  | case2 =>
    rw [text]
    refine .step (bump_cons h) (List.suffix_cons _ _) ?_
    simp only [hescape, Bool.false_eq_true, BEq.rfl, ↓reduceIte]
    exact .step bump_nil List.suffix_rfl (.refused List.suffix_rfl trivial (.throw _ _))
  | case3 c rest ih =>
    rw [text, textFrom_cons]
    refine .step (bump_cons h) (List.suffix_cons _ _) ?_
    simp only [hescape, Bool.false_eq_true, BEq.rfl, ↓reduceIte]
    exact .step (bump_cons (htail h)) (List.suffix_cons _ _) (ih (htail (htail h)) _)
  | case4 c rest hlone hlonger hc =>
    rw [text]
    refine .step (bump_cons h) (List.suffix_cons _ _) ?_
    simp only [hc, ↓reduceIte, textFrom, List.append_nil]
    exact .pure _
  | case5 c rest hlone hlonger hc ih =>
    have hplain : (c == '\\') = false := by
      refine beq_eq_false_iff_ne.2 ?_
      rintro rfl
      cases rest with
      | nil => exact hlone rfl rfl
      | cons d rest => exact hlonger _ _ rfl rfl
    rw [text, textFrom_cons]
    refine .step (bump_cons h) (List.suffix_cons _ _) ?_
    simp only [hc, hplain, Bool.false_eq_true, ↓reduceIte]
    exact ih (htail h) _

/-- The digits of an integer: those in `front` have been taken, and the others come next. -/
theorem integer_lexes (start : Nat) (front : List Char) (h : front ++ rest <:+ code) :
    Lexes code (integer code start (place code (front ++ rest))) rest
      (((readDigits (front ++ rest.takeWhile Char.isDigit)).map
        (·, rest.dropWhile Char.isDigit)).mapError (.hookSyntax start)) := by
  have hrest := (List.suffix_append front rest).trans h
  refine .step (skipWhile_ends hrest) (List.dropWhile_suffix _) ?_
  refine .step (since_run front h) List.suffix_rfl ?_
  cases readDigits (front ++ rest.takeWhile Char.isDigit) with
  | ok n => exact .pure _
  | error fault => exact .refused List.suffix_rfl trivial (.throw _ _)

theorem any_beq (next : Option Char) (d : Char) : next.any (· == d) = (next == some d) := by
  cases next <;> rfl

/-- The token that starts with `c`, which has been taken. -/
theorem token_lexes (h : c :: rest <:+ code) :
    Lexes code (token code (place code (c :: rest)) c) rest
      ((Token.scan c rest).mapError (.hookSyntax (place code (c :: rest)))) := by
  have hrest := (List.suffix_cons c rest).trans h
  unfold token
  split
  case h_11 =>
    rw [Token.scan] <;> try assumption
    refine .step (leads_ends hrest) List.suffix_rfl ?_
    rw [any_beq]
    split
    · exact .step (skipWhile_ends hrest) (List.dropWhile_suffix _) (.pure _)
    split
    · next hquote =>
      have hescape : c ≠ '\\' := by rintro rfl; simp at hquote
      have htext := text_lexes (place code (c :: rest)) hescape hrest []
      have hread := htext.map fun s => some (Token.text (String.ofList s))
      cases hfound : readText c rest <;> rw [hfound] at hread <;> exact hread
    refine .step (leads_ends hrest) List.suffix_rfl ?_
    split
    · have hdigits := integer_lexes (place code (c :: rest)) [] hrest
      have hread := hdigits.map fun n => some (Token.int (-n))
      refine .step (.get _) List.suffix_rfl ?_
      rw [List.nil_append, List.nil_append] at hread
      cases hfound : readDigits (rest.takeWhile Char.isDigit) <;> rw [hfound] at hread <;>
        exact hread
    split
    · have hdigits := integer_lexes (place code (c :: rest)) [c] h
      have hread := hdigits.map fun n => some (Token.int n)
      rw [List.singleton_append, List.singleton_append] at hread
      cases hfound : readDigits (c :: rest.takeWhile Char.isDigit) <;> rw [hfound] at hread <;>
        exact hread
    split
    · have hname : Ends (since code (place code (c :: rest)))
          (place code (rest.dropWhile continuesName)) (.ok (c :: rest.takeWhile continuesName))
          (place code (rest.dropWhile continuesName)) := since_run [c] h
      refine .step (skipWhile_ends hrest) (List.dropWhile_suffix _) ?_
      exact .step hname List.suffix_rfl (.pure _)
    · exact .refused List.suffix_rfl trivial (.throw _ _)
  all_goals exact .pure _

/-! ## All tokens -/

theorem place_suffix (h : rest <:+ code) (hleft : left <:+ rest) :
    place code left = place code rest + (byteCount rest - byteCount left) := by
  obtain ⟨before, rfl⟩ := h
  obtain ⟨used, rfl⟩ := hleft
  rw [place_append, ← List.append_assoc, place_append]
  simp only [byteCount_append]
  omega

/-- One round of the lexer by bytes, which takes a token or finds that there is none. -/
theorem round_lexes {token : Option Token} {found : List Mark}
    {result : Except Error (List Mark × List Char)} (h : c :: rest <:+ code)
    (hscan : Token.scan c rest = .ok (token, left))
    (hmore : left <:+ c :: rest → Lexes code
      (marks code (found ++ (token.map fun t => ⟨some t, place code (c :: rest)⟩).toList)) left
      result) :
    Lexes code (marks code found) (c :: rest) result := by
  have htoken := token_lexes h
  rw [hscan] at htoken
  cases htoken with
  | value hleft hends =>
    rw [marks]
    refine .step (.get _) List.suffix_rfl (.step (bump_cons h) (List.suffix_cons _ _) ?_)
    have hnext := hmore (hleft.trans (List.suffix_cons _ _))
    refine .step hends hleft ?_
    cases token with
    | none => simpa using hnext
    | some token => exact hnext

/-- The lexer by bytes ends with the marks of the tokens that the lexer finds, behind those found
    before, or is refused with the same error. -/
theorem marks_lexes (h : rest <:+ code) (found : List Mark) :
    Lexes code (marks code found) rest
      ((lexFrom (place code rest) rest).map fun placed =>
        (found ++ marksOf placed (byteCount code), [])) := by
  -- a round takes one character or many, so the induction is on how much of the code is left
  induction hlength : rest.length using Nat.strongRecOn generalizing rest found with
  | ind length ih =>
    obtain _ | ⟨c, rest⟩ := rest
    · rw [marks, lexFrom]
      exact .step (.get _) List.suffix_rfl (.step bump_nil List.suffix_rfl (.pure _))
    · rcases hscan : Token.scan c rest with fault | ⟨token, left⟩
      · rw [lexFrom_fault hscan]
        have htoken := token_lexes h
        rw [hscan] at htoken
        rw [marks]
        refine .step (.get _) List.suffix_rfl (.step (bump_cons h) (List.suffix_cons _ _) ?_)
        exact htoken.bind_error
      · refine round_lexes h hscan fun hleft => ?_
        have hshorter : left.length < length := by
          rw [← hlength]
          exact Nat.lt_succ_of_le (Token.length_scan hscan)
        have hmore := ih _ hshorter (hleft.trans h) (found ++
          (token.map fun t => ⟨some t, place code (c :: rest)⟩).toList) rfl
        rw [lexFrom_of_scan hscan, ← place_suffix h hleft]
        cases hread : lexFrom (place code left) left <;> rw [hread] at hmore
        · exact hmore
        · cases token <;> simpa [Except.map, marksOf] using hmore

example : Ends (marks "f('é')".toList []) 0
    (.ok [⟨some (.name "f"), 0⟩, ⟨some .leftParen, 1⟩, ⟨some (.text "é"), 2⟩,
      ⟨some .rightParen, 6⟩, ⟨none, 7⟩]) 7 := by
  unfold Ends
  cbv

end Repeater.Hook.ByByte
