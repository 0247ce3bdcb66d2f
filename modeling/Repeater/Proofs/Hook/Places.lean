/-
  Repeater/Proofs/Hook/Places.lean
  ================================
  **Where the tokens of a code stand.**

  The lexer notes for each token the byte at which it starts. Taken together the notes are right
  (`stands_of_lexFrom`): the code consists of the tokens as they are written, with blanks and
  comments in front, between and behind, and the offset of a token is the number of bytes before
  it. What comes next at an offset can therefore be read off the code there: a token
  (`Stands.next`), and a name only if the code goes on with it (`Stands.prefix_iff`). Conversely
  the lexer finds the tokens that are spelled in front of a place and goes on at that place,
  whatever follows (`Leads.lex`).
-/
import Repeater.Proofs.Hook.Lexing

namespace Repeater.Hook

open Text

variable {code after written gap cs : List Char} {offset : Nat} {placed front back : List Placed}
  {tokens : List Token} {token : Token} {s : String}

/-- Blanks and comments, or nothing, in front of what comes after. -/
inductive Gap (after : List Char) : List Char → Prop where
  | nil : Gap after []
  | skip {written rest : List Char} : Skipped (rest ++ after) written → Gap after rest →
      Gap after (written ++ rest)

/-- The tokens as they are written in front of what comes after, each with the gap behind it. -/
inductive Spelled (after : List Char) : List Char → List Token → Prop where
  | nil : Spelled after [] []
  | cons {written gap rest : List Char} {token : Token} {tokens : List Token} :
      Lexeme (gap ++ (rest ++ after)) written token → Gap (rest ++ after) gap →
      Spelled after rest tokens → Spelled after (written ++ gap ++ rest) (token :: tokens)

/-- The code that goes on at a byte offset consists of the tokens, each at the offset it has; the
    first of them stands at its front. -/
inductive Stands : Nat → List Char → List Placed → Prop where
  | nil (offset : Nat) : Stands offset [] []
  | cons {offset : Nat} {written gap code : List Char} {token : Token} {placed : List Placed} :
      Lexeme (gap ++ code) written token → Gap code gap →
      Stands (offset + byteCount (written ++ gap)) code placed →
      Stands offset (written ++ gap ++ code) (⟨token, offset⟩ :: placed)

/-- The bytes that a scan takes off are those of what it takes off. -/
theorem byteCount_taken (written left : List Char) :
    byteCount (written ++ left) - byteCount left = byteCount written := by
  rw [byteCount_append, Nat.add_sub_cancel]

/-- The tokens that the lexer finds stand where it says, behind a gap at most. -/
theorem stands_of_lexFrom (h : lexFrom offset code = .ok placed) : ∃ gap rest, code = gap ++ rest ∧
    Gap rest gap ∧ Stands (offset + byteCount gap) rest placed := by
  fun_induction lexFrom offset code generalizing placed with
  | case1 offset =>
    cases h
    exact ⟨[], [], rfl, .nil, .nil _⟩
  | case2 => cases h
  | case3 => cases h
  | case4 offset c rest left more hmore token _ hscan _ ih =>
    cases h
    obtain ⟨written, hcode, hlexeme⟩ := piece_of_scan hscan
    obtain ⟨gap, code, rfl, hgap, hstands⟩ := ih hmore
    rw [hcode, byteCount_taken, Nat.add_assoc, ← byteCount_append] at hstands
    refine ⟨[], _, rfl, .nil, ?_⟩
    rw [hcode, ← List.append_assoc]
    exact .cons hlexeme hgap hstands
  | case5 offset c rest left more hmore _ hscan _ ih =>
    cases h
    obtain ⟨written, hcode, hskipped⟩ := piece_of_scan hscan
    obtain ⟨gap, code, rfl, hgap, hstands⟩ := ih hmore
    rw [hcode, byteCount_taken, Nat.add_assoc, ← byteCount_append] at hstands
    exact ⟨written ++ gap, code, by rw [hcode, List.append_assoc], .skip hskipped hgap, hstands⟩

/-! ## Reading on behind what is spelled -/

/-- The lexer takes one piece after the other, each with its bytes. -/
theorem lexFrom_piece {found : Option Token} (h : Piece after written found) (offset : Nat) :
    lexFrom offset (written ++ after) = (lexFrom (offset + byteCount written) after).map
      fun more => (found.map (⟨·, offset⟩)).toList ++ more := by
  obtain ⟨c, rest, hcode, hscan⟩ := scan_of_piece h
  rw [hcode, lexFrom_of_scan hscan, ← hcode, byteCount_taken]

theorem lexFrom_gap (h : Gap after gap) (offset : Nat) :
    lexFrom offset (gap ++ after) = lexFrom (offset + byteCount gap) after := by
  induction h generalizing offset with
  | nil => rfl
  | @skip written rest hskipped _ ih =>
    have hpiece : Piece (rest ++ after) written none := hskipped
    rw [List.append_assoc, lexFrom_piece hpiece, ih, byteCount_append, Nat.add_assoc]
    cases lexFrom (offset + (byteCount written + byteCount rest)) after <;> rfl

theorem lexFrom_spelled (h : Spelled after written tokens) (offset : Nat) :
    ∃ placed, placed.map (·.token) = tokens ∧
      lexFrom offset (written ++ after) =
        (lexFrom (offset + byteCount written) after).map (placed ++ ·) := by
  induction h generalizing offset with
  | nil =>
    refine ⟨[], rfl, ?_⟩
    rw [List.nil_append, byteCount, Nat.add_zero]
    cases lexFrom offset after <;> rfl
  | @cons written gap rest token tokens hlexeme hgap _ ih =>
    obtain ⟨placed, htokens, hrest⟩ := ih (offset + byteCount written + byteCount gap)
    have hpiece : Piece (gap ++ (rest ++ after)) written (some token) := hlexeme
    refine ⟨⟨token, offset⟩ :: placed, by rw [List.map_cons, htokens], ?_⟩
    rw [List.append_assoc, List.append_assoc, lexFrom_piece hpiece, lexFrom_gap hgap, hrest,
      byteCount_append, byteCount_append]
    simp only [Nat.add_assoc]
    cases lexFrom (offset + (byteCount written + (byteCount gap + byteCount rest))) after <;> rfl

/-- What may stand in front of a place at which the lexer reads a token: blanks and comments, and
    tokens as they are written. -/
def Leads (after before : List Char) (tokens : List Token) : Prop :=
  ∃ gap written, before = gap ++ written ∧ Gap (written ++ after) gap ∧
    Spelled after written tokens

/-- The lexer finds the tokens in front of a place and goes on there. -/
theorem Leads.lex {before : List Char} (h : Leads after before tokens) :
    ∃ placed, placed.map (·.token) = tokens ∧
      lex (before ++ after) = (lexFrom (byteCount before) after).map (placed ++ ·) := by
  obtain ⟨gap, written, rfl, hgap, hspelled⟩ := h
  obtain ⟨placed, htokens, hwritten⟩ := lexFrom_spelled hspelled (byteCount gap)
  refine ⟨placed, htokens, ?_⟩
  rw [Hook.lex, List.append_assoc, lexFrom_gap hgap, Nat.zero_add, hwritten, byteCount_append]

/-! ## What comes next -/

theorem Spelled.lexeme (h : Spelled after written tokens) (htoken : token ∈ tokens) :
    ∃ written more, Lexeme more written token := by
  induction h with
  | nil => cases htoken
  | cons hlexeme _ _ ih =>
    rcases List.mem_cons.1 htoken with rfl | htoken
    · exact ⟨_, _, hlexeme⟩
    · exact ih htoken

namespace Stands

/-- The first tokens take up a part of the code, and the others stand right behind it. -/
theorem split (h : Stands offset code (front ++ back)) : ∃ written after, code = written ++ after ∧
    Spelled after written (front.map (·.token)) ∧
    Stands (offset + byteCount written) after back := by
  induction front generalizing offset code with
  | nil => exact ⟨[], code, rfl, .nil, h⟩
  | cons t front ih =>
    rw [List.cons_append] at h
    cases h with
    | cons hlexeme hgap hrest =>
      obtain ⟨rest, after, rfl, hspelled, hback⟩ := ih hrest
      rw [Nat.add_assoc, ← byteCount_append] at hback
      exact ⟨_, after, by simp, .cons hlexeme hgap hspelled, hback⟩

/-- The code goes on with a token, or it ends. -/
theorem next (h : Stands offset code placed) :
    code = [] ∨ ∃ token written more, code = written ++ more ∧ Lexeme more written token := by
  cases h with
  | nil => exact .inl rfl
  | cons hlexeme _ _ => exact .inr ⟨_, _, _, List.append_assoc .., hlexeme⟩

end Stands

/-! ## Names at the front -/

/-- How a name is written. -/
theorem lexeme_name (h : Lexeme after written (.name s)) : ∃ c cs, written = c :: cs ∧
    s.toList = c :: cs ∧ startsName c = true ∧ Run continuesName cs after := by
  generalize htoken : Token.name s = token at h
  cases h with
  | sign hsign => exact absurd (htoken ▸ hsign) (sign?_ne_name _ _)
  | text => cases htoken
  | int => cases htoken
  | negative => cases htoken
  | @name c cs hc hrun =>
    cases htoken
    exact ⟨c, cs, rfl, String.toList_ofList, hc, hrun⟩

/-- Only a name starts like one. -/
theorem name_of_startsName {c : Char} {rest : List Char} (h : Lexeme after written token)
    (hfront : written ++ after = c :: rest) (hc : startsName c = true) : ∃ s, token = .name s := by
  cases h with
  | sign hsign =>
    cases hfront
    unfold sign? at hsign
    split at hsign <;> first | exact absurd hc (by decide) | cases hsign
  | text hquote _ =>
    cases hfront
    rcases hquote with rfl | rfl <;> exact absurd hc (by decide)
  | int hnumber =>
    obtain ⟨d, rest', hcode, hd, -⟩ := hnumber.read
    cases hcode.symm.trans hfront
    simp [not_startsName_digit hd] at hc
  | negative _ =>
    cases hfront
    exact absurd hc (by decide)
  | name => exact ⟨_, rfl⟩

/-- A run holds every run of the same kind that the code starts with. -/
theorem prefix_of_run {p : Char → Bool} {run : List Char} (hcs : ∀ c ∈ cs, p c = true)
    (hrun : Run p run after) (h : cs <+: run ++ after) : cs <+: run := by
  obtain ⟨rest, hrest⟩ := h
  rcases List.append_eq_append_iff.1 hrest with ⟨more, rfl, -⟩ | ⟨more, rfl, rfl⟩
  · exact List.prefix_append _ _
  · cases more with
    | nil => simp
    | cons c more =>
      have hpass := hcs c (by simp)
      rw [hrun.2 c rfl] at hpass
      cases hpass

/-- What stands at an offset starts with a name only if it is a name that starts with it. -/
theorem Stands.prefix_iff (h : Stands offset code placed)
    (hname : Lexeme after written (.name s)) : s.toList <+: code ↔ ∃ next more,
      code = next.toList ++ more ∧ Lexeme more next.toList (.name next) ∧
        s.toList <+: next.toList := by
  constructor
  · intro hprefix
    obtain ⟨c, cs, -, hs, hc, hrun⟩ := lexeme_name hname
    rw [hs] at hprefix ⊢
    obtain ⟨rest, hrest⟩ := hprefix
    rcases h.next with rfl | ⟨token, written, more, rfl, hlexeme⟩
    · cases hrest
    · obtain ⟨next, rfl⟩ := name_of_startsName hlexeme hrest.symm hc
      obtain ⟨d, ds, rfl, hnext, -, hrun'⟩ := lexeme_name hlexeme
      refine ⟨next, more, by rw [hnext], by rwa [hnext], ?_⟩
      obtain ⟨rfl, htail⟩ := List.cons.inj hrest
      rw [hnext, List.cons_prefix_cons]
      exact ⟨rfl, prefix_of_run hrun.1 hrun' ⟨rest, htail⟩⟩
  · rintro ⟨next, more, rfl, -, hprefix⟩
    exact hprefix.trans (List.prefix_append _ _)

end Repeater.Hook
