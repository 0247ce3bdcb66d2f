/-
  Repeater/Proofs/Hook/Bounds.lean
  ================================
  **Reading hook code stays within the code.**

  Hook code can be read by positions without ever missing (`readings_within`). The lexer that goes
  by bytes ends on every code, cuts it at characters only, and marks the tokens at bytes that are
  further and further on, up to the end of the code. The parser that goes by index ends on these
  marks for any parameters, never looks outside them, and begins no more statements than there are
  tokens. Both come to what the lexer and the parser of lists come to, and what they report is at a
  character of the code or at its end.
-/
import Repeater.Proofs.Hook.ByByte
import Repeater.Proofs.Hook.ByIndex
import Repeater.Proofs.Hook.Places

namespace Repeater.Hook

open Text

variable {code : List Char} {offset : Nat} {placed : List Placed}

/-! ## Where tokens stand -/

theorem Lexeme.byteCount_pos {after written : List Char} {token : Token}
    (h : Lexeme after written token) : 0 < byteCount written :=
  Nat.pos_of_ne_zero (mt byteCount_eq_zero.1 h.ne_nil)

namespace Stands

/-- A token stands at a character. -/
theorem split_at (h : Stands offset code placed) {t : Placed} (ht : t ∈ placed) :
    ∃ before after, code = before ++ after ∧ t.offset = offset + byteCount before := by
  induction h with
  | nil => cases ht
  | @cons offset written gap code token placed _ _ _ ih =>
    rcases List.mem_cons.1 ht with rfl | ht
    · exact ⟨[], _, rfl, rfl⟩
    · obtain ⟨before, after, rfl, hoffset⟩ := ih ht
      refine ⟨written ++ gap ++ before, after, by simp, ?_⟩
      rw [hoffset, byteCount_append (written ++ gap), Nat.add_assoc]

theorem bounds (h : Stands offset code placed) {t : Placed} (ht : t ∈ placed) :
    offset ≤ t.offset ∧ t.offset < offset + byteCount code := by
  induction h with
  | nil => cases ht
  | cons hlexeme _ _ ih =>
    have hpos := hlexeme.byteCount_pos
    simp only [byteCount_append] at ih ⊢
    rcases List.mem_cons.1 ht with rfl | ht
    · dsimp only
      omega
    · obtain ⟨hlow, hhigh⟩ := ih ht
      omega

/-- Every token stands behind the ones before it. -/
theorem increasing (h : Stands offset code placed) :
    placed.Pairwise (·.offset < ·.offset) := by
  induction h with
  | nil => exact .nil
  | cons hlexeme _ hrest ih =>
    refine .cons (fun t ht => ?_) ih
    have hpos := hlexeme.byteCount_pos
    have hlow := (hrest.bounds ht).1
    rw [byteCount_append] at hlow
    dsimp only
    omega

end Stands

/-! ## Where the lexer reports -/

/-- The lexer reports where it is. -/
theorem split_of_lexFrom {e : Error} (h : lexFrom offset code = .error e) :
    ∃ before after fault, code = before ++ after ∧
      e = .hookSyntax (offset + byteCount before) fault := by
  fun_induction lexFrom offset code with
  | case1 => cases h
  | case2 offset c rest fault hscan =>
    cases h
    exact ⟨[], c :: rest, fault, rfl, rfl⟩
  | case3 offset c rest left token hscan hlt e' hmore ih =>
    cases h
    obtain ⟨written, hcode, -⟩ := piece_of_scan hscan
    obtain ⟨before, after, fault, rfl, rfl⟩ := ih hmore
    refine ⟨written ++ before, after, fault, by rw [hcode, List.append_assoc], ?_⟩
    rw [hcode, byteCount_taken, byteCount_append, Nat.add_assoc]
  | case4 => cases h
  | case5 => cases h

/-! ## Codes -/

/-- The error is a fault, reported at a position that is valid in the code. -/
def ReportedWithin (code : String) (e : Error) : Prop :=
  ∃ offset fault, e = .hookSyntax offset fault ∧ (String.Pos.Raw.mk offset).IsValid code ∧
    offset ≤ code.utf8ByteSize

/-- The marks stand at valid positions of the code, each behind the ones before it, and the last one
    marks its end. -/
structure Marked (code : String) (marks : List Mark) : Prop where
  valid : ∀ mark ∈ marks, (String.Pos.Raw.mk mark.offset).IsValid code
  increasing : (marks.map (·.offset)).Pairwise (· < ·)
  last : marks.getLast? = some ⟨none, code.utf8ByteSize⟩

section codes

variable {code : String}

theorem reportedWithin_of_isValid {fault : HookFault}
    (h : (String.Pos.Raw.mk offset).IsValid code) :
    ReportedWithin code (.hookSyntax offset fault) :=
  ⟨offset, fault, rfl, h, h.le_utf8ByteSize⟩

theorem isValid_end (code : String) : (String.Pos.Raw.mk code.utf8ByteSize).IsValid code :=
  isValid_iff.2 ⟨code.toList, [], (List.append_nil _).symm, byteCount_toList code⟩

theorem isValid_of_lex (h : lex code.toList = .ok placed) {t : Placed} (ht : t ∈ placed) :
    (String.Pos.Raw.mk t.offset).IsValid code := by
  obtain ⟨gap, rest, hcode, -, hstands⟩ := stands_of_lexFrom h
  obtain ⟨before, after, rfl, hoffset⟩ := hstands.split_at ht
  refine isValid_iff.2 ⟨gap ++ before, after, by rw [hcode, List.append_assoc], ?_⟩
  rw [hoffset, byteCount_append, Nat.zero_add]

theorem reportedWithin_of_lex {e : Error} (h : lex code.toList = .error e) :
    ReportedWithin code e := by
  obtain ⟨before, after, fault, hcode, rfl⟩ := split_of_lexFrom h
  rw [Nat.zero_add]
  exact reportedWithin_of_isValid (isValid_iff.2 ⟨before, after, hcode, rfl⟩)

/-- The parser reports at a token or at the end of the code. -/
theorem reportedWithin_of_reportedAt {parameters : List String} {left : List Placed} {e : Error}
    (h : lex code.toList = .ok placed) (hleft : left <:+ placed)
    (he : ByIndex.ReportedAt ⟨parameters, code.utf8ByteSize⟩ left e) : ReportedWithin code e := by
  obtain ⟨fault, rfl⟩ := he
  cases left with
  | nil => exact reportedWithin_of_isValid (isValid_end code)
  | cons t left =>
    exact reportedWithin_of_isValid (isValid_of_lex h (hleft.subset List.mem_cons_self))

/-- The marks of the tokens that the lexer finds. -/
theorem marked_of_lex (h : lex code.toList = .ok placed) :
    Marked code (marksOf placed code.utf8ByteSize) := by
  obtain ⟨gap, rest, hcode, -, hstands⟩ := stands_of_lexFrom h
  have hlength : code.utf8ByteSize = byteCount gap + byteCount rest := by
    rw [← byteCount_toList, hcode, byteCount_append]
  refine ⟨?_, ?_, by simp [marksOf]⟩
  · intro mark hmark
    rcases List.mem_append.1 hmark with hmark | hmark
    · obtain ⟨t, ht, rfl⟩ := List.mem_map.1 hmark
      exact isValid_of_lex h ht
    · obtain rfl := List.mem_singleton.1 hmark
      exact isValid_end code
  · rw [marksOf, List.map_append, List.map_map, List.pairwise_append]
    refine ⟨List.pairwise_map.2 hstands.increasing, by simp, ?_⟩
    intro first hfirst last hlast
    obtain ⟨t, ht, rfl⟩ := List.mem_map.1 hfirst
    obtain rfl : last = code.utf8ByteSize := by simpa using hlast
    have hbelow := (hstands.bounds ht).2
    rw [hlength]
    dsimp only [Function.comp_apply]
    omega

/-- Every code can be read by positions. The lexer by bytes ends, and never cuts the code inside a
    character: either it is refused, or it comes to marks at valid positions further and further on,
    the last of them for the end of the code. On these the parser by index ends for any parameters,
    and never looks outside the marks; it has then begun at most as many statements as there are
    tokens, the mark for the end not counted. Both agree with the lexer and the parser of lists, and
    all that is reported is at a valid position of the code. -/
theorem readings_within (code : String) :
    (∃ e last, Ends (ByByte.marks code.toList []) 0 (.error (.refused e)) last ∧
      lex code.toList = .error e ∧ ReportedWithin code e) ∨
    ∃ marks placed last, Ends (ByByte.marks code.toList []) 0 (.ok marks) last ∧
      lex code.toList = .ok placed ∧ marks = marksOf placed code.utf8ByteSize ∧
      Marked code marks ∧
      ∀ parameters, ∃ place, place.begun ≤ placed.length ∧
        ((∃ e, Ends (ByIndex.program parameters marks) {} (.error (.refused e)) place ∧
            Program.ofTokens parameters code.utf8ByteSize placed = .error e ∧
            ReportedWithin code e) ∨
          ∃ statements, Ends (ByIndex.program parameters marks) {} (.ok statements) place ∧
            Program.ofTokens parameters code.utf8ByteSize placed =
              .ok ⟨parameters, statements⟩) := by
  have hstart : ByByte.place code.toList code.toList = 0 := Nat.sub_self _
  have hmarks := ByByte.marks_lexes (List.suffix_refl code.toList) []
  rw [hstart, byteCount_toList] at hmarks
  rcases hlex : lex code.toList with e | placed
  · rw [← lex, hlex] at hmarks
    cases hmarks with
    | refused hleft _ hends => exact .inl ⟨e, _, hstart ▸ hends, rfl, reportedWithin_of_lex hlex⟩
  · rw [← lex, hlex] at hmarks
    cases hmarks with
    | value hleft hends =>
      refine .inr ⟨_, placed, _, hstart ▸ hends, rfl, rfl, marked_of_lex hlex, ?_⟩
      intro parameters
      obtain ⟨place, hprogram, hbegun, hreported⟩ :=
        ByIndex.program_finishes ⟨parameters, code.utf8ByteSize⟩ placed
      refine ⟨place, hbegun, ?_⟩
      unfold Program.ofTokens
      rcases hstatements : Source.statements ⟨parameters, code.utf8ByteSize⟩ placed with
        e | statements
      · rw [hstatements] at hprogram hreported
        obtain ⟨left, hleft, hat⟩ := hreported e rfl
        exact .inl ⟨e, hprogram, rfl, reportedWithin_of_reportedAt hlex hleft hat⟩
      · rw [hstatements] at hprogram
        exact .inr ⟨statements, hprogram, rfl⟩

end codes

end Repeater.Hook
