/-
  Repeater/Proofs/Hook/Blame.lean
  ===============================
  **At which offset a name is blamed.**

  A fault that names a name of the code is found when the name has been read: a parameter that is
  called, an unknown name, an unknown member of the console or of a parameter. It is reported at the
  token that comes next, whatever stands between (`compile_blames`). The code at the reported
  offset therefore starts with the name only where the next token is by chance a name that starts
  with it.
-/
import Mathlib.Control.Monad.Basic
import Repeater.Proofs.Hook.Grammar
import Repeater.Proofs.Hook.Places

namespace Repeater.Hook

open Text

variable {source : Source} {ts ts' : List Placed} {offset : Nat}
  {fault : HookFault}

/-- The names of the code that the message of a fault names. -/
def namesOf : HookFault → List String
  | .unknownName s => [s]
  | .notCallable s => [s]
  | .unknownConsole member => [member]
  | .unknownMethod receiver member => [receiver, member]
  | _ => []

/-- The tokens that a fault finds fault with. -/
inductive Blames : HookFault → List Token → Prop where
  | unknown (s : String) : Blames (.unknownName s) [.name s]
  | receiver (s member : String) : Blames (.unknownName s) [.name s, .dot, .name member]
  | notCallable (s : String) : Blames (.notCallable s) [.name s]
  | console (member : String) :
      Blames (.unknownConsole member) [.name "console", .dot, .name member]
  | method (receiver member : String) :
      Blames (.unknownMethod receiver member) [.name receiver, .dot, .name member]

/-- The names that a fault names are among the tokens it finds fault with. -/
theorem Blames.mem {tokens : List Token} (h : Blames fault tokens) {s : String}
    (hs : s ∈ namesOf fault) : .name s ∈ tokens := by
  cases h <;> simp [namesOf] at hs ⊢ <;> simp [hs]

/-! ## Reading -/

/-- If the error names a name, it is reported right behind tokens that it finds fault with. -/
def BlamedBehind (source : Source) (ts : List Placed) : Error → Prop
  | .hookSyntax offset fault => namesOf fault ≠ [] → ∃ front blamed rest,
      ts = front ++ blamed ++ rest ∧ Blames fault (blamed.map (·.token)) ∧
        offset = source.nextOffset rest
  | _ => True

theorem BlamedBehind.append {e : Error} (h : BlamedBehind source ts e) (used : List Placed) :
    BlamedBehind source (used ++ ts) e := by
  cases e
  case hookSyntax offset fault =>
    intro hnamed
    obtain ⟨front, blamed, rest, rfl, hblames, hoffset⟩ := h hnamed
    exact ⟨used ++ front, blamed, rest, by simp, hblames, hoffset⟩
  all_goals trivial

/-- A fault that names nothing may be reported anywhere. -/
theorem blamedBehind_of_nameless (hnone : namesOf fault = []) :
    BlamedBehind source ts (.hookSyntax offset fault) := fun hnamed => absurd hnone hnamed

theorem blamedBehind_term {e : Error} {t : Placed}
    (h : source.term t.token ts = .error e) : BlamedBehind source (t :: ts) e := by
  obtain ⟨token, o⟩ := t
  unfold Source.term at h
  split at h
  · cases h
  · cases h
  · next s htoken =>
    obtain rfl : token = .name s := htoken
    split at h
    · cases h
    · cases h
      exact fun _ => ⟨[], [⟨.name s, o⟩], ts, rfl, .unknown s, rfl⟩
  · cases h
    exact blamedBehind_of_nameless rfl

theorem blamedBehind_moreArguments {first : Term} {others : List Term} {e : Error}
    (h : source.moreArguments first others ts = .error e) : BlamedBehind source ts e := by
  fun_induction Source.moreArguments source first others ts with
  | case1 first others o t ts ih =>
    rcases bind_eq_error.1 h with hterm | ⟨x, -, hrest⟩
    · exact (blamedBehind_term hterm).append [_]
    · exact (ih x hrest).append [_, t]
  | case2 first others o t ts ih =>
    rcases bind_eq_error.1 h with hterm | ⟨x, -, hrest⟩
    · exact (blamedBehind_term hterm).append [_]
    · rcases bind_eq_error.1 hrest with hmore | ⟨_, -, hpure⟩
      · exact (ih x hmore).append [_, t]
      · cases hpure
  | case3 =>
    cases h
    exact blamedBehind_of_nameless rfl
  | case4 =>
    cases h
    exact blamedBehind_of_nameless rfl
  | case5 => cases h

theorem blamedBehind_arguments {e : Error} (h : source.arguments ts = .error e) :
    BlamedBehind source ts e := by
  unfold Source.arguments at h
  split at h
  · cases h
    exact blamedBehind_of_nameless rfl
  · cases h
  · next t ts _ =>
    rcases bind_eq_error.1 h with hterm | ⟨x, -, hrest⟩
    · exact blamedBehind_term hterm
    · exact (blamedBehind_moreArguments hrest).append [t]

theorem blamedBehind_memberCallee {receiver member : String} {o o' o'' : Nat} {e : Error}
    (h : source.memberCallee receiver member ts = .error e) :
    BlamedBehind source
      (⟨.name receiver, o⟩ :: ⟨.dot, o'⟩ :: ⟨.name member, o''⟩ :: ts) e := by
  -- whatever the fault, the three tokens have been read
  have hbehind : ∀ fault, Blames fault [.name receiver, .dot, .name member] →
      BlamedBehind source (⟨.name receiver, o⟩ :: ⟨.dot, o'⟩ :: ⟨.name member, o''⟩ :: ts)
        (.hookSyntax (source.nextOffset ts) fault) := fun fault hblames _ =>
    ⟨[], [⟨.name receiver, o⟩, ⟨.dot, o'⟩, ⟨.name member, o''⟩], ts, rfl, hblames, rfl⟩
  unfold Source.memberCallee at h
  split at h
  · next hconsole =>
    obtain rfl := beq_iff_eq.1 hconsole
    split at h
    · cases h
    · cases h
      exact hbehind _ (.console member)
  · split at h
    · cases h
      exact hbehind _ (.receiver receiver member)
    · split at h
      · cases h
      · cases h
        exact hbehind _ (.method receiver member)

theorem blamedBehind_callee {e : Error} (h : source.callee ts = .error e) :
    BlamedBehind source ts e := by
  unfold Source.callee at h
  split at h
  · split at h
    · rcases bind_eq_error.1 h with hmember | ⟨_, -, hpure⟩
      · exact blamedBehind_memberCallee hmember
      · cases hpure
    · cases h
      exact blamedBehind_of_nameless rfl
  · next s o ts _ =>
    split at h
    · cases h
    · split at h
      · cases h
        exact fun _ => ⟨[], [⟨.name s, o⟩], ts, rfl, .notCallable s, rfl⟩
      · cases h
  · cases h
    exact blamedBehind_of_nameless rfl

theorem blamedBehind_checkCount {callee : Callee} {given : Nat} {e : Error}
    (h : source.checkCount callee given ts = .error e) : BlamedBehind source ts' e := by
  unfold Source.checkCount at h
  split at h
  · split at h
    · cases h
    · cases h
      exact blamedBehind_of_nameless rfl
  · cases h

theorem blamedBehind_statement {e : Error} (h : source.statement ts = .error e) :
    BlamedBehind source ts e := by
  rcases bind_eq_error.1 h with hcallee | ⟨⟨callee, ts₁⟩, hcallee, hcall⟩
  · exact blamedBehind_callee hcallee
  dsimp only at hcall
  split at hcall
  · next o ts₂ =>
    obtain ⟨head, rfl, -⟩ := (callee_eq rfl).1 hcallee
    rcases bind_eq_error.1 hcall with harguments | ⟨⟨arguments, ts₃⟩, -, hclose⟩
    · have hinside := (blamedBehind_arguments harguments).append (head ++ [⟨.leftParen, o⟩])
      rwa [List.append_assoc, List.singleton_append] at hinside
    · dsimp only at hclose
      split at hclose
      · rcases bind_eq_error.1 hclose with hcount | ⟨_, -, hpure⟩
        · exact blamedBehind_checkCount hcount
        · cases hpure
      · cases hclose
        exact blamedBehind_of_nameless rfl
  · cases hcall
    exact blamedBehind_of_nameless rfl

theorem blamedBehind_statements {e : Error} (h : source.statements ts = .error e) :
    BlamedBehind source ts e := by
  have hseparators : ∀ {ts rest : List Placed}, ts.dropWhile Source.isSeparator = rest →
      BlamedBehind source rest e → BlamedBehind source ts e := by
    rintro ts _ rfl hrest
    have hall := hrest.append (ts.takeWhile Source.isSeparator)
    rwa [List.takeWhile_append_dropWhile] at hall
  fun_induction Source.statements source ts with
  | case1 => cases h
  | case2 ts t rest hsome e' hread =>
    cases h
    exact hseparators hsome (blamedBehind_statement hread)
  | case3 ts t rest hsome s left hread hlt hseparated ih =>
    refine hseparators hsome ?_
    obtain ⟨used, hused, -⟩ := statement_eq.1 hread
    rw [hused]
    rcases bind_eq_error.1 h with hmore | ⟨_, -, hpure⟩
    · exact (ih hmore).append used
    · cases hpure
  | case4 =>
    cases h
    exact blamedBehind_of_nameless rfl

/-! ## Faults of the lexer -/

theorem nameless_of_readDigits {ds : List Char} (h : readDigits ds = .error fault) :
    namesOf fault = [] := by
  unfold readDigits at h
  split at h
  · split at h
    · cases h
    · cases h
      rfl
  · cases h
    rfl

theorem nameless_of_scan {c : Char} {rest : List Char} (h : Token.scan c rest = .error fault) :
    namesOf fault = [] := by
  unfold Token.scan at h
  split at h
  case h_11 =>
    split at h
    · cases h
    split at h
    · split at h <;> cases h
      rfl
    split at h
    · rcases bind_eq_error.1 h with hdigits | ⟨_, -, hpure⟩
      · exact nameless_of_readDigits hdigits
      · cases hpure
    split at h
    · rcases bind_eq_error.1 h with hdigits | ⟨_, -, hpure⟩
      · exact nameless_of_readDigits hdigits
      · cases hpure
    split at h <;> cases h
    rfl
  all_goals cases h

theorem nameless_of_lexFrom {code : List Char} {start : Nat}
    (h : lexFrom start code = .error (.hookSyntax offset fault)) : namesOf fault = [] := by
  fun_induction lexFrom start code with
  | case1 => cases h
  | case2 _ _ _ _ hscan =>
    cases h
    exact nameless_of_scan hscan
  | case3 _ _ _ _ _ _ _ _ hmore ih =>
    cases h
    exact ih hmore
  | case4 => cases h
  | case5 => cases h

/-! ## Code -/

theorem Stands.nextOffset {code : List Char} {placed : List Placed} (h : Stands offset code placed)
    (hlength : source.length = offset + byteCount code) : source.nextOffset placed = offset := by
  cases h with
  | nil => exact hlength
  | cons => rfl

/-- A fault that names a name of the code is reported right behind the tokens that it finds fault
    with, at the next token or at the end of the code. The code goes on with the name there only if
    the next token is a name that starts with it. -/
theorem compile_blames {code : String} {parameters : List String}
    (h : compile code parameters = .error (.hookSyntax offset fault))
    (hnamed : namesOf fault ≠ []) :
    ∃ before words after blamed, code.toList = before ++ words ++ after ∧
      Blames fault blamed ∧ Spelled after words blamed ∧ offset = byteCount (before ++ words) ∧
      (after = [] ∨ ∃ token written more, after = written ++ more ∧ Lexeme more written token) ∧
      ∀ s ∈ namesOf fault, s.toList <+: after ↔ ∃ next more, after = next.toList ++ more ∧
        Lexeme more next.toList (.name next) ∧ s.toList <+: next.toList := by
  have hread : (do
        let tokens ← lex code.toList
        Program.ofTokens parameters (byteCount code.toList) tokens) =
      .error (.hookSyntax offset fault) := by
    unfold compile at h
    rcases hblank : isAllBlank code with _ | _
    · rcases hforbidden : Vocabulary.forbiddenIn? code with _ | word
      · simpa [hblank, hforbidden] using h
      · simp [hblank, hforbidden, throw, throwThe, MonadExceptOf.throw, bind, Except.bind] at h
    · simp [hblank, throw, throwThe, MonadExceptOf.throw, bind, Except.bind] at h
  rcases bind_eq_error.1 hread with hlex | ⟨placed, hlex, hprogram⟩
  · exact absurd (nameless_of_lexFrom hlex) hnamed
  rcases bind_eq_error.1 hprogram with hstatements | ⟨_, -, hpure⟩
  · obtain ⟨front, blamed, rest, rfl, hblames, rfl⟩ := blamedBehind_statements hstatements hnamed
    obtain ⟨gap, found, hcode, -, hstands⟩ := stands_of_lexFrom hlex
    rw [Nat.zero_add, List.append_assoc] at hstands
    obtain ⟨earlier, found, rfl, -, hstands⟩ := hstands.split
    obtain ⟨words, after, rfl, hspelled, hstands⟩ := hstands.split
    have hcode' : code.toList = gap ++ earlier ++ words ++ after := by
      rw [hcode, List.append_assoc, List.append_assoc]
    refine ⟨gap ++ earlier, words, after, _, hcode', hblames, hspelled, ?_, hstands.next, ?_⟩
    · rw [hstands.nextOffset]
      · simp only [byteCount_append]
      · simp only [hcode', byteCount_append]
    · intro s hs
      obtain ⟨written, more, hname⟩ := hspelled.lexeme (hblames.mem hs)
      exact hstands.prefix_iff hname
  · cases hpure

/-- An unknown name in an argument is reported at the parenthesis behind it. -/
theorem compile_blames_argument :
    compile "alert(missing)" ["event"] = .error (.hookSyntax 13 (.unknownName "missing")) ∧
      namesOf (.unknownName "missing") ≠ [] ∧
      ∃ before words after blamed, "alert(missing)".toList = before ++ words ++ after ∧
        Blames (.unknownName "missing") blamed ∧ Spelled after words blamed ∧
        13 = byteCount (before ++ words) ∧
        (after = [] ∨ ∃ token written more, after = written ++ more ∧ Lexeme more written token) ∧
        ∀ s ∈ namesOf (.unknownName "missing"), s.toList <+: after ↔ ∃ next more,
          after = next.toList ++ more ∧ Lexeme more next.toList (.name next) ∧
            s.toList <+: next.toList := by
  have hrun : compile "alert(missing)" ["event"] =
      .error (.hookSyntax 13 (.unknownName "missing")) := by decide +kernel
  exact ⟨hrun, by simp [namesOf], compile_blames hrun (by simp [namesOf])⟩

end Repeater.Hook
