/-
  Repeater/Proofs/Hook/Denied.lean
  ================================
  **Forbidden words stay out of programs.**

  The check for forbidden words reads the code as text, in words of word characters; the lexer reads
  it in names. The two classes of characters differ: the dollar sign continues a name and is no word
  character, a mark is a word character and continues no name. They agree where it counts. A
  character at which a piece of code can begin and that continues no name is no word character
  (`clear_of_spells`), so a name ends where a word does. In front of a name only an integer can end
  in a word character, and the grammar puts no name right behind an integer (`Parted`). So every
  name of a program stands whole in its code, where the check has looked at it.

  A callback that is registered under a forbidden word is then out of reach: a program runs the same
  without it.
-/
import Mathlib.Data.List.Chain
import Repeater.Proofs.Hook.Grammar
import Repeater.Hook.Run

namespace Repeater.Hook

open Text Vocabulary

/-! ## Whole words -/

variable {word before after code written : List Char} {c : Char} {s name : String}
  {token : Token} {tokens front back rest : List Token} {parameters : List String}

/-- No word character stands at the end of the text. -/
def ClearEnd (text : List Char) : Prop := ∀ c ∈ text.getLast?, isWordChar c = false

/-- No word character stands at the start of the text. -/
def ClearStart (text : List Char) : Prop := ∀ c ∈ text.head?, isWordChar c = false

theorem opensWithWord_append (h : ClearStart after) : opensWithWord word (word ++ after) := by
  have hnext : after.head?.any isWordChar = false := by
    cases after with
    | nil => rfl
    | cons c after => exact h c rfl
  have hword : word.isPrefixOf (word ++ after) := by simp
  simp [opensWithWord, hword, hnext]

theorem holdsWordAfter_append {afterWordChar : Bool} (hbefore : ClearEnd before)
    (hstart : before = [] → afterWordChar = false) (hafter : ClearStart after) :
    holdsWordAfter word afterWordChar (before ++ (word ++ after)) := by
  induction before generalizing afterWordChar with
  | nil =>
    have hopens : opensWithWord word (word ++ after) := opensWithWord_append hafter
    rw [hstart rfl, List.nil_append]
    generalize word ++ after = text at hopens
    cases text <;> simp [holdsWordAfter, hopens]
  | cons c before ih =>
    rw [List.cons_append, holdsWordAfter, Bool.or_eq_true]
    refine .inr (ih ?_ ?_)
    · intro d hd
      refine hbefore d ?_
      rw [List.getLast?_cons, Option.mem_def.1 hd]
      rfl
    · rintro rfl
      exact hbefore c rfl

/-- A word stands whole where no word character touches it. -/
theorem holdsWord_append (hbefore : ClearEnd before) (hafter : ClearStart after) :
    holdsWord word (before ++ (word ++ after)) :=
  holdsWordAfter_append hbefore (fun _ => rfl) hafter

/-! ## Characters of names -/

theorem continuesName_of_startsName (h : startsName c) : continuesName c := by
  simp only [startsName, Bool.or_eq_true] at h
  rcases h with (h | h) | h <;> simp [continuesName, h]

theorem continuesName_of_isDigit (h : c.isDigit) : continuesName c := by
  have hcode : c.toNat ≤ 57 := by
    have := (Bool.and_eq_true_iff.1 h).2
    simpa [UInt32.le_iff_toNat_le] using this
  have hascii : c.toNat < 0x80 := by omega
  simp [continuesName, isNumber, hascii, h]

theorem not_isWordChar_of_sign (h : sign? c = some token) : isWordChar c = false := by
  unfold sign? at h
  split at h
  case h_8 => cases h
  all_goals decide

/-- A piece of code begins with a character that continues a name or is no word character. -/
theorem clear_of_spells (h : Spells code tokens) (hname : ∀ c ∈ code.head?, continuesName c = false) :
    ClearStart code := by
  intro c hc
  have hc' := hname c hc
  cases h with
  | nil => cases hc
  | skip hskipped _ =>
    cases hskipped with
    | blank hblank =>
      cases hc
      rcases hblank with rfl | rfl | rfl <;> decide
    | comment hrun =>
      cases hc
      decide
  | token hlexeme _ =>
    cases hlexeme with
    | sign hsign =>
      cases hc
      exact not_isWordChar_of_sign hsign
    | text hquote hwritten =>
      cases hc
      rcases hquote with rfl | rfl <;> decide
    | int hnumber =>
      obtain ⟨d, rest, hcode, hd, -⟩ := hnumber.read
      rw [hcode] at hc
      cases hc
      rw [continuesName_of_isDigit hd] at hc'
      cases hc'
    | negative hnumber =>
      cases hc
      decide
    | name hstarts hrun =>
      cases hc
      rw [continuesName_of_startsName hstarts] at hc'
      cases hc'

/-- What is skipped in front of a name does not end in a word character. -/
theorem Skipped.clearEnd (h : Skipped after written) (hname : ∃ c ∈ after.head?, startsName c) :
    ClearEnd written := by
  obtain ⟨d, hd, hstarts⟩ := hname
  cases h with
  | blank hblank =>
    rintro c ⟨⟩
    rcases hblank with rfl | rfl | rfl <;> decide
  | comment hrun =>
    -- a comment ends at a line break or with the code
    obtain rfl : d = '\n' := by simpa using hrun.2 d hd
    cases (by decide : startsName '\n' = false).symm.trans hstarts

/-- Of the tokens right in front of a name, only an integer ends in a word character. -/
theorem Lexeme.clearEnd (h : Lexeme after written token)
    (hname : ∃ c ∈ after.head?, startsName c) (hint : ∀ n, token ≠ .int n) :
    ClearEnd written := by
  obtain ⟨d, hd, hstarts⟩ := hname
  cases h with
  | sign hsign =>
    rintro c ⟨⟩
    exact not_isWordChar_of_sign hsign
  | text hquote hwritten =>
    intro c hc
    rw [← List.cons_append, List.getLast?_concat] at hc
    cases hc
    rcases hquote with rfl | rfl <;> decide
  | int _ => exact absurd rfl (hint _)
  | negative _ => exact absurd rfl (hint _)
  | name _ hrun =>
    have hends := hrun.2 d hd
    rw [continuesName_of_startsName hstarts] at hends
    cases hends

/-! ## Names in the code -/

/-- A name stands between two parts of the code, whole, and behind the given tokens. -/
structure NameAt (name : String) (front : List Token) (before after : List Char) : Prop where
  starts : ∃ c ∈ name.toList.head?, startsName c
  first : before = [] → front = []
  clearBefore : ClearEnd before
  clearAfter : ClearStart after

theorem NameAt.head (h : NameAt name front before after) :
    ∃ c ∈ (name.toList ++ after).head?, startsName c := by
  obtain ⟨c, hc, hstarts⟩ := h.starts
  exact ⟨c, List.mem_head?_append_of_mem_head? hc, hstarts⟩

theorem ClearEnd.append (h : ClearEnd before) (hwritten : before = [] → ClearEnd written) :
    ClearEnd (written ++ before) := by
  intro c hc
  rcases before.eq_nil_or_concat with rfl | ⟨before, d, rfl⟩
  · rw [List.append_nil] at hc
    exact hwritten rfl c hc
  · rw [List.concat_eq_append, ← List.append_assoc, List.getLast?_concat] at hc
    refine h c ?_
    rwa [List.concat_eq_append, List.getLast?_concat]

/-- A name that stands behind no integer stands whole. -/
theorem nameAt_of_spells (h : Spells code tokens) (htokens : tokens = front ++ .name name :: back)
    (hint : ∀ n, front.getLast? ≠ some (.int n)) :
    ∃ before after, code = before ++ (name.toList ++ after) ∧ NameAt name front before after := by
  induction h generalizing front with
  | nil => simp at htokens
  | @skip written after tokens hskipped hspells ih =>
    obtain ⟨before, left, rfl, hname⟩ := ih htokens hint
    refine ⟨written ++ before, left, by rw [List.append_assoc], hname.starts, ?_, ?_,
      hname.clearAfter⟩
    · intro hnil
      exact hname.first (List.append_eq_nil_iff.1 hnil).2
    · refine hname.clearBefore.append ?_
      rintro rfl
      exact hskipped.clearEnd hname.head
  | @token written after token tokens hlexeme hspells ih =>
    obtain _ | ⟨_, front⟩ := front
    · cases htokens
      cases hlexeme with
      | sign hsign => exact absurd hsign (sign?_ne_name _ _)
      | @name c cs hstarts hrun =>
        have hclear : ClearStart after := clear_of_spells hspells hrun.2
        exact ⟨[], after, by simp, ⟨c, by simp, hstarts⟩, fun _ => rfl, nofun, hclear⟩
    · cases htokens
      have hfront : ∀ n, front.getLast? ≠ some (.int n) := by
        intro n hlast
        refine hint n ?_
        rw [List.getLast?_cons, hlast]
        rfl
      obtain ⟨before, left, rfl, hname⟩ := ih rfl hfront
      refine ⟨written ++ before, left, by rw [List.append_assoc], hname.starts, ?_, ?_,
        hname.clearAfter⟩
      · intro hnil
        exact absurd (List.append_eq_nil_iff.1 hnil).1 hlexeme.ne_nil
      · refine hname.clearBefore.append ?_
        rintro rfl
        -- nothing stands between this token and the name, so it is the last one in front of it
        obtain rfl := hname.first rfl
        refine hlexeme.clearEnd hname.head ?_
        rintro n rfl
        exact hint n rfl

/-! ## No name right behind an integer -/

/-- No name follows an integer. -/
def Parted (tokens : List Token) : Prop :=
  tokens.IsChain fun token next => ∀ n name, token = .int n → next ≠ .name name

theorem parted_nil : Parted [] := .nil

theorem parted_singleton (token : Token) : Parted [token] := .singleton token

theorem Parted.cons (h : Parted tokens) (hint : ∀ n, token ≠ .int n) : Parted (token :: tokens) :=
  List.isChain_cons.2 ⟨fun _ _ n _ heq => absurd heq (hint n), h⟩

theorem Parted.append (h : Parted front) (hback : Parted back)
    (hname : ∀ name, back.head? ≠ some (.name name)) : Parted (front ++ back) := by
  refine List.isChain_append.2 ⟨h, hback, ?_⟩
  rintro _ - next hnext n name - rfl
  exact hname name hnext

theorem Parted.int_append (h : Parted (front ++ .name name :: back)) (n : Int) :
    front.getLast? ≠ some (.int n) := by
  intro hlast
  exact (List.isChain_append.1 h).2.2 _ hlast _ rfl n name rfl rfl

theorem parted_separators (h : Parted tokens) (n : Nat) :
    Parted (List.replicate n .separator ++ tokens) := by
  induction n with
  | zero => exact h
  | succ n ih => exact ih.cons nofun

theorem OthersOf.parted {xs : List Term} (h : OthersOf parameters tokens xs) : Parted tokens := by
  induction h with
  | nil => exact parted_nil
  | cons _ hothers ih =>
    refine Parted.cons ?_ nofun
    refine (parted_singleton _).append ih ?_
    cases hothers <;> nofun

theorem ExpressionOf.parted {e : Expression} (h : ExpressionOf parameters tokens e) :
    Parted tokens := by
  cases h with
  | sum _ hothers =>
    refine (parted_singleton _).append hothers.parted ?_
    cases hothers <;> nofun

theorem MoreOf.parted {es : List Expression} (h : MoreOf parameters tokens es) :
    Parted tokens := by
  induction h with
  | nil => exact parted_nil
  | cons hexpression hmore ih =>
    refine Parted.cons (hexpression.parted.append ih ?_) nofun
    cases hmore <;> nofun

theorem ArgumentsOf.parted {es : List Expression} (h : ArgumentsOf parameters tokens es) :
    Parted tokens := by
  cases h with
  | nil => exact parted_nil
  | cons hexpression hmore =>
    refine hexpression.parted.append hmore.parted ?_
    cases hmore <;> nofun

theorem CalleeOf.parted {callee : Callee} (h : CalleeOf parameters tokens callee) :
    Parted tokens := by
  cases h with
  | alert => exact parted_singleton _
  | console _ => exact .cons (.cons (parted_singleton _) (by simp)) (by simp)
  | method _ _ => exact .cons (.cons (parted_singleton _) (by simp)) (by simp)
  | callback _ _ => exact parted_singleton _

theorem StatementOf.parted {statement : Statement} (h : StatementOf parameters tokens statement) :
    Parted tokens := by
  cases h with
  | call hhead hinside _ =>
    have hclosed := hinside.parted.append (parted_singleton .rightParen) nofun
    exact hhead.parted.append (hclosed.cons nofun) nofun

theorem StatementsOf.parted {statements : List Statement}
    (h : StatementsOf parameters tokens statements) : Parted tokens := by
  induction h with
  | one hstatement => exact hstatement.parted
  | cons n hstatement _ ih =>
    rw [List.append_assoc]
    exact hstatement.parted.append (parted_separators ih (n + 1)) nofun

theorem ProgramOf.parted {statements : List Statement}
    (h : ProgramOf parameters tokens statements) : Parted tokens := by
  cases h with
  | empty n =>
    rw [← List.append_nil (List.replicate n _)]
    exact parted_separators parted_nil n
  | statements m n hbody =>
    rw [List.append_assoc]
    refine parted_separators (hbody.parted.append ?_ ?_) m
    · rw [← List.append_nil (List.replicate n _)]
      exact parted_separators parted_nil n
    · cases n <;> nofun

/-! ## The names of a program -/

/-- The callee is written with the name: it is its own, that of its receiver or that of its
    member. -/
inductive Callee.Mentions (parameters : List String) : Callee → String → Prop where
  | alert : Mentions parameters .alert "alert"
  | console (level : Level) : Mentions parameters (.console level) "console"
  | level {level : Level} {member : String} : consoleLevel? member = some level →
      Mentions parameters (.console level) member
  | receiver {i : Nat} {method : ElementMethod} {name : String} : parameters[i]? = some name →
      Mentions parameters (.method i method) name
  | member (i : Nat) (method : ElementMethod) :
      Mentions parameters (.method i method) method.member
  | callback (name : String) : Mentions parameters (.callback name) name

/-- The term refers to the parameter of that name. -/
def Term.Mentions (parameters : List String) (term : Term) (name : String) : Prop :=
  ∃ i, term = .parameter i ∧ parameters[i]? = some name

def Expression.Mentions (parameters : List String) (e : Expression) (name : String) : Prop :=
  ∃ term ∈ e.first :: e.others, term.Mentions parameters name

def Statement.Mentions (parameters : List String) (s : Statement) (name : String) : Prop :=
  s.callee.Mentions parameters name ∨ ∃ e ∈ s.arguments, e.Mentions parameters name

/-- The name is that of a callee, of a member or of a parameter that the program refers to. -/
def Program.Mentions (program : Program) (name : String) : Prop :=
  ∃ s ∈ program.statements, s.Mentions program.parameters name

theorem TermOf.mem {term : Term} (h : TermOf parameters token term)
    (hname : term.Mentions parameters name) : token = .name name := by
  obtain ⟨i, rfl, hget⟩ := hname
  cases h with
  | parameter hfirst => rw [Option.some.inj (hfirst.1.symm.trans hget)]

theorem OthersOf.mem {xs : List Term} (h : OthersOf parameters tokens xs) {term : Term}
    (hterm : term ∈ xs) (hname : term.Mentions parameters name) : Token.name name ∈ tokens := by
  induction h with
  | nil => cases hterm
  | cons hfirst _ ih =>
    rcases List.mem_cons.1 hterm with rfl | hterm
    · simp [hfirst.mem hname]
    · simp [ih hterm]

theorem ExpressionOf.mem {e : Expression} (h : ExpressionOf parameters tokens e)
    (hname : e.Mentions parameters name) : Token.name name ∈ tokens := by
  obtain ⟨term, hterm, hname⟩ := hname
  cases h with
  | sum hfirst hothers =>
    rcases List.mem_cons.1 hterm with rfl | hterm
    · simp [hfirst.mem hname]
    · simp [hothers.mem hterm hname]

/-- The levels have several names each, of which the code has one; all others are written out. -/
theorem CalleeOf.mem {callee : Callee} (h : CalleeOf parameters tokens callee)
    (hname : callee.Mentions parameters name) :
    (consoleLevel? name).isSome ∨ Token.name name ∈ tokens := by
  cases h with
  | alert =>
    cases hname
    exact .inr (by simp)
  | console _ =>
    cases hname with
    | console => exact .inr (by simp)
    | level hlevel => exact .inl (by simp [hlevel])
  | method _ hfirst =>
    cases hname with
    | receiver hget =>
      rw [Option.some.inj (hfirst.1.symm.trans hget)]
      exact .inr (by simp)
    | member => exact .inr (by simp)
  | callback _ _ =>
    cases hname
    exact .inr (by simp)

theorem StatementOf.mem {s : Statement} (h : StatementOf parameters tokens s)
    (hname : s.Mentions parameters name) :
    (consoleLevel? name).isSome ∨ Token.name name ∈ tokens := by
  rcases hname with hname | ⟨e, he, hname⟩
  · obtain ⟨hhead, -, -⟩ := h
    exact (hhead.mem hname).imp_right fun hmem => by simp [hmem]
  · obtain ⟨used, hused, hpart⟩ := h.part he
    exact .inr (hused (hpart.mem hname))

theorem ProgramOf.mem {statements : List Statement}
    (h : ProgramOf parameters tokens statements) {s : Statement} (hs : s ∈ statements)
    (hname : s.Mentions parameters name) :
    (consoleLevel? name).isSome ∨ Token.name name ∈ tokens := by
  obtain ⟨used, hused, hpart⟩ := h.part hs
  exact (hpart.mem hname).imp_right fun hmem => hused hmem

/-! ## The check -/

/-- The names that the code of a program holds stand whole in it. -/
theorem holdsWord_of_spells (h : Spells code tokens) (hparted : Parted tokens)
    (hname : Token.name name ∈ tokens) : holdsWord name.toList code := by
  obtain ⟨front, back, rfl⟩ := List.append_of_mem hname
  obtain ⟨before, after, rfl, hwhole⟩ := nameAt_of_spells h rfl hparted.int_append
  exact holdsWord_append hwhole.clearBefore hwhole.clearAfter

theorem not_mem_forbidden {code : String} (h : forbiddenIn? code = none)
    (hname : holdsWord name.toList code.toList) : name ∉ forbidden := by
  intro hmem
  exact List.find?_eq_none.1 h name hmem hname

theorem level_not_forbidden (h : (consoleLevel? name).isSome) : name ∉ forbidden := by
  have hall : ∀ word ∈ forbidden, consoleLevel? word = none := by decide
  intro hmem
  rw [hall name hmem] at h
  cases h

/-- No name that a compiled program mentions is a forbidden word. -/
theorem mentions_not_forbidden {code : String} {program : Program}
    (h : compile code parameters = .ok program) (hname : program.Mentions name) :
    name ∉ forbidden := by
  obtain ⟨hcheck, tokens, statements, hspells, hprogram, rfl⟩ := spells_of_compile h
  obtain ⟨s, hs, hname⟩ := hname
  rcases hprogram.mem hs hname with hlevel | hmem
  · exact level_not_forbidden hlevel
  · exact not_mem_forbidden hcheck (holdsWord_of_spells hspells hprogram.parted hmem)

/-! ## Callbacks that are not called -/

section callbacks

variable {σ : Type} {setting : Setting σ} {callbacks : Callbacks σ} {program : Program}

/-- A callee looks up no callback but one that it mentions. -/
theorem Callee.call_congr {callee : Callee}
    (h : ∀ name, callee.Mentions parameters name →
      callbacks.find? name = setting.callbacks.find? name) (values : List Value) :
    callee.call { setting with callbacks } parameters values =
      callee.call setting parameters values := by
  cases callee with
  | callback name => simp only [Callee.call, h name (.callback name)]
  | alert => rfl
  | console level => rfl
  | method receiver action => rfl

theorem Program.run_congr (h : ∀ name, program.Mentions name →
      callbacks.find? name = setting.callbacks.find? name) :
    program.run { setting with callbacks } = program.run setting := by
  have hstatement : ∀ s ∈ program.statements,
      s.run { setting with callbacks } program.parameters = s.run setting program.parameters := by
    intro s hs
    refine bind_congr fun values => Callee.call_congr ?_ values
    exact fun name hname => h name ⟨s, hs, .inl hname⟩
  unfold Program.run
  generalize program.statements = statements at hstatement
  induction statements with
  | nil => rfl
  | cons s statements ih =>
    simp only [List.forM_eq_forM, List.forM_cons] at ih ⊢
    rw [hstatement s List.mem_cons_self]
    exact bind_congr fun _ => ih fun s' hs' => hstatement s' (List.mem_cons_of_mem s hs')

end callbacks

end Repeater.Hook
