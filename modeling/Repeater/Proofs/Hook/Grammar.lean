/-
  Repeater/Proofs/Hook/Grammar.lean
  =================================
  **What the compiler accepts.**

  The grammar of hook code as relations between lists of tokens and what they stand for, with the
  parameters in scope: `TermOf`, `ExpressionOf`, `ArgumentsOf`, `CalleeOf`, `StatementOf` and
  `ProgramOf`. They know neither offsets nor an order of reading.

  Each reading function of the compiler succeeds exactly where its relation holds, one lemma for
  each (`term_eq`, `moreArguments_eq`, .., `statements_eq`). With the description of the tokens this
  says for which codes compiling succeeds, and with which program (`compile_derives`).
-/
import Repeater.Hook.Compile
import Repeater.Proofs.Hook.Lexing

namespace Repeater.Hook

open Text

/-! ## The grammar -/

/-- The position is the first at which the name stands among the parameters. -/
def FirstAt (parameters : List String) (name : String) (i : Nat) : Prop :=
  parameters[i]? = some name ∧ ∀ j < i, parameters[j]? ≠ some name

section grammar

variable (parameters : List String)

inductive TermOf : Token → Term → Prop where
  | text (s : String) : TermOf (.text s) (.text s)
  | int (n : Int) : TermOf (.int n) (.int n)
  | parameter {s : String} {i : Nat} : FirstAt parameters s i → TermOf (.name s) (.parameter i)

/-- The terms of a sum after its first, each behind a plus sign. -/
inductive OthersOf : List Token → List Term → Prop where
  | nil : OthersOf [] []
  | cons {t : Token} {x : Term} {ts : List Token} {xs : List Term} : TermOf parameters t x →
      OthersOf ts xs → OthersOf (.plus :: t :: ts) (x :: xs)

inductive ExpressionOf : List Token → Expression → Prop where
  | sum {t : Token} {x : Term} {ts : List Token} {xs : List Term} : TermOf parameters t x →
      OthersOf parameters ts xs → ExpressionOf (t :: ts) ⟨x, xs⟩

/-- The arguments of a call after its first, each behind a comma. -/
inductive MoreOf : List Token → List Expression → Prop where
  | nil : MoreOf [] []
  | cons {ts rest : List Token} {e : Expression} {es : List Expression} :
      ExpressionOf parameters ts e → MoreOf rest es → MoreOf (.comma :: (ts ++ rest)) (e :: es)

inductive ArgumentsOf : List Token → List Expression → Prop where
  | nil : ArgumentsOf [] []
  | cons {ts rest : List Token} {e : Expression} {es : List Expression} :
      ExpressionOf parameters ts e → MoreOf parameters rest es → ArgumentsOf (ts ++ rest) (e :: es)

inductive CalleeOf : List Token → Callee → Prop where
  | alert : CalleeOf [.name "alert"] .alert
  | console {member : String} {level : Level} : consoleLevel? member = some level →
      CalleeOf [.name "console", .dot, .name member] (.console level)
  | method {receiver : String} {i : Nat} {method : ElementMethod} : receiver ≠ "console" →
      FirstAt parameters receiver i →
      CalleeOf [.name receiver, .dot, .name method.member] (.method i method)
  | callback {name : String} : name ≠ "alert" → name ∉ parameters →
      CalleeOf [.name name] (.callback name)

/-- A method has as many arguments as it takes; all else has any number. -/
def CountOf : Callee → Nat → Prop
  | .method _ method, given => given = method.arity
  | _, _ => True

inductive StatementOf : List Token → Statement → Prop where
  | call {head inside : List Token} {callee : Callee} {arguments : List Expression} :
      CalleeOf parameters head callee → ArgumentsOf parameters inside arguments →
      CountOf callee arguments.length →
      StatementOf (head ++ .leftParen :: (inside ++ [.rightParen])) ⟨callee, arguments⟩

/-- Statements with at least one separator between any two. -/
inductive StatementsOf : List Token → List Statement → Prop where
  | one {ts : List Token} {s : Statement} : StatementOf parameters ts s → StatementsOf ts [s]
  | cons {ts rest : List Token} {s : Statement} {ss : List Statement} (n : Nat) :
      StatementOf parameters ts s → StatementsOf rest ss →
      StatementsOf (ts ++ List.replicate (n + 1) .separator ++ rest) (s :: ss)

/-- A program: no statement or some, with separators around. -/
inductive ProgramOf : List Token → List Statement → Prop where
  | empty (n : Nat) : ProgramOf (List.replicate n .separator) []
  | statements {body : List Token} {ss : List Statement} (m n : Nat) :
      StatementsOf parameters body ss →
      ProgramOf (List.replicate m .separator ++ body ++ List.replicate n .separator) ss

end grammar

/-! ## Parts of programs -/

section parts

variable {parameters : List String} {ts : List Token} {e : Expression} {es : List Expression}
  {s : Statement} {ss : List Statement}

theorem MoreOf.part (h : MoreOf parameters ts es) (he : e ∈ es) :
    ∃ used ⊆ ts, ExpressionOf parameters used e := by
  induction h with
  | nil => cases he
  | cons hexpression _ ih =>
    rcases List.mem_cons.1 he with rfl | he
    · exact ⟨_, by simp, hexpression⟩
    · obtain ⟨used, hused, hpart⟩ := ih he
      exact ⟨used, List.Subset.trans hused (by simp), hpart⟩

/-- Each argument is spelled by some of the tokens of the call. -/
theorem ArgumentsOf.part (h : ArgumentsOf parameters ts es) (he : e ∈ es) :
    ∃ used ⊆ ts, ExpressionOf parameters used e := by
  cases h with
  | nil => cases he
  | cons hexpression hmore =>
    rcases List.mem_cons.1 he with rfl | he
    · exact ⟨_, by simp, hexpression⟩
    · obtain ⟨used, hused, hpart⟩ := hmore.part he
      exact ⟨used, List.Subset.trans hused (by simp), hpart⟩

theorem StatementOf.part (h : StatementOf parameters ts s) (he : e ∈ s.arguments) :
    ∃ used ⊆ ts, ExpressionOf parameters used e := by
  obtain ⟨-, harguments, -⟩ := h
  obtain ⟨used, hused, hpart⟩ := harguments.part he
  exact ⟨used, fun t ht => by simp [hused ht], hpart⟩

theorem StatementsOf.part (h : StatementsOf parameters ts ss) (hs : s ∈ ss) :
    ∃ used ⊆ ts, StatementOf parameters used s := by
  induction h with
  | one hstatement =>
    obtain rfl := List.mem_singleton.1 hs
    exact ⟨_, fun _ ht => ht, hstatement⟩
  | cons n hstatement _ ih =>
    rcases List.mem_cons.1 hs with rfl | hs
    · exact ⟨_, fun t ht => by simp [ht], hstatement⟩
    · obtain ⟨used, hused, hpart⟩ := ih hs
      exact ⟨used, fun t ht => by simp [hused ht], hpart⟩

/-- Each statement is spelled by some of the tokens of the program. -/
theorem ProgramOf.part (h : ProgramOf parameters ts ss) (hs : s ∈ ss) :
    ∃ used ⊆ ts, StatementOf parameters used s := by
  cases h with
  | empty n => cases hs
  | statements m n hbody =>
    obtain ⟨used, hused, hpart⟩ := hbody.part hs
    exact ⟨used, fun t ht => by simp [hused ht], hpart⟩

end parts

/-! ## Names -/

variable {parameters : List String} {source : Source} {ts left used inside : List Placed}
  {es : List Expression}

theorem position?_eq_some {name : String} {i : Nat} :
    source.position? name = some i ↔ FirstAt source.parameters name i := by
  rw [Source.position?, List.findIdx?_eq_some_iff_getElem]
  constructor
  · rintro ⟨hi, hname, hbefore⟩
    refine ⟨by rw [List.getElem?_eq_getElem hi, beq_iff_eq.1 hname], fun j hj hsame => ?_⟩
    obtain ⟨_, hget⟩ := List.getElem?_eq_some_iff.1 hsame
    exact hbefore j hj (beq_iff_eq.2 hget)
  · rintro ⟨hname, hbefore⟩
    obtain ⟨hi, hget⟩ := List.getElem?_eq_some_iff.1 hname
    refine ⟨hi, beq_iff_eq.2 hget, fun j hj hsame => hbefore j hj ?_⟩
    rw [List.getElem?_eq_getElem (by omega), beq_iff_eq.1 hsame]

theorem position?_eq_none {name : String} :
    source.position? name = none ↔ name ∉ source.parameters := by
  rw [Source.position?, List.findIdx?_eq_none_iff]
  constructor
  · intro h hmem
    simpa using h name hmem
  · rintro h x hx
    exact beq_eq_false_iff_ne.2 (ne_of_mem_of_not_mem hx h)

theorem ofMember?_eq_some {member : String} {method : ElementMethod} :
    ElementMethod.ofMember? member = some method ↔ method.member = member := by
  constructor
  · intro hfind
    have hsame := List.find?_some hfind
    exact beq_iff_eq.1 hsame
  · rintro rfl
    cases method <;> decide

/-! ## Terms and arguments -/

theorem term_eq {token : Token} {x : Term} :
    source.term token ts = .ok x ↔ TermOf source.parameters token x := by
  constructor
  · intro h
    unfold Source.term at h
    split at h
    · cases h; exact .text _
    · cases h; exact .int _
    · split at h
      · next hposition => cases h; exact .parameter (position?_eq_some.1 hposition)
      · cases h
    · cases h
  · intro h
    cases h with
    | text s => rfl
    | int n => rfl
    | parameter hfirst => simp only [Source.term, position?_eq_some.2 hfirst]

/-- Tokens of which the first goes on with no sum and no list of arguments. -/
def Stops (left : List Placed) : Prop := ∀ t ∈ left.head?, t.token ≠ .plus ∧ t.token ≠ .comma

theorem stops_of_not (hplus : ∀ o t rest, ts = ⟨.plus, o⟩ :: t :: rest → False)
    (hcomma : ∀ o t rest, ts = ⟨.comma, o⟩ :: t :: rest → False)
    (hlonePlus : ∀ o, ts = [⟨.plus, o⟩] → False) (hloneComma : ∀ o, ts = [⟨.comma, o⟩] → False) :
    Stops ts := by
  rintro ⟨token, o⟩ hhead
  obtain ⟨rest, rfl⟩ := List.head?_eq_some_iff.1 hhead
  constructor
  · rintro ⟨⟩
    cases rest with
    | nil => exact hlonePlus _ rfl
    | cons t rest => exact hplus _ _ _ rfl
  · rintro ⟨⟩
    cases rest with
    | nil => exact hloneComma _ rfl
    | cons t rest => exact hcomma _ _ _ rfl

theorem othersOf_cons {xs : List Term} (h : OthersOf parameters (used.map (·.token)) xs) :
    (used = [] ∧ xs = []) ∨ ∃ o t rest x xs', used = ⟨.plus, o⟩ :: t :: rest ∧
      TermOf parameters t.token x ∧ OthersOf parameters (rest.map (·.token)) xs' ∧
      xs = x :: xs' := by
  generalize htokens : used.map (·.token) = tokens at h
  cases h with
  | nil => exact .inl ⟨List.map_eq_nil_iff.1 htokens, rfl⟩
  | cons hterm hrest =>
    obtain ⟨⟨_, o⟩, _, rfl, ⟨⟩, hmore⟩ := List.map_eq_cons_iff.1 htokens
    obtain ⟨t, rest, rfl, rfl, rfl⟩ := List.map_eq_cons_iff.1 hmore
    exact .inr ⟨o, t, rest, _, _, rfl, hterm, hrest, rfl⟩

theorem expressionOf_cons {e : Expression}
    (h : ExpressionOf parameters (used.map (·.token)) e) :
    ∃ t rest x xs, used = t :: rest ∧ TermOf parameters t.token x ∧
      OthersOf parameters (rest.map (·.token)) xs ∧ e = ⟨x, xs⟩ := by
  generalize htokens : used.map (·.token) = tokens at h
  cases h with
  | sum hterm hrest =>
    obtain ⟨t, rest, rfl, rfl, rfl⟩ := List.map_eq_cons_iff.1 htokens
    exact ⟨t, rest, _, _, rfl, hterm, hrest, rfl⟩

theorem moreOf_cons (h : MoreOf parameters (used.map (·.token)) es) :
    (used = [] ∧ es = []) ∨ ∃ o t sum rest x xs es', used = ⟨.comma, o⟩ :: t :: (sum ++ rest) ∧
      TermOf parameters t.token x ∧ OthersOf parameters (sum.map (·.token)) xs ∧
      MoreOf parameters (rest.map (·.token)) es' ∧ es = ⟨x, xs⟩ :: es' := by
  generalize htokens : used.map (·.token) = tokens at h
  cases h with
  | nil => exact .inl ⟨List.map_eq_nil_iff.1 htokens, rfl⟩
  | cons hexpression hrest =>
    obtain ⟨⟨_, o⟩, _, rfl, ⟨⟩, hmore⟩ := List.map_eq_cons_iff.1 htokens
    obtain ⟨expression, rest, rfl, rfl, rfl⟩ := List.map_eq_append_iff.1 hmore
    obtain ⟨t, sum, x, xs, rfl, hterm, hsum, rfl⟩ := expressionOf_cons hexpression
    exact .inr ⟨o, t, sum, rest, x, xs, _, rfl, hterm, hsum, hrest, rfl⟩

theorem stops_lone {t : Placed} {sum more : List Placed} {xs : List Term}
    (hsum : OthersOf parameters (sum.map (·.token)) xs)
    (hmore : MoreOf parameters (more.map (·.token)) es) (htokens : [t] = sum ++ more ++ left)
    (hstops : Stops left) : t.token ≠ .plus ∧ t.token ≠ .comma := by
  rcases othersOf_cons hsum with ⟨rfl, -⟩ | ⟨_, _, _, _, _, rfl, -⟩
  · rcases moreOf_cons hmore with ⟨rfl, -⟩ | ⟨_, _, _, _, _, _, _, rfl, -⟩
    · cases htokens
      exact hstops t rfl
    · cases htokens
  · cases htokens

theorem moreArguments_eq {first : Term} {others : List Term} :
    source.moreArguments first others ts = .ok (es, left) ↔ Stops left ∧
      ∃ sum more xs es', ts = sum ++ more ++ left ∧
        OthersOf source.parameters (sum.map (·.token)) xs ∧
        MoreOf source.parameters (more.map (·.token)) es' ∧
        es = ⟨first, others ++ xs⟩ :: es' := by
  fun_induction Source.moreArguments source first others ts generalizing es left with
  | case1 first others o t ts ih =>
    rw [bind_eq_ok]
    constructor
    · rintro ⟨x, hterm, hrest⟩
      obtain ⟨hstops, sum, more, xs, es', rfl, hsum, hmore, rfl⟩ := (ih x).1 hrest
      refine ⟨hstops, ⟨.plus, o⟩ :: t :: sum, more, x :: xs, es', rfl, ?_, hmore, by simp⟩
      exact .cons (term_eq.1 hterm) hsum
    · rintro ⟨hstops, sum, more, xs, es', htokens, hsum, hmore, rfl⟩
      rcases othersOf_cons hsum with ⟨rfl, rfl⟩ | ⟨_, t, sum, x, xs, rfl, hterm, hrest, rfl⟩
      · rcases moreOf_cons hmore with ⟨rfl, rfl⟩ | ⟨_, _, _, _, _, _, _, rfl, -⟩
        · cases htokens
          exact absurd rfl (hstops _ rfl).1
        · cases htokens
      · cases htokens
        exact ⟨x, term_eq.2 hterm,
          (ih x).2 ⟨hstops, sum, more, xs, es', rfl, hrest, hmore, by simp⟩⟩
  | case2 first others o t ts ih =>
    rw [bind_eq_ok]
    simp only [bind_eq_ok]
    constructor
    · rintro ⟨x, hterm, ⟨arguments, left⟩, hrest, ⟨⟩⟩
      obtain ⟨hstops, sum, more, xs, es', rfl, hsum, hmore, rfl⟩ := (ih x).1 hrest
      refine ⟨hstops, [], ⟨.comma, o⟩ :: t :: (sum ++ more), [], ⟨x, xs⟩ :: es', by simp, .nil, ?_,
        by simp⟩
      rw [List.map_cons, List.map_cons, List.map_append]
      exact .cons (.sum (term_eq.1 hterm) hsum) hmore
    · rintro ⟨hstops, sum, more, xs, es', htokens, hsum, hmore, rfl⟩
      rcases othersOf_cons hsum with ⟨rfl, rfl⟩ | ⟨_, t, sum, x, xs, rfl, -⟩
      · rcases moreOf_cons hmore with
          ⟨rfl, rfl⟩ | ⟨_, t, sum, rest, x, xs, es', rfl, hterm, hsum, hrest, rfl⟩
        · cases htokens
          exact absurd rfl (hstops _ rfl).2
        · cases htokens
          have hread := (ih x).2 ⟨hstops, sum, rest, xs, es', by simp, hsum, hrest, rfl⟩
          refine ⟨x, term_eq.2 hterm, _, hread, ?_⟩
          rw [List.append_nil]
          rfl
      · cases htokens
  | case3 first others o =>
    constructor
    · intro h
      cases h
    · rintro ⟨hstops, sum, more, xs, es', htokens, hsum, hmore, -⟩
      exact absurd rfl (stops_lone hsum hmore htokens hstops).1
  | case4 first others o =>
    constructor
    · intro h
      cases h
    · rintro ⟨hstops, sum, more, xs, es', htokens, hsum, hmore, -⟩
      exact absurd rfl (stops_lone hsum hmore htokens hstops).2
  | case5 first others ts hplus hcomma hlonePlus hloneComma =>
    constructor
    · intro h
      cases h
      exact ⟨stops_of_not hplus hcomma hlonePlus hloneComma,
        [], [], [], [], rfl, .nil, .nil, by simp⟩
    · rintro ⟨hstops, sum, more, xs, es', rfl, hsum, hmore, rfl⟩
      rcases othersOf_cons hsum with ⟨rfl, rfl⟩ | ⟨_, _, _, _, _, rfl, -⟩
      · rcases moreOf_cons hmore with ⟨rfl, rfl⟩ | ⟨_, _, _, _, _, _, _, rfl, -⟩
        · simp
        · exact absurd rfl (hcomma _ _ _)
      · exact absurd rfl (hplus _ _ _)

theorem arguments_cons {t : Placed} (h : t.token ≠ .rightParen) :
    source.arguments (t :: ts) = (do
      let x ← source.term t.token ts
      source.moreArguments x [] ts) := by
  obtain ⟨token, o⟩ := t
  cases token
  case rightParen => exact absurd rfl h
  all_goals rfl

theorem arguments_eq {close : Placed} (hclose : close.token = .rightParen) :
    source.arguments ts = .ok (es, close :: left) ↔ ∃ inside, ts = inside ++ close :: left ∧
      ArgumentsOf source.parameters (inside.map (·.token)) es := by
  have hstops : Stops (close :: left) := by
    rintro t ⟨⟩
    simp [hclose]
  constructor
  · intro h
    unfold Source.arguments at h
    split at h
    · cases h
    · cases h
      exact ⟨[], rfl, .nil⟩
    · next t rest _ =>
      obtain ⟨x, hterm, hrest⟩ := bind_eq_ok.1 h
      obtain ⟨-, sum, more, xs, es', rfl, hsum, hmore, rfl⟩ := moreArguments_eq.1 hrest
      refine ⟨t :: (sum ++ more), by simp, ?_⟩
      rw [← List.cons_append, List.map_append]
      exact .cons (.sum (term_eq.1 hterm) hsum) hmore
  · rintro ⟨inside, rfl, harguments⟩
    generalize htokens : inside.map (·.token) = tokens at harguments
    cases harguments with
    | nil =>
      obtain rfl := List.map_eq_nil_iff.1 htokens
      obtain ⟨token, o⟩ := close
      obtain rfl : token = .rightParen := hclose
      rfl
    | cons hexpression hmore =>
      obtain ⟨expression, more, rfl, rfl, rfl⟩ := List.map_eq_append_iff.1 htokens
      obtain ⟨t, sum, x, xs, rfl, hterm, hsum, rfl⟩ := expressionOf_cons hexpression
      have hother : t.token ≠ .rightParen := by
        intro hparen
        rw [hparen] at hterm
        cases hterm
      rw [List.cons_append, List.cons_append, arguments_cons hother, bind_eq_ok]
      refine ⟨x, term_eq.2 hterm, moreArguments_eq.2 ?_⟩
      exact ⟨hstops, sum, more, xs, _, rfl, hsum, hmore, rfl⟩

/-! ## Calls -/

theorem memberCallee_eq {receiver member : String} {callee : Callee} :
    source.memberCallee receiver member ts = .ok callee ↔
      CalleeOf source.parameters [.name receiver, .dot, .name member] callee := by
  constructor
  · intro h
    unfold Source.memberCallee at h
    split at h
    · next hconsole =>
      obtain rfl := beq_iff_eq.1 hconsole
      split at h
      · next hlevel => cases h; exact .console hlevel
      · cases h
    · next hconsole =>
      split at h
      · cases h
      · next hposition =>
        split at h
        · next hmethod =>
          cases h
          obtain rfl := ofMember?_eq_some.1 hmethod
          exact .method (by simpa using hconsole) (position?_eq_some.1 hposition)
        · cases h
  · intro h
    unfold Source.memberCallee
    cases h with
    | console hlevel => simp [hlevel]
    | method hconsole hfirst =>
      simp [hconsole, position?_eq_some.2 hfirst, ofMember?_eq_some.2 rfl]

theorem callee_eq {opening : Placed} {callee : Callee} (hopening : opening.token = .leftParen) :
    source.callee ts = .ok (callee, opening :: left) ↔ ∃ head, ts = head ++ opening :: left ∧
      CalleeOf source.parameters (head.map (·.token)) callee := by
  constructor
  · intro h
    unfold Source.callee at h
    split at h
    · next receiver o o' ts =>
      split at h
      · next member o'' ts =>
        obtain ⟨callee', hmember, hpure⟩ := bind_eq_ok.1 h
        cases hpure
        exact ⟨[⟨.name receiver, o⟩, ⟨.dot, o'⟩, ⟨.name member, o''⟩], rfl,
          memberCallee_eq.1 hmember⟩
      · cases h
    · next s o ts hdot =>
      split at h
      · next halert =>
        cases h
        obtain rfl := beq_iff_eq.1 halert
        exact ⟨[⟨.name "alert", o⟩], rfl, .alert⟩
      · next halert =>
        split at h
        · cases h
        · next hposition =>
          cases h
          refine ⟨[⟨.name s, o⟩], rfl, .callback ?_ ?_⟩
          · simpa using halert
          · simpa [position?_eq_none] using hposition
    · cases h
  · rintro ⟨head, rfl, hcallee⟩
    obtain ⟨token, o⟩ := opening
    obtain rfl : token = .leftParen := hopening
    -- a member of a name, or a name alone, which the parenthesis keeps from having a member
    have hmember : ∀ {receiver member},
        head.map (·.token) = [.name receiver, .dot, .name member] →
        source.callee (head ++ ⟨.leftParen, o⟩ :: left) =
          .ok (callee, ⟨.leftParen, o⟩ :: left) := by
      intro receiver member htokens
      obtain ⟨⟨_, _⟩, _, rfl, ⟨⟩, hdot⟩ := List.map_eq_cons_iff.1 htokens
      obtain ⟨⟨_, _⟩, _, rfl, ⟨⟩, hname⟩ := List.map_eq_cons_iff.1 hdot
      obtain ⟨⟨_, _⟩, _, rfl, ⟨⟩, hnil⟩ := List.map_eq_cons_iff.1 hname
      obtain rfl := List.map_eq_nil_iff.1 hnil
      have hread : source.memberCallee _ _ (⟨.leftParen, o⟩ :: left) = .ok callee :=
        memberCallee_eq.2 hcallee
      simp only [List.cons_append, List.nil_append, Source.callee, hread]
      rfl
    have hname : ∀ {s}, head.map (·.token) = [.name s] → ∃ o', head = [⟨.name s, o'⟩] := by
      intro s htokens
      obtain ⟨⟨_, o'⟩, _, rfl, ⟨⟩, hrest⟩ := List.map_eq_cons_iff.1 htokens
      obtain rfl := List.map_eq_nil_iff.1 hrest
      exact ⟨o', rfl⟩
    generalize htokens : head.map (·.token) = tokens at hcallee
    cases hcallee with
    | alert =>
      obtain ⟨o', rfl⟩ := hname htokens
      simp [Source.callee]
    | console hlevel => exact hmember htokens
    | method hconsole hfirst => exact hmember htokens
    | callback halert hparameter =>
      obtain ⟨o', rfl⟩ := hname htokens
      simp [Source.callee, halert, position?_eq_none.2 hparameter]

theorem checkCount_eq {callee : Callee} {given : Nat} :
    source.checkCount callee given ts = .ok () ↔ CountOf callee given := by
  cases callee with
  | method receiver method =>
    by_cases hgiven : given = method.arity <;>
      simp [Source.checkCount, CountOf, hgiven, Source.fail]
  | _ => simp [Source.checkCount, CountOf]

theorem statement_eq {s : Statement} :
    source.statement ts = .ok (s, left) ↔ ∃ used, ts = used ++ left ∧
      StatementOf source.parameters (used.map (·.token)) s := by
  constructor
  · intro h
    obtain ⟨⟨callee, ts₁⟩, hcallee, hcall⟩ := bind_eq_ok.1 h
    dsimp only at hcall
    split at hcall
    · next o ts₂ =>
      obtain ⟨⟨arguments, ts₃⟩, harguments, hclose⟩ := bind_eq_ok.1 hcall
      dsimp only at hclose
      split at hclose
      · next o' ts₄ =>
        obtain ⟨_, hcount, hpure⟩ := bind_eq_ok.1 hclose
        cases hpure
        obtain ⟨head, rfl, hhead⟩ := (callee_eq rfl).1 hcallee
        obtain ⟨inside, rfl, hinside⟩ := (arguments_eq rfl).1 harguments
        refine ⟨head ++ ⟨.leftParen, o⟩ :: (inside ++ [⟨.rightParen, o'⟩]), by simp, ?_⟩
        simp only [List.map_append, List.map_cons, List.map_nil]
        exact .call hhead hinside (checkCount_eq.1 hcount)
      · cases hclose
    · cases hcall
  · rintro ⟨used, rfl, hstatement⟩
    generalize htokens : used.map (·.token) = tokens at hstatement
    cases hstatement with
    | call hhead hinside hcount =>
      obtain ⟨head, rest, rfl, rfl, hrest⟩ := List.map_eq_append_iff.1 htokens
      obtain ⟨⟨_, o⟩, rest, rfl, ⟨⟩, hclose⟩ := List.map_eq_cons_iff.1 hrest
      obtain ⟨inside, last, rfl, rfl, hlast⟩ := List.map_eq_append_iff.1 hclose
      obtain ⟨⟨_, o'⟩, last, rfl, ⟨⟩, hnil⟩ := List.map_eq_cons_iff.1 hlast
      obtain rfl := List.map_eq_nil_iff.1 hnil
      have hcallee :
          source.callee (head ++ ⟨.leftParen, o⟩ :: (inside ++ ⟨.rightParen, o'⟩ :: left)) =
            .ok (_, ⟨.leftParen, o⟩ :: (inside ++ ⟨.rightParen, o'⟩ :: left)) :=
        (callee_eq rfl).2 ⟨head, rfl, hhead⟩
      have harguments : source.arguments (inside ++ ⟨.rightParen, o'⟩ :: left) =
          .ok (_, ⟨.rightParen, o'⟩ :: left) := (arguments_eq rfl).2 ⟨inside, rfl, hinside⟩
      have hchecked : source.checkCount _ _ left = .ok () := checkCount_eq.2 hcount
      have hused : head ++ ⟨.leftParen, o⟩ :: (inside ++ [⟨.rightParen, o'⟩]) ++ left =
          head ++ ⟨.leftParen, o⟩ :: (inside ++ ⟨.rightParen, o'⟩ :: left) := by simp
      rw [hused]
      simp only [Source.statement, hcallee, harguments, hchecked, bind, Except.bind]
      rfl

/-! ## Programs -/

section programs

variable {tokens rest : List Token} {token : Token} {s : Statement} {ss : List Statement}

/-- Whether the token separates statements. -/
def separates (token : Token) : Bool := token = .separator

theorem map_dropWhile_separators (ts : List Placed) :
    (ts.map (·.token)).dropWhile separates =
      (ts.dropWhile Source.isSeparator).map (·.token) := List.dropWhile_map

theorem exists_name (h : StatementOf parameters tokens s) :
    ∃ name rest, tokens = .name name :: rest := by
  obtain ⟨hhead, -, -⟩ := h
  cases hhead <;> exact ⟨_, _, rfl⟩

theorem exists_name_of_statements (h : StatementsOf parameters tokens ss) :
    ∃ name rest, tokens = .name name :: rest := by
  cases h with
  | one hstatement => exact exists_name hstatement
  | cons n hstatement _ =>
    obtain ⟨name, rest, rfl⟩ := exists_name hstatement
    exact ⟨name, _, rfl⟩

theorem dropWhile_separators (n : Nat) (tokens : List Token) :
    (List.replicate n Token.separator ++ tokens).dropWhile separates =
      tokens.dropWhile separates := by
  refine List.dropWhile_append_of_pos fun token htoken => ?_
  rw [List.eq_of_mem_replicate htoken]
  rfl

theorem eq_replicate_of_dropWhile (h : tokens.dropWhile separates = rest) :
    ∃ n, tokens = List.replicate n .separator ++ rest := by
  refine ⟨(tokens.takeWhile separates).length, ?_⟩
  have hall : ∀ token ∈ tokens.takeWhile separates, token = .separator := fun token htoken =>
    of_decide_eq_true (List.all_eq_true.1 List.all_takeWhile token htoken)
  rw [← List.eq_replicate_of_mem hall, ← h, List.takeWhile_append_dropWhile]

/-- Tokens that are all separators are the empty program. -/
theorem programOf_nil (h : tokens.dropWhile separates = []) :
    ProgramOf parameters tokens ss ↔ ss = [] := by
  constructor
  · intro hprogram
    cases hprogram with
    | empty n => rfl
    | statements m n hbody =>
      obtain ⟨name, rest, rfl⟩ := exists_name_of_statements hbody
      rw [List.append_assoc, dropWhile_separators] at h
      simp [separates] at h
  · rintro rfl
    obtain ⟨n, rfl⟩ := eq_replicate_of_dropWhile h
    rw [List.append_nil]
    exact .empty n

/-- A program that does not end with its first separators goes on with a statement, and then with
    nothing or with a separator and another program. -/
theorem programOf_cons (h : tokens.dropWhile separates = token :: rest) :
    ProgramOf parameters tokens ss ↔ ∃ used left s more, token :: rest = used ++ left ∧
      StatementOf parameters used s ∧ left.head?.all separates ∧ ProgramOf parameters left more ∧
      ss = s :: more := by
  constructor
  · intro hprogram
    cases hprogram with
    | empty n =>
      rw [← List.append_nil (List.replicate n _), dropWhile_separators] at h
      cases h
    | statements m n hbody =>
      obtain ⟨name, rest', hname⟩ := exists_name_of_statements hbody
      rw [List.append_assoc, dropWhile_separators, hname, List.cons_append,
        List.dropWhile_cons_of_neg (by simp [separates]), ← List.cons_append, ← hname] at h
      cases hbody with
      | one hstatement =>
        refine ⟨_, _, _, [], h.symm, hstatement, ?_, .empty n, rfl⟩
        cases n <;> simp [List.replicate_succ, separates]
      | @cons used rest s ss k hstatement hrest =>
        refine ⟨used, List.replicate (k + 1) .separator ++ rest ++ List.replicate n .separator,
          s, ss, ?_, hstatement, ?_, .statements (k + 1) n hrest, rfl⟩
        · rw [← h]
          simp
        · simp [List.replicate_succ, separates]
  · rintro ⟨used, left, s, more, hused, hstatement, hseparated, hmore, rfl⟩
    obtain ⟨k, rfl⟩ := eq_replicate_of_dropWhile h
    rw [hused, ← List.append_assoc]
    cases hmore with
    | empty n => exact .statements k n (.one hstatement)
    | statements m n hbody =>
      obtain _ | m := m
      · obtain ⟨name, rest, rfl⟩ := exists_name_of_statements hbody
        simp [separates] at hseparated
      · have hall := ProgramOf.statements k n (.cons m hstatement hbody)
        simpa using hall

/-- The same as the compiler reads it. -/
theorem programOf_statement {t : Placed} {rest : List Placed}
    (h : ts.dropWhile Source.isSeparator = t :: rest) :
    ProgramOf source.parameters (ts.map (·.token)) ss ↔
      ∃ s left more, source.statement (t :: rest) = .ok (s, left) ∧
        left.head?.all Source.isSeparator ∧
        ProgramOf source.parameters (left.map (·.token)) more ∧ ss = s :: more := by
  have htokens : (ts.map (·.token)).dropWhile separates = t.token :: rest.map (·.token) := by
    rw [map_dropWhile_separators, h, List.map_cons]
  rw [programOf_cons htokens]
  constructor
  · rintro ⟨_, _, s, more, hused, hstatement, hseparated, hmore, rfl⟩
    rw [← List.map_cons] at hused
    obtain ⟨used, left, hsplit, rfl, rfl⟩ := List.map_eq_append_iff.1 hused
    refine ⟨s, left, more, statement_eq.2 ⟨used, hsplit, hstatement⟩, ?_, hmore, rfl⟩
    rw [List.head?_map, Option.all_map] at hseparated
    exact hseparated
  · rintro ⟨s, left, more, hread, hseparated, hmore, rfl⟩
    obtain ⟨used, hsplit, hstatement⟩ := statement_eq.1 hread
    refine ⟨used.map (·.token), left.map (·.token), s, more, ?_, hstatement, ?_, hmore, rfl⟩
    · rw [← List.map_cons, hsplit, List.map_append]
    · rw [List.head?_map, Option.all_map]
      exact hseparated

theorem statements_eq :
    source.statements ts = .ok ss ↔ ProgramOf source.parameters (ts.map (·.token)) ss := by
  fun_induction Source.statements source ts generalizing ss with
  | case1 ts hnone =>
    rw [programOf_nil (by rw [map_dropWhile_separators, hnone]; rfl)]
    simp [eq_comm]
  | case2 ts t rest hsome e hread =>
    rw [programOf_statement hsome]
    simp [hread]
  | case3 ts t rest hsome s left hread hlt hseparated ih =>
    rw [programOf_statement hsome, bind_eq_ok]
    constructor
    · rintro ⟨more, hmore, ⟨⟩⟩
      exact ⟨s, left, more, hread, hseparated, ih.1 hmore, rfl⟩
    · rintro ⟨_, _, more, hread', -, hmore, rfl⟩
      cases hread.symm.trans hread'
      exact ⟨more, ih.2 hmore, rfl⟩
  | case4 ts t rest hsome s left hread hlt hseparated =>
    rw [programOf_statement hsome]
    simp [hread, hseparated, Source.fail]

end programs

/-! ## Code -/

theorem ofTokens_eq {length : Nat} {program : Program} :
    Program.ofTokens parameters length ts = .ok program ↔ ∃ statements,
      ProgramOf parameters (ts.map (·.token)) statements ∧ program = ⟨parameters, statements⟩ := by
  have hstatements : ∀ {ss}, Source.statements ⟨parameters, length⟩ ts = .ok ss ↔
      ProgramOf parameters (ts.map (·.token)) ss := statements_eq
  rw [Program.ofTokens, bind_eq_ok]
  constructor
  · rintro ⟨statements, hread, ⟨⟩⟩
    exact ⟨statements, hstatements.1 hread, rfl⟩
  · rintro ⟨statements, hprogram, rfl⟩
    exact ⟨statements, hstatements.2 hprogram, rfl⟩

/-- Code that compiles has passed the check and spells the program. -/
theorem spells_of_compile {code : String} {program : Program}
    (h : compile code parameters = .ok program) :
    Vocabulary.forbiddenIn? code = none ∧ ∃ tokens statements, Spells code.toList tokens ∧
      ProgramOf parameters tokens statements ∧ program = ⟨parameters, statements⟩ := by
  unfold compile at h
  rcases hblank : isAllBlank code with _ | _
  · rcases hcheck : Vocabulary.forbiddenIn? code with _ | word
    · simp only [hblank, hcheck, Bool.false_eq_true, ↓reduceIte] at h
      obtain ⟨placed, hlex, hprogram⟩ := bind_eq_ok.1 h
      obtain ⟨statements, hderived, rfl⟩ := ofTokens_eq.1 hprogram
      exact ⟨rfl, _, statements, lex_spells.1 ⟨placed, hlex, rfl⟩, hderived, rfl⟩
    · simp only [hblank, hcheck, Bool.false_eq_true, ↓reduceIte] at h
      cases h
  · simp only [hblank, ↓reduceIte] at h
    cases h

/-- Compiling succeeds exactly on code that says something, holds no forbidden word and spells
    tokens of the grammar; the program then consists of the statements that they derive, each
    parameter given by its first position. -/
theorem compile_derives (code : String) (parameters : List String) (program : Program) :
    compile code parameters = .ok program ↔
      isAllBlank code = false ∧ Vocabulary.forbiddenIn? code = none ∧
        ∃ tokens statements, Spells code.toList tokens ∧
          ProgramOf parameters tokens statements ∧ program = ⟨parameters, statements⟩ := by
  have hread : (do
        let tokens ← lex code.toList
        Program.ofTokens parameters (byteCount code.toList) tokens) = .ok program ↔
      ∃ tokens statements, Spells code.toList tokens ∧
        ProgramOf parameters tokens statements ∧ program = ⟨parameters, statements⟩ := by
    rw [bind_eq_ok]
    constructor
    · rintro ⟨placed, hlex, hprogram⟩
      obtain ⟨statements, hderived, rfl⟩ := ofTokens_eq.1 hprogram
      exact ⟨_, statements, lex_spells.1 ⟨placed, hlex, rfl⟩, hderived, rfl⟩
    · rintro ⟨tokens, statements, hspells, hderived, rfl⟩
      obtain ⟨placed, hlex, rfl⟩ := lex_spells.2 hspells
      exact ⟨placed, hlex, ofTokens_eq.2 ⟨statements, hderived, rfl⟩⟩
  unfold compile
  rcases hblank : isAllBlank code with _ | _
  · rcases hforbidden : Vocabulary.forbiddenIn? code with _ | word
    · simpa using hread
    · simp [throw, throwThe, MonadExceptOf.throw, bind, Except.bind]
  · simp [throw, throwThe, MonadExceptOf.throw, bind, Except.bind]

example : (compile "alert('a' + n) // once\nn.addClass(-1);" ["n"]).toOption = some
    ⟨["n"], [⟨.alert, [⟨.text "a", [.parameter 0]⟩]⟩,
      ⟨.method 0 .addClass, [⟨.int (-1), []⟩]⟩]⟩ := by
  decide +kernel

end Repeater.Hook
