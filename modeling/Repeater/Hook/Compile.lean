/-
  Repeater/Hook/Compile.lean
  ==========================
  **From hook code to programs.**

  The grammar, with separators between statements and blanks and comments skipped:

      program    := statement ((';' | newline)+ statement)*
      statement  := callee '(' [expression (',' expression)*] ')'
      callee     := name | name '.' name
      expression := term ('+' term)*
      term       := text | integer | parameter

  `Program.ofTokens` reads it token by token. A fault is reported at the token that comes next when
  it is found: the offending token itself where something definite is expected, and the token after
  it where a name or a value turns out to be unknown. `compile` first refuses blank code and code
  with a forbidden word.
-/
import Repeater.Hook.Program
import Repeater.Hook.Token
import Repeater.Text.Blank

namespace Repeater.Hook

open Text

/-- What a program is read in: the parameters it may name, and the length of its code in bytes, at
    which the code ends. -/
structure Source where
  parameters : List String
  length : Nat

namespace Source

variable (source : Source)

/-- The offset of the next token, or of the end of the code. -/
def nextOffset : List Placed → Nat
  | [] => source.length
  | t :: _ => t.offset

/-- Fails at the next token. -/
def fail {α : Type} (fault : HookFault) (ts : List Placed) : Except Error α :=
  .error (.hookSyntax (source.nextOffset ts) fault)

/-- The position of a parameter; of two with one name, the first. -/
def position? (name : String) : Option Nat := source.parameters.findIdx? (· == name)

/-! ## Values -/

/-- Reads a term from its token, where `ts` are the tokens after it. -/
def term (token : Token) (ts : List Placed) : Except Error Term :=
  match token with
  | .text s => .ok (.text s)
  | .int n => .ok (.int n)
  | .name s =>
    match source.position? s with
    | some i => .ok (.parameter i)
    | none => source.fail (.unknownName s) ts
  | _ => source.fail .termExpected ts

/-- Reads the arguments that follow the terms of one read so far, of which `others` is in order. -/
def moreArguments (first : Term) (others : List Term) :
    List Placed → Except Error (List Expression × List Placed)
  | ⟨.plus, _⟩ :: t :: ts => do
    let x ← source.term t.token ts
    moreArguments first (others ++ [x]) ts
  | ⟨.comma, _⟩ :: t :: ts => do
    let x ← source.term t.token ts
    let (arguments, left) ← moreArguments x [] ts
    return (⟨first, others⟩ :: arguments, left)
  | [⟨.plus, _⟩] => source.fail .termExpected []
  | [⟨.comma, _⟩] => source.fail .termExpected []
  | ts => .ok ([⟨first, others⟩], ts)

/-- Reads the arguments of a call, up to the closing parenthesis. -/
def arguments : List Placed → Except Error (List Expression × List Placed)
  | [] => source.fail .termExpected []
  | ⟨.rightParen, o⟩ :: ts => .ok ([], ⟨.rightParen, o⟩ :: ts)
  | t :: ts => do
    let x ← source.term t.token ts
    source.moreArguments x [] ts

/-! ## Calls -/

/-- What a member of a name stands for, where `ts` are the tokens after it. -/
def memberCallee (receiver member : String) (ts : List Placed) : Except Error Callee :=
  if receiver == "console" then
    match consoleLevel? member with
    | some level => .ok (.console level)
    | none => source.fail (.unknownConsole member) ts
  else
    match source.position? receiver with
    | none => source.fail (.unknownName receiver) ts
    | some i =>
      match ElementMethod.ofMember? member with
      | some method => .ok (.method i method)
      | none => source.fail (.unknownMethod receiver member) ts

/-- Reads what a statement calls. -/
def callee : List Placed → Except Error (Callee × List Placed)
  | ⟨.name receiver, _⟩ :: ⟨.dot, _⟩ :: ts =>
    match ts with
    | ⟨.name member, _⟩ :: ts => do
      let callee ← source.memberCallee receiver member ts
      return (callee, ts)
    | _ => source.fail .memberExpected (ts.drop 1)
  | ⟨.name s, _⟩ :: ts =>
    if s == "alert" then .ok (.alert, ts)
    else if (source.position? s).isSome then source.fail (.notCallable s) ts
    else .ok (.callback s, ts)
  | ts => source.fail .callExpected (ts.drop 1)

/-- Refuses a call of an element method with the wrong number of arguments. -/
def checkCount (callee : Callee) (given : Nat) (ts : List Placed) : Except Error Unit :=
  match callee with
  | .method _ method =>
    if given = method.arity then .ok ()
    else source.fail (.argumentCount method.title method.arity given) ts
  | _ => .ok ()

/-- Reads a statement. -/
def statement (ts : List Placed) : Except Error (Statement × List Placed) := do
  let (callee, ts) ← source.callee ts
  match ts with
  | ⟨.leftParen, _⟩ :: ts => do
    let (arguments, ts) ← source.arguments ts
    match ts with
    | ⟨.rightParen, _⟩ :: ts => do
      source.checkCount callee arguments.length ts
      return (⟨callee, arguments⟩, ts)
    | _ => source.fail (.expected "`)`") ts
  | _ => source.fail (.expected "`(`") ts

/-! ## Programs -/

theorem length_callee {ts left : List Placed} {c : Callee}
    (h : source.callee ts = .ok (c, left)) : left.length < ts.length := by
  unfold callee at h
  split at h
  · split at h
    · rename_i receiver _ _ _ member _ ts'
      cases hm : source.memberCallee receiver member ts' with
      | error => simp [hm, bind, Except.bind] at h
      | ok =>
        simp only [hm, bind, Except.bind, pure, Except.pure, Except.ok.injEq, Prod.mk.injEq] at h
        rw [← h.2]; simp only [List.length_cons]; omega
    · simp [fail] at h
  · split at h
    · simp only [Except.ok.injEq, Prod.mk.injEq] at h
      rw [← h.2]; simp
    · split at h
      · simp [fail] at h
      · simp only [Except.ok.injEq, Prod.mk.injEq] at h
        rw [← h.2]; simp
  · simp [fail] at h

theorem length_moreArguments {first : Term} {others : List Term} {ts left : List Placed}
    {es : List Expression} (h : source.moreArguments first others ts = .ok (es, left)) :
    left.length ≤ ts.length := by
  fun_induction moreArguments source first others ts generalizing es left with
  | case1 first others o t ts ih =>
    cases hx : source.term t.token ts with
    | error => simp [hx, bind, Except.bind] at h
    | ok x =>
      simp only [hx, bind, Except.bind] at h
      have := ih x h
      simp only [List.length_cons]; omega
  | case2 first others o t ts ih =>
    cases hx : source.term t.token ts with
    | error => simp [hx, bind, Except.bind] at h
    | ok x =>
      simp only [hx, bind, Except.bind] at h
      cases hm : source.moreArguments x [] ts with
      | error => simp [hm] at h
      | ok r =>
        simp only [hm, pure, Except.pure, Except.ok.injEq, Prod.mk.injEq] at h
        have := ih x hm
        rw [← h.2]; simp only [List.length_cons]; omega
  | case3 => simp [fail] at h
  | case4 => simp [fail] at h
  | case5 =>
    simp only [Except.ok.injEq, Prod.mk.injEq] at h
    exact Nat.le_of_eq (congrArg List.length h.2.symm)

theorem length_arguments {ts left : List Placed} {es : List Expression}
    (h : source.arguments ts = .ok (es, left)) : left.length ≤ ts.length := by
  unfold arguments at h
  split at h
  · simp [fail] at h
  · simp only [Except.ok.injEq, Prod.mk.injEq] at h
    exact Nat.le_of_eq (congrArg List.length h.2.symm)
  · rename_i t ts' _
    cases hx : source.term t.token ts' with
    | error => simp [hx, bind, Except.bind] at h
    | ok x =>
      simp only [hx, bind, Except.bind] at h
      have := length_moreArguments source h
      simp only [List.length_cons]; omega

/-- A statement takes at least one token. -/
theorem length_statement {ts left : List Placed} {s : Statement}
    (h : source.statement ts = .ok (s, left)) : left.length < ts.length := by
  unfold statement at h
  cases hc : source.callee ts with
  | error => simp [hc, bind, Except.bind] at h
  | ok r =>
    obtain ⟨callee, ts1⟩ := r
    have first := length_callee source hc
    simp only [hc, bind, Except.bind] at h
    split at h
    · rename_i o ts2
      cases ha : source.arguments ts2 with
      | error => simp [ha] at h
      | ok r =>
        obtain ⟨es, ts3⟩ := r
        have second := length_arguments source ha
        simp only [ha] at h
        split at h
        · rename_i o' ts4
          cases hk : source.checkCount callee es.length ts4 with
          | error => simp [hk] at h
          | ok =>
            simp only [hk, pure, Except.pure, Except.ok.injEq, Prod.mk.injEq] at h
            rw [← h.2]
            simp only [List.length_cons] at first second
            omega
        · simp [fail] at h
    · simp [fail] at h

/-- Whether the token separates statements. -/
def isSeparator (t : Placed) : Bool := t.token = .separator

/-- Reads all statements. -/
def statements (ts : List Placed) : Except Error (List Statement) :=
  match hd : ts.dropWhile isSeparator with
  | [] => .ok []
  | t :: ts' =>
    match hs : source.statement (t :: ts') with
    | .error e => .error e
    | .ok (s, left) =>
      have : left.length < ts.length := by
        have shorter := length_statement source hs
        have := length_dropWhile_le isSeparator ts
        rw [hd] at this
        omega
      if left.head?.all isSeparator then do
        let more ← statements left
        return s :: more
      else source.fail (.expected "`;` or a new line") left
termination_by ts.length

end Source

/-- The program that the tokens of a code of `length` bytes spell. -/
def Program.ofTokens (parameters : List String) (length : Nat) (ts : List Placed) :
    Except Error Program := do
  let statements ← Source.statements ⟨parameters, length⟩ ts
  return { parameters, statements }

/-- Compiles hook code whose parameters have the given names. -/
def compile (code : String) (parameters : List String) : Except Error Program := do
  if isAllBlank code then throw .missingCode
  if let some word := Vocabulary.forbiddenIn? code then throw (.forbiddenPattern word)
  let tokens ← lex code.toList
  Program.ofTokens parameters (byteCount code.toList) tokens

end Repeater.Hook
