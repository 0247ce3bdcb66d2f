/-
  Repeater/Proofs/Hook/ByIndex.lean
  =================================
  **The parser by index is the parser.**

  The parser that goes by index is always at the token with which what is left of the list starts,
  or at the mark of the end (`place`). Each of its steps follows the one that takes tokens off the
  list. It therefore ends, never looks outside the list, and gives the same program or reports the
  same fault, at the offset of a mark (`program_finishes`). As every statement takes a token, it
  begins no more statements than there are tokens.
-/
import Repeater.Proofs.Hook.Grammar
import Repeater.Proofs.Hook.Readings

namespace Repeater.Hook.ByIndex

variable {source : Source} {placed ts left : List Placed} {n : Nat} {t : Placed} {token : Token}

/-- The place at which the tokens are left, after so many statements were begun. -/
def place (placed : List Placed) (begun : Nat) (left : List Placed) : Place :=
  ⟨placed.length - left.length, begun⟩

/-- The error is a fault, reported at the next of the tokens that are left, or at the end. -/
def ReportedAt (source : Source) (left : List Placed) (e : Error) : Prop :=
  ∃ fault, e = .hookSyntax (source.nextOffset left) fault

/-- The parser by index follows a reading of tokens. It reports where it is. -/
abbrev Parses (source : Source) (placed : List Placed) (n : Nat) {α : Type}
    (program : Reading Place α) (ts : List Placed) (result : Except Error (α × List Placed)) :
    Prop :=
  Follows (place placed n) (ReportedAt source) program ts result

/-- The marks of the tokens and of the end of the code. -/
abbrev marks (source : Source) (placed : List Placed) : List Mark := marksOf placed source.length

/-! ## Looking and taking -/

theorem place_append (front ts : List Placed) : place (front ++ ts) n ts = ⟨front.length, n⟩ := by
  rw [place, List.length_append, Nat.add_sub_cancel]

theorem last_index : (marks source placed).length - 1 = placed.length := by
  simp [marks, marksOf]

theorem mark_ends (h : ts <:+ placed) :
    Ends (mark (marks source placed)) (place placed n ts)
      (.ok ⟨ts.head?.map (·.token), source.nextOffset ts⟩) (place placed n ts) := by
  obtain ⟨front, rfl⟩ := h
  refine (Ends.get _).bind ?_
  have hindex : min front.length (front ++ ts).length = front.length :=
    Nat.min_eq_left (by simp)
  rw [place_append, last_index, hindex]
  cases ts <;> simp [marks, marksOf, Source.nextOffset] <;> exact .pure _ _

-- a list without the mark of an end has no place
example : Ends (mark []) {} (.error .misread) {} := rfl

theorem peek_ends (h : ts <:+ placed) :
    Ends (peek (marks source placed)) (place placed n ts) (.ok (ts.head?.map (·.token)))
      (place placed n ts) := (mark_ends h).bind (.pure _ _)

theorem next_ends (h : ts <:+ placed) :
    Ends (next (marks source placed)) (place placed n ts) (.ok (ts.head?.map (·.token)))
      (place placed n ts.tail) := by
  refine (peek_ends h).bind ((Ends.modify _ _).bind ?_)
  have hlength := h.length_le
  have hplace : (if (place placed n ts).index < placed.length then
      { place placed n ts with index := (place placed n ts).index + 1 } else place placed n ts) =
      place placed n ts.tail := by
    cases ts with
    | nil => exact if_neg (Nat.lt_irrefl _)
    | cons t ts =>
      rw [List.length_cons] at hlength
      have hindex : (place placed n (t :: ts)).index + 1 = placed.length - ts.length := by
        show placed.length - (ts.length + 1) + 1 = _
        omega
      rw [if_pos (by omega)]
      exact congrArg (Place.mk · n) hindex
  rw [last_index, hplace]
  exact .pure _ _

theorem fail_parses {α : Type} (h : ts <:+ placed) (fault : HookFault) :
    Parses source placed n (fail (marks source placed) fault : Reading Place α) ts
      (source.fail fault ts) :=
  .refused List.suffix_rfl ⟨fault, rfl⟩ ((mark_ends h).bind (.throw _ _))

/-- What has to come next comes next. -/
theorem expect_ends (h : t :: ts <:+ placed) (what : String) :
    Ends (expect (marks source placed) t.token what) (place placed n (t :: ts)) (.ok ⟨⟩)
      (place placed n ts) := by
  refine (peek_ends h).bind ?_
  rw [if_pos (by simp)]
  exact (next_ends h).discard

theorem expect_parses (h : ts <:+ placed) (hother : ts.head?.map (·.token) ≠ some token)
    (what : String) :
    Parses source placed n (expect (marks source placed) token what) ts
      (source.fail (.expected what) ts) := by
  refine .step (peek_ends h) List.suffix_rfl ?_
  rw [if_neg (by simpa using hother)]
  exact fail_parses h _

theorem skipSeparators_ends (h : ts <:+ placed) :
    Ends (skipSeparators (marks source placed)) (place placed n ts) (.ok ⟨⟩)
      (place placed n (ts.dropWhile Source.isSeparator)) := by
  induction ts with
  | nil =>
    rw [skipSeparators]
    exact (peek_ends h).bind (.pure _ _)
  | cons t ts ih =>
    have hhead : ((t :: ts).head?.map (·.token) == some .separator) = Source.isSeparator t := by
      rw [Bool.eq_iff_iff]
      simp [Source.isSeparator]
    rw [skipSeparators, List.dropWhile_cons]
    refine (peek_ends h).bind ?_
    rw [hhead]
    split
    · exact (next_ends h).discard.bind (ih ((List.suffix_cons t ts).trans h))
    · exact .pure _ _

/-! ## Values -/

theorem position?_eq (name : String) : position? source.parameters name = source.position? name :=
  rfl

theorem term_nil : Parses source placed n (term source.parameters (marks source placed)) []
    (source.fail .termExpected []) :=
  .step (next_ends List.nil_suffix) List.suffix_rfl (fail_parses List.nil_suffix _)

theorem term_parses (h : t :: ts <:+ placed) :
    Parses source placed n (term source.parameters (marks source placed)) (t :: ts)
      ((source.term t.token ts).map (·, ts)) := by
  have hrest := (List.suffix_cons t ts).trans h
  refine .step (next_ends h) (List.suffix_cons t ts) ?_
  obtain ⟨token, o⟩ := t
  cases token with
  | text s => exact .pure _
  | int m => exact .pure _
  | name s =>
    simp only [List.head?_cons, Option.map_some, Source.term, position?_eq]
    cases source.position? s with
    | some i => exact .pure _
    | none => exact fail_parses hrest _
  | leftParen => exact fail_parses hrest _
  | rightParen => exact fail_parses hrest _
  | comma => exact fail_parses hrest _
  | dot => exact fail_parses hrest _
  | plus => exact fail_parses hrest _
  | separator => exact fail_parses hrest _

/-! ## Arguments -/

variable {first : Term} {xs : List Term} {es : List Expression}

theorem others_stop (h : ts <:+ placed) (hhead : ts.head?.map (·.token) ≠ some .plus) :
    Ends (others source.parameters (marks source placed) xs) (place placed n ts) (.ok xs)
      (place placed n ts) := by
  rw [others]
  refine (peek_ends h).bind ?_
  rw [if_neg (by simpa using hhead)]
  exact .pure _ _

theorem more_stop (h : ts <:+ placed) (hhead : ts.head?.map (·.token) ≠ some .comma) :
    Ends (more source.parameters (marks source placed) es) (place placed n ts) (.ok es)
      (place placed n ts) := by
  rw [more]
  refine (peek_ends h).bind ?_
  rw [if_neg (by simpa using hhead)]
  exact .pure _ _

/-- A plus sign and what follows from the term behind it. -/
theorem others_plus {α : Type} {next : List Term → Reading Place α} {o : Nat}
    {result : Except Error (α × List Placed)} (h : ⟨.plus, o⟩ :: ts <:+ placed)
    (hnext : Parses source placed n (do
        let x ← term source.parameters (marks source placed)
        let others ← others source.parameters (marks source placed) (xs ++ [x])
        next others) ts result) :
    Parses source placed n (do
        let others ← others source.parameters (marks source placed) xs
        next others) (⟨.plus, o⟩ :: ts) result := by
  rw [others, bind_assoc]
  refine .step (peek_ends h) List.suffix_rfl ?_
  rw [if_pos (by simp), bind_assoc]
  refine .step (next_ends h).discard (List.suffix_cons _ _) ?_
  rw [bind_assoc]
  exact hnext

/-- A comma and what follows from the sum behind it. -/
theorem more_comma {o : Nat} {result : Except Error (List Expression × List Placed)}
    (h : ⟨.comma, o⟩ :: ts <:+ placed)
    (hnext : Parses source placed n (do
        let x ← term source.parameters (marks source placed)
        let others ← others source.parameters (marks source placed) []
        more source.parameters (marks source placed) (es ++ [⟨x, others⟩])) ts result) :
    Parses source placed n (more source.parameters (marks source placed) es) (⟨.comma, o⟩ :: ts)
      result := by
  rw [more]
  refine .step (peek_ends h) List.suffix_rfl ?_
  rw [if_pos (by simp)]
  refine .step (next_ends h).discard (List.suffix_cons _ _) ?_
  simp only [expression, bind_assoc, pure_bind]
  exact hnext

/-- What a reading gives behind what has been read. -/
def behind {β : Type} (read : List β) (result : Except Error (List β × List Placed)) :
    Except Error (List β × List Placed) := result.map fun (more, left) => (read ++ more, left)

theorem behind_nil {β : Type} (result : Except Error (List β × List Placed)) :
    behind [] result = result := by
  cases result <;> rfl

theorem behind_cons {β : Type} (read : List β) (b : β)
    (result : Except Error (List β × List Placed)) :
    behind read (result >>= fun (more, left) => pure (b :: more, left)) =
      behind (read ++ [b]) result := by
  cases result with
  | error e => rfl
  | ok r => exact congrArg (Except.ok (ε := Error) <| Prod.mk · r.2) (by simp)

theorem behind_bind {α β : Type} (read : List β) (result : Except Error α)
    (next : α → Except Error (List β × List Placed)) :
    behind read (result >>= next) = result >>= fun a => behind read (next a) := by
  cases result <;> rfl

/-- The parser goes through the terms of a sum and through the arguments in two loops, of which the
    second contains the first. Between two tokens it is always in both of them. -/
theorem others_more_parses (h : ts <:+ placed) (es : List Expression) :
    Parses source placed n (do
        let others ← others source.parameters (marks source placed) xs
        more source.parameters (marks source placed) (es ++ [⟨first, others⟩])) ts
      (behind es (source.moreArguments first xs ts)) := by
  fun_induction Source.moreArguments source first xs ts generalizing es with
  | case1 first xs o t ts ih =>
    have htail := (List.suffix_cons _ _).trans h
    rw [behind_bind]
    refine others_plus h ((term_parses htail).bind_value fun x => ?_)
    exact ih x ((List.suffix_cons _ _).trans htail) es
  | case2 first xs o t ts ih =>
    have htail := (List.suffix_cons _ _).trans h
    rw [behind_bind]
    refine .step (others_stop h (by simp)) List.suffix_rfl (more_comma h ?_)
    refine (term_parses htail).bind_value fun x => ?_
    rw [behind_cons]
    exact ih x ((List.suffix_cons _ _).trans htail) (es ++ [⟨first, xs⟩])
  | case3 first xs o => exact others_plus h term_nil.bind_error
  | case4 first xs o =>
    exact .step (others_stop h (by simp)) List.suffix_rfl (more_comma h term_nil.bind_error)
  | case5 first xs ts hplus hcomma hlonePlus hloneComma =>
    have hstops := stops_of_not hplus hcomma hlonePlus hloneComma
    refine .step (others_stop h ?_) List.suffix_rfl (.value List.suffix_rfl (more_stop h ?_))
    · intro hhead
      obtain ⟨t, ht, htoken⟩ := Option.map_eq_some_iff.1 hhead
      exact (hstops t ht).1 htoken
    · intro hhead
      obtain ⟨t, ht, htoken⟩ := Option.map_eq_some_iff.1 hhead
      exact (hstops t ht).2 htoken

/-- The arguments of a call. -/
theorem arguments_parses (h : ts <:+ placed) :
    Parses source placed n (arguments source.parameters (marks source placed)) ts
      (source.arguments ts) := by
  refine .step (peek_ends h) List.suffix_rfl ?_
  simp only [expression, bind_assoc, pure_bind]
  cases ts with
  | nil => exact term_nil.bind_error
  | cons t ts =>
    by_cases hclose : t.token = .rightParen
    · obtain ⟨_, o⟩ := t
      obtain rfl := hclose
      exact .pure _
    · rw [arguments_cons hclose, if_pos (by simpa using hclose)]
      refine (term_parses h).bind_value fun x => ?_
      rw [← behind_nil (source.moreArguments x [] ts)]
      exact others_more_parses ((List.suffix_cons t ts).trans h) []

/-! ## Calls -/

theorem head_ne (hnone : ∀ o rest, ts = ⟨token, o⟩ :: rest → False) :
    ts.head?.map (·.token) ≠ some token := by
  intro htoken
  obtain ⟨⟨_, o⟩, hhead, rfl⟩ := Option.map_eq_some_iff.1 htoken
  obtain ⟨rest, hts⟩ := List.head?_eq_some_iff.1 hhead
  exact hnone o rest hts

theorem memberCallee_parses (h : ts <:+ placed) (receiver member : String) :
    Parses source placed n (memberCallee source.parameters (marks source placed) receiver member)
      ts (do
        let callee ← source.memberCallee receiver member ts
        return (callee, ts)) := by
  unfold memberCallee Source.memberCallee
  rw [position?_eq]
  split
  · cases consoleLevel? member with
    | some level => exact .pure _
    | none => exact fail_parses h _
  · cases source.position? receiver with
    | none => exact fail_parses h _
    | some i =>
      cases ElementMethod.ofMember? member with
      | some method => exact .pure _
      | none => exact fail_parses h _

theorem checkCount_parses (h : ts <:+ placed) (callee : Callee) (given : Nat) :
    Parses source placed n (checkCount (marks source placed) callee given) ts
      ((source.checkCount callee given ts).map (·, ts)) := by
  unfold checkCount Source.checkCount
  cases callee with
  | method i method =>
    by_cases hcount : given = method.arity
    · simp only [hcount, ne_eq, not_true_eq_false, ↓reduceIte]
      exact .pure _
    · simp only [hcount, ne_eq, not_false_eq_true, ↓reduceIte]
      exact fail_parses h _
  | alert => exact .pure _
  | console level => exact .pure _
  | callback name => exact .pure _

theorem callee_parses (h : ts <:+ placed) :
    Parses source placed n (callee source.parameters (marks source placed)) ts
      (source.callee ts) := by
  refine .step (next_ends h) (List.tail_suffix ts) ?_
  fun_cases Source.callee source ts with
  | case1 receiver o o' member o'' ts =>
    have hdot := (List.suffix_cons _ _).trans h
    have hmember := (List.suffix_cons _ _).trans hdot
    refine .step (peek_ends hdot) List.suffix_rfl ?_
    rw [if_neg (by simp)]
    refine .step (next_ends hdot).discard (List.suffix_cons _ _) ?_
    refine .step (next_ends hmember) (List.suffix_cons _ _) ?_
    exact memberCallee_parses ((List.suffix_cons _ _).trans hmember) receiver member
  | case2 receiver o o' ts hother =>
    have hdot := (List.suffix_cons _ _).trans h
    have hrest := (List.suffix_cons _ _).trans hdot
    refine .step (peek_ends hdot) List.suffix_rfl ?_
    rw [if_neg (by simp)]
    refine .step (next_ends hdot).discard (List.suffix_cons _ _) ?_
    refine .step (next_ends hrest) (List.tail_suffix _) ?_
    rw [List.drop_one]
    split
    · next member hhead => exact absurd hhead (head_ne (hother member))
    · exact fail_parses ((List.tail_suffix _).trans hrest) _
  | case3 s o ts hother halert =>
    have hrest := (List.suffix_cons _ _).trans h
    refine .step (peek_ends hrest) List.suffix_rfl ?_
    rw [if_pos (by simpa using head_ne hother), if_pos halert]
    exact .pure _
  | case4 s o ts hother halert hposition =>
    have hrest := (List.suffix_cons _ _).trans h
    refine .step (peek_ends hrest) List.suffix_rfl ?_
    rw [if_pos (by simpa using head_ne hother), if_neg halert, position?_eq, if_pos hposition]
    exact fail_parses hrest _
  | case5 s o ts hother halert hposition =>
    have hrest := (List.suffix_cons _ _).trans h
    refine .step (peek_ends hrest) List.suffix_rfl ?_
    rw [if_pos (by simpa using head_ne hother), if_neg halert, position?_eq, if_neg hposition]
    exact .pure _
  | case6 ts hmember hcall =>
    rw [List.drop_one]
    split
    · next s hhead => exact absurd hhead (head_ne (hcall s))
    · exact fail_parses ((List.tail_suffix _).trans h) _

/-! ## Statements -/

/-- The end of a statement, behind its arguments. -/
theorem close_parses {o : Nat} (h : ⟨.rightParen, o⟩ :: ts <:+ placed) (callee : Callee)
    (arguments : List Expression) :
    Parses source placed n (do
        expect (marks source placed) .rightParen "`)`"
        checkCount (marks source placed) callee arguments.length
        return ({ callee, arguments } : Statement)) (⟨.rightParen, o⟩ :: ts)
      (do
        source.checkCount callee arguments.length ts
        return (⟨callee, arguments⟩, ts)) := by
  have hrest := (List.suffix_cons _ _).trans h
  refine .step (expect_ends h _) (List.suffix_cons _ _) ?_
  exact (checkCount_parses hrest callee arguments.length).bind_value fun _ => .pure _

/-- A statement behind its callee. -/
theorem call_parses {o : Nat} (h : ⟨.leftParen, o⟩ :: ts <:+ placed) (callee : Callee) :
    Parses source placed n (do
        expect (marks source placed) .leftParen "`(`"
        let arguments ← arguments source.parameters (marks source placed)
        expect (marks source placed) .rightParen "`)`"
        checkCount (marks source placed) callee arguments.length
        return ({ callee, arguments } : Statement)) (⟨.leftParen, o⟩ :: ts)
      (do
        let (arguments, ts) ← source.arguments ts
        match ts with
        | ⟨.rightParen, _⟩ :: ts => do
          source.checkCount callee arguments.length ts
          return (⟨callee, arguments⟩, ts)
        | _ => source.fail (.expected "`)`") ts) := by
  have hinside := (List.suffix_cons _ _).trans h
  refine .step (expect_ends h _) (List.suffix_cons _ _) ?_
  refine (arguments_parses hinside).bind_read fun arguments left hleft => ?_
  have hclose := hleft.trans hinside
  dsimp only
  split
  · exact close_parses hclose callee arguments
  · next hother => exact (expect_parses hclose (head_ne hother) _).bind_error

theorem statement_parses (h : ts <:+ placed) :
    Parses source placed n (statement source.parameters (marks source placed)) ts
      (source.statement ts) := by
  unfold statement Source.statement
  refine (callee_parses h).bind_read fun callee left hleft => ?_
  have hopen := hleft.trans h
  dsimp only
  split
  · exact call_parses hopen callee
  · next hother => exact (expect_parses hopen (head_ne hother) _).bind_error

theorem separate_parses (h : ts <:+ placed) :
    Parses source placed n (separate (marks source placed)) ts
      (if ts.head?.all Source.isSeparator then .ok ((), ts.dropWhile Source.isSeparator)
        else source.fail (.expected "`;` or a new line") ts) := by
  refine .step (peek_ends h) List.suffix_rfl ?_
  cases ts with
  | nil => exact .pure _
  | cons t ts =>
    obtain ⟨token, o⟩ := t
    cases token
    case separator => exact .value (List.dropWhile_suffix _) (skipSeparators_ends h)
    all_goals exact fail_parses h _

/-! ## Programs -/

/-- The reading ends with the result, and then has begun at most so many statements in all. An error
    is reported at what is left of the tokens, or at their end. -/
def Finishes (source : Source) (placed : List Placed) {α : Type} (program : Reading Place α)
    (start : Place) (bound : Nat) (result : Except Error α) : Prop :=
  ∃ last, Ends program start (result.mapError .refused) last ∧ last.begun ≤ bound ∧
    ∀ e, result = .error e → ∃ left, left <:+ placed ∧ ReportedAt source left e

namespace Finishes

variable {α β : Type} {program : Reading Place α} {next : α → Reading Place β} {a : α}
  {start after : Place} {bound : Nat}

theorem step {result : Except Error β} (h : Ends program start (.ok a) after)
    (hnext : Finishes source placed (next a) after bound result) :
    Finishes source placed (program >>= next) start bound result := by
  obtain ⟨last, hends, hbegun, hreported⟩ := hnext
  exact ⟨last, h.bind hends, hbegun, hreported⟩

/-- A step by the parser that begins no statement. -/
theorem bind {result : Except Error β}
    (h : Parses source placed n program ts (.ok (a, left)))
    (hnext : Finishes source placed (next a) (place placed n left) bound result) :
    Finishes source placed (program >>= next) (place placed n ts) bound result := by
  cases h with
  | value hleft hends => exact step hends hnext

theorem mono {result : Except Error α} {bound' : Nat} (hbound : bound ≤ bound')
    (h : Finishes source placed program start bound result) :
    Finishes source placed program start bound' result := by
  obtain ⟨last, hends, hbegun, hreported⟩ := h
  exact ⟨last, hends, Nat.le_trans hbegun hbound, hreported⟩

theorem bind_error {e : Error} (hts : ts <:+ placed) (hbound : n ≤ bound)
    (h : Parses source placed n program ts (.error e)) :
    Finishes source placed (program >>= next) (place placed n ts) bound (.error e) := by
  cases h with
  | refused hleft hreported hends =>
    refine ⟨_, hends.bind_error, hbound, ?_⟩
    rintro _ ⟨⟩
    exact ⟨_, hleft.trans hts, hreported⟩

end Finishes

/-- One round of the parser begins one statement, if there is more code. -/
theorem round_finishes {read : List Statement} {bound : Nat}
    {result : Except Error (List Statement)} (h : t :: ts <:+ placed)
    (hround : Finishes source placed (do
        let s ← statement source.parameters (marks source placed)
        separate (marks source placed)
        statements source.parameters (marks source placed) (read ++ [s]))
      (place placed (n + 1) (t :: ts)) bound result) :
    Finishes source placed (statements source.parameters (marks source placed) read)
      (place placed n (t :: ts)) bound result := by
  rw [statements]
  refine .step (peek_ends h) ?_
  rw [if_pos (by simp)]
  exact .step (.modify _ _) hround

/-- The parser goes from statement to statement as the one that takes tokens off the list does. Each
    round takes a token at least, so there are no more rounds than tokens. -/
theorem statements_finishes (h : ts <:+ placed) (n : Nat) (read : List Statement) :
    Finishes source placed (statements source.parameters (marks source placed) read)
      (place placed n (ts.dropWhile Source.isSeparator)) (n + ts.length)
      ((source.statements ts).map (read ++ ·)) := by
  have hdrop := (List.dropWhile_suffix Source.isSeparator).trans h
  -- the separators in front of a statement have been taken when its round starts
  fun_induction Source.statements source ts generalizing n read with
  | case1 ts hnone =>
    rw [hnone, statements, Except.map, List.append_nil]
    refine .step (peek_ends List.nil_suffix) ⟨_, .pure _ _, Nat.le_add_right _ _, ?_⟩
    rintro _ ⟨⟩
  | case2 ts t rest hsome e hread =>
    rw [hsome] at hdrop ⊢
    have hstatement : Parses source placed (n + 1) _ _ _ := statement_parses hdrop
    have hlength := (List.dropWhile_suffix Source.isSeparator (l := ts)).length_le
    rw [hsome, List.length_cons] at hlength
    rw [hread] at hstatement
    exact round_finishes hdrop (.bind_error hdrop (by omega) hstatement)
  | case3 ts t rest hsome s left hread hlt hseparated ih =>
    rw [hsome] at hdrop ⊢
    have hstatement : Parses source placed (n + 1) _ _ _ := statement_parses hdrop
    rw [hread] at hstatement
    have hleft := hstatement.suffix.trans hdrop
    have hseparate : Parses source placed (n + 1) _ left _ := separate_parses hleft
    rw [if_pos hseparated] at hseparate
    refine round_finishes hdrop (.bind hstatement (.bind hseparate ?_))
    have hmore := ih hleft (n + 1) (read ++ [s])
      ((List.dropWhile_suffix Source.isSeparator).trans hleft)
    have hbehind : ((do
        let more ← source.statements left
        return s :: more) : Except Error (List Statement)).map (read ++ ·) =
        (source.statements left).map (read ++ [s] ++ ·) := by
      cases source.statements left with
      | error e => rfl
      | ok more => exact congrArg Except.ok (by simp)
    rw [hbehind]
    exact hmore.mono (by omega)
  | case4 ts t rest hsome s left hread hlt hseparated =>
    rw [hsome] at hdrop ⊢
    have hstatement : Parses source placed (n + 1) _ _ _ := statement_parses hdrop
    rw [hread] at hstatement
    have hleft := hstatement.suffix.trans hdrop
    have hseparate : Parses source placed (n + 1) _ left _ := separate_parses hleft
    rw [if_neg hseparated] at hseparate
    exact round_finishes hdrop (.bind hstatement (.bind_error hleft (by omega) hseparate))

/-- The parser by index ends on the marks of any list of tokens, with the program or the error of
    the parser that takes them off the list, after at most as many statements as there are
    tokens. -/
theorem program_finishes (source : Source) (placed : List Placed) :
    Finishes source placed (program source.parameters (marks source placed)) {} placed.length
      (source.statements placed) := by
  have hstart : place placed 0 placed = {} := by rw [place, Nat.sub_self]
  have hread : Finishes source placed _ _ _ _ :=
    statements_finishes (List.suffix_refl placed) 0 []
  rw [Nat.zero_add] at hread
  rw [← hstart, program]
  refine .step (skipSeparators_ends List.suffix_rfl) ?_
  cases hstatements : source.statements placed <;> rw [hstatements] at hread <;> exact hread

end Repeater.Hook.ByIndex
