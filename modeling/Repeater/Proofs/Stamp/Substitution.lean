/-
  Repeater/Proofs/Stamp/Substitution.lean
  =======================================
  **Which tokens are replaced.**

  A token for a scope is a literal text, and no two such texts overlap: the places where they stand
  in a value say how the value falls into characters that stay and tokens (`Parted`), and all chosen
  tokens can be replaced at one stroke (`Replaced`).

  The pass from left to right pairs braces as it meets them and goes on right after a pair that
  opens no token. It therefore meets exactly the tokens with an even number of braces directly in
  front of them, and replaces these and nothing else. A token behind an odd number of braces stays,
  so that the value comes out as it should only where there is none (`substitute_met`).
-/
import Mathlib.Algebra.Group.Nat.Even
import Mathlib.Data.List.Nodup
import Mathlib.Data.List.Perm.Subperm
import Repeater.Stamp.Token

namespace Repeater.Stamp

open Text

variable {scope : String} {counter : Nat} {kind : TokenKind} {Chosen : Nat → Prop}
  {text inner before after cs value out : List Char} {i : Nat}

/-! ## The texts of tokens -/

/-- What stands between the braces of a token for the scope. -/
def Inner (scope : String) (kind : TokenKind) (inner : List Char) : Prop :=
  inner = kind.word.toList ∨ inner = scope.toList ++ ':' :: kind.word.toList

/-- The text of a token for the scope. -/
def TokenText (scope : String) (kind : TokenKind) (text : List Char) : Prop :=
  ∃ inner, Inner scope kind inner ∧ text = '{' :: '{' :: (inner ++ ['}', '}'])

/-- A token for the scope stands at the place. -/
def Occurs (scope : String) (value : List Char) (i : Nat) : Prop :=
  ∃ kind text, TokenText scope kind text ∧ text <+: value.drop i

/-- An identifier that a token can name. -/
structure Nameable (scope : String) : Prop where
  nonempty : scope ≠ ""
  plain : ∀ c ∈ scope.toList, c ≠ '{' ∧ c ≠ '}'

theorem plain_word {c : Char} (h : c ∈ kind.word.toList) : c ≠ '{' ∧ c ≠ '}' ∧ c ≠ ':' := by
  have hall : (kind.word.toList.all fun c => c != '{' && c != '}' && c != ':') = true := by
    cases kind <;> decide
  simpa [and_assoc] using List.all_eq_true.1 hall c h

theorem ofWord?_eq_some : TokenKind.ofWord? cs = some kind ↔ cs = kind.word.toList := by
  constructor
  · intro hword
    have hsame := List.find?_some hword
    exact (beq_iff_eq.1 hsame).symm
  · rintro rfl
    cases kind <;> decide

theorem Inner.plain (h : Inner scope kind inner) (hscope : Nameable scope) {c : Char}
    (hc : c ∈ inner) : c ≠ '{' ∧ c ≠ '}' := by
  have hword : c ∈ kind.word.toList → c ≠ '{' ∧ c ≠ '}' := fun hc =>
    ⟨(plain_word hc).1, (plain_word hc).2.1⟩
  rcases h with rfl | rfl
  · exact hword hc
  · simp only [List.mem_append, List.mem_cons] at hc
    rcases hc with hc | rfl | hc
    · exact hscope.plain c hc
    · decide
    · exact hword hc

/-- What a token for the scope holds is read as one. -/
theorem Inner.exists_token (h : Inner scope kind inner) (hscope : Nameable scope) :
    ∃ token, (Token.ofInner? inner).filter (·.isFor scope) = some token := by
  have hcolon : ':' ∉ kind.word.toList := fun hmem => (plain_word hmem).2.2 rfl
  rcases h with rfl | rfl
  · refine ⟨⟨none, kind⟩, ?_⟩
    rw [Token.ofInner?, splitLast?_eq_none.2 hcolon, ofWord?_eq_some.2 rfl]
    rfl
  · refine ⟨⟨some scope, kind⟩, ?_⟩
    have hqualifier : scope.toList.isEmpty = false := by simpa using hscope.nonempty
    rw [Token.ofInner?, splitLast?_eq_some.2 ⟨hcolon, rfl⟩]
    simp [hqualifier, ofWord?_eq_some.2 rfl, Token.isFor]

theorem inner_of_token {token : Token}
    (h : (Token.ofInner? inner).filter (·.isFor scope) = some token) :
    Inner scope token.kind inner := by
  obtain ⟨hread, hfor⟩ := Option.filter_eq_some_iff.1 h
  unfold Token.ofInner? at hread
  split at hread
  · next qualifier word hsplit =>
    obtain ⟨-, rfl⟩ := splitLast?_eq_some.1 hsplit
    split at hread
    · cases hread
    · obtain ⟨kind, hkind, rfl⟩ := Option.map_eq_some_iff.1 hread
      have hscope : String.ofList qualifier = scope := by simpa [Token.isFor] using hfor
      right
      rw [← hscope, String.toList_ofList, ofWord?_eq_some.1 hkind]
  · obtain ⟨kind, hkind, rfl⟩ := Option.map_eq_some_iff.1 hread
    exact .inl (ofWord?_eq_some.1 hkind)

/-! ## Closing braces -/

theorem splitClosing?_append (h : '}' ∉ inner) (after : List Char) :
    splitClosing? (inner ++ '}' :: '}' :: after) = some (inner, after) := by
  induction inner with
  | nil => rfl
  | cons c rest ih =>
    rw [List.mem_cons, not_or] at h
    rw [List.cons_append, splitClosing?, ih h.2]
    · rfl
    · rintro _ rfl
      exact absurd rfl h.1

theorem eq_of_splitClosing (h : splitClosing? cs = some (inner, after)) :
    cs = inner ++ '}' :: '}' :: after := by
  fun_induction splitClosing? cs generalizing inner after with
  | case1 => cases h
  | case2 => cases h; rfl
  | case3 c rest _ ih =>
    obtain ⟨⟨inner', after'⟩, hrest, ⟨⟩⟩ := Option.map_eq_some_iff.1 h
    rw [ih hrest]
    rfl

theorem closing_not_infix (h : splitClosing? cs = none) : ¬ ['}', '}'] <:+: cs := by
  fun_induction splitClosing? cs with
  | case1 => simp
  | case2 => cases h
  | case3 c rest hother ih =>
    rw [List.infix_cons_iff]
    rintro (⟨after, hafter⟩ | hrest)
    · cases hafter
      exact hother _ rfl rfl
    · exact ih (Option.map_eq_none_iff.1 h) hrest

theorem Occurs.closing (h : Occurs scope value i) : ['}', '}'] <:+: value := by
  obtain ⟨_, _, ⟨inner, -, rfl⟩, hprefix⟩ := h
  have hclosing : ['}', '}'] <:+: '{' :: '{' :: (inner ++ ['}', '}']) :=
    ⟨'{' :: '{' :: inner, [], by simp⟩
  exact (hclosing.trans hprefix.isInfix).trans (List.drop_suffix i value).isInfix

/-- The texts of tokens do not overlap. -/
theorem not_occurs_within (h : TokenText scope kind text) (hscope : Nameable scope) (hi : 0 < i)
    (hlt : i < text.length) (rest : List Char) : ¬ Occurs scope (text ++ rest) i := by
  obtain ⟨inner, hinner, rfl⟩ := h
  rintro ⟨_, _, ⟨inner', -, rfl⟩, tail, hdrop⟩
  -- behind its first two characters a token has no opening brace
  have hplain : ∀ j (hj : j < (inner ++ ['}', '}']).length), (inner ++ ['}', '}'])[j] ≠ '{' := by
    intro j hj hopen
    have hmem : '{' ∈ inner ++ ['}', '}'] := hopen ▸ List.getElem_mem hj
    rcases List.mem_append.1 hmem with hmem | hmem
    · exact (hinner.plain hscope hmem).1 rfl
    · simp at hmem
  have hat : ∀ j, ('{' :: '{' :: (inner ++ ['}', '}']) ++ rest)[i + j]? =
      ('{' :: '{' :: (inner' ++ ['}', '}']) ++ tail)[j]? := by
    intro j
    rw [hdrop, List.getElem?_drop]
  simp only [List.length_cons] at hlt
  obtain _ | _ | i := i
  · omega
  · have hsecond := hat 1
    simp only [Nat.zero_add, Nat.reduceAdd, List.cons_append, List.getElem?_cons_succ,
      List.getElem?_cons_zero] at hsecond
    rw [List.getElem?_append_left (by simp), List.getElem?_eq_getElem (by simp),
      Option.some.injEq] at hsecond
    exact hplain 0 (by simp) hsecond
  · have hfirst := hat 0
    simp only [Nat.add_zero, List.cons_append, List.getElem?_cons_succ,
      List.getElem?_cons_zero] at hfirst
    rw [List.getElem?_append_left (by omega), List.getElem?_eq_getElem (by omega),
      Option.some.injEq] at hfirst
    exact hplain i (by omega) hfirst

/-! ## Replacing at one stroke -/

/-- A stretch of a value: a character that stays, or a token with its text. -/
inductive Stretch where
  | kept (c : Char)
  | token (kind : TokenKind) (text : List Char)
deriving DecidableEq, Repr

namespace Stretch

/-- What stands there in the value. -/
def source : Stretch → List Char
  | kept c => [c]
  | token _ text => text

/-- What stands there after the replacement. -/
def written (counter : Nat) : Stretch → List Char
  | kept c => [c]
  | token kind _ => decimal (counter + kind.shift)

/-- The places in the value at which the tokens among stretches stand. -/
def places : List Stretch → List Nat
  | [] => []
  | kept _ :: rest => (places rest).map (· + 1)
  | token _ text :: rest => 0 :: (places rest).map (· + text.length)

end Stretch

/-- The stretches make up the value, and the tokens among them are those that stand at chosen
    places. -/
structure Parted (scope : String) (Chosen : Nat → Prop) (value : List Char)
    (stretches : List Stretch) : Prop where
  source : stretches.flatMap Stretch.source = value
  texts : ∀ kind text, .token kind text ∈ stretches → TokenText scope kind text
  places : ∀ i, i ∈ Stretch.places stretches ↔ Occurs scope value i ∧ Chosen i

/-- `out` is the value with the tokens at chosen places replaced at one stroke. -/
def Replaced (scope : String) (counter : Nat) (Chosen : Nat → Prop) (value out : List Char) :
    Prop :=
  ∃ stretches, Parted scope Chosen value stretches ∧
    out = stretches.flatMap (Stretch.written counter)

theorem not_occurs_nil (scope : String) (i : Nat) : ¬ Occurs scope [] i := fun h => by
  simpa using h.closing

theorem occurs_cons_succ (c : Char) :
    Occurs scope (c :: cs) (i + 1) ↔ Occurs scope cs i := by
  simp only [Occurs, List.drop_succ_cons]

theorem occurs_append_right (text : List Char) :
    Occurs scope (text ++ cs) (i + text.length) ↔ Occurs scope cs i := by
  simp only [Occurs, Nat.add_comm i, List.drop_length_add_append]

theorem replaced_nil : Replaced scope counter Chosen [] [] :=
  ⟨[], ⟨rfl, by simp, by simp [Stretch.places, not_occurs_nil]⟩, rfl⟩

theorem Replaced.kept {c : Char} (h : Replaced scope counter (fun i => Chosen (i + 1)) cs out)
    (hfirst : Occurs scope (c :: cs) 0 → ¬ Chosen 0) :
    Replaced scope counter Chosen (c :: cs) (c :: out) := by
  obtain ⟨stretches, ⟨hsource, htexts, hplaces⟩, rfl⟩ := h
  refine ⟨.kept c :: stretches, ⟨?_, ?_, fun i => ?_⟩, ?_⟩
  · simp [Stretch.source, hsource]
  · simpa using htexts
  · cases i with
    | zero => simpa [Stretch.places] using hfirst
    | succ i => simp [Stretch.places, hplaces, occurs_cons_succ]
  · simp [Stretch.written]

theorem Replaced.token (h : Replaced scope counter (fun i => Chosen (i + text.length)) cs out)
    (hscope : Nameable scope) (htext : TokenText scope kind text) (hchosen : Chosen 0) :
    Replaced scope counter Chosen (text ++ cs) (decimal (counter + kind.shift) ++ out) := by
  obtain ⟨stretches, ⟨hsource, htexts, hplaces⟩, rfl⟩ := h
  refine ⟨.token kind text :: stretches, ⟨?_, ?_, fun i => ?_⟩, ?_⟩
  · simp [Stretch.source, hsource]
  · rintro kind' text' hmem
    rcases List.mem_cons.1 hmem with heq | hmem
    · cases heq
      exact htext
    · exact htexts kind' text' hmem
  · rcases Nat.eq_zero_or_pos i with rfl | hpos
    · simp only [Stretch.places, List.mem_cons, true_or, true_iff]
      exact ⟨⟨kind, text, htext, List.prefix_append text cs⟩, hchosen⟩
    · rcases Nat.lt_or_ge i text.length with hlt | hge
      · have hnone := not_occurs_within htext hscope hpos hlt cs
        simp only [Stretch.places, List.mem_cons, List.mem_map, hnone, false_and, iff_false]
        omega
      · obtain ⟨j, rfl⟩ := Nat.exists_eq_add_of_le' hge
        have hne : j + text.length ≠ 0 := by omega
        simp only [Stretch.places, List.mem_cons, List.mem_map, Nat.add_right_cancel_iff,
          exists_eq_right, hplaces, occurs_append_right, hne, false_or]
  · simp [Stretch.written]

/-- Where no token is chosen, the value stays. -/
theorem replaced_none (cs : List Char) (h : ∀ i, Occurs scope cs i → ¬ Chosen i) :
    Replaced scope counter Chosen cs cs := by
  induction cs generalizing Chosen with
  | nil => exact replaced_nil
  | cons c cs ih =>
    refine (ih fun i hi => ?_).kept (h 0)
    exact h (i + 1) ((occurs_cons_succ c).2 hi)

/-! ## The pass from left to right -/

/-- How many opening braces stand right at the end. -/
def openAtEnd (before : List Char) : Nat := (before.reverse.takeWhile (· == '{')).length

/-- An even number of opening braces stands directly in front of the place. -/
def Met (value : List Char) (i : Nat) : Prop := Even (openAtEnd (value.take i))

theorem openAtEnd_concat (before : List Char) (c : Char) :
    openAtEnd (before ++ [c]) = if c = '{' then openAtEnd before + 1 else 0 := by
  by_cases hc : c = '{' <;> simp [openAtEnd, hc]

theorem openAtEnd_token (htext : TokenText scope kind text) (before : List Char) :
    openAtEnd (before ++ text) = 0 := by
  obtain ⟨inner, -, rfl⟩ := htext
  have hlast : before ++ '{' :: '{' :: (inner ++ ['}', '}']) =
      (before ++ '{' :: '{' :: (inner ++ ['}'])) ++ ['}'] := by simp
  rw [hlast, openAtEnd_concat, if_neg (by decide)]

theorem resolve_eq (hcounter : counter + 1 < 2 ^ 63) :
    kind.resolve counter = counter + kind.shift := by
  have hshift : -1 ≤ kind.shift ∧ kind.shift ≤ 1 := by cases kind <;> decide
  unfold TokenKind.resolve wrapWord
  apply Int.bmod_eq_of_le
  · omega
  · omega

/-- The pass over the rest of a value, where the braces in front of it are paired up. -/
theorem replaced_rest (hscope : Nameable scope) (hcounter : counter + 1 < 2 ^ 63)
    (before cs : List Char) (hpaired : cs.head? = some '{' → Even (openAtEnd before)) :
    Replaced scope counter (fun i => Even (openAtEnd (before ++ cs.take i))) cs
      (substituteChars scope counter cs) := by
  fun_induction substituteChars scope counter cs generalizing before with
  | case1 => exact replaced_nil
  | case2 after hclosing =>
    -- without closing braces no token is left
    refine replaced_none _ fun i hi => absurd hi.closing ?_
    have := closing_not_infix hclosing
    simpa [List.infix_cons_iff] using this
  | case3 after inner rest hclosing token htoken hlt ih =>
    have htext : TokenText scope token.kind ('{' :: '{' :: (inner ++ ['}', '}'])) :=
      ⟨inner, inner_of_token htoken, rfl⟩
    obtain rfl := eq_of_splitClosing hclosing
    have hvalue : '{' :: '{' :: (inner ++ '}' :: '}' :: rest) =
        '{' :: '{' :: (inner ++ ['}', '}']) ++ rest := by simp
    rw [resolve_eq hcounter, hvalue]
    generalize '{' :: '{' :: (inner ++ ['}', '}']) = text at htext ⊢
    refine Replaced.token ?_ hscope htext ?_
    · have htake : ∀ i, before ++ (text ++ rest).take (i + text.length) =
          before ++ text ++ rest.take i := by
        intro i
        rw [Nat.add_comm, List.take_length_add_append, List.append_assoc]
      simp only [htake]
      refine ih (before ++ text) fun _ => ?_
      rw [openAtEnd_token htext]
      exact Even.zero
    · simpa using hpaired rfl
  | case4 after inner rest hclosing htoken ih =>
    have heven := hpaired rfl
    -- neither here nor at the second brace does a token stand that would have been met
    refine Replaced.kept (Replaced.kept ?_ ?_) ?_
    · have hrest := ih (before ++ ['{', '{']) fun _ => by
        rw [List.append_cons, openAtEnd_concat, openAtEnd_concat]
        simpa [Nat.even_add_one] using heven
      simpa using hrest
    · intro _
      simpa [openAtEnd_concat, Nat.even_add_one] using heven
    · rintro ⟨kind, _, ⟨inner', hinner, rfl⟩, tail, hprefix⟩
      obtain rfl : inner' ++ '}' :: '}' :: tail = after := by simpa using hprefix
      rw [splitClosing?_append (fun hmem => (hinner.plain hscope hmem).2 rfl)] at hclosing
      cases hclosing
      obtain ⟨token, hsome⟩ := hinner.exists_token hscope
      simp [hsome] at htoken
  | case5 c rest hother ih =>
    refine Replaced.kept ?_ ?_
    · have hrest := ih (before ++ [c]) ?_
      · simpa using hrest
      · intro hhead
        obtain ⟨rest, rfl⟩ : ∃ rest', rest = '{' :: rest' := by
          cases rest with
          | nil => cases hhead
          | cons d rest => exact ⟨rest, by simpa using hhead⟩
        rw [openAtEnd_concat, if_neg]
        · exact Even.zero
        · rintro rfl
          exact hother _ rfl rfl
    · rintro ⟨_, _, ⟨inner, -, rfl⟩, tail, hprefix⟩
      cases hprefix
      exact absurd rfl (hother _ rfl)

/-! ## Tokens that are not met -/

theorem brace_not_mem_decimal (n : Int) : '{' ∉ decimal n ∧ '}' ∉ decimal n :=
  ⟨fun hmem => absurd (mem_decimal hmem) (by decide),
    fun hmem => absurd (mem_decimal hmem) (by decide)⟩

namespace Parted

variable {stretches : List Stretch}

theorem tail {stretch : Stretch} (h : ∀ kind text, .token kind text ∈ stretch :: stretches →
    TokenText scope kind text) :
    ∀ kind text, .token kind text ∈ stretches → TokenText scope kind text :=
  fun kind text hmem => h kind text (List.mem_cons_of_mem _ hmem)

/-- Each replacement takes two opening braces away. -/
theorem count_written (h : Parted scope Chosen value stretches) (hscope : Nameable scope)
    (counter : Nat) :
    (stretches.flatMap (Stretch.written counter)).count '{' +
      2 * (Stretch.places stretches).length = value.count '{' := by
  obtain ⟨rfl, htexts, -⟩ := h
  induction stretches with
  | nil => rfl
  | cons stretch rest ih =>
    have hrest := ih (tail htexts)
    cases stretch with
    | kept c =>
      simp only [List.flatMap_cons, Stretch.written, Stretch.source, Stretch.places,
        List.count_append, List.length_map]
      omega
    | token kind text =>
      obtain ⟨inner, hinner, rfl⟩ := htexts kind text (by simp)
      have hcount : inner.count '{' = 0 :=
        List.count_eq_zero.2 fun hmem => (hinner.plain hscope hmem).1 rfl
      have hdecimal := List.count_eq_zero.2 (brace_not_mem_decimal (counter + kind.shift)).1
      simp only [List.flatMap_cons, Stretch.written, Stretch.source, Stretch.places,
        List.count_append, List.length_cons, List.length_map, List.count_cons, hcount, hdecimal]
      simp
      omega

theorem nodup_places (h : Parted scope Chosen value stretches) :
    (Stretch.places stretches).Nodup := by
  obtain ⟨-, htexts, -⟩ := h
  induction stretches with
  | nil => exact List.nodup_nil
  | cons stretch rest ih =>
    have hrest := ih (tail htexts)
    cases stretch with
    | kept c => exact hrest.map fun _ _ => Nat.add_right_cancel
    | token kind text =>
      obtain ⟨inner, -, rfl⟩ := htexts kind text (by simp)
      refine List.nodup_cons.2 ⟨?_, hrest.map fun _ _ => Nat.add_right_cancel⟩
      simp

end Parted

/-- Two choices of tokens that lead to one text are one choice, if one is part of the other. -/
theorem chosen_of_replaced {Chosen' : Nat → Prop} (hscope : Nameable scope)
    (h : Replaced scope counter Chosen value out) (h' : Replaced scope counter Chosen' value out)
    (himp : ∀ i, Chosen i → Chosen' i) : ∀ i, Occurs scope value i → Chosen' i → Chosen i := by
  intro i hi hchosen
  obtain ⟨stretches, hparted, rfl⟩ := h
  obtain ⟨stretches', hparted', hout⟩ := h'
  have hsubset : Stretch.places stretches ⊆ Stretch.places stretches' := by
    intro j hj
    have := (hparted.places j).1 hj
    exact (hparted'.places j).2 ⟨this.1, himp j this.2⟩
  have hlength : (Stretch.places stretches').length ≤ (Stretch.places stretches).length := by
    have hcount := hparted.count_written hscope counter
    have hcount' := hparted'.count_written hscope counter
    rw [hout] at hcount
    omega
  have hperm := (List.subperm_of_subset hparted.nodup_places hsubset).perm_of_length_le hlength
  exact ((hparted.places i).1 (hperm.mem_iff.2 ((hparted'.places i).2 ⟨hi, hchosen⟩))).2

/-! ## The whole value -/

/-- The tokens that are replaced are those with an even number of opening braces directly in front
    of them. So all are replaced if and only if there is no other. -/
theorem substitute_met (hscope : Nameable scope) (hcounter : counter + 1 < 2 ^ 63)
    (value : String) :
    Replaced scope counter (Met value.toList) value.toList
        (substitute value scope counter).toList ∧
      (Replaced scope counter (fun _ => True) value.toList
          (substitute value scope counter).toList ↔
        ∀ i, Occurs scope value.toList i → Met value.toList i) := by
  have hmet : Replaced scope counter (Met value.toList) value.toList
      (substitute value scope counter).toList := by
    rw [substitute, String.toList_ofList]
    exact replaced_rest hscope hcounter [] value.toList fun _ => Even.zero
  refine ⟨hmet, fun hall i hi => ?_, fun hall => ?_⟩
  · exact chosen_of_replaced hscope hmet hall (fun _ _ => trivial) i hi trivial
  · obtain ⟨stretches, ⟨hsource, htexts, hplaces⟩, hout⟩ := hmet
    refine ⟨stretches, ⟨hsource, htexts, fun i => ?_⟩, hout⟩
    rw [hplaces, and_true, and_iff_left_iff_imp]
    exact hall i

/-- A token behind one more brace, and one behind none. -/
def oddValue : String := "\x7b\x7b\x7bindex\x7d\x7d \x7b\x7bm:index++\x7d\x7d"

theorem substitute_met_odd :
    Nameable "m" ∧ 1 + 1 < 2 ^ 63 ∧
      (substitute oddValue "m" 1).toList = "\x7b\x7b\x7bindex\x7d\x7d 2".toList ∧
      ¬ Replaced "m" 1 (fun _ => True) oddValue.toList (substitute oddValue "m" 1).toList := by
  have hscope : Nameable "m" := by
    constructor
    case nonempty => decide
    case plain =>
      intro c hc
      obtain rfl : c = 'm' := List.mem_singleton.1 hc
      decide
  have hcounter : 1 + 1 < 2 ^ 63 := by decide
  refine ⟨hscope, hcounter, by decide +kernel, fun hall => ?_⟩
  have hoccurs : Occurs "m" oddValue.toList 1 :=
    ⟨.current, _, ⟨"index".toList, .inl rfl, rfl⟩, by decide⟩
  have hmet : Met oddValue.toList 1 := (substitute_met hscope hcounter oddValue).2.1 hall 1 hoccurs
  exact absurd hmet (by unfold Met; decide)

end Repeater.Stamp
