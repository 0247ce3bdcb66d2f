/-
  Repeater/Proofs/Hook/Sums.lean
  ==============================
  **What a sum comes to.**

  A sum is computed from left to right and changes its meaning on the way: it adds as long as it has
  only met integers, and from the first other value on it puts texts together. So the integers at
  its front decide everything (`leadingInts`): where one of their partial sums leaves the signed
  words, adding fails there, before anything behind is looked at; where none does, they are
  replaced by their exact sum.

  `ComesTo` says this of a list of values, and `comesTo_foldlM` proves it by going over the integers
  first (`foldlM_ints_ok`, `foldlM_ints_error`) and then over the rest (`foldlM_texts`). Compiled
  code holds no integer that does not fit in a signed word, so `ComesTo` holds of all its sums
  (`eval_comesTo`).
-/
import Mathlib.Algebra.Ring.Int.Defs
import Mathlib.Order.Nat
import Repeater.Hook.Run
import Repeater.Proofs.Hook.Integers

namespace Repeater.Hook

open Text

variable {v w : Value} {vs rest : List Value} {a : Int} {ns : List Int} {j : Nat}

/-! ## Values -/

/-- A value that a hook can hold: if it is an integer, it fits in a signed word. -/
def Value.Fits : Value → Prop
  | .int n => inWord n = true
  | _ => True

/-- The values of the terms of a sum, in order. -/
def Expression.values (arguments : List Value) (e : Expression) : List Value :=
  e.terms.map (Term.eval arguments)

/-- The integers at the front, up to the first value that is none. -/
def leadingInts : List Value → List Int
  | .int n :: rest => n :: leadingInts rest
  | _ => []

/-- The texts of the values, one after the other. -/
def plainTexts (vs : List Value) : String := String.join (vs.map Value.plain)

/-- One of the partial sums leaves the signed words. -/
def Overflows (ns : List Int) : Prop := ∃ j ≤ ns.length, inWord (ns.take j).sum = false

instance (ns : List Int) : Decidable (Overflows ns) :=
  inferInstanceAs (Decidable (∃ j ≤ ns.length, inWord (ns.take j).sum = false))

/-- What values that are summed up come to. -/
structure ComesTo (vs : List Value) (result : Except Error Value) : Prop where
  /-- A value alone is not changed. -/
  alone : ∀ v, vs = [v] → result = .ok v
  /-- There is no failure but an overflow, which takes two integers at the front. -/
  fails : (∃ e, result = .error e) ↔ 2 ≤ (leadingInts vs).length ∧ Overflows (leadingInts vs)
  /-- The overflow is at the first partial sum that does not fit, and reports the exact sum before
      it and the integer that it adds. -/
  reports : ∀ e, result = .error e → ∃ j, ∃ hj : j < (leadingInts vs).length,
    (∀ i ≤ j, inWord ((leadingInts vs).take i).sum = true) ∧
      inWord ((leadingInts vs).take (j + 1)).sum = false ∧
      e = .hookOverflow ((leadingInts vs).take j).sum (leadingInts vs)[j]
  /-- Integers alone come to their sum. -/
  adds : ¬ Overflows (leadingInts vs) → (leadingInts vs).length = vs.length →
    result = .ok (.int (leadingInts vs).sum)
  /-- Anything else comes to a text, in which the integers at the front are one number. -/
  concatenates : ¬ Overflows (leadingInts vs) → (leadingInts vs).length < vs.length →
    2 ≤ vs.length →
    result = .ok (.text ((if leadingInts vs = [] then ""
      else String.ofList (decimal (leadingInts vs).sum)) ++
        plainTexts (vs.drop (leadingInts vs).length)))
  /-- No integer that comes out has been wrapped. -/
  fits : ∀ v, result = .ok v → v.Fits

/-! ## Integers at the front -/

theorem leadingInts_of_not_int (h : ∀ n, v ≠ .int n) : leadingInts (v :: vs) = [] := by
  cases v with
  | int n => exact absurd rfl (h n)
  | _ => rfl

/-- A list of values begins with its leading integers. -/
theorem leadingInts_append_drop (vs : List Value) :
    (leadingInts vs).map .int ++ vs.drop (leadingInts vs).length = vs := by
  induction vs with
  | nil => rfl
  | cons v vs ih =>
    cases v with
    | int n => exact congrArg _ ih
    | _ => rfl

/-- It does not go on with another integer. -/
theorem ne_int_of_head?_drop (h : v ∈ (vs.drop (leadingInts vs).length).head?) (n : Int) :
    v ≠ .int n := by
  induction vs with
  | nil => cases h
  | cons u vs ih =>
    cases u with
    | int m => exact ih h
    | _ =>
      cases h
      nofun

/-! ## Adding -/

theorem plus_ints_ok {b : Int} (h : inWord (a + b) = true) :
    Value.plus (.int a) (.int b) = .ok (.int (a + b)) := by
  simp [Value.plus, h]

theorem plus_ints_error {b : Int} (h : inWord (a + b) = false) :
    Value.plus (.int a) (.int b) = .error (.hookOverflow a b) := by
  simp [Value.plus, h]

/-- As long as the partial sums fit, the sum so far is exact. -/
theorem foldlM_ints_ok (h : ∀ i ≤ ns.length, inWord (a + (ns.take i).sum) = true) :
    (ns.map Value.int).foldlM Value.plus (.int a) = .ok (.int (a + ns.sum)) := by
  induction ns generalizing a with
  | nil => simp [pure, Except.pure]
  | cons b ns ih =>
    have hfirst : inWord (a + b) = true := by simpa using h 1 (by simp)
    have hrest : ∀ i ≤ ns.length, inWord (a + b + (ns.take i).sum) = true := by
      intro i hi
      have hnext := h (i + 1) (by simpa using hi)
      rwa [List.take_succ_cons, List.sum_cons, ← Int.add_assoc] at hnext
    rw [List.map_cons, List.foldlM_cons, plus_ints_ok hfirst, List.sum_cons, ← Int.add_assoc]
    exact ih hrest

/-- At the first partial sum that does not fit, adding fails. -/
theorem foldlM_ints_error (hj : j < ns.length)
    (hbefore : ∀ i ≤ j, inWord (a + (ns.take i).sum) = true)
    (hout : inWord (a + (ns.take (j + 1)).sum) = false) :
    (ns.map Value.int).foldlM Value.plus (.int a) =
      .error (.hookOverflow (a + (ns.take j).sum) ns[j]) := by
  induction ns generalizing a j with
  | nil => simp at hj
  | cons b ns ih =>
    rw [List.map_cons, List.foldlM_cons]
    cases j with
    | zero =>
      have hsum : inWord (a + b) = false := by simpa using hout
      rw [plus_ints_error hsum]
      simp [bind, Except.bind]
    | succ j =>
      have hfirst : inWord (a + b) = true := by simpa using hbefore 1 (by omega)
      have hrest : ∀ i ≤ j, inWord (a + b + (ns.take i).sum) = true := by
        intro i hi
        have hnext := hbefore (i + 1) (by omega)
        rwa [List.take_succ_cons, List.sum_cons, ← Int.add_assoc] at hnext
      rw [List.take_succ_cons, List.sum_cons, ← Int.add_assoc] at hout
      rw [plus_ints_ok hfirst, List.take_succ_cons, List.sum_cons, ← Int.add_assoc]
      exact ih (by simpa using hj) hrest hout

/-! ## Putting texts together -/

theorem plus_texts (h : (∀ n, v ≠ .int n) ∨ ∀ n, w ≠ .int n) :
    v.plus w = .ok (.text (v.plain ++ w.plain)) := by
  cases v with
  | int a =>
    cases w with
    | int b =>
      rcases h with h | h
      · exact absurd rfl (h a)
      · exact absurd rfl (h b)
    | _ => rfl
  | _ => rfl

/-- Once one of the two values in front is no integer, all are put together as texts. -/
theorem foldlM_texts (h : (∀ n, v ≠ .int n) ∨ ∀ n, w ≠ .int n) :
    (w :: vs).foldlM Value.plus v = .ok (.text (v.plain ++ plainTexts (w :: vs))) := by
  induction vs generalizing v w with
  | nil =>
    rw [List.foldlM_cons, plus_texts h]
    simp [plainTexts, bind, Except.bind, pure, Except.pure]
  | cons u vs ih =>
    rw [List.foldlM_cons, plus_texts h]
    have hrest := ih (v := .text (v.plain ++ w.plain)) (w := u) (.inl (by simp))
    refine hrest.trans ?_
    simp [plainTexts, Value.plain, String.append_assoc]

/-! ## Partial sums -/

/-- Where some partial sum does not fit, there is a first one. -/
theorem Overflows.first (h : Overflows ns) : ∃ j, ∃ _ : j < ns.length,
    (∀ i ≤ j, inWord (ns.take i).sum = true) ∧ inWord (ns.take (j + 1)).sum = false := by
  obtain ⟨hle, hout⟩ := Nat.find_spec h
  have hpos : Nat.find h ≠ 0 := by
    intro hzero
    rw [hzero] at hout
    exact absurd hout (by simp [inWord])
  obtain ⟨j, hj⟩ := Nat.exists_eq_succ_of_ne_zero hpos
  rw [hj] at hle hout
  refine ⟨j, hle, fun i hi => ?_, hout⟩
  have hbefore := Nat.find_min h (m := i) (by omega)
  simpa [show i ≤ ns.length by omega] using hbefore

/-- The first partial sum that does not fit takes at least two integers. -/
theorem foldlM_overflow (rest : List Value) (ha : inWord a = true) (hj : j < (a :: ns).length)
    (hbefore : ∀ i ≤ j, inWord ((a :: ns).take i).sum = true)
    (hout : inWord ((a :: ns).take (j + 1)).sum = false) :
    1 ≤ j ∧ (ns.map Value.int ++ rest).foldlM Value.plus (.int a) =
      .error (.hookOverflow ((a :: ns).take j).sum (a :: ns)[j]) := by
  cases j with
  | zero => simp [ha] at hout
  | succ j =>
    refine ⟨by omega, ?_⟩
    have hsums : ∀ i ≤ j, inWord (a + (ns.take i).sum) = true := by
      intro i hi
      have hnext := hbefore (i + 1) (by omega)
      rwa [List.take_succ_cons, List.sum_cons] at hnext
    rw [List.take_succ_cons, List.sum_cons] at hout ⊢
    rw [List.foldlM_append, foldlM_ints_error (by simpa using hj) hsums hout]
    rfl

/-- Where all partial sums fit, the integers at the front are replaced by their sum. -/
theorem foldlM_exact (h : ¬ Overflows (a :: ns)) :
    (ns.map Value.int ++ rest).foldlM Value.plus (.int a) =
      rest.foldlM Value.plus (.int (a :: ns).sum) := by
  have hsums : ∀ i ≤ ns.length, inWord (a + (ns.take i).sum) = true := by
    intro i hi
    by_contra hout
    refine h ⟨i + 1, by simpa using hi, ?_⟩
    rw [List.take_succ_cons, List.sum_cons]
    exact Bool.eq_false_iff.2 hout
  rw [List.foldlM_append, foldlM_ints_ok hsums, List.sum_cons]
  rfl

theorem inWord_sum (h : ¬ Overflows ns) : inWord ns.sum = true := by
  by_contra hout
  exact h ⟨ns.length, Nat.le_refl _, by simpa using hout⟩

/-! ## Sums -/

theorem comesTo_alone (h : v.Fits) : ComesTo [v] (.ok v) where
  alone := by
    rintro _ ⟨⟩
    rfl
  fails := by
    cases v <;> simp [leadingInts]
  reports := nofun
  adds _ hall := by
    cases v with
    | int n => simp [leadingInts]
    | _ => simp [leadingInts] at hall
  concatenates _ _ htwo := by simp at htwo
  fits := by
    rintro _ ⟨⟩
    exact h

theorem comesTo_overflow (vs : List Value) (hpos : 1 ≤ j) (hj : j < (leadingInts vs).length)
    (hbefore : ∀ i ≤ j, inWord ((leadingInts vs).take i).sum = true)
    (hout : inWord ((leadingInts vs).take (j + 1)).sum = false) :
    ComesTo vs (.error (.hookOverflow ((leadingInts vs).take j).sum (leadingInts vs)[j])) where
  alone := by
    rintro v rfl
    cases v <;> simp [leadingInts] at hj
    omega
  fails := ⟨fun _ => ⟨by omega, j + 1, hj, hout⟩, fun _ => ⟨_, rfl⟩⟩
  reports := by
    rintro _ ⟨⟩
    exact ⟨j, hj, hbefore, hout, rfl⟩
  adds hnot := absurd ⟨j + 1, hj, hout⟩ hnot
  concatenates hnot := absurd ⟨j + 1, hj, hout⟩ hnot
  fits := nofun

theorem comesTo_sum (vs : List Value) (hnot : ¬ Overflows (leadingInts vs))
    (hall : (leadingInts vs).length = vs.length) :
    ComesTo vs (.ok (.int (leadingInts vs).sum)) where
  alone := by
    rintro v rfl
    cases v <;> simp [leadingInts] at hall ⊢
  fails := ⟨nofun, fun h => absurd h.2 hnot⟩
  reports := nofun
  adds _ _ := rfl
  concatenates _ hshort := absurd hall hshort.ne
  fits := by
    rintro _ ⟨⟩
    exact inWord_sum hnot

theorem comesTo_text (vs : List Value) (hnot : ¬ Overflows (leadingInts vs))
    (hshort : (leadingInts vs).length < vs.length) (htwo : 2 ≤ vs.length) :
    ComesTo vs (.ok (.text ((if leadingInts vs = [] then ""
      else String.ofList (decimal (leadingInts vs).sum)) ++
        plainTexts (vs.drop (leadingInts vs).length)))) where
  alone := by
    rintro v rfl
    simp at htwo
  fails := ⟨nofun, fun h => absurd h.2 hnot⟩
  reports := nofun
  adds _ hall := absurd hall hshort.ne
  concatenates _ _ _ := rfl
  fits := by
    rintro _ ⟨⟩
    trivial

/-- Values of which the first is no integer are put together. -/
theorem comesTo_of_not_int (h : ∀ n, v ≠ .int n) :
    ComesTo (v :: w :: vs) ((w :: vs).foldlM Value.plus v) := by
  have hnone : leadingInts (v :: w :: vs) = [] := leadingInts_of_not_int h
  have htexts := comesTo_text (v :: w :: vs) (by simp [hnone, Overflows, inWord])
    (by simp [hnone]) (by simp)
  rw [foldlM_texts (.inl h)]
  simpa [hnone, plainTexts] using htexts

/-- Values of which the first is an integer that fits are added up to the first other value. -/
theorem comesTo_of_int (ha : inWord a = true) :
    ComesTo (.int a :: vs) (vs.foldlM Value.plus (.int a)) := by
  have hsplit := leadingInts_append_drop vs
  have hrest := fun v => @ne_int_of_head?_drop v vs
  generalize htail : vs.drop (leadingInts vs).length = rest at hsplit hrest
  have hfold : vs.foldlM Value.plus (.int a) =
      ((leadingInts vs).map Value.int ++ rest).foldlM Value.plus (.int a) :=
    congrArg (·.foldlM Value.plus (.int a)) hsplit.symm
  rw [hfold]
  have hlength : vs.length = (leadingInts vs).length + rest.length := by
    simpa using congrArg List.length hsplit.symm
  by_cases hover : Overflows (a :: leadingInts vs)
  · obtain ⟨j, hj, hbefore, hout⟩ := hover.first
    obtain ⟨hpos, herror⟩ := foldlM_overflow rest ha hj hbefore hout
    rw [herror]
    exact comesTo_overflow (.int a :: vs) hpos hj hbefore hout
  · rw [foldlM_exact hover]
    cases rest with
    | nil =>
      have hall : (leadingInts (.int a :: vs)).length = (Value.int a :: vs).length := by
        simp [leadingInts, hlength]
      exact comesTo_sum (.int a :: vs) hover hall
    | cons w rest =>
      have htwo : 2 ≤ (Value.int a :: vs).length := by
        simp only [List.length_cons, hlength]
        omega
      have htexts := comesTo_text (.int a :: vs) hover (by simp [leadingInts, hlength]) htwo
      have hdrop : (Value.int a :: vs).drop (leadingInts (.int a :: vs)).length = w :: rest :=
        htail
      rw [hdrop] at htexts
      rw [foldlM_texts (.inr (hrest w rfl))]
      exact htexts

/-- What any values that hooks can hold come to when they are summed up from left to right. -/
theorem comesTo_foldlM (h : v.Fits) (vs : List Value) : ComesTo (v :: vs) (vs.foldlM Value.plus v) := by
  cases v with
  | int a => exact comesTo_of_int h
  | _ =>
    cases vs with
    | nil => exact comesTo_alone h
    | cons w vs => exact comesTo_of_not_int (by simp)

/-! ## Compiled sums -/

theorem fits_eval {arguments : List Value} (harguments : ∀ v ∈ arguments, v.Fits) {x : Term}
    (hx : ∀ n, x = .int n → inWord n = true) : (x.eval arguments).Fits := by
  cases x with
  | text s => trivial
  | int n => exact hx n rfl
  | parameter i =>
    rw [Term.eval]
    cases hget : arguments[i]? with
    | none => trivial
    | some v => exact harguments v (List.mem_of_getElem? hget)

/-- What the sums of compiled code come to, for all arguments. -/
theorem eval_comesTo {code : String} {parameters : List String} {program : Program}
    (h : compile code parameters = .ok program) {s : Statement} (hs : s ∈ program.statements)
    {e : Expression} (he : e ∈ s.arguments) {arguments : List Value}
    (harguments : ∀ v ∈ arguments, v.Fits) :
    ComesTo (e.values arguments) (e.eval arguments) := by
  have hfirst : (e.first.eval arguments).Fits := fits_eval harguments fun n hn =>
    inWord_of_compile h hs he (hn ▸ List.mem_cons_self)
  have hsum := comesTo_foldlM hfirst (e.others.map (Term.eval arguments))
  rw [List.foldlM_map] at hsum
  exact hsum

/-- A sum that overflows before it meets the text in it, and one that meets the text in time. -/
theorem eval_comesTo_alert :
    let code := "alert(n + 9223372036854775807 + 1 + 'x', n + 'x' + 9223372036854775807 + 1)"
    let early : Expression := ⟨.parameter 0, [.int 9223372036854775807, .int 1, .text "x"]⟩
    let late : Expression := ⟨.parameter 0, [.text "x", .int 9223372036854775807, .int 1]⟩
    compile code ["n"] = .ok ⟨["n"], [⟨.alert, [early, late]⟩]⟩ ∧
      (∀ v ∈ [Value.int 0], v.Fits) ∧
      early.eval [.int 0] = .error (.hookOverflow 9223372036854775807 1) ∧
      late.eval [.int 0] = .ok (.text "0x92233720368547758071") := by
  intro code early late
  have hcompile : compile code ["n"] = .ok ⟨["n"], [⟨.alert, [early, late]⟩]⟩ := by
    decide +kernel
  have hfits : ∀ v ∈ [Value.int 0], v.Fits := by
    intro v hv
    obtain rfl := List.mem_singleton.1 hv
    exact (by decide : inWord 0 = true)
  have hearly := eval_comesTo hcompile List.mem_cons_self List.mem_cons_self hfits
  have hlate := eval_comesTo hcompile List.mem_cons_self (List.mem_cons_of_mem _ List.mem_cons_self)
    hfits
  refine ⟨hcompile, hfits, ?_,
    (hlate.concatenates (by decide) (by decide) (by decide)).trans (by decide +kernel)⟩
  obtain ⟨e, herror⟩ := hearly.fails.2 ⟨by decide, by decide⟩
  obtain ⟨j, hj, -, hout, rfl⟩ := hearly.reports e herror
  match j, hj, hout with
  | 0, _, hout => exact absurd hout (by decide)
  | 1, _, hout => exact absurd hout (by decide)
  | 2, _, _ => exact herror

end Repeater.Hook
