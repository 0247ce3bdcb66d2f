/-
  Repeater/Proofs/Text/SmallLetters.lean
  ======================================
  **What lower-casing leaves.**

  Lower-casing puts one or two characters for each, by a table of capitals beyond ASCII and a rule
  for the capital sigma. That a second pass does nothing more is a property of the table: no small
  letter of one run is a capital of another (`smallCode_misses`). Nor is a small letter a blank or
  one of the signs of ASCII (`IsSmall`), so what stands at the ends of a text is either kept or
  becomes a letter.
-/
import Mathlib.Data.List.Basic
import Repeater.Text.Blank
import Repeater.Text.LowerCase

namespace Repeater.Text

variable {c d : Char} {cs before after : List Char} {n : Nat} {run other : CapitalRun}

/-- Codes between which no bound lies are in the set together. -/
theorem CharSet.holdsFrom_between {low : Nat} {inside : Bool} {bounds : List Nat} (hlow : low ≤ n)
    (h : ∀ b ∈ bounds, b ≤ low ∨ n < b) :
    holdsFrom n inside bounds = holdsFrom low inside bounds := by
  induction bounds generalizing inside with
  | nil => rfl
  | cons b rest ih =>
    have hfirst := h b List.mem_cons_self
    have hrest := fun b hb => h b (List.mem_cons_of_mem _ hb)
    by_cases hn : n < b
    · have : low < b := by omega
      simp [holdsFrom, hn, this]
    · have : ¬ low < b := by omega
      simp [holdsFrom, hn, this, ih hrest]

/-! ## The table of capitals -/

namespace CapitalRun

/-- The code of the small letter for the capital with the code `n`. -/
def smallCode (run : CapitalRun) (n : Nat) : Nat := (n + run.shift).toNat

/-- No small letter of the run has a code among those from `first` to `last` in steps of `step`:
    they lie apart, or both go in steps of two and never meet. -/
def misses (run : CapitalRun) (first last step : Nat) : Bool :=
  Nat.blt (run.smallCode run.last) first || Nat.blt last (run.smallCode run.first) ||
    ((Nat.beq run.step 2 || Nat.beq run.first run.last) && Nat.beq step 2 &&
      Nat.beq ((run.smallCode run.first + first) % 2) 1)

/-- The codes of small letters are codes of characters, from that of the letter a on. -/
theorem smallCode_range : ∀ run ∈ capitalsBeyondAscii, 0x61 ≤ run.first + run.shift ∧
    (run.smallCode run.last < 0xD800 ∨
      0xDFFF < run.smallCode run.first ∧ run.smallCode run.last < 0x110000) := by
  decide +kernel

/-- Small letters are no blanks: the first is none, and no bound of the blanks lies behind it. -/
theorem smallCode_blanks : ∀ run ∈ capitalsBeyondAscii,
    CharSet.holdsFrom (run.smallCode run.first) false blanks.bounds = false ∧
    ∀ b ∈ blanks.bounds, b ≤ run.smallCode run.first ∨ run.smallCode run.last < b := by
  decide +kernel

/-- Small letters are no capitals of the table, nor the dotted capital I. -/
theorem smallCode_misses :
    (capitalsBeyondAscii.all fun run => run.misses 0x130 0x130 1 &&
      capitalsBeyondAscii.all fun other => run.misses other.first other.last other.step) = true := by
  decide +kernel

theorem contains_iff : run.contains n ↔
    run.first ≤ n ∧ n ≤ run.last ∧ (n - run.first) % run.step = 0 := by
  simp [contains, and_assoc]

theorem smallCode_between (hrun : run ∈ capitalsBeyondAscii) (hn : run.contains n) :
    run.smallCode run.first ≤ run.smallCode n ∧ run.smallCode n ≤ run.smallCode run.last := by
  have habove := (smallCode_range run hrun).1
  obtain ⟨hfirst, hlast, -⟩ := contains_iff.1 hn
  unfold smallCode
  omega

theorem smallCode_ge (hrun : run ∈ capitalsBeyondAscii) (hn : run.contains n) :
    0x61 ≤ run.smallCode n := by
  have habove := (smallCode_range run hrun).1
  obtain ⟨hfirst, -, -⟩ := contains_iff.1 hn
  unfold smallCode
  omega

theorem isValidChar_smallCode (hrun : run ∈ capitalsBeyondAscii) (hn : run.contains n) :
    (run.smallCode n).isValidChar := by
  have hrange := (smallCode_range run hrun).2
  have hbetween := smallCode_between hrun hn
  unfold Nat.isValidChar
  omega

theorem not_mem_of_misses (hrun : run ∈ capitalsBeyondAscii) (hn : run.contains n)
    {first last step : Nat} (h : run.misses first last step) :
    ¬ (first ≤ run.smallCode n ∧ run.smallCode n ≤ last ∧
      (run.smallCode n - first) % step = 0) := by
  have habove := (smallCode_range run hrun).1
  have hbetween := smallCode_between hrun hn
  obtain ⟨hfirst, hlast, hmod⟩ := contains_iff.1 hn
  simp only [misses, Bool.or_eq_true, Bool.and_eq_true, Nat.blt_eq, Nat.beq_eq] at h
  rcases h with (hbelow | hbeyond) | ⟨⟨hstep | hone, rfl⟩, hodd⟩
  · omega
  · omega
  · rw [hstep] at hmod
    unfold smallCode at *
    omega
  · unfold smallCode at *
    omega

end CapitalRun

/-! ## Single characters -/

/-- A small letter, as lower-casing puts it for a capital. -/
structure IsSmall (d : Char) : Prop where
  settled : smallLetters d = [d]
  notBlank : isBlank d = false
  fromA : 0x61 ≤ d.toNat

theorem toLower_of_beyondZ (h : 0x5B ≤ c.toNat) : c.toLower = c := by
  refine dif_neg fun hupper => ?_
  have hle : c.toNat ≤ 0x5A := UInt32.le_iff_toNat_le.1 hupper.2
  omega

theorem toLower_ascii (hc : c.toNat < 0x80) :
    c.toLower = c ∨ 0x61 ≤ c.toLower.toNat ∧ c.toLower.toNat < 0x80 := by
  have hall : ∀ n < 0x80, (Char.ofNat n).toLower = Char.ofNat n ∨
      0x61 ≤ (Char.ofNat n).toLower.toNat ∧ (Char.ofNat n).toLower.toNat < 0x80 := by decide
  simpa using hall c.toNat hc

theorem toLower_toLower (c : Char) : c.toLower.toLower = c.toLower := by
  by_cases hc : c.toNat < 0x80
  · rcases toLower_ascii hc with hsame | ⟨hfrom, -⟩
    · rw [hsame, hsame]
    · exact toLower_of_beyondZ (by omega)
  · rw [toLower_of_beyondZ (c := c) (by omega), toLower_of_beyondZ (by omega)]

theorem smallLetters_ascii (h : c.toNat < 0x80) : smallLetters c = [c.toLower] := if_pos h

theorem toLower_of_settled (h : smallLetters c = [c]) : c.toLower = c := by
  by_cases hc : c.toNat < 0x80
  · simpa [smallLetters_ascii hc] using h
  · exact toLower_of_beyondZ (by omega)

theorem isBlank_between {low : Nat} (hlow : low ≤ c.toNat)
    (hfirst : CharSet.holdsFrom low false blanks.bounds = false)
    (h : ∀ b ∈ blanks.bounds, b ≤ low ∨ c.toNat < b) : isBlank c = false := by
  rw [isBlank, CharSet.contains, CharSet.holdsFrom_between hlow h, hfirst]

/-- The signs of ASCII from the letter a on are settled and no blanks. -/
theorem isSmall_ascii (hfrom : 0x61 ≤ c.toNat) (hc : c.toNat < 0x80) : IsSmall c where
  settled := by rw [smallLetters_ascii hc, toLower_of_beyondZ (by omega)]
  notBlank := by
    refine isBlank_between hfrom (by decide) fun b hb => ?_
    have : ∀ b ∈ blanks.bounds, b ≤ 0x61 ∨ 0x80 ≤ b := by decide
    have := this b hb
    omega
  fromA := hfrom

open CapitalRun in
/-- The small letters of the table are settled and no blanks. -/
theorem isSmall_of_mem (hrun : run ∈ capitalsBeyondAscii) (hn : run.contains n) :
    IsSmall (Char.ofNat (run.smallCode n)) := by
  have hcode : (Char.ofNat (run.smallCode n)).toNat = run.smallCode n := by
    rw [Char.ofNat, dif_pos (isValidChar_smallCode hrun hn)]
    rfl
  have hge : 0x61 ≤ run.smallCode n := smallCode_ge hrun hn
  by_cases hascii : run.smallCode n < 0x80
  · exact isSmall_ascii (by omega) (by omega)
  have hmisses := List.all_eq_true.1 smallCode_misses run hrun
  rw [Bool.and_eq_true, List.all_eq_true] at hmisses
  refine ⟨?_, ?_, by omega⟩
  · have hdotted : run.smallCode n ≠ 0x130 := by
      have := not_mem_of_misses hrun hn hmisses.1
      omega
    have hcapital : ∀ other ∈ capitalsBeyondAscii, ¬ other.contains (run.smallCode n) :=
      fun other hother hcontains =>
        not_mem_of_misses hrun hn (hmisses.2 other hother) (contains_iff.1 hcontains)
    simp [smallLetters, hcode, hascii, hdotted, List.find?_eq_none.2 hcapital]
  · obtain ⟨hfirst, hbounds⟩ := smallCode_blanks run hrun
    obtain ⟨hlow, hhigh⟩ := smallCode_between hrun hn
    refine isBlank_between (by omega) hfirst fun b hb => ?_
    have := hbounds b hb
    omega

/-- What lower-casing puts for a character: the character itself, if it is settled, or small
    letters. -/
def Lowers (c : Char) (small : List Char) : Prop :=
  small = [c] ∧ smallLetters c = [c] ∨ small ≠ [] ∧ ∀ d ∈ small, IsSmall d

theorem Lowers.ne_nil {small : List Char} (h : Lowers c small) : small ≠ [] := by
  rcases h with ⟨rfl, -⟩ | ⟨hne, -⟩
  · simp
  · exact hne

theorem lowers_ascii (hc : c.toNat < 0x80) : Lowers c [c.toLower] := by
  rcases toLower_ascii hc with hsame | ⟨hfrom, hto⟩
  · exact .inl ⟨by rw [hsame], by rw [smallLetters_ascii hc, hsame]⟩
  · exact .inr (by simp [isSmall_ascii hfrom hto])

theorem lowers_smallLetters (c : Char) : Lowers c (smallLetters c) := by
  by_cases hascii : c.toNat < 0x80
  · exact smallLetters_ascii hascii ▸ lowers_ascii hascii
  by_cases hdotted : c.toNat = 0x130
  · have hc : c = 'İ' := Char.toNat_inj.1 hdotted
    subst hc
    have hdot : IsSmall (Char.ofNat 0x307) := ⟨by decide +kernel, by decide, by decide⟩
    exact .inr (by simp [smallLetters, isSmall_ascii, hdot])
  rcases hfind : capitalsBeyondAscii.find? (·.contains c.toNat) with _ | run
  · have hsettled : smallLetters c = [c] := by simp [smallLetters, hascii, hdotted, hfind]
    exact .inl ⟨hsettled, hsettled⟩
  · have hsmall : smallLetters c = [Char.ofNat (run.smallCode c.toNat)] := by
      simp [smallLetters, hascii, hdotted, hfind, CapitalRun.smallCode]
    have hcontains : run.contains c.toNat := by simpa using List.find?_some hfind
    have his := isSmall_of_mem (List.mem_of_find?_eq_some hfind) hcontains
    exact .inr (by simp [hsmall, his])

/-! ## Texts -/

/-- Lower-casing a text goes character by character. -/
theorem lowerCaseAfter_cons (before : List Char) (c : Char) (after : List Char) :
    ∃ small, Lowers c small ∧
      lowerCaseAfter before (c :: after) = small ++ lowerCaseAfter (c :: before) after := by
  by_cases hsigma : c = 'Σ'
  · subst hsigma
    by_cases hfinal : nearestIsCased before && !nearestIsCased after
    · have hsmall : IsSmall 'ς' := ⟨by decide +kernel, by decide, by decide⟩
      exact ⟨['ς'], .inr (by simp [hsmall]), by simp [lowerCaseAfter, hfinal]⟩
    · have hsmall : IsSmall 'σ' := ⟨by decide +kernel, by decide, by decide⟩
      exact ⟨['σ'], .inr (by simp [hsmall]), by simp [lowerCaseAfter, hfinal]⟩
  · exact ⟨smallLetters c, lowers_smallLetters c, by simp [lowerCaseAfter, hsigma]⟩

@[simp] theorem lowerCaseAfter_eq_nil : lowerCaseAfter before cs = [] ↔ cs = [] := by
  cases cs with
  | nil => simp [lowerCaseAfter]
  | cons c after =>
    obtain ⟨small, hlowers, heq⟩ := lowerCaseAfter_cons before c after
    simp [heq, hlowers.ne_nil]

/-- All that lower-casing leaves is settled. -/
theorem settled_of_mem_lowerCaseAfter (hd : d ∈ lowerCaseAfter before cs) :
    smallLetters d = [d] := by
  induction cs generalizing before with
  | nil => simp [lowerCaseAfter] at hd
  | cons c after ih =>
    obtain ⟨small, hlowers, heq⟩ := lowerCaseAfter_cons before c after
    rw [heq, List.mem_append] at hd
    rcases hd with hsmall | hafter
    · rcases hlowers with ⟨rfl, hsettled⟩ | ⟨-, hall⟩
      · rwa [List.mem_singleton.1 hsmall]
      · exact (hall d hsmall).settled
    · exact ih hafter

theorem map_toLower_lowerCaseAfter (before cs : List Char) :
    (lowerCaseAfter before cs).map Char.toLower = lowerCaseAfter before cs :=
  (List.map_congr_left fun _ hd => toLower_of_settled (settled_of_mem_lowerCaseAfter hd)).trans
    (List.map_id _)

/-- Lower-casing is that of ASCII exactly where no capital beyond ASCII stands. -/
theorem lowerCaseAfter_eq_map (before : List Char) :
    lowerCaseAfter before cs = cs.map Char.toLower ↔
      ∀ c ∈ cs, 0x80 ≤ c.toNat → smallLetters c = [c] := by
  constructor
  · intro h c hc hbeyond
    have hkept : c.toLower = c := toLower_of_beyondZ (by omega)
    have hmem : c ∈ lowerCaseAfter before cs := by
      rw [h, ← hkept]
      exact List.mem_map_of_mem hc
    exact settled_of_mem_lowerCaseAfter hmem
  · intro h
    induction cs generalizing before with
    | nil => rfl
    | cons c after ih =>
      obtain ⟨hfirst, hafter⟩ := List.forall_mem_cons.1 h
      have hsmall : smallLetters c = [c.toLower] := by
        by_cases hascii : c.toNat < 0x80
        · exact smallLetters_ascii hascii
        · have hsettled := hfirst (by omega)
          rw [toLower_of_settled hsettled, hsettled]
      have hsigma : c ≠ 'Σ' := by
        rintro rfl
        exact absurd (hfirst (by decide)) (by decide +kernel)
      simp [lowerCaseAfter, hsigma, hsmall, ih _ hafter]

theorem lowerCaseAfter_of_settled (h : ∀ c ∈ cs, smallLetters c = [c]) :
    lowerCaseAfter before cs = cs := by
  rw [(lowerCaseAfter_eq_map before).2 fun c hc _ => h c hc]
  exact (List.map_congr_left fun c hc => toLower_of_settled (h c hc)).trans (List.map_id cs)

/-- Lower-casing a second time does nothing more. -/
theorem lowerCase_lowerCase (s : String) : lowerCase (lowerCase s) = lowerCase s := by
  rw [lowerCase, lowerCaseAfter_of_settled, String.ofList_toList]
  intro d hd
  rw [lowerCase, String.toList_ofList] at hd
  exact settled_of_mem_lowerCaseAfter hd

theorem head?_lowerCaseAfter (h : (lowerCaseAfter before cs).head? = some d) :
    cs.head? = some d ∨ IsSmall d := by
  cases cs with
  | nil => simp [lowerCaseAfter] at h
  | cons c after =>
    obtain ⟨small, ⟨rfl, -⟩ | ⟨hne, hall⟩, heq⟩ := lowerCaseAfter_cons before c after
    · left
      simpa [heq] using h
    · right
      rw [heq, List.head?_append_of_ne_nil _ hne] at h
      exact hall d (List.mem_of_head? h)

theorem getLast?_lowerCaseAfter (h : (lowerCaseAfter before cs).getLast? = some d) :
    cs.getLast? = some d ∨ IsSmall d := by
  induction cs generalizing before with
  | nil => simp [lowerCaseAfter] at h
  | cons c after ih =>
    obtain ⟨small, hlowers, heq⟩ := lowerCaseAfter_cons before c after
    cases after with
    | nil =>
      rw [heq, lowerCaseAfter, List.append_nil] at h
      rcases hlowers with ⟨rfl, -⟩ | ⟨-, hall⟩
      · left
        simpa using h
      · exact .inr (hall d (List.mem_of_getLast? h))
    | cons next after =>
      rw [heq, List.getLast?_append_of_ne_nil _ (by simp)] at h
      rw [List.getLast?_cons_cons]
      exact ih h

theorem lowerCaseAfter_eq_singleton (h : lowerCaseAfter before cs = [d]) :
    cs = [d] ∨ IsSmall d := by
  cases cs with
  | nil => simp [lowerCaseAfter] at h
  | cons c after =>
    obtain ⟨small, hlowers, heq⟩ := lowerCaseAfter_cons before c after
    rw [heq, List.append_eq_singleton_iff] at h
    rcases h with ⟨hnil, -⟩ | ⟨rfl, hafter⟩
    · exact absurd hnil hlowers.ne_nil
    · rw [lowerCaseAfter_eq_nil.1 hafter]
      rcases hlowers with ⟨hsame, -⟩ | ⟨-, hall⟩
      · exact .inl hsame.symm
      · exact .inr (hall d List.mem_cons_self)

end Repeater.Text
