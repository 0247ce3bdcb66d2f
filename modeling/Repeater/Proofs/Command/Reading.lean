/-
  Repeater/Proofs/Command/Reading.lean
  ====================================
  **Steps stand in the order of the command line.**

  The reader keeps an option back until it recognizes the next thing, and then takes it up into one
  of two lists. What is due from it (`Progress.due`) is what it keeps back and what the arguments
  still to come say. An argument takes up some of what is due and leaves the rest
  (`Progress.argument_ok`), so that an accepted line has all of it held in the end
  (`Progress.foldlM_argument`), at positions that grow, from which the steps get their order back
  (`steps_in_order`).
-/
import Repeater.Proofs.Command.Occurrences
import Repeater.Proofs.Command.Steps
import Repeater.Proofs.Run

namespace Repeater.Command

/-! ## What the reader holds, keeps back and awaits -/

namespace Progress

/-- The steps taken up so far are those of a line, and no later one can stand before them. -/
def Holds (p : Progress) (line : List (Nat × Step)) : Prop :=
  p.options.Lists line ∧ ∀ entry ∈ line, entry.1 ≤ p.position

/-- From `p` to `q` the given occurrences have been taken up, after all that was held. -/
def Takes (taken : List Occurrence) (p q : Progress) : Prop :=
  ∀ line, p.Holds line → ∃ more, q.Holds (line ++ more) ∧
    more.map (fun entry => .ok entry.2) = taken.map Occurrence.step

/-- What has been recognized with its value but not taken up. -/
def keptBack (p : Progress) : List Occurrence :=
  match p.pending with
  | some (.option v (some value)) => v.occurrences value
  | _ => []

/-- What will be taken up when the given arguments follow. -/
def due (p : Progress) (args : List String) : List Occurrence :=
  p.keptBack ++
    if p.onlyPages then []
    else match p.awaits? with
      | some v => following v none args
      | none => occurrences args

/-- An option awaits its value, but only pages may follow. -/
def Stuck (p : Progress) : Prop := p.awaits?.isSome ∧ p.onlyPages

/-- Reading an argument takes some of what is due and leaves the rest. -/
def Reads (arg : String) (p q : Progress) : Prop :=
  ∃ taken, Takes taken p q ∧ ∀ args, p.due (arg :: args) = taken ++ q.due args

/-- What was kept back has been taken up, and the given occurrences after it; nothing is kept
    back now. -/
structure Advances (taken : List Occurrence) (p q : Progress) : Prop where
  awaits : p.awaits? = none
  takes : Takes (p.keptBack ++ taken) p q
  pending : q.pending = none
  onlyPages : q.onlyPages = p.onlyPages

variable {p q r : Progress} {taken more : List Occurrence} {v : Valued} {s : Switch}

theorem holds_nil : ({} : Progress).Holds [] := ⟨Options.lists_nil, by simp⟩

theorem Takes.refl (p : Progress) : Takes [] p p := by
  intro line hline
  exact ⟨[], by simpa using hline, rfl⟩

theorem Takes.trans (h₁ : Takes taken p q) (h₂ : Takes more q r) : Takes (taken ++ more) p r := by
  intro line hline
  obtain ⟨first, hfirst, hmeant⟩ := h₁ line hline
  obtain ⟨second, hsecond, hmeant'⟩ := h₂ _ hfirst
  exact ⟨first ++ second, by simpa using hsecond, by simp [hmeant, hmeant']⟩

/-- Nothing is taken up where the lists stay and the position does not go back. -/
theorem Takes.of_lists (hlists : ∀ line, p.options.Lists line → q.options.Lists line)
    (hposition : p.position ≤ q.position) : Takes [] p q := by
  intro line hline
  refine ⟨[], ⟨?_, ?_⟩, rfl⟩
  · rw [List.append_nil]
    exact hlists line hline.1
  · intro entry hentry
    rw [List.append_nil] at hentry
    exact Nat.le_trans (hline.2 entry hentry) hposition

theorem Advances.keptBack_eq (h : Advances taken p q) : q.keptBack = [] := by
  simp [keptBack, h.pending]

theorem Advances.awaits_eq (h : Advances taken p q) : q.awaits? = none := by
  simp [awaits?, h.pending]

/-- What is taken up next, nothing being kept back any more. -/
theorem Advances.then_takes (h : Advances taken p q) (htakes : Takes more q r)
    (hpending : r.pending = q.pending) (hpages : r.onlyPages = q.onlyPages) :
    Advances (taken ++ more) p r where
  awaits := h.awaits
  takes := by
    rw [← List.append_assoc]
    exact h.takes.trans htakes
  pending := hpending.trans h.pending
  onlyPages := hpages.trans h.onlyPages

/-! ## The parts of the reader -/

/-- Taking up a value takes up what its option comes to, at a position after all others. -/
theorem takes_store {value : String} (h : p.store v value = .ok q) :
    Takes (v.occurrences value) p q ∧ q.pending = p.pending ∧ q.onlyPages = p.onlyPages := by
  have hlast {line : List (Nat × Step)} (hline : p.Holds line) :
      ∀ entry ∈ line, entry.1 < p.position + 2 := by
    intro entry hentry
    exact Nat.lt_add_right 1 (Nat.lt_succ_of_le (hline.2 entry hentry))
  have hbound {line : List (Nat × Step)} (hline : p.Holds line) (step : Step) :
      ∀ entry ∈ line ++ [(p.position + 2, step)], entry.1 ≤ p.position + 2 := by
    intro entry hentry
    rcases List.mem_append.1 hentry with hentry | hentry
    · exact Nat.le_of_lt (hlast hline entry hentry)
    · exact Nat.le_of_eq (congrArg Prod.fst (List.mem_singleton.1 hentry))
  cases v with
  | config =>
    rw [store] at h
    split at h
    · cases h
    dsimp only at h
    split at h
    · cases h
    cases h
    refine ⟨Takes.of_lists ?_ (Nat.le_add_right _ 2), rfl, rfl⟩
    intro line hline
    exact { hline with }
  | click =>
    cases h
    refine ⟨?_, rfl, rfl⟩
    intro line hline
    exact ⟨[(p.position + 2, .click value)], ⟨hline.1.click (hlast hline) value, hbound hline _⟩,
      rfl⟩
  | add =>
    obtain ⟨addition, haddition, h⟩ := bind_eq_ok.1 h
    cases h
    refine ⟨?_, rfl, rfl⟩
    intro line hline
    refine ⟨[(p.position + 2, .add addition)],
      ⟨hline.1.add (hlast hline) addition, hbound hline _⟩, ?_⟩
    simp [Valued.occurrences, Occurrence.step, haddition, Except.map]

theorem settle_ok (h : p.settle = .ok q) : Advances [] p q := by
  rw [settle] at h
  split at h
  · next hpending =>
    cases h
    have hkept : p.keptBack = [] := by simp [keptBack, hpending]
    exact ⟨by simp [awaits?, hpending], by simpa [hkept] using Takes.refl p, hpending, rfl⟩
  · cases h
  · next v value hpending =>
    obtain ⟨htakes, hnone, hpages⟩ := takes_store h
    refine ⟨by simp [awaits?, hpending], ?_, hnone, hpages⟩
    have hkept : p.keptBack = v.occurrences value := by simp [keptBack, hpending]
    rw [hkept, List.append_nil]
    exact htakes
  · next page hpending =>
    dsimp only at h
    split at h
    · cases h
    cases h
    have hkept : p.keptBack = [] := by simp [keptBack, hpending]
    refine ⟨by simp [awaits?, hpending], ?_, rfl, rfl⟩
    rw [hkept]
    apply Takes.of_lists _ (Nat.le_add_right _ 1)
    intro line hline
    exact { hline with }

theorem turnOn_ok (h : p.turnOn s = .ok q) : Advances [] p q := by
  obtain ⟨settled, hsettle, h⟩ := bind_eq_ok.1 h
  have hadvances := settle_ok hsettle
  have honce {options : Options}
      (hlists : ∀ line, settled.options.Lists line → options.Lists line) :
      Advances [] p { settled with options, position := settled.position + 1 } := by
    exact hadvances.then_takes (Takes.of_lists hlists (Nat.le_add_right _ 1)) rfl rfl
  cases s <;> dsimp only at h
  case help => cases h
  case version => cases h
  -- The other switches differ only in the one they turn on.
  all_goals
    split at h
    · cases h
    · cases h
      exact honce fun line hline => { hline with }

theorem beginOption_some {value : String} (h : p.beginOption v (some value) = .ok q) :
    Advances (v.occurrences value) p q := by
  obtain ⟨settled, hsettle, h⟩ := bind_eq_ok.1 h
  obtain ⟨htakes, hpending, hpages⟩ := takes_store h
  exact (settle_ok hsettle).then_takes htakes hpending hpages

theorem beginOption_none (h : p.beginOption v none = .ok q) :
    ∃ settled, Advances [] p settled ∧ q = { settled with pending := some (.option v none) } := by
  obtain ⟨settled, hsettle, h⟩ := bind_eq_ok.1 h
  cases h
  exact ⟨settled, settle_ok hsettle, rfl⟩

theorem plain_ok {arg : String} (h : p.plain arg = .ok q) :
    ∃ settled, Advances [] p settled ∧
      q = { settled with pending := some (.page arg), hasPage := true } := by
  rw [plain] at h
  split at h
  · cases h
  obtain ⟨settled, hsettle, h⟩ := bind_eq_ok.1 h
  cases h
  exact ⟨settled, settle_ok hsettle, rfl⟩

theorem long_eq (lookUp : String → Option Known) (p : Progress) (body : List Char) :
    p.long lookUp body =
      match lookUp (String.ofList (cut body).1) with
      | none => .error .unknownArgument
      | some (.valued v) => p.beginOption v (cut body).2
      | some (.switch s) =>
        if (cut body).2.isSome then .error .tooManyValues else p.turnOn s := by
  rw [long, cut]
  cases Text.splitFirst? '=' body <;> rfl

/-! ## One argument -/

section Reading

variable {arg : String}

theorem due_of_awaits (hpages : p.onlyPages = false) (hawaits : p.awaits? = none)
    (args : List String) : p.due args = p.keptBack ++ occurrences args := by
  simp [due, hpages, hawaits]

theorem Advances.reads (h : Advances taken p q) (hpages : p.onlyPages = false)
    (harg : ∀ args, occurrences (arg :: args) = taken ++ occurrences args) : Reads arg p q := by
  refine ⟨p.keptBack ++ taken, h.takes, ?_⟩
  intro args
  rw [due_of_awaits hpages h.awaits, due_of_awaits (h.onlyPages.trans hpages) h.awaits_eq,
    h.keptBack_eq, harg, List.append_assoc, List.nil_append]

theorem reads_of_beginOption {attached : Option String} (hpages : p.onlyPages = false)
    (harg : ∀ args, occurrences (arg :: args) = following v attached args)
    (h : p.beginOption v attached = .ok q) : Reads arg p q := by
  cases attached with
  | some value =>
    apply (beginOption_some h).reads hpages
    intro args
    rw [harg]
    cases v <;> rfl
  | none =>
    obtain ⟨settled, hadvances, rfl⟩ := beginOption_none h
    refine ⟨p.keptBack ++ [], hadvances.takes, ?_⟩
    intro args
    rw [due_of_awaits hpages hadvances.awaits, harg]
    simp [due, keptBack, awaits?, hadvances.onlyPages, hpages]

theorem reads_of_long {body : List Char} (hpages : p.onlyPages = false)
    (harg : arg.toList = '-' :: '-' :: body) (hbody : body ≠ [])
    (h : p.long longOption? body = .ok q) : Reads arg p q := by
  have hoccurrences := occurrences_long harg hbody
  rw [long_eq] at h
  split at h
  · cases h
  · next v hname =>
    apply reads_of_beginOption hpages _ h
    simpa only [hname] using hoccurrences
  · next s hname =>
    split at h
    · cases h
    · apply (turnOn_ok h).reads hpages
      simpa only [hname, List.nil_append] using hoccurrences

theorem eq_config_of_shortOption? {c : Char} (h : shortOption? c = some (.valued v)) :
    v = .config := by
  rw [shortOption?.eq_def] at h
  split at h <;> cases h
  rfl

theorem short_cons {c : Char} {cs : List Char} (h : p.short shortOption? (c :: cs) = .ok q) :
    (∃ s on, p.turnOn s = .ok on ∧ on.short shortOption? cs = .ok q) ∨
      ∃ attached, p.beginOption .config attached = .ok q := by
  rw [short.eq_def] at h
  dsimp only at h
  split at h
  · cases h
  · exact .inl ⟨_, bind_eq_ok.1 h⟩
  · next v hname =>
    cases eq_config_of_shortOption? hname
    exact .inr ⟨_, h⟩

theorem Advances.reads_trans (h : Advances [] p q) (hpages : p.onlyPages = false)
    (hreads : Reads arg q r) : Reads arg p r := by
  obtain ⟨taken, htakes, hdue⟩ := hreads
  refine ⟨p.keptBack ++ [] ++ taken, h.takes.trans htakes, ?_⟩
  intro args
  rw [List.append_assoc, List.append_assoc, ← hdue, due_of_awaits hpages h.awaits,
    due_of_awaits (h.onlyPages.trans hpages) h.awaits_eq, h.keptBack_eq]
  rfl

theorem reads_of_short {c : Char} {cs : List Char} (hpages : p.onlyPages = false)
    (harg : ∀ args, occurrences (arg :: args) = occurrences args)
    (h : p.short shortOption? (c :: cs) = .ok q) : Reads arg p q := by
  induction cs generalizing p c with
  | nil =>
    rcases short_cons h with ⟨s, on, hon, hrest⟩ | ⟨attached, h⟩
    · cases hrest
      exact (turnOn_ok hon).reads hpages harg
    · apply reads_of_beginOption hpages _ h
      exact harg
  | cons d cs ih =>
    rcases short_cons h with ⟨s, on, hon, hrest⟩ | ⟨attached, h⟩
    · have hadvances := turnOn_ok hon
      exact hadvances.reads_trans hpages (ih (hadvances.onlyPages.trans hpages) hrest)
    · apply reads_of_beginOption hpages _ h
      exact harg

/-- A page is none of the steps, and so is nothing after the last option. -/
theorem reads_of_plain (harg : p.onlyPages = false →
    ∀ args, occurrences (arg :: args) = occurrences args) (h : p.plain arg = .ok q) :
    Reads arg p q := by
  obtain ⟨settled, hadvances, rfl⟩ := plain_ok h
  refine ⟨p.keptBack ++ [], hadvances.takes, ?_⟩
  intro args
  cases hpages : p.onlyPages with
  | true => simp [due, keptBack, hpages, hadvances.onlyPages]
  | false =>
    rw [due_of_awaits hpages hadvances.awaits, harg hpages]
    simp [due, keptBack, awaits?, hadvances.onlyPages, hpages]

theorem pending_of_awaits (hawaits : p.awaits? = some v) : p.pending = some (.option v none) := by
  rw [awaits?] at hawaits
  split at hawaits
  · next hpending =>
    cases hawaits
    exact hpending
  · cases hawaits

/-- An argument that is no option is the value of the option that awaits one. -/
theorem reads_of_awaits (hpages : p.onlyPages = false) (hawaits : p.awaits? = some v)
    (harg : ∀ args, occurrences (arg :: args) = occurrences args) :
    Reads arg p { p with pending := some (.option v (some arg)) } := by
  refine ⟨[], Takes.of_lists (fun line hline => hline) (Nat.le_refl _), ?_⟩
  intro args
  have hdue : p.due (arg :: args) = following v none (arg :: args) := by
    simp [due, keptBack, hpages, hawaits, pending_of_awaits hawaits]
  rw [hdue]
  cases v with
  | config => simp [following, harg, due, keptBack, awaits?, hpages, Valued.occurrences]
  | click => simp [following, due, keptBack, awaits?, hpages]
  | add => simp [following, due, keptBack, awaits?, hpages]

/-- After two hyphens no option is to come. -/
theorem reads_of_hyphens (hpages : p.onlyPages = false) (hawaits : p.awaits? = none) :
    Reads "--" p { p with onlyPages := true } := by
  refine ⟨[], Takes.of_lists (fun line hline => hline) (Nat.le_refl _), ?_⟩
  intro args
  rw [due_of_awaits hpages hawaits, occurrences, if_pos rfl]
  simp [due, keptBack]

/-- **One argument read**: what was due is taken up or still due, unless the reader is stuck. -/
theorem argument_ok (h : p.argument arg = .ok q) : ¬p.Stuck ∧ (q.Stuck ∨ Reads arg p q) := by
  rw [argument] at h
  split at h
  · next honly =>
    obtain ⟨settled, hadvances, -⟩ := plain_ok h
    refine ⟨?_, .inr (reads_of_plain ?_ h)⟩
    · intro hstuck
      simp [Stuck, hadvances.awaits] at hstuck
    · intro hpages
      simp [hpages] at honly
  · next honly =>
    have hpages : p.onlyPages = false := by simpa using honly
    refine ⟨fun hstuck => honly hstuck.2, ?_⟩
    split at h
    · next hhyphens =>
      cases h
      -- Where an option awaits its value, two hyphens are no value, and none can come any more.
      cases hawaits : p.awaits? with
      | some v => exact .inl ⟨by simpa [awaits?] using Option.isSome_of_mem hawaits, rfl⟩
      | none =>
        have harg : arg = "--" := String.toList_inj.1 hhyphens
        subst harg
        exact .inr (reads_of_hyphens hpages hawaits)
    · next body hbody hlong => exact .inr (reads_of_long hpages hlong hbody h)
    · next c body hbody hhyphen hshort =>
      refine .inr (reads_of_short hpages (occurrences_other ?_) h)
      intro after hafter
      rw [hshort, List.cons.injEq, List.cons.injEq] at hafter
      exact hhyphen hafter.2.1
    · next hnone hlong hshort =>
      have harg := occurrences_other hlong
      right
      split at h
      · next v hawaits =>
        cases h
        exact reads_of_awaits hpages hawaits harg
      · exact reads_of_plain (fun _ => harg) h

end Reading

/-! ## All arguments -/

/-- **All arguments read**: what was due is held in the end, once the rest is taken up. That the
    reader is not stuck on the way is known from the end, where it could not take up what is
    pending. -/
theorem foldlM_argument {args : List String} (h : args.foldlM argument p = .ok q)
    (hsettle : q.settle = .ok r) : ¬p.Stuck ∧ Takes (p.due args) p r := by
  induction args generalizing p with
  | nil =>
    cases h
    have hadvances := settle_ok hsettle
    constructor
    · intro hstuck
      simp [Stuck, hadvances.awaits] at hstuck
    · have hdue : q.due [] = q.keptBack ++ [] := by
        simp [due, hadvances.awaits, occurrences]
      rw [hdue]
      exact hadvances.takes
  | cons arg args ih =>
    rw [List.foldlM_cons] at h
    obtain ⟨next, hnext, h⟩ := bind_eq_ok.1 h
    obtain ⟨hstuck, hreads⟩ := argument_ok hnext
    obtain ⟨hstuck', htakes⟩ := ih h
    refine ⟨hstuck, ?_⟩
    obtain ⟨taken, hfirst, hdue⟩ := hreads.resolve_left hstuck'
    rw [hdue]
    exact hfirst.trans htakes

end Progress

theorem renderOptions_ok {args : List String} {o : Options} (h : renderOptions args = .ok o) :
    ∃ line, o.Lists line ∧ line.map (fun entry => .ok entry.2) =
      (occurrences args).map Occurrence.step := by
  obtain ⟨p, hread, h⟩ := bind_eq_ok.1 h
  obtain ⟨settled, hsettle, h⟩ := bind_eq_ok.1 h
  have hoptions : o = settled.options := by
    dsimp only at h
    split at h <;> cases h
    rfl
  obtain ⟨-, htakes⟩ := Progress.foldlM_argument hread hsettle
  obtain ⟨line, hline, hmeant⟩ := htakes [] Progress.holds_nil
  refine ⟨line, ?_, hmeant⟩
  rw [hoptions]
  exact hline.1

/-- Before the command there are only switches, and they touch no list. -/
theorem outerArguments_ok {args : List String} {p : Progress} {o : Options}
    (h : outerArguments p args = .ok o) :
    ∃ line, o.Lists line ∧ line.map (fun entry => .ok entry.2) =
      (given args).map Occurrence.step := by
  induction args generalizing p with
  | nil => cases h
  | cons arg rest ih =>
    rw [outerArguments] at h
    split at h
    · cases h
    by_cases hrender : arg = "render"
    · subst hrender
      rw [if_pos (by rfl)] at h
      obtain ⟨options, hoptions, h⟩ := bind_eq_ok.1 h
      cases h
      obtain ⟨line, hline, hmeant⟩ := renderOptions_ok hoptions
      exact ⟨line, { hline with }, hmeant⟩
    · have hgiven : given (arg :: rest) = given rest := by
        simp [given, hrender]
      rw [if_neg (by simpa using hrender)] at h
      rw [hgiven]
      split at h
      · cases h
      split at h
      · exact ih h
      · obtain ⟨next, -, h⟩ := bind_eq_ok.1 h
        exact ih h
      · obtain ⟨next, -, h⟩ := bind_eq_ok.1 h
        exact ih h
      · cases h

/-- **Steps stand in the order of the command line.** Whatever lists with positions of their own
    the options hold, their steps are the line that these lists come from; and the options of an
    accepted command line hold such lists, whose line gives each occurrence of an option of a step
    once, in the order of the line, as the step that its own value means. -/
theorem steps_in_order :
    (∀ o : Options, o.Indexed → ∃ line, o.Lists line ∧ o.steps = line.map (·.2)) ∧
    ∀ (args : List String) (o : Options), options args = .ok o →
      o.Indexed ∧ o.steps.map .ok = (given args).map Occurrence.step := by
  constructor
  · intro o hindexed
    obtain ⟨line, hline⟩ := hindexed.exists_line
    exact ⟨line, hline, hline.steps_eq⟩
  · intro args o hoptions
    obtain ⟨line, hline, hmeant⟩ := outerArguments_ok hoptions
    refine ⟨hline.indexed, ?_⟩
    rw [hline.steps_eq, List.map_map, ← hmeant]
    rfl

/-- A command line with steps among other arguments, in both ways to give a value. -/
def mixedLine : List String :=
  ["-v", "render", "--add", "a=\x7b\"n\":\"t\"\x7d", "-c", "f", "--click=[x]", "p", "--add",
    "b=\x7b\x7d", "--click", "[y]"]

/-- What the reader makes of it. -/
def mixedOptions : Options where
  page := "p"
  config := some "f"
  clicks := ["[x]", "[y]"]
  clickPositions := [6, 11]
  additions := [⟨"a", [("n", "t")]⟩, ⟨"b", []⟩]
  additionPositions := [2, 9]
  verbose := true

theorem steps_in_order_mixed :
    mixedOptions.Indexed ∧ options mixedLine = .ok mixedOptions ∧
    (∃ line, mixedOptions.Lists line ∧ mixedOptions.steps = line.map (·.2)) ∧
    mixedOptions.steps.map .ok = (given mixedLine).map Occurrence.step ∧
    given mixedLine =
      [.add "a=\x7b\"n\":\"t\"\x7d", .click "[x]", .add "b=\x7b\x7d", .click "[y]"] := by
  have hoptions : options mixedLine = .ok mixedOptions := by decide +kernel
  obtain ⟨hindexed, hsteps⟩ := steps_in_order.2 mixedLine mixedOptions hoptions
  have hline := steps_in_order.1 mixedOptions hindexed
  exact ⟨hindexed, hoptions, hline, hsteps, by decide +kernel⟩

end Repeater.Command
