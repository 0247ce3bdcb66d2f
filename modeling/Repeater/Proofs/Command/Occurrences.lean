/-
  Repeater/Proofs/Command/Occurrences.lean
  ========================================
  **What a command line says on steps.**

  This is told from the arguments alone (`given`): after the command, an option of a step has the
  next argument as its value, or what follows an equals sign, and nothing after `--` is an option.
  The equations say what one argument adds to it: a long option goes by its name up to the equals
  sign (`occurrences_long`), and any other argument begins nothing (`occurrences_other`).
-/
import Repeater.Command.Arguments

namespace Repeater.Command

open Text

/-! ## What a line says -/

/-- An option of a step with its value. -/
inductive Occurrence where
  | click (selector : String)
  | add (text : String)
deriving DecidableEq, Repr

/-- The step that is meant. -/
def Occurrence.step : Occurrence → Except UsageError Step
  | click selector => .ok (.click selector)
  | add text => (Addition.ofText text).map .add

/-- The occurrences that an option with a value comes to. -/
def Valued.occurrences : Valued → String → List Occurrence
  | config, _ => []
  | click, selector => [.click selector]
  | add, text => [.add text]

/-- The options of steps. -/
def stepOption? : String → Option Valued
  | "--click" => some .click
  | "--add" => some .add
  | _ => none

/-- The text up to the first equals sign, and the text after it if there is one. -/
def cut (cs : List Char) : List Char × Option String :=
  match splitFirst? '=' cs with
  | some (before, after) => (before, some (String.ofList after))
  | none => (cs, none)

/-- The option of a step that an argument begins, with the value attached to it. -/
def begun? (arg : String) : Option (Valued × Option String) :=
  let (name, attached) := cut arg.toList
  (stepOption? (String.ofList name)).map (·, attached)

/-- The options of steps among the arguments of `render`. -/
def occurrences : List String → List Occurrence
  | [] => []
  | arg :: rest =>
    if arg = "--" then []
    else match begun? arg with
      | none => occurrences rest
      | some (v, some value) => v.occurrences value ++ occurrences rest
      | some (v, none) =>
        match rest with
        | [] => []
        | value :: others => v.occurrences value ++ occurrences others

/-- The options of steps on a command line: they stand after the command. -/
def given (args : List String) : List Occurrence :=
  occurrences ((args.dropWhile (· ≠ "render")).drop 1)

/-- What an option comes to, together with the arguments after it: the first of these is its value
    when none is attached. -/
def following : Valued → Option String → List String → List Occurrence
  | .config, _, args => occurrences args
  | v, some value, args => v.occurrences value ++ occurrences args
  | v, none, value :: args => v.occurrences value ++ occurrences args
  | _, none, [] => []

/-! ## Arguments one by one -/

section Arguments

variable {arg : String} {body : List Char}

theorem cut_fst_append (cs : List Char) : ∃ after, cs = (cut cs).1 ++ after := by
  rw [cut]
  cases h : splitFirst? '=' cs with
  | none => exact ⟨[], (List.append_nil cs).symm⟩
  | some parts => exact ⟨_, (splitFirst?_eq_some.1 h).2⟩

theorem cut_hyphens (body : List Char) :
    cut ('-' :: '-' :: body) = ('-' :: '-' :: (cut body).1, (cut body).2) := by
  cases h : splitFirst? '=' body with
  | none =>
    have hhyphens : splitFirst? '=' ('-' :: '-' :: body) = none := by
      simpa [splitFirst?_eq_none] using h
    simp [cut, h, hhyphens]
  | some parts =>
    obtain ⟨before, after⟩ := parts
    have hhyphens : splitFirst? '=' ('-' :: '-' :: body) = some ('-' :: '-' :: before, after) := by
      simpa [splitFirst?_eq_some] using h
    simp [cut, h, hhyphens]

theorem stepOption?_eq_none (hclick : arg ≠ "--click") (hadd : arg ≠ "--add") :
    stepOption? arg = none := by
  rw [stepOption?.eq_def]
  split
  · contradiction
  · contradiction
  · rfl

theorem eq_config_of_longOption? {name : String} {v : Valued} (hclick : name ≠ "click")
    (hadd : name ≠ "add") (h : longOption? name = some (.valued v)) : v = .config := by
  rw [longOption?.eq_def] at h
  split at h <;> cases h <;> first | rfl | contradiction

theorem stepOption?_hyphens (name : String) :
    stepOption? ("--" ++ name) =
      match longOption? name with
      | some (.valued .click) => some .click
      | some (.valued .add) => some .add
      | _ => none := by
  by_cases hclick : name = "click"
  · subst hclick
    rfl
  by_cases hadd : name = "add"
  · subst hadd
    rfl
  have hnone : stepOption? ("--" ++ name) = none := by
    apply stepOption?_eq_none
    · intro h
      exact hclick ((String.append_right_inj "--").1 h)
    · intro h
      exact hadd ((String.append_right_inj "--").1 h)
  rw [hnone]
  split
  · next h => cases eq_config_of_longOption? hclick hadd h
  · next h => cases eq_config_of_longOption? hclick hadd h
  · rfl

theorem begun?_long (harg : arg.toList = '-' :: '-' :: body) :
    begun? arg =
      match longOption? (String.ofList (cut body).1) with
      | some (.valued .click) => some (.click, (cut body).2)
      | some (.valued .add) => some (.add, (cut body).2)
      | _ => none := by
  have hname : String.ofList ('-' :: '-' :: (cut body).1) = "--" ++ String.ofList (cut body).1 := by
    apply String.toList_inj.1
    simp
  simp only [begun?, harg, cut_hyphens, hname, stepOption?_hyphens]
  split <;> rfl

/-- The name of an option that is none of a step passes, and so does the value attached to it. -/
theorem occurrences_long (harg : arg.toList = '-' :: '-' :: body) (hbody : body ≠ [])
    (args : List String) :
    occurrences (arg :: args) =
      match longOption? (String.ofList (cut body).1) with
      | some (.valued v) => following v (cut body).2 args
      | _ => occurrences args := by
  have hne : arg ≠ "--" := by
    rintro rfl
    cases harg
    exact hbody rfl
  rw [occurrences, if_neg hne, begun?_long harg]
  generalize (cut body).2 = attached
  rcases longOption? (String.ofList (cut body).1) with _ | switch | _ | _ | _ <;>
    rcases attached with _ | value <;> cases args <;> rfl

/-- An argument that does not start with two hyphens begins no option of a step. -/
theorem occurrences_other (harg : ∀ body, arg.toList ≠ '-' :: '-' :: body) (args : List String) :
    occurrences (arg :: args) = occurrences args := by
  have hne : arg ≠ "--" := by
    rintro rfl
    exact harg [] rfl
  have hbegun : begun? arg = none := by
    obtain ⟨after, hafter⟩ := cut_fst_append arg.toList
    have hname : ∀ name : List Char, (cut arg.toList).1 ≠ '-' :: '-' :: name := by
      intro name h
      exact harg (name ++ after) (by rw [hafter, h]; rfl)
    simp only [begun?, Option.map_eq_none_iff]
    apply stepOption?_eq_none
    · intro h
      exact hname _ (String.ofList_inj.1 h)
    · intro h
      exact hname _ (String.ofList_inj.1 h)
  rw [occurrences, if_neg hne, hbegun]

end Arguments

end Repeater.Command
