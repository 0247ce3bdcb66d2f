/-
  Repeater/Proofs/Hook/Readings.lean
  ==================================
  **Readings that end.**

  A reading by positions may end with a value, be refused, miss, or never end. `Ends` tells how it
  ends and where.

  `Follows` relates it to a reading of lists, which gives what is left of the list: the two have the
  same outcome, the position always being the one of what is left. A reading that follows another
  one has neither missed nor gone on for ever. Readings follow step by step (`Follows.step`,
  `Follows.bind_read`).
-/
import Repeater.Hook.Positions

namespace Repeater.Hook

variable {σ τ α β : Type} {state after : σ}

/-! ## Ends -/

/-- Run from a state, the reading ends with the outcome and leaves the other state. -/
def Ends (program : Reading σ α) (state : σ) (outcome : Except Stop α) (after : σ) : Prop :=
  program.run.run state = some (outcome, after)

namespace Ends

variable {program : Reading σ α} {next : α → Reading σ β} {stop : Stop} {a : α}
  {outcome : Except Stop β} {last : σ}

theorem pure (a : α) (state : σ) : Ends (pure a) state (.ok a) state := rfl

theorem throw (stop : Stop) (state : σ) :
    Ends (throw stop : Reading σ α) state (.error stop) state := rfl

theorem get (state : σ) : Ends get state (.ok state) state := rfl

theorem modify (f : σ → σ) (state : σ) : Ends (modify f) state (.ok ⟨⟩) (f state) := rfl

theorem bind (h : Ends program state (.ok a) after) (hnext : Ends (next a) after outcome last) :
    Ends (program >>= next) state outcome last := by
  show (program.run.run state).bind (fun r => (ExceptT.bindCont next r.1).run r.2) = _
  rw [h]
  exact hnext

theorem bind_error (h : Ends program state (.error stop) after) :
    Ends (program >>= next) state (.error stop) after := by
  show (program.run.run state).bind (fun r => (ExceptT.bindCont next r.1).run r.2) = _
  rw [h]
  rfl

theorem discard (h : Ends program state (.ok a) after) :
    Ends (discard program) state (.ok ⟨⟩) after := bind h (pure _ _)

end Ends

/-! ## Readings that follow a reading of lists -/

/-- Where `rest` is left, the reading ends with the value, at the place of what is left then; or it
    is refused with the error, at a place where this error may be reported. -/
inductive Follows (place : List τ → σ) (reports : List τ → Error → Prop) (program : Reading σ α)
    (rest : List τ) : Except Error (α × List τ) → Prop where
  | value {a : α} {left : List τ} : left <:+ rest →
      Ends program (place rest) (.ok a) (place left) →
      Follows place reports program rest (.ok (a, left))
  | refused {e : Error} {left : List τ} : left <:+ rest → reports left e →
      Ends program (place rest) (.error (.refused e)) (place left) →
      Follows place reports program rest (.error e)

namespace Follows

variable {place : List τ → σ} {reports : List τ → Error → Prop} {program : Reading σ α}
  {next : α → Reading σ β} {rest left : List τ} {a : α}

theorem pure (a : α) : Follows place reports (pure a) rest (.ok (a, rest)) :=
  .value List.suffix_rfl (.pure _ _)

theorem suffix (h : Follows place reports program rest (.ok (a, left))) : left <:+ rest := by
  cases h with
  | value hleft _ => exact hleft

/-- A step, and what follows from where it leads. -/
theorem step {result : Except Error (β × List τ)}
    (h : Ends program (place rest) (.ok a) (place left)) (hleft : left <:+ rest)
    (hnext : Follows place reports (next a) left result) :
    Follows place reports (program >>= next) rest result := by
  cases hnext with
  | value hlast hends => exact .value (hlast.trans hleft) (h.bind hends)
  | refused hlast hreports hends => exact .refused (hlast.trans hleft) hreports (h.bind hends)

/-- What follows from where a first reading leads. -/
theorem bind {result : Except Error (β × List τ)}
    (h : Follows place reports program rest (.ok (a, left)))
    (hnext : Follows place reports (next a) left result) :
    Follows place reports (program >>= next) rest result := by
  cases h with
  | value hleft hends => exact step hends hleft hnext

/-- A reading that is refused is not gone on with. -/
theorem bind_error {e : Error} (h : Follows place reports program rest (.error e)) :
    Follows place reports (program >>= next) rest (.error e) := by
  cases h with
  | refused hleft hreports hends => exact .refused hleft hreports hends.bind_error

/-- Readings are followed one after the other. -/
theorem bind_read {read : Except Error (α × List τ)}
    {more : α × List τ → Except Error (β × List τ)}
    (h : Follows place reports program rest read)
    (hnext : ∀ a left, left <:+ rest → Follows place reports (next a) left (more (a, left))) :
    Follows place reports (program >>= next) rest (read >>= more) := by
  cases h with
  | value hleft hends => exact step hends hleft (hnext _ _ hleft)
  | refused hleft hreports hends => exact bind_error (.refused hleft hreports hends)

/-- After a reading that takes the same in any case, what follows depends on the value only. -/
theorem bind_value {read : Except Error α} {more : α → Except Error (β × List τ)}
    (h : Follows place reports program rest (read.map (·, left)))
    (hnext : ∀ a, Follows place reports (next a) left (more a)) :
    Follows place reports (program >>= next) rest (read >>= more) := by
  cases read with
  | error e => exact h.bind_error
  | ok a => exact h.bind (hnext a)

/-- A reading of which the value is used. -/
theorem map {γ : Type} {result : Except Error (α × List τ)} (f : α → γ)
    (h : Follows place reports program rest result) :
    Follows place reports (program >>= fun a => Pure.pure (f a)) rest
      (result.map fun (a, left) => (f a, left)) := by
  cases h with
  | value hleft hends => exact step hends hleft (.pure _)
  | refused hleft hreports hends => exact bind_error (.refused hleft hreports hends)

end Follows

end Repeater.Hook
