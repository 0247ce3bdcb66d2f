/-
  Repeater/Proofs/Hook/Effects.lean
  =================================
  **What hooks do to the tree.**

  A hook may fail at any point, but what it has done to the tree by then stays within a relation.
  Two kinds of hooks occur in the theory. `Tame` hooks edit the tree by its operations; hook code is
  tame when the callbacks are, since the methods it calls are operations (`Program.tame`).
  `Still` hooks leave the tree alone.
-/
import Repeater.Hook.Run
import Repeater.Proofs.Dom.Operations

namespace Repeater.Hook

open Dom Tree

variable {ε σ α : Type} {R : Tree → Tree → Prop}

/-- A relation between trees, taken between stages. -/
def OnTree (R : Tree → Tree → Prop) (before after : Stage σ) : Prop := R before.tree after.tree

instance [IsPreorder Tree R] : IsPreorder (Stage σ) (OnTree R) where
  refl stage := refl_of R stage.tree
  trans _ _ _ := fun h h' => trans_of R h h'

/-! ## Steps -/

theorem keeps_edit {refused : DomError → ε} {change : Edit α} (h : Keeps R change) :
    Keeps (OnTree R) (Act.edit refused change : Act ε σ α) := fun stage => h stage.tree

variable [IsPreorder Tree R]

theorem keeps_talk (words : StateM (Outside σ) α) :
    Keeps (OnTree R) (Act.talk words : Act ε σ α) := fun stage => refl_of R stage.tree

theorem keeps_log (line : LogLine) : Keeps (OnTree R) (Act.log line : Act ε σ Unit) :=
  keeps_talk _

omit [IsPreorder Tree R] in
theorem keeps_adapt {ε' : Type} (f : ε → ε') {act : Act ε σ α} (h : Keeps (OnTree R) act) :
    Keeps (OnTree R) (ExceptT.adapt f act : Act ε' σ α) := by
  intro stage
  rw [exec_adapt]
  exact h stage

/-! ## Registered hooks and callbacks -/

/-- Whatever the hook sees, it stays within the relation. -/
def Routine.Within (R : Tree → Tree → Prop) (routine : Routine σ) : Prop :=
  ∀ context, Keeps (OnTree R) (routine context)

/-- Whatever the callback sees and is given, it stays within the relation. -/
def Callback.Within (R : Tree → Tree → Prop) (callback : Callback σ) : Prop :=
  ∀ context values, Keeps (OnTree R) (callback context values)

/-- All registered hooks of a scope stay within the relation. -/
def Routines.Within (R : Tree → Tree → Prop) (routines : Routines σ) : Prop :=
  ∀ phase routine, routines.on phase = some routine → routine.Within R

/-- All registered callbacks stay within the relation. -/
def Callbacks.Within (R : Tree → Tree → Prop) (callbacks : Callbacks σ) : Prop :=
  ∀ entry ∈ callbacks.entries, Callback.Within R entry.2

omit [IsPreorder Tree R] in
theorem Routines.within_of_none {routines : Routines σ}
    (h : Phase.all.all fun phase => (routines.on phase).isNone) : routines.Within R := by
  intro phase routine hroutine
  have hphase : phase ∈ Phase.all := by cases phase <;> decide
  have hnone := List.all_eq_true.1 h phase hphase
  simp [hroutine] at hnone

omit [IsPreorder Tree R] in
theorem Routines.within_empty : ({} : Routines σ).Within R := within_of_none rfl

omit [IsPreorder Tree R] in
theorem Routines.Within.merge {routines newer : Routines σ} (h : routines.Within R)
    (hnewer : newer.Within R) : (routines.merge newer).Within R := by
  intro phase routine hroutine
  have hor : (routines.merge newer).on phase = (newer.on phase).or (routines.on phase) := by
    cases phase <;> rfl
  rw [hor] at hroutine
  rcases Option.or_eq_some_iff.1 hroutine with hroutine | ⟨-, hroutine⟩
  · exact hnewer phase routine hroutine
  · exact h phase routine hroutine

omit [IsPreorder Tree R] in
theorem Callbacks.Within.register {callbacks : Callbacks σ} (h : callbacks.Within R) {name : String}
    {callback : Callback σ} (hcallback : callback.Within R) :
    (callbacks.register name callback).Within R := by
  intro entry hentry
  rcases List.mem_cons.1 hentry with rfl | hentry
  · exact hcallback
  · exact h entry (List.mem_of_mem_filter hentry)

/-- A hook that edits the tree by its operations. -/
abbrev Routine.Tame (routine : Routine σ) : Prop := routine.Within Edited

abbrev Callback.Tame (callback : Callback σ) : Prop := callback.Within Edited

/-- A hook that leaves the tree alone. -/
abbrev Routine.Still (routine : Routine σ) : Prop := routine.Within Eq

abbrev Callback.Still (callback : Callback σ) : Prop := callback.Within Eq

theorem Routine.Within.mono {R S : Tree → Tree → Prop} (hsub : ∀ t t', R t t' → S t t')
    {routine : Routine σ} (h : routine.Within R) : routine.Within S :=
  fun context stage => hsub _ _ (h context stage)

theorem Routines.Within.mono {R S : Tree → Tree → Prop} (hsub : ∀ t t', R t t' → S t t')
    {routines : Routines σ} (h : routines.Within R) : routines.Within S :=
  fun phase routine hroutine => (h phase routine hroutine).mono hsub

/-! ## Hook code -/

theorem edits_of_operation {change : Edit α} (operation : Operation)
    (h : ∀ t, (exec change t).2 = operation.apply t) : Keeps Edited change := by
  intro t
  rw [h]
  exact .one t operation

theorem ElementMethod.edits_apply (method : ElementMethod) (target : NodeId)
    (arguments : List String) : Keeps Edited (method.apply target arguments) := by
  have hset (name value : String) : Keeps Edited (Edit.setAttribute target name value) :=
    edits_of_operation (.setAttribute target name value) fun _ => rfl
  unfold ElementMethod.apply
  cases method with
  | setAttribute => exact hset _ _
  | removeAttribute =>
    let operation := Operation.removeAttribute target (arguments.getD 0 "")
    refine Keeps.bind (edits_of_operation operation fun t => ?_)
      fun _ => Keeps.pure _
    unfold Operation.apply Operation.run
    rw [exec_discard]
  | setText =>
    let operation := Operation.setText target (arguments.getD 0 "")
    exact edits_of_operation operation fun _ => rfl
  | addClass => exact Keeps.get_bind fun _ => hset _ _
  | removeClass => exact Keeps.get_bind fun _ => hset _ _

/-- A call does no more than what it may do to the host, the log, the elements and the callbacks. -/
theorem Callee.keeps_call {S : Stage σ → Stage σ → Prop} [IsPreorder (Stage σ) S]
    {setting : Setting σ}
    (halert : ∀ message, Keeps S (Act.talk (setting.context.host.alert message) : Act Error σ Unit))
    (hlog : ∀ line, Keeps S (Act.log line : Act Error σ Unit))
    (hcallbacks : ∀ entry ∈ setting.callbacks.entries, ∀ context values,
      Keeps S (entry.2 context values))
    (parameters : List String) (values : List Value) (callee : Callee)
    (hmethod : ∀ receiver action, callee = .method receiver action → ∀ target arguments,
      Keeps S (Act.edit .dom (action.apply target arguments) : Act Error σ Unit)) :
    Keeps S (callee.call setting parameters values) := by
  have htree : Keeps S (Act.tree : Act Error σ Tree) := fun stage => refl_of S stage
  cases callee with
  | alert => exact Keeps.bind htree fun _ => halert _
  | console level => exact Keeps.bind htree fun _ => hlog _
  | method receiver action =>
    simp only [Callee.call]
    split
    · exact Keeps.throw _
    · exact Keeps.bind htree fun _ => hmethod receiver action rfl _ _
  | callback name =>
    simp only [Callee.call]
    split
    · exact Keeps.throw _
    · next routine hroutine =>
      obtain ⟨before, after, hentries, -⟩ := List.lookup_eq_some_iff.1 hroutine
      intro stage
      rw [exec_adapt]
      exact hcallbacks (name, routine) (by simp [hentries]) _ _ stage

/-- A program does no more than its calls. -/
theorem Program.keeps_run {S : Stage σ → Stage σ → Prop} [IsPreorder (Stage σ) S]
    {setting : Setting σ} (program : Program)
    (hcall : ∀ s ∈ program.statements, ∀ values,
      Keeps S (s.callee.call setting program.parameters values)) :
    Keeps S (program.run setting) := by
  apply Keeps.forM
  intro s hs
  unfold Statement.run
  exact Keeps.bind (Keeps.ofExcept _) fun values => hcall s hs values

/-- Whether hook code stays within the relation, whatever it sees. -/
def Program.Within (R : Tree → Tree → Prop) (callbacks : Callbacks σ) (program : Program) : Prop :=
  ∀ context, Keeps (OnTree R) (program.run ⟨context, callbacks, context.arguments⟩)

theorem Program.Within.mono {R S : Tree → Tree → Prop} (hsub : ∀ t t', R t t' → S t t')
    {callbacks : Callbacks σ} {program : Program} (h : program.Within R callbacks) :
    program.Within S callbacks := fun context stage => hsub _ _ (h context stage)

/-- Hook code stays within what the callbacks and the methods that it calls stay within. -/
theorem Program.within_of_callees {callbacks : Callbacks σ} (h : callbacks.Within R)
    (program : Program) (hmethod : ∀ s ∈ program.statements, ∀ receiver action,
      s.callee = .method receiver action →
        ∀ target arguments, Keeps R (action.apply target arguments)) :
    program.Within R callbacks := by
  intro context
  apply Program.keeps_run
  intro s hs values
  refine Callee.keeps_call (fun _ => keeps_talk _) keeps_log ?_ _ _ _ ?_
  · exact h
  · exact fun receiver action hcallee target arguments =>
      keeps_edit (hmethod s hs receiver action hcallee target arguments)

/-- Hook code is tame when the callbacks are. -/
theorem Program.tame {callbacks : Callbacks σ} (h : callbacks.Within Edited) (program : Program) :
    program.Within Edited callbacks :=
  program.within_of_callees h fun _ _ _ action _ => action.edits_apply

/-- Hook code that calls no methods of elements does to the tree what the callbacks do. -/
theorem Program.within_of_no_methods {callbacks : Callbacks σ} (h : callbacks.Within R)
    (program : Program)
    (hnone : ∀ s ∈ program.statements, ∀ receiver action, s.callee ≠ .method receiver action) :
    program.Within R callbacks :=
  program.within_of_callees h fun s hs receiver action hcallee =>
    absurd hcallee (hnone s hs receiver action)

end Repeater.Hook
