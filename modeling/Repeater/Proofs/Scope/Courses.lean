/-
  Repeater/Proofs/Scope/Courses.lean
  ==================================
  **The course that a flow takes.**

  A click that adds or deletes an item runs up to four hooks around one change of the tree. Here the
  two flows are run again with a record beside the desk (`watchAdd`, `watchDelete`), into which goes
  what has been done and what has failed. The record changes nothing about the flow it is kept of.

  What is done follows a plan that is fixed when the flow starts: the hook code and the registered
  hook of the phase before, the change, the hook code and the registered hook of the phase after,
  without those that are not there (`plan`). A flow does the first part of its plan, all of it
  exactly when it ends without an error, and every hook gets the counter that the scope had at the
  start. Code that does not compile ends a flow before it has done anything (`course_of_flows`).
-/
import Repeater.Markup.ParseTree
import Repeater.Proofs.Scope.Removing

namespace Repeater

open Dom Hook Stamp Tree

variable {σ α β : Type}

namespace Scope

/-! ## Moments and records -/

/-- What can be seen of a flow: a hook, with the counter it is given, or the change of the tree. -/
inductive Moment where
  | code (phase : Phase) (counter : Nat)
  | routine (phase : Phase) (counter : Nat)
  | change
deriving DecidableEq

/-- What a flow has done, in this order, and in what it has failed. -/
structure Record where
  done : List Moment := []
  failed : Option Moment := none
deriving DecidableEq

/-- A flow with a record beside the desk. -/
abbrev Watched (σ α : Type) := ExceptT Error (StateM (Desk σ × Record)) α

/-- A part of a flow that the record says nothing about. -/
def watch (flow : Flow σ α) : Watched σ α := fun (desk, record) =>
  let (result, desk') := exec flow desk
  (result, desk', record)

/-- A part of a flow that the record names. -/
def note (moment : Moment) (flow : Flow σ α) : Watched σ α := fun (desk, record) =>
  match exec flow desk with
  | (.ok a, desk') => (.ok a, desk', { record with done := record.done ++ [moment] })
  | (.error e, desk') => (.error e, desk', { record with failed := some moment })

/-- A part of a flow that is named if it is there, and else left out. -/
def noteIf (there : Bool) (moment : Moment) (flow : Flow σ Unit) : Watched σ Unit :=
  if there then note moment flow else pure ⟨⟩

/-- A watched flow as an activity of its scope. -/
def watchDuring (activity : Activity) (watched : Watched σ α) : Watched σ α :=
  fun (desk, record) =>
    if desk.scope.activity = .idle then
      let (result, after, record') := exec watched (desk.doing activity, record)
      (result, after.doing .idle, record')
    else (.error (.busy desk.scope.activity.name), desk, record)

/-! ## The two flows, watched -/

def watchHooks (equipment : Equipment σ) (phase : Phase) (program : Option Program)
    (occasion : Occasion) : Watched σ Unit := do
  let scope := (← get).1.scope
  let context := scope.context equipment occasion.parts occasion.items (some occasion.event)
  noteIf program.isSome (.code phase context.index) (runCode equipment program context)
  noteIf (scope.routines.on phase).isSome (.routine phase context.index)
    (runRoutine (scope.routines.on phase) context)

def watchAddItem (equipment : Equipment σ) (parts : Parts) (identifier : String) (event : Event) :
    Watched σ Unit := do
  let t ← watch Flow.tree
  let before ← watch (MonadExcept.ofExcept (compileHook t parts.trigger .preAdd))
  let after ← watch (MonadExcept.ofExcept (compileHook t parts.trigger .postAdd))
  let fragment ← watch (makeDraft parts identifier)
  let items := (← watch Flow.tree).elementChildren fragment
  let occasion : Occasion := { parts, items, event }
  watchHooks equipment .preAdd before occasion
  let _ ← note .change (Flow.edit (Edit.append parts.container fragment))
  tryCatch (watchHooks equipment .postAdd after occasion) fun failure => watch (takeOut items failure)
  watch do
    items.forM (wireDelete equipment)
    Flow.updateScope fun scope => { scope with counter := scope.counter + 1 }

/-- A click on the trigger, watched. -/
def watchAdd (equipment : Equipment σ) (event : Event) : Watched σ Unit := do
  let desk ← watch get
  let (parts, identifier) ← watch (MonadExcept.ofExcept desk.scope.resolved)
  watchDuring .adding (watchAddItem equipment parts identifier event)

def watchDeleteItem (equipment : Equipment σ) (parts : Parts) (control item : NodeId)
    (event : Event) : Watched σ Unit := do
  let t ← watch Flow.tree
  let before ← watch (MonadExcept.ofExcept (compileHook t control .preDelete))
  let after ← watch (MonadExcept.ofExcept (compileHook t control .postDelete))
  let occasion : Occasion := { parts, items := [item], event }
  watchHooks equipment .preDelete before occasion
  let _ ← note .change (Flow.edit (Edit.remove item))
  watch (Flow.updateListeners (without item))
  watchHooks equipment .postDelete after occasion

/-- A click on a delete control, watched. -/
def watchDelete (equipment : Equipment σ) (event : Event) (item : NodeId) : Watched σ Unit := do
  let desk ← watch get
  let (parts, _) ← watch (MonadExcept.ofExcept desk.scope.resolved)
  let control := event.current.getD event.target
  let t ← watch Flow.tree
  let tag := (t.tag? control).getD ""
  unless equipment.config.isControl tag do
    throw (.invalidElement (.notAControl equipment.config.controlTags tag))
  if ← watch (Flow.act (Act.talk (equipment.host.confirm (question equipment t control)))) then
    watchDuring .deleting (watchDeleteItem equipment parts control item event)

/-! ## Plans -/

/-- The hooks of a phase: the code that an element carries, unless it is blank, and the registered
    hook. -/
def plannedHooks (t : Tree) (scope : Scope σ) (carrier : NodeId) (phase : Phase) : List Moment :=
  (if (t.attribute? carrier phase.directiveName).any (! Text.isAllBlank ·) then
      [.code phase scope.counter]
    else []) ++
  (if (scope.routines.on phase).isSome then [.routine phase scope.counter] else [])

/-- What a flow is to do. -/
def plan (t : Tree) (scope : Scope σ) (carrier : NodeId) (before after : Phase) : List Moment :=
  plannedHooks t scope carrier before ++ .change :: plannedHooks t scope carrier after

/-! ## Courses -/

variable {equipment : Equipment σ} {desk desk' : Desk σ} {parts : Parts} {identifier : String}
  {control item : NodeId} {event : Event} {moments moments' : List Moment} {moment : Moment}

/-- A watched flow runs as the flow does. What it does are the first of some moments, all of them
    exactly when it ends without an error, and what it fails in is the next of them. -/
def Course (watched : Watched σ α) (flow : Flow σ α) (moments : List Moment) (desk : Desk σ) :
    Prop :=
  ∀ seen, ∃ record : Record,
    exec watched (desk, { done := seen }) = ((exec flow desk).1, (exec flow desk).2,
      { record with done := seen ++ record.done }) ∧
    record.done ++ record.failed.toList <+: moments ∧
    (record.done = moments ↔ ∃ a, (exec flow desk).1 = .ok a)

theorem exec_watch (flow : Flow σ α) (desk : Desk σ) (record : Record) :
    exec (watch flow) (desk, record) = ((exec flow desk).1, (exec flow desk).2, record) := rfl

theorem Course.watch_of_ok {flow : Flow σ α} {a : α} (h : exec flow desk = (.ok a, desk')) :
    Course (watch flow) flow [] desk := by
  intro seen
  refine ⟨{}, ?_, List.nil_prefix, by simp [h]⟩
  rw [exec_watch, List.append_nil]

theorem Course.note (moment : Moment) (flow : Flow σ α) (desk : Desk σ) :
    Course (note moment flow) flow [moment] desk := by
  intro seen
  have hrun : exec (Scope.note moment flow) (desk, { done := seen }) = match exec flow desk with
    | (.ok a, desk') => (.ok a, desk', { done := seen ++ [moment] })
    | (.error e, desk') => (.error e, desk', { done := seen, failed := some moment }) := rfl
  rw [hrun]
  rcases exec flow desk with ⟨e | a, desk'⟩
  · exact ⟨{ failed := some moment }, by simp, by simp, by simp⟩
  · exact ⟨{ done := [moment] }, by simp, by simp, by simp⟩

/-- Where the first part ends without an error the second goes on, with its own moments. -/
theorem Course.bind {watched : Watched σ α} {flow : Flow σ α} {nextWatched : α → Watched σ β}
    {next : α → Flow σ β} (h : Course watched flow moments desk)
    (hnext : ∀ a desk', exec flow desk = (.ok a, desk') →
      Course (nextWatched a) (next a) moments' desk') :
    Course (watched >>= nextWatched) (flow >>= next) (moments ++ moments') desk := by
  intro seen
  obtain ⟨first, hrun, hprefix, hcomplete⟩ := h seen
  rcases hflow : exec flow desk with ⟨e | a, desk'⟩
  all_goals rw [hflow] at hrun hcomplete
  · refine ⟨first, ?_, hprefix.trans (List.prefix_append ..), ?_⟩
    · rw [exec_bind_error hrun, exec_bind_error hflow]
    · have hshort : first.done ≠ moments := by simpa using hcomplete
      have hstart : first.done <+: moments := (List.prefix_append ..).trans hprefix
      have hlength : first.done.length ≠ moments.length :=
        fun hlength => hshort (hstart.eq_of_length hlength)
      have hle := hstart.length_le
      rw [exec_bind_error hflow]
      refine ⟨fun hdone => ?_, by simp⟩
      have := congrArg List.length hdone
      rw [List.length_append] at this
      omega
  · have hdone : first.done = moments := by simpa using hcomplete
    have hfailed : first.failed = none := by
      have hlength := hprefix.length_le
      rw [hdone, List.length_append] at hlength
      rw [← Option.toList_eq_nil_iff, ← List.length_eq_zero_iff]
      omega
    obtain ⟨second, hrun', hprefix', hcomplete'⟩ := hnext a desk' hflow (seen ++ moments)
    refine ⟨{ second with done := moments ++ second.done }, ?_, ?_, ?_⟩
    · rw [hfailed, hdone] at hrun
      rw [exec_bind_ok hrun, exec_bind_ok hflow, hrun', List.append_assoc]
    · rw [List.append_assoc]
      exact (List.prefix_append_right_inj moments).2 hprefix'
    · rw [exec_bind_ok hflow, ← hcomplete']
      exact List.append_right_inj moments

theorem Course.watch_bind {flow : Flow σ α} {nextWatched : α → Watched σ β} {next : α → Flow σ β}
    {a : α} (hflow : exec flow desk = (.ok a, desk'))
    (hnext : Course (nextWatched a) (next a) moments desk') :
    Course (watch flow >>= nextWatched) (flow >>= next) moments desk := by
  have hcourse : Course (watch flow >>= nextWatched) (flow >>= next) ([] ++ moments) desk := by
    refine (watch_of_ok hflow).bind fun b desk₁ hrun => ?_
    cases hflow.symm.trans hrun
    exact hnext
  exact hcourse

/-- A part that the record says nothing about ends the course where it fails. -/
theorem Course.watch_error {flow : Flow σ α} {nextWatched : α → Watched σ β} {next : α → Flow σ β}
    {e : Error} (hmoments : moments ≠ []) (hflow : exec flow desk = (.error e, desk')) :
    Course (watch flow >>= nextWatched) (flow >>= next) moments desk := by
  intro seen
  have hwatch : exec (watch flow) (desk, { done := seen }) = (.error e, desk', { done := seen }) := by
    rw [exec_watch, hflow]
  refine ⟨{}, ?_, List.nil_prefix, ?_⟩
  · rw [exec_bind_error hwatch, exec_bind_error hflow, List.append_nil]
  · rw [exec_bind_error hflow]
    simpa using hmoments.symm

/-- What is done after a failure is not recorded if it fails in its turn. -/
theorem Course.tryCatch {watched : Watched σ α} {flow : Flow σ α} {handle : Error → Flow σ α}
    (h : Course watched flow moments desk)
    (hhandle : ∀ e desk', ∃ e', (exec (handle e) desk').1 = .error e') :
    Course (tryCatch watched fun e => watch (handle e)) (tryCatch flow handle) moments desk := by
  intro seen
  obtain ⟨record, hrun, hprefix, hcomplete⟩ := h seen
  refine ⟨record, ?_, hprefix, hcomplete.trans ?_⟩
  all_goals rw [exec_tryCatch]
  · rw [exec_tryCatch, hrun]
    rcases exec flow desk with ⟨e | a, desk'⟩ <;> rfl
  · rcases exec flow desk with ⟨e | a, desk'⟩
    · obtain ⟨e', he'⟩ := hhandle e desk'
      dsimp only
      rw [he']
      simp
    · rfl

theorem exec_watchDuring (hidle : desk.scope.activity = .idle) (activity : Activity)
    (watched : Watched σ α) (record : Record) :
    exec (watchDuring activity watched) (desk, record) =
      ((exec watched (desk.doing activity, record)).1,
        (exec watched (desk.doing activity, record)).2.1.doing .idle,
        (exec watched (desk.doing activity, record)).2.2) := if_pos hidle

theorem Course.during (hidle : desk.scope.activity = .idle) (activity : Activity)
    {watched : Watched σ α} {flow : Flow σ α}
    (h : Course watched flow moments (desk.doing activity)) :
    Course (watchDuring activity watched) (Flow.during activity flow) moments desk := by
  intro seen
  obtain ⟨record, hrun, hprefix, hcomplete⟩ := h seen
  rw [Flow.exec_during hidle, exec_watchDuring hidle, hrun]
  exact ⟨record, rfl, hprefix, hcomplete⟩

/-! ## The course of the hooks -/

theorem compileHook_isSome {t : Tree} {carrier : NodeId} {phase : Phase} {program : Option Program}
    (h : compileHook t carrier phase = .ok program) :
    program.isSome = (t.attribute? carrier phase.directiveName).any (! Text.isAllBlank ·) := by
  unfold compileHook at h
  rcases hcode : t.attribute? carrier phase.directiveName with _ | code
  · rw [hcode] at h
    cases h
    rfl
  rw [hcode, Option.filter_some] at h
  rw [Option.any_some]
  rcases hblank : Text.isAllBlank code with _ | _
  all_goals simp only [hblank, Bool.not_true, Bool.not_false, if_true, Bool.false_eq_true, if_false] at h
  · rcases hcompile : compile code Vocabulary.parameters with e | program'
    all_goals
      rw [hcompile] at h
      cases h
    rfl
  · cases h
    rfl

/-- The second desk has the scope of the first. -/
def SameScope (desk desk' : Desk σ) : Prop := desk'.scope = desk.scope

instance : IsPreorder (Desk σ) SameScope where
  refl _ := rfl
  trans _ _ _ := fun h h' => Eq.trans h' h

theorem scope_of_keeps {flow : Flow σ α} {result : Except Error α} (h : Keeps SameScope flow)
    (hrun : exec flow desk = (result, desk')) : desk'.scope = desk.scope := by
  have hsame : (exec flow desk).2.scope = desk.scope := h desk
  rwa [hrun] at hsame

theorem sameScope_stamp (stamping : Stamping α) :
    Keeps SameScope (Flow.stamp stamping : Flow σ α) := fun _ => rfl

theorem sameScope_act (step : Act Error σ α) : Keeps SameScope (Flow.act step) := fun _ => rfl

theorem sameScope_makeDraft (parts : Parts) (identifier : String) :
    Keeps SameScope (makeDraft parts identifier : Flow σ NodeId) :=
  Keeps.get_bind fun _ => Keeps.bind (sameScope_stamp _) fun _ =>
    Keeps.bind (sameScope_stamp _) fun _ => Keeps.pure _

theorem sameScope_runHooks (equipment : Equipment σ) (phase : Phase) (program : Option Program)
    (occasion : Occasion) : Keeps SameScope (runHooks equipment phase program occasion) := by
  intro desk
  rw [exec_runHooks]
  refine Keeps.bind ?_ (fun _ => ?_) desk
  · cases program with
    | none => exact Keeps.pure _
    | some program => exact sameScope_act _
  · cases desk.scope.routines.on phase with
    | none => exact Keeps.pure _
    | some routine => exact sameScope_act _

theorem Course.noteIf (there : Bool) (moment : Moment) {flow : Flow σ Unit}
    (hskip : there = false → exec flow desk = (.ok ⟨⟩, desk)) :
    Course (noteIf there moment flow) flow (if there then [moment] else []) desk := by
  cases there with
  | true => exact note moment flow desk
  | false =>
    intro seen
    refine ⟨{}, ?_, List.nil_prefix, by simp [hskip]⟩
    rw [hskip rfl, List.append_nil]
    rfl

/-- The hooks of a phase take the course that is planned when the flow starts. -/
theorem course_watchHooks {t : Tree} {carrier : NodeId} {phase : Phase}
    {program : Option Program} (hprogram : compileHook t carrier phase = .ok program)
    (desk : Desk σ) (occasion : Occasion) :
    Course (watchHooks equipment phase program occasion) (runHooks equipment phase program occasion)
      (plannedHooks t desk.scope carrier phase) desk := by
  have hcode : ∀ context : Context σ, Course
      (Scope.noteIf program.isSome (.code phase context.index) (runCode equipment program context))
      (runCode equipment program context)
      (if program.isSome then [.code phase context.index] else []) desk := by
    intro context
    refine Course.noteIf _ _ fun hnone => ?_
    rw [Option.isSome_eq_false_iff, Option.isNone_iff_eq_none] at hnone
    rw [hnone]
    rfl
  have hroutine : ∀ (routine : Option (Routine σ)) (context : Context σ) (desk : Desk σ), Course
      (Scope.noteIf routine.isSome (.routine phase context.index) (runRoutine routine context))
      (runRoutine routine context)
      (if routine.isSome then [.routine phase context.index] else []) desk := by
    intro routine context desk
    refine Course.noteIf _ _ fun hnone => ?_
    rw [Option.isSome_eq_false_iff, Option.isNone_iff_eq_none] at hnone
    rw [hnone]
    rfl
  intro seen
  have hwatch : exec (watchHooks equipment phase program occasion) (desk, { done := seen }) = _ :=
    exec_get_bind _ _
  rw [hwatch, exec_runHooks, plannedHooks, ← compileHook_isSome hprogram]
  exact ((hcode _).bind fun _ desk' _ => hroutine _ _ desk') seen

/-! ## The course of a flow -/

theorem plan_ne_nil (t : Tree) (scope : Scope σ) (carrier : NodeId) (before after : Phase) :
    plan t scope carrier before after ≠ [] :=
  List.append_ne_nil_of_right_ne_nil _ (List.cons_ne_nil _ _)

theorem course_addItem (equipment : Equipment σ) (parts : Parts) (identifier : String)
    (event : Event) (desk : Desk σ) :
    Course (watchAddItem equipment parts identifier event) (addItem equipment parts identifier event)
      (plan desk.stage.tree desk.scope parts.trigger .preAdd .postAdd) desk := by
  rw [addItem_eq]
  unfold watchAddItem insertDraft settle
  simp only [bind_assoc, pure_bind]
  refine .watch_bind (Flow.exec_tree desk) ?_
  rcases hbefore : compileHook desk.stage.tree parts.trigger .preAdd with e | before
  · exact .watch_error (plan_ne_nil _ _ _ _ _) (exec_ofExcept _ _)
  refine .watch_bind (exec_ofExcept _ _) ?_
  rcases hafter : compileHook desk.stage.tree parts.trigger .postAdd with e | after
  · exact .watch_error (plan_ne_nil _ _ _ _ _) (exec_ofExcept _ _)
  refine .watch_bind (exec_ofExcept _ _) ?_
  rcases hdraft : exec (makeDraft parts identifier) desk with ⟨e | fragment, desk₁⟩
  · exact .watch_error (plan_ne_nil _ _ _ _ _) hdraft
  have hscope₁ := scope_of_keeps (sameScope_makeDraft parts identifier) hdraft
  refine .watch_bind hdraft (.watch_bind (Flow.exec_tree desk₁) ?_)
  generalize desk₁.stage.tree.elementChildren fragment = items
  rw [plan, ← hscope₁]
  refine (course_watchHooks hbefore desk₁ _).bind fun _ desk₂ hrun₂ => ?_
  have hscope₂ := scope_of_keeps (sameScope_runHooks _ _ _ _) hrun₂
  rw [← hscope₂, ← List.singleton_append]
  refine (Course.note .change _ desk₂).bind fun _ desk₃ hrun₃ => ?_
  have hscope₃ := scope_of_keeps (sameScope_stamp _) hrun₃
  rw [← hscope₃, ← List.append_nil (plannedHooks ..)]
  refine ((course_watchHooks hafter desk₃ _).tryCatch (exec_takeOut_error items)).bind
    fun _ desk₄ _ => ?_
  obtain ⟨desk₅, hcount, -⟩ := exec_count equipment items desk₄
  exact .watch_of_ok hcount

theorem course_deleteItem (equipment : Equipment σ) (parts : Parts) (control item : NodeId)
    (event : Event) (desk : Desk σ) :
    Course (watchDeleteItem equipment parts control item event)
      (deleteItem equipment parts control item event)
      (plan desk.stage.tree desk.scope control .preDelete .postDelete) desk := by
  unfold watchDeleteItem deleteItem
  refine .watch_bind (Flow.exec_tree desk) ?_
  rcases hbefore : compileHook desk.stage.tree control .preDelete with e | before
  · exact .watch_error (plan_ne_nil _ _ _ _ _) (exec_ofExcept _ _)
  refine .watch_bind (exec_ofExcept _ _) ?_
  rcases hafter : compileHook desk.stage.tree control .postDelete with e | after
  · exact .watch_error (plan_ne_nil _ _ _ _ _) (exec_ofExcept _ _)
  refine .watch_bind (exec_ofExcept _ _) ?_
  refine (course_watchHooks hbefore desk _).bind fun _ desk₁ hrun₁ => ?_
  have hscope₁ := scope_of_keeps (sameScope_runHooks _ _ _ _) hrun₁
  rw [← hscope₁, ← List.singleton_append]
  refine (Course.note .change _ desk₁).bind fun _ desk₂ hrun₂ => ?_
  have hscope₂ := scope_of_keeps (sameScope_stamp _) hrun₂
  rw [← hscope₂]
  exact .watch_bind (Flow.exec_updateListeners _ _) (course_watchHooks hafter _ _)

/-- Code that does not compile ends a flow before anything has been done. -/
theorem exec_compile_error {t : Tree} {carrier : NodeId} {before after phase : Phase} {e : Error}
    (hphase : phase ∈ [before, after]) (he : compileHook t carrier phase = .error e)
    (rest : Option Program → Option Program → Watched σ Unit) (state : Desk σ × Record) :
    ∃ e', exec (do
        let first ← watch (MonadExcept.ofExcept (compileHook t carrier before))
        let last ← watch (MonadExcept.ofExcept (compileHook t carrier after))
        rest first last) state = (.error e', state) := by
  have hwatch : ∀ (result : Except Error (Option Program)) (state : Desk σ × Record),
      exec (watch (MonadExcept.ofExcept result : Flow σ _)) state = (result, state) := by
    rintro result ⟨desk, record⟩
    rw [exec_watch, exec_ofExcept]
  rcases hbefore : compileHook t carrier before with e' | first
  · exact ⟨e', exec_bind_error (hwatch _ _)⟩
  rw [exec_bind_ok (hwatch _ _)]
  rcases hafter : compileHook t carrier after with e' | last
  · exact ⟨e', exec_bind_error (hwatch _ _)⟩
  rcases List.mem_pair.1 hphase with rfl | rfl
  · cases hbefore.symm.trans he
  · cases hafter.symm.trans he

theorem course_handleAdd (hidle : desk.scope.activity = .idle)
    (hresolved : desk.scope.resolved = .ok (parts, identifier)) (equipment : Equipment σ)
    (event : Event) :
    Course (watchAdd equipment event) (handleAdd equipment event)
      (plan desk.stage.tree desk.scope parts.trigger .preAdd .postAdd) desk := by
  unfold watchAdd handleAdd
  refine .watch_bind (exec_get desk) ?_
  rw [hresolved]
  refine .watch_bind (exec_ofExcept _ _) ?_
  exact .during hidle .adding (course_addItem equipment parts identifier event (desk.doing .adding))

theorem course_handleDelete (hidle : desk.scope.activity = .idle)
    (hresolved : desk.scope.resolved = .ok (parts, identifier)) (equipment : Equipment σ)
    (event : Event) (item : NodeId)
    (haccepted : accepted equipment desk.stage.tree (event.current.getD event.target) = true)
    (hyes : (answer equipment (event.current.getD event.target) desk).1 = true) :
    Course (watchDelete equipment event item) (handleDelete equipment event item)
      (plan desk.stage.tree desk.scope (event.current.getD event.target) .preDelete .postDelete)
      desk := by
  unfold watchDelete handleDelete
  refine .watch_bind (exec_get desk) ?_
  rw [hresolved]
  refine .watch_bind (exec_ofExcept _ _) ?_
  refine .watch_bind (Flow.exec_tree desk) ?_
  unfold accepted at haccepted
  simp only [haccepted, if_true]
  refine .watch_bind (exec_answer equipment _ desk) ?_
  rw [if_pos hyes, if_pos hyes]
  -- the question changes nothing but the world outside
  have hidle' : (answer equipment (event.current.getD event.target) desk).2.scope.activity = .idle :=
    hidle
  exact .during hidle' .deleting (course_deleteItem equipment parts _ item event _)

/-- How a flow runs, from a desk on: `ready` is the desk when the flow has got so far that it compiles
    its code. -/
structure Runs (watched : Watched σ Unit) (flow : Flow σ Unit) (carrier : NodeId)
    (before after : Phase) (desk ready : Desk σ) (record : Record) : Prop where
  same : exec watched (desk, {}) = ((exec flow desk).1, (exec flow desk).2, record)
  steps : record.done ++ record.failed.toList <+:
    plan desk.stage.tree desk.scope carrier before after
  complete : record.done = plan desk.stage.tree desk.scope carrier before after ↔
    (exec flow desk).1 = .ok ⟨⟩
  uncompiled : ∀ phase ∈ [before, after], ∀ e,
    compileHook desk.stage.tree carrier phase = .error e → record = {} ∧ (exec flow desk).2 = ready

theorem Course.runs {watched : Watched σ Unit} {flow : Flow σ Unit} {carrier : NodeId}
    {before after : Phase} {ready : Desk σ}
    (h : Course watched flow (plan desk.stage.tree desk.scope carrier before after) desk)
    (huncompiled : ∀ phase ∈ [before, after], ∀ e,
      compileHook desk.stage.tree carrier phase = .error e →
        ∃ e', exec watched (desk, {}) = (.error e', ready, {})) :
    ∃ record, Runs watched flow carrier before after desk ready record := by
  obtain ⟨record, hrun, hprefix, hcomplete⟩ := h []
  refine ⟨record, hrun, hprefix, hcomplete.trans ?_, fun phase hphase e he => ?_⟩
  · exact ⟨fun ⟨⟨⟩, hok⟩ => hok, fun hok => ⟨⟨⟩, hok⟩⟩
  · obtain ⟨e', hstopped⟩ := huncompiled phase hphase e he
    have hboth := hrun.symm.trans hstopped
    simp only [Prod.mk.injEq] at hboth
    exact ⟨hboth.2.2, hboth.2.1⟩

/-! ## Code that does not compile -/

theorem exec_watchAdd_error (hidle : desk.scope.activity = .idle)
    (hresolved : desk.scope.resolved = .ok (parts, identifier)) (equipment : Equipment σ)
    (event : Event) {phase : Phase} {e : Error} (hphase : phase ∈ [Phase.preAdd, .postAdd])
    (he : compileHook desk.stage.tree parts.trigger phase = .error e) :
    ∃ e', exec (watchAdd equipment event) (desk, {}) = (.error e', desk, {}) := by
  have hget : exec (watch (get : Flow σ _)) (desk, {}) = (.ok desk, desk, {}) := rfl
  have hfound : exec (watch (MonadExcept.ofExcept desk.scope.resolved : Flow σ _)) (desk, {}) =
      (.ok (parts, identifier), desk, {}) := by rw [exec_watch, exec_ofExcept, hresolved]
  have htree : exec (watch (Flow.tree : Flow σ _)) (desk.doing .adding, {}) =
      (.ok desk.stage.tree, desk.doing .adding, {}) := rfl
  unfold watchAdd watchAddItem
  rw [exec_bind_ok hget, exec_bind_ok hfound]
  dsimp only
  rw [exec_watchDuring hidle, exec_bind_ok htree]
  obtain ⟨e', hstopped⟩ := exec_compile_error hphase he _ (desk.doing .adding, {})
  rw [hstopped]
  exact ⟨e', by rw [doing_idle hidle]⟩

theorem exec_watchDelete_error (hidle : desk.scope.activity = .idle)
    (hresolved : desk.scope.resolved = .ok (parts, identifier)) (equipment : Equipment σ)
    (event : Event) (item : NodeId)
    (haccepted : accepted equipment desk.stage.tree (event.current.getD event.target) = true)
    (hyes : (answer equipment (event.current.getD event.target) desk).1 = true)
    {phase : Phase} {e : Error} (hphase : phase ∈ [Phase.preDelete, .postDelete])
    (he : compileHook desk.stage.tree (event.current.getD event.target) phase = .error e) :
    ∃ e', exec (watchDelete equipment event item) (desk, {}) =
      (.error e', (answer equipment (event.current.getD event.target) desk).2, {}) := by
  generalize hcontrol : event.current.getD event.target = control at haccepted hyes he ⊢
  have hget : exec (watch (get : Flow σ _)) (desk, {}) = (.ok desk, desk, {}) := rfl
  have hfound : exec (watch (MonadExcept.ofExcept desk.scope.resolved : Flow σ _)) (desk, {}) =
      (.ok (parts, identifier), desk, {}) := by rw [exec_watch, exec_ofExcept, hresolved]
  have htree : ∀ desk : Desk σ, exec (watch (Flow.tree : Flow σ _)) (desk, {}) =
      (.ok desk.stage.tree, desk, {}) := fun _ => rfl
  have hanswer : exec (watch (Flow.act (Act.talk (equipment.host.confirm
      (question equipment desk.stage.tree control))))) (desk, {}) =
        (.ok true, (answer equipment control desk).2, {}) := by
    rw [exec_watch, exec_answer, hyes]
  -- the question changes nothing but the world outside
  have hidle' : (answer equipment control desk).2.scope.activity = .idle := hidle
  unfold accepted at haccepted
  unfold watchDelete watchDeleteItem
  rw [exec_bind_ok hget, exec_bind_ok hfound]
  dsimp only
  rw [exec_bind_ok (htree desk)]
  simp only [hcontrol, haccepted, if_true]
  rw [exec_bind_ok hanswer, if_pos rfl, exec_watchDuring hidle', exec_bind_ok (htree _), tree_answer]
  obtain ⟨e', hstopped⟩ := exec_compile_error hphase he _
    ((answer equipment control desk).2.doing .deleting, {})
  rw [hstopped]
  exact ⟨e', by rw [doing_idle hidle']⟩

/-! ## Both flows -/

/-- A scope with one item, whose registered hook after an addition fails, and so does the code after
    the deletion of the item. -/
def failingDesk : Desk Unit where
  scope := {
    number := 0, root := .slot 1, identifier := some "list", counter := 3,
    parts := some ⟨.slot 2, .slot 8, .slot 5⟩,
    routines := { postAdd := some fun _ => throw (.ofText "no") } }
  stage := {
    tree := (Markup.documentOf "about:blank" [
      .element "div" [⟨"stamper", "list"⟩] [] [
        .element "template" [⟨"s-temp", "list"⟩] [.element "li" [] [] []] [],
        .element "ul" [⟨"s-crate", "list"⟩] [] [
          .element "li" [] [] [
            .element "button" [⟨"s-delete", "list"⟩, ⟨"s-predelete", " "⟩, ⟨"s-postdelete", "no()"⟩]
              [] []]],
        .element "button" [⟨"s-cast", "list"⟩, ⟨"s-preadd", "console.log(currentIndex)"⟩] [] []]]).tree
    outside := { state := () } }
  listeners := {}

end Scope

end Repeater
