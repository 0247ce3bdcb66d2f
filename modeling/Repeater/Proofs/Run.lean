/-
  Repeater/Proofs/Run.lean
  ========================
  **Running programs that change a state and may fail.**

  Edits of a tree, stampings, flows of a scope and steps of hooks are all programs of one shape:
  they change a state, give a value or an error, and keep what they have changed when they fail.
  `exec` runs such a program; its equations take a program apart step by step.

  What every run keeps, whether it fails or not, is a relation between the state before and the
  state after. `Keeps` says that a program stays within such a relation, and composes along binds,
  loops and handlers.
-/
import Mathlib.Order.Defs.Unbundled

namespace Repeater

variable {ε σ α β : Type}

/-- The result of a program that may fail, and the state it leaves. -/
def exec (program : ExceptT ε (StateM σ) α) (state : σ) : Except ε α × σ :=
  program.run.run state

/-- A chain of checks that succeeds has succeeded at each link. -/
theorem bind_eq_ok {x : Except ε α} {next : α → Except ε β} {b : β} :
    x >>= next = .ok b ↔ ∃ a, x = .ok a ∧ next a = .ok b := by
  cases x <;> simp [bind, Except.bind]

/-- It fails at one of its links, the ones before having succeeded. -/
theorem bind_eq_error {x : Except ε α} {next : α → Except ε β} {e : ε} :
    x >>= next = .error e ↔ x = .error e ∨ ∃ a, x = .ok a ∧ next a = .error e := by
  cases x <;> simp [bind, Except.bind]

/-! ## One equation for each way to build a program -/

@[simp] theorem exec_pure (a : α) (state : σ) :
    exec (pure a : ExceptT ε (StateM σ) α) state = (.ok a, state) := rfl

@[simp] theorem exec_throw (e : ε) (state : σ) :
    exec (throw e : ExceptT ε (StateM σ) α) state = (.error e, state) := rfl

@[simp] theorem exec_get (state : σ) :
    exec (get : ExceptT ε (StateM σ) σ) state = (.ok state, state) := rfl

@[simp] theorem exec_set (new state : σ) :
    exec (set new : ExceptT ε (StateM σ) PUnit) state = (.ok ⟨⟩, new) := rfl

@[simp] theorem exec_modify (f : σ → σ) (state : σ) :
    exec (modify f : ExceptT ε (StateM σ) PUnit) state = (.ok ⟨⟩, f state) := rfl

@[simp] theorem exec_ofExcept (result : Except ε α) (state : σ) :
    exec (MonadExcept.ofExcept result : ExceptT ε (StateM σ) α) state = (result, state) := by
  cases result <;> rfl

@[simp] theorem exec_liftM (result : Except ε α) (state : σ) :
    exec (liftM result : ExceptT ε (StateM σ) α) state = (result, state) := by
  cases result <;> rfl

theorem exec_bind (program : ExceptT ε (StateM σ) α) (next : α → ExceptT ε (StateM σ) β)
    (state : σ) :
    exec (program >>= next) state =
      match exec program state with
      | (.ok a, after) => exec (next a) after
      | (.error e, after) => (.error e, after) := by
  show (match program.run.run state with
    | (r, after) => ExceptT.bindCont next r after) = _
  unfold exec
  rcases program.run.run state with ⟨_ | a, after⟩ <;> rfl

theorem exec_bind_ok {program : ExceptT ε (StateM σ) α} {next : α → ExceptT ε (StateM σ) β}
    {state after : σ} {a : α} (h : exec program state = (.ok a, after)) :
    exec (program >>= next) state = exec (next a) after := by
  rw [exec_bind, h]

theorem exec_bind_error {program : ExceptT ε (StateM σ) α} {next : α → ExceptT ε (StateM σ) β}
    {state after : σ} {e : ε} (h : exec program state = (.error e, after)) :
    exec (program >>= next) state = (.error e, after) := by
  rw [exec_bind, h]

@[simp] theorem exec_pure_bind (a : α) (next : α → ExceptT ε (StateM σ) β) (state : σ) :
    exec (pure a >>= next) state = exec (next a) state := exec_bind_ok (exec_pure a state)

@[simp] theorem exec_throw_bind (e : ε) (next : α → ExceptT ε (StateM σ) β) (state : σ) :
    exec ((throw e : ExceptT ε (StateM σ) α) >>= next) state = (.error e, state) :=
  exec_bind_error (exec_throw e state)

@[simp] theorem exec_get_bind (next : σ → ExceptT ε (StateM σ) β) (state : σ) :
    exec (get >>= next) state = exec (next state) state := exec_bind_ok (exec_get state)

@[simp] theorem exec_set_bind (new : σ) (next : PUnit → ExceptT ε (StateM σ) β) (state : σ) :
    exec (set new >>= next) state = exec (next ⟨⟩) new := exec_bind_ok (exec_set new state)

@[simp] theorem exec_modify_bind (f : σ → σ) (next : PUnit → ExceptT ε (StateM σ) β)
    (state : σ) : exec (modify f >>= next) state = exec (next ⟨⟩) (f state) :=
  exec_bind_ok (exec_modify f state)

@[simp] theorem exec_liftM_ok_bind (a : α) (next : α → ExceptT ε (StateM σ) β) (state : σ) :
    exec ((liftM (.ok a : Except ε α) : ExceptT ε (StateM σ) α) >>= next) state =
      exec (next a) state := exec_bind_ok (exec_liftM _ state)

@[simp] theorem exec_liftM_error_bind (e : ε) (next : α → ExceptT ε (StateM σ) β) (state : σ) :
    exec ((liftM (.error e : Except ε α) : ExceptT ε (StateM σ) α) >>= next) state =
      (.error e, state) := exec_bind_error (exec_liftM _ state)

theorem exec_map (f : α → β) (program : ExceptT ε (StateM σ) α) (state : σ) :
    exec (f <$> program) state =
      ((exec program state).1.map f, (exec program state).2) := by
  rw [show f <$> program = (program >>= fun a => pure (f a)) from rfl, exec_bind]
  rcases exec program state with ⟨_ | a, after⟩ <;> rfl

theorem exec_discard (program : ExceptT ε (StateM σ) α) (state : σ) :
    exec (discard program) state =
      ((exec program state).1.map fun _ => PUnit.unit, (exec program state).2) := by
  rw [show discard program = (fun _ => PUnit.unit) <$> program from rfl, exec_map]

theorem exec_tryCatch (program : ExceptT ε (StateM σ) α) (handle : ε → ExceptT ε (StateM σ) α)
    (state : σ) :
    exec (tryCatch program handle) state =
      match exec program state with
      | (.ok a, after) => (.ok a, after)
      | (.error e, after) => exec (handle e) after := by
  show (match program.run.run state with
    | (r, after) => (match r with
      | .ok a => (pure (.ok a) : StateM σ (Except ε α))
      | .error e => handle e) after) = _
  unfold exec
  rcases program.run.run state with ⟨_ | a, after⟩ <;> rfl

theorem exec_adapt {ε' : Type} (f : ε → ε') (program : ExceptT ε (StateM σ) α) (state : σ) :
    exec (ExceptT.adapt f program) state =
      ((exec program state).1.mapError f, (exec program state).2) := by
  rfl

theorem exec_forM_cons (a : α) (rest : List α) (body : α → ExceptT ε (StateM σ) PUnit)
    (state : σ) :
    exec ((a :: rest).forM body) state = exec (body a >>= fun _ => rest.forM body) state := rfl

theorem exec_forM_append (items rest : List α) (body : α → ExceptT ε (StateM σ) PUnit)
    (state : σ) :
    exec ((items ++ rest).forM body) state =
      exec (items.forM body >>= fun _ => rest.forM body) state := by
  induction items generalizing state with
  | nil => exact (exec_pure_bind _ _ state).symm
  | cons a items ih =>
    rw [List.cons_append, exec_forM_cons, exec_bind, exec_bind, exec_forM_cons, exec_bind]
    rcases exec (body a) state with ⟨_ | _, after⟩
    · rfl
    · exact (ih after).trans (exec_bind ..)

/-- A loop whose steps only change the state, each by a function, is a fold. -/
theorem exec_forM_modify (items : List α) (f : α → σ → σ) (state : σ) :
    exec (items.forM fun a => (modify (f a) : ExceptT ε (StateM σ) PUnit)) state =
      (.ok ⟨⟩, items.foldl (fun s a => f a s) state) := by
  induction items generalizing state with
  | nil => rfl
  | cons a rest ih => rw [exec_forM_cons, exec_modify_bind, ih, List.foldl_cons]

/-- A loop whose steps only give values. -/
theorem exec_mapM_pure {items : List α} {body : α → ExceptT ε (StateM σ) β} {f : α → β}
    (h : ∀ a ∈ items, body a = pure (f a)) (state : σ) :
    exec (items.mapM body) state = (.ok (items.map f), state) := by
  induction items with
  | nil => rfl
  | cons a rest ih =>
    rw [List.mapM_cons, h a (by simp), exec_pure_bind,
      exec_bind_ok (ih fun b hb => h b (by simp [hb]))]
    rfl

/-- A loop whose steps only give values, but for some that all throw the same. -/
theorem exec_mapM_throw {items : List α} {body : α → ExceptT ε (StateM σ) β} {e : ε}
    (h : ∀ a ∈ items, (∃ b, body a = pure b) ∨ body a = throw e)
    (hthrow : ∃ a ∈ items, body a = throw e) (state : σ) :
    exec (items.mapM body) state = (.error e, state) := by
  induction items with
  | nil => simp at hthrow
  | cons a rest ih =>
    rw [List.mapM_cons]
    rcases h a (by simp) with ⟨b, hb⟩ | ha
    · rw [hb, exec_pure_bind]
      refine exec_bind_error (ih (fun c hc => h c (by simp [hc])) ?_)
      obtain ⟨c, hc, hthrow⟩ := hthrow
      rcases List.mem_cons.1 hc with rfl | hc
      · have hpure : exec (body c) state = (.ok b, state) := by rw [hb, exec_pure]
        rw [hthrow, exec_throw] at hpure
        simp at hpure
      · exact ⟨c, hc, hthrow⟩
    · rw [ha, exec_throw_bind]

/-! ## What all runs of a program keep -/

/-- Every run of the program, also one that fails, leaves a state related to the one before. -/
def Keeps (R : σ → σ → Prop) (program : ExceptT ε (StateM σ) α) : Prop :=
  ∀ state, R state (exec program state).2

namespace Keeps

variable {R : σ → σ → Prop}

variable [IsPreorder σ R]

theorem pure (a : α) : Keeps R (pure a : ExceptT ε (StateM σ) α) := fun state => refl_of R state

theorem throw (e : ε) : Keeps R (throw e : ExceptT ε (StateM σ) α) := fun state => refl_of R state

theorem get : Keeps R (get : ExceptT ε (StateM σ) σ) := fun state => refl_of R state

theorem ofExcept (result : Except ε α) :
    Keeps R (MonadExcept.ofExcept result : ExceptT ε (StateM σ) α) := by
  intro state
  rw [exec_ofExcept]
  exact refl_of R state

theorem liftM (result : Except ε α) :
    Keeps R (liftM result : ExceptT ε (StateM σ) α) := by
  intro state
  rw [exec_liftM]
  exact refl_of R state

theorem bind {program : ExceptT ε (StateM σ) α} {next : α → ExceptT ε (StateM σ) β}
    (hprogram : Keeps R program) (hnext : ∀ a, Keeps R (next a)) :
    Keeps R (program >>= next) := by
  intro state
  have hfirst := hprogram state
  rw [exec_bind]
  rcases hrun : exec program state with ⟨_ | a, between⟩
  · simpa [hrun] using hfirst
  · rw [hrun] at hfirst
    exact trans_of R hfirst (hnext a between)

/-- A program that first looks at the state is judged state by state. -/
theorem get_bind {next : σ → ExceptT ε (StateM σ) β} (hnext : ∀ a, Keeps R (next a)) :
    Keeps R (MonadState.get >>= next) := bind get hnext

theorem map {program : ExceptT ε (StateM σ) α} (f : α → β) (hprogram : Keeps R program) :
    Keeps R (f <$> program) := bind hprogram fun a => pure (f a)

theorem forM {items : List α} {body : α → ExceptT ε (StateM σ) PUnit}
    (hbody : ∀ a ∈ items, Keeps R (body a)) : Keeps R (items.forM body) := by
  induction items with
  | nil => exact pure PUnit.unit
  | cons a rest ih =>
    exact bind (hbody a (by simp)) fun _ => ih fun b hb => hbody b (by simp [hb])

theorem mapM {items : List α} {body : α → ExceptT ε (StateM σ) β}
    (hbody : ∀ a ∈ items, Keeps R (body a)) : Keeps R (items.mapM body) := by
  induction items with
  | nil => exact pure []
  | cons a rest ih =>
    rw [List.mapM_cons]
    exact bind (hbody a (by simp)) fun b => bind (ih fun b hb => hbody b (by simp [hb])) fun bs =>
      pure (b :: bs)

theorem tryCatch {program : ExceptT ε (StateM σ) α} {handle : ε → ExceptT ε (StateM σ) α}
    (hprogram : Keeps R program) (hhandle : ∀ e, Keeps R (handle e)) :
    Keeps R (tryCatch program handle) := by
  intro state
  have hfirst := hprogram state
  rw [exec_tryCatch]
  rcases hrun : exec program state with ⟨e | a, between⟩
  all_goals rw [hrun] at hfirst
  · exact trans_of R hfirst (hhandle e between)
  · exact hfirst

end Keeps

end Repeater
