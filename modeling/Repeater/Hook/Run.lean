/-
  Repeater/Hook/Run.lean
  ======================
  **Running hook programs.**

  Statements run in order; the first failure ends the run, and what was done before stays done. All
  arguments of a statement are computed before anything is called. A sum adds as long as it has
  only met integers, and fails where the result leaves a signed word; from the first other value on
  it puts texts together.
-/
import Repeater.Dom.Copy
import Repeater.Hook.Compile
import Repeater.Hook.Registered

namespace Repeater.Hook

open Dom Text

/-! ## Values of expressions -/

/-- The value of a term; a missing argument is null. -/
def Term.eval (arguments : List Value) : Term → Value
  | text s => .text s
  | int n => .int n
  | parameter i => arguments[i]?.getD .null

/-- One step of a sum. -/
def Value.plus : Value → Value → Except Error Value
  | int a, int b => if inWord (a + b) then .ok (.int (a + b)) else .error (.hookOverflow a b)
  | a, b => .ok (.text (a.plain ++ b.plain))

/-- The value of an expression: its terms put together from left to right. -/
def Expression.eval (arguments : List Value) (e : Expression) : Except Error Value :=
  e.others.foldlM (fun sum term => sum.plus (term.eval arguments)) (e.first.eval arguments)

/-! ## Methods of elements -/

/-- The class list without a class. -/
def withoutClass (className : String) (classes : List String) : List String :=
  classes.filter (· != className)

/-- What a method does with an element, given its arguments as texts. -/
def ElementMethod.apply (method : ElementMethod) (target : NodeId) (arguments : List String) :
    Edit Unit := do
  let first := arguments.getD 0 ""
  match method with
  | setAttribute => Edit.setAttribute target first (arguments.getD 1 "")
  | removeAttribute =>
    let _ ← Edit.removeAttribute target first
  | setText => Edit.setText target first
  | addClass =>
    let classes := words (((← get).attribute? target "class").getD "")
    Edit.setAttribute target "class" (" ".intercalate (withoutClass first classes ++ [first]))
  | removeClass =>
    let classes := words (((← get).attribute? target "class").getD "")
    Edit.setAttribute target "class" (" ".intercalate (withoutClass first classes))

/-! ## Statements -/

variable {σ : Type}

/-- What a run is given besides its program. -/
structure Setting (σ : Type) where
  context : Context σ
  callbacks : Callbacks σ
  arguments : List Value

/-- Calls what a statement calls, with the values of its arguments. -/
def Callee.call (setting : Setting σ) (parameters : List String) (values : List Value) :
    Callee → Act Error σ Unit
  | alert => do
    let t ← Act.tree
    Act.talk (setting.context.host.alert ((values.head?.map (·.render t)).getD ""))
  | console level => do
    let t ← Act.tree
    Act.log ⟨level, .hook, " ".intercalate (values.map (·.render t)), []⟩
  | method receiver action => do
    match setting.arguments[receiver]?.bind Value.element? with
    | none => throw (.invalidElement (.notAnElement (parameters.getD receiver "")))
    | some target =>
      let t ← Act.tree
      Act.edit .dom (action.apply target (values.map (·.render t)))
  | callback name =>
    match setting.callbacks.find? name with
    | none => throw (.unknownCallback name)
    | some routine => ExceptT.adapt Failure.toError (routine setting.context values)

/-- Runs a statement. -/
def Statement.run (setting : Setting σ) (parameters : List String) (s : Statement) :
    Act Error σ Unit := do
  let values ← MonadExcept.ofExcept (s.arguments.mapM (·.eval setting.arguments))
  s.callee.call setting parameters values

/-- Runs a program. -/
def Program.run (program : Program) (setting : Setting σ) : Act Error σ Unit :=
  program.statements.forM (·.run setting program.parameters)

end Repeater.Hook
