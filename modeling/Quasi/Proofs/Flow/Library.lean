import Quasi.Library.Apply
import Quasi.Library.Code
import Quasi.Library.Data
import Quasi.Library.Host
import Quasi.Library.Scope
import Quasi.Library.Signal
import Quasi.Proofs.Flow.Form
import Quasi.Proofs.Flow.Modest

/-!
# Primitives that follow a flow

Every primitive and every host function, over a machine that follows a closed flow.
-/

namespace Quasi

namespace Flow

variable {F : Flow} [F.Closed] {m : Machine} [F.Obeys m] (ctx : EvaluatorId)
  (args : List Value) (named : Bindings Value) (env : EnvId)

/-! ## Arguments -/

instance (name : String) (least most : Nat) : F.Holds (Library.checkCount name least most args) := by
  unfold Library.checkCount; infer_instance

instance (name : String) : F.Holds (Library.namedFlag named name) := by
  unfold Library.namedFlag
  split <;> infer_instance

instance (name : String) (v : Value) : F.Holds (Library.envArg name v) := by
  unfold Library.envArg
  split <;> infer_instance

instance (v : Value) : F.Holds (Library.iterate v) := by
  unfold Library.iterate
  split <;> infer_instance

/-! ## Functions -/

instance : F.Holds (Library.lapply m ctx args named env) := by
  unfold Library.lapply
  split
  · split <;> infer_instance
  · infer_instance

instance : F.Holds (Library.doCall m ctx args env) := by
  unfold Library.doCall
  apply Holds.andThen
  intro x
  extract_lets last
  have hlast (fn : Value) : F.Holds (last fn) := by
    unfold last
    split <;> infer_instance
  clear_value last
  split <;> infer_instance

/-! ## Code -/

instance : F.Holds (Library.evalTidy m ctx args named env) := by
  unfold Library.evalTidy; infer_instance

instance : F.Holds (Library.newQuosure args named env) := by
  unfold Library.newQuosure; infer_instance

/-! ## Data -/

instance (x : Value) (n : Nat) : F.Holds (Library.elementAt m x n) := by
  unfold Library.elementAt
  split <;> infer_instance

instance : F.Holds (Library.element m args) := by
  unfold Library.element
  apply Holds.andThen
  intro operands
  split
  · infer_instance
  · apply Holds.andThen
    intro i
    split
    · infer_instance
    · apply Holds.andThen
      intro found
      split <;> infer_instance

/-! ## Texts and signals -/

instance (v : Value) : F.Holds (Library.classNames v) := by
  unfold Library.classNames
  split <;> infer_instance

instance : F.Holds (Library.stop ctx args named env) := by
  unfold Library.stop
  split
  · infer_instance
  · apply Holds.andThen
    intro message
    apply Holds.andThen
    intro frame
    extract_lets last
    have hlast (call : Option Expr) : F.Holds (last call) := by
      unfold last
      split <;> infer_instance
    clear_value last
    split <;> infer_instance

instance : F.Holds (Library.warning ctx args env) := by
  unfold Library.warning
  apply Holds.andThen
  intro message
  apply Holds.andThen
  intro frame
  split <;> infer_instance

/-! ## Environments -/

instance : F.Holds (Library.newEnv args named env) := by unfold Library.newEnv; infer_instance

instance : F.Holds (Library.environment args named env) := by
  unfold Library.environment
  split <;> infer_instance

instance : F.Holds (Library.parentFrame ctx args named env) := by
  unfold Library.parentFrame; infer_instance

instance : F.Holds (Library.parentEnv args) := by
  unfold Library.parentEnv
  apply Holds.andThen
  intro x
  apply Holds.andThen
  intro e
  apply Holds.andThen
  intro s
  split <;> infer_instance

instance : F.Holds (Library.sysCall ctx env) := by
  unfold Library.sysCall
  apply Holds.andThen
  intro frame
  split <;> infer_instance

instance : F.Holds (Library.sysFunction ctx env) := by
  unfold Library.sysFunction
  apply Holds.andThen
  intro frame
  split <;> infer_instance

instance (position : Nat) : F.Holds (Library.place args named position env) := by
  unfold Library.place; infer_instance

instance : F.Holds (Library.assign args named env) := by unfold Library.assign; infer_instance

instance : F.Holds (Library.get m args named env) := by
  unfold Library.get
  apply Holds.andThen
  intro x
  apply Holds.andThen
  intro name
  apply Holds.andThen
  intro target
  apply Holds.andThen
  intro inherits
  split
  · infer_instance
  · apply Holds.andThen
    intro s
    split <;> infer_instance

instance : F.Holds (Library.exists? args named env) := by unfold Library.exists?; infer_instance

instance : F.Holds (Library.rm args named env) := by unfold Library.rm; infer_instance

instance : F.Holds (Library.evalCode m ctx args named env) := by
  unfold Library.evalCode
  apply Holds.andThen
  intro x
  apply Holds.andThen
  intro enclos
  have hunder (mask : MaskId) (code : Expr) :
      F.Holds (Run.under mask enclos fun bottom => m.evalIn ctx code bottom) := inferInstance
  split <;> infer_instance

/-! ## Host functions -/

instance (formals : List String) : F.Holds (HostFunction.bindArgs formals args named) := by
  have hitem (name : String) : F.Holds (match named.get? name with
      | some v => pure v
      | none => Run.failHost .type : Run Value) := by split <;> infer_instance
  unfold HostFunction.bindArgs
  infer_instance

instance : F.Holds HostFunction.count := by
  have htick : F.Holds (modify fun s => { s with ticks := s.ticks + 1 } : Run Unit) :=
    .of_aside fun _ => ⟨Nat.le_refl _, rfl, rfl, rfl, rfl, rfl, rfl, rfl⟩
  unfold HostFunction.count
  infer_instance

instance : F.Holds (HostFunction.environmentBelow ctx) := by
  unfold HostFunction.environmentBelow
  apply Holds.andThen
  intro s
  dsimp only
  split <;> infer_instance

instance (fn : HostFunction) : F.Holds (fn.apply m args named) := by
  have hrecord (v : Value) : F.Holds (modify fun s => { s with recorded := s.recorded.push v } :
      Run Unit) := .of_aside fun _ => ⟨Nat.le_refl _, rfl, rfl, rfl, rfl, rfl, rfl, rfl⟩
  unfold HostFunction.apply
  cases fn with
  | record =>
      apply Holds.andThen
      intro bound
      split <;> infer_instance
  | nested =>
      apply Holds.andThen
      intro bound
      split <;> infer_instance
  | _ => infer_instance

end Flow

end Quasi
