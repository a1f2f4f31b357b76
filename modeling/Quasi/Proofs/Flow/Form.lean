import Quasi.Form.Assign
import Quasi.Form.Condition
import Quasi.Form.Lazy
import Quasi.Form.Member
import Quasi.Form.Quote
import Quasi.Proofs.Flow.Machine

/-!
# Special forms that follow a flow

Capturing arguments, expanding templates and every special form, over a machine that follows a
closed flow.
-/

namespace Quasi

namespace Flow

variable {F : Flow} {m : Machine} [F.Obeys m] (ctx : EvaluatorId)
  (slots : List Slot) (env : EnvId)

/-! ## Capturing -/

instance (p : PromiseId) : F.Holds (Machine.capturedCode p) := by
  unfold Machine.capturedCode
  apply Holds.andThen
  intro s
  dsimp only
  split <;> infer_instance

instance (arg : Expr) : F.Holds (Machine.argumentBinding arg env) := by
  unfold Machine.argumentBinding
  split <;> infer_instance

instance (home : Option EnvId) (code : Expr) : F.Holds (m.expandIn ctx home code) := by
  unfold Machine.expandIn
  split <;> infer_instance

instance (v : Value) : F.Holds (m.codeOf ctx v) := by
  unfold Machine.codeOf
  split <;> infer_instance

instance (v : Value) : F.Holds (m.quosureOf ctx v) := by
  unfold Machine.quosureOf
  split
  · apply Holds.andThen
    intro code
    apply Holds.andThen
    intro s
    apply Holds.andThen
    intro expanded
    split <;> infer_instance
  · infer_instance

instance (arg : Expr) : F.Holds (m.captureCode ctx arg env) := by
  unfold Machine.captureCode; infer_instance

instance (arg : Expr) : F.Holds (m.captureQuosure ctx arg env) := by
  unfold Machine.captureQuosure; infer_instance

instance (capture : Value → Run Value) (entries : List (Tagged Value))
    [∀ v, F.Holds (capture v)] : F.Holds (Machine.captureDots capture entries) := by
  induction entries with
  | nil => unfold Machine.captureDots; infer_instance
  | cons t rest ih =>
      unfold Machine.captureDots
      split <;> infer_instance

instance (source : Value) (e : Expr) : F.Holds (Machine.substituteFrom ctx source e) := by
  unfold Machine.substituteFrom
  apply Holds.andThen
  intro s
  split <;> infer_instance

/-! ## Templates -/

instance (v : Value) : F.Holds (Machine.splicedItems v) := by
  have hitem (slot : Slot) : F.Holds (match slot.item with
      | .const (.nan none) => do pure ⟨slot.tag, .const (← Run.own (.nan none))⟩
      | _ => pure slot : Run Slot) := by split <;> infer_instance
  unfold Machine.splicedItems
  infer_instance

instance (arg : Expr) : F.Holds (m.embrace ctx arg env) := by
  unfold Machine.embrace
  split <;> infer_instance

instance (lhs : Expr) : F.Holds (m.injectedName ctx lhs env) := by
  unfold Machine.injectedName
  extract_lets last
  have hlast (v : Value) : F.Holds (last v) := by unfold last; split <;> infer_instance
  split
  · infer_instance
  · split <;> infer_instance

instance (head : Expr) : F.Holds (Machine.checkCall head slots) := by
  unfold Machine.checkCall
  extract_lets last
  have hlast (x : Unit) : F.Holds (last x) := by unfold last; split <;> infer_instance
  clear_value last
  split <;> infer_instance

omit [F.Obeys m] in
mutual

theorem holds_expandTemplate [F.Obeys m] (e : Expr) : F.Holds (m.expandTemplate ctx env e) := by
  match e with
  | .call head slots =>
      have hhead := holds_expandTemplate head
      have hslots (h : Expr) := holds_expandSlots h slots
      unfold Machine.expandTemplate
      split <;> infer_instance
  | .formals items =>
      have hitems := holds_expandFormals items
      unfold Machine.expandTemplate
      infer_instance
  | .const _ | .symbol _ | .missing => unfold Machine.expandTemplate; infer_instance
termination_by structural e

theorem holds_expandSlots [F.Obeys m] (head : Expr) (slots : List (Tagged Expr)) :
    F.Holds (m.expandSlots ctx env head slots) := by
  match slots with
  | [] => unfold Machine.expandSlots; infer_instance
  | ⟨tag, e⟩ :: rest =>
      have hitem := holds_expandTemplate e
      have hassigned := holds_expandAssigned e
      have hrest := holds_expandSlots head rest
      unfold Machine.expandSlots
      extract_lets last
      have hlast (here : List Slot) : F.Holds (last here) := by unfold last; infer_instance
      split <;> infer_instance
termination_by structural slots

theorem holds_expandAssigned [F.Obeys m] (e : Expr) : F.Holds (m.expandAssigned ctx env e) := by
  match e with
  | .call _ [_, ⟨_, rhs⟩] =>
      have hrhs := holds_expandTemplate rhs
      unfold Machine.expandAssigned
      infer_instance
  | .call _ [] | .call _ [_] | .call _ (_ :: _ :: _ :: _) | .const _ | .symbol _ | .formals _
  | .missing => unfold Machine.expandAssigned; infer_instance
termination_by structural e

theorem holds_expandFormals [F.Obeys m] (items : List (String × Expr)) :
    F.Holds (m.expandFormals ctx env items) := by
  match items with
  | [] => unfold Machine.expandFormals; infer_instance
  | (name, e) :: rest =>
      have hitem := holds_expandTemplate e
      have hrest := holds_expandFormals rest
      unfold Machine.expandFormals
      infer_instance
termination_by structural items

end

instance (e : Expr) : F.Holds (m.expandTemplate ctx env e) := holds_expandTemplate ctx env e

instance : F.Holds (m.expandList ctx env slots) := holds_expandSlots ctx env _ slots

/-! ## Quoting forms -/

variable [F.Closed]

omit [F.Closed] [F.Obeys m] in
instance (form : String) : F.Holds (Machine.single form slots) := by
  unfold Machine.single
  split <;> infer_instance

instance : F.Holds (Machine.quoteForm slots) := by unfold Machine.quoteForm; infer_instance

instance : F.Holds (m.templateForm ctx slots env) := by
  unfold Machine.templateForm; infer_instance

instance : F.Holds (m.quosureForm ctx slots env) := by
  unfold Machine.quosureForm; infer_instance

instance : F.Holds (m.templateSlots ctx slots env) := by
  unfold Machine.templateSlots; infer_instance

instance : F.Holds (m.templatesForm ctx slots env) := by
  unfold Machine.templatesForm; infer_instance

instance : F.Holds (m.quosuresForm ctx slots env) := by
  unfold Machine.quosuresForm; infer_instance

instance : F.Holds (m.capturedForm ctx slots env) := by
  unfold Machine.capturedForm; infer_instance

instance : F.Holds (m.capturedQuosureForm ctx slots env) := by
  unfold Machine.capturedQuosureForm; infer_instance

instance (form : String) : F.Holds (Machine.onlyDots form slots) := by
  unfold Machine.onlyDots
  split
  · split <;> infer_instance
  · infer_instance

instance : F.Holds (m.capturedDotsForm ctx slots env) := by
  unfold Machine.capturedDotsForm; infer_instance

instance : F.Holds (m.capturedQuosuresForm ctx slots env) := by
  unfold Machine.capturedQuosuresForm; infer_instance

instance : F.Holds (m.substituteForm ctx slots env) := by
  unfold Machine.substituteForm
  apply Holds.andThen
  intro matched
  split <;> infer_instance

instance (name : String) : F.Holds (Machine.outsideTemplate name) := by
  unfold Machine.outsideTemplate; infer_instance

/-! ## Assignment forms -/

instance (target : Expr) : F.Holds (Machine.assignmentTarget target) := by
  unfold Machine.assignmentTarget
  split <;> infer_instance

instance (v : Value) (name : String) : F.Holds (Machine.nameClosure v name) := by
  unfold Machine.nameClosure
  split
  · exact .of_modify fun s => F.closureName s _ _
  · infer_instance

instance : F.Holds (m.assignment ctx slots env) := by
  unfold Machine.assignment
  split <;> infer_instance

instance : F.Holds (m.assignForm ctx slots env) := by
  unfold Machine.assignForm; infer_instance

instance : F.Holds (m.superAssignForm ctx slots env) := by
  unfold Machine.superAssignForm
  apply Holds.andThen
  intro assigned
  have hlast (above : Option EnvId) : F.Holds (do
      match above, ((← get).evaluator ctx).globalEnv with
      | some place, _ => Run.define place assigned.1 assigned.2
      | none, some global => Run.define global assigned.1 assigned.2
      | none, none => Run.fail (.binding (.noGlobal assigned.1))
      pure assigned.2 : Run Value) := by
    apply Holds.andThen
    intro s
    split <;> infer_instance
  apply Holds.andThen
  intro s
  split <;> infer_instance

/-! ## Control forms -/

instance : F.Holds (m.blockForm ctx env slots) := by
  induction slots with
  | nil => unfold Machine.blockForm; infer_instance
  | cons slot rest ih =>
      cases rest with
      | nil => unfold Machine.blockForm; infer_instance
      | cons next rest => unfold Machine.blockForm; infer_instance

instance : F.Holds (m.parenForm ctx slots env) := by
  unfold Machine.parenForm
  split <;> infer_instance

instance (form : String) (e : Expr) : F.Holds (m.conditionOf ctx form e env) := by
  unfold Machine.conditionOf; infer_instance

instance : F.Holds (m.ifForm ctx slots env) := by
  unfold Machine.ifForm
  split <;> infer_instance

instance : F.Holds (m.andForm ctx slots env) := by
  unfold Machine.andForm
  split <;> infer_instance

instance : F.Holds (m.orForm ctx slots env) := by
  unfold Machine.orForm
  split <;> infer_instance

instance : F.Holds (m.returnForm ctx slots env) := by
  unfold Machine.returnForm
  extract_lets last
  have hlast (v : Value) : F.Holds (last v) := by
    apply Holds.andThen
    intro target
    split <;> infer_instance
  clear_value last
  split
  · infer_instance
  · split <;> infer_instance

instance : F.Holds (Machine.functionForm slots env) := by
  unfold Machine.functionForm
  split
  · infer_instance
  · split <;> infer_instance

instance : F.Holds (m.localForm ctx slots env) := by
  unfold Machine.localForm
  apply Holds.andThen
  intro matched
  split
  · infer_instance
  · split
    · apply Holds.andThen
      intro place
      split <;> infer_instance
    · infer_instance

/-! ## Condition forms -/

instance (e : Option Expr) (default : Bool) : F.Holds (m.exitFlag ctx e env default) := by
  unfold Machine.exitFlag
  split <;> infer_instance

instance : F.Holds (m.onExitForm ctx slots env) := by
  unfold Machine.onExitForm
  apply Holds.andThen
  intro matched
  apply Holds.andThen
  intro add
  apply Holds.andThen
  intro after
  apply Holds.andThen
  intro frame
  split
  · infer_instance
  · extract_lets last
    have hlast (x : Unit) : F.Holds (last x) := by unfold last; infer_instance
    split <;> infer_instance

instance (parts : Machine.TryParts) : F.Holds (Machine.tryParts slots parts) := by
  induction slots generalizing parts with
  | nil => unfold Machine.tryParts; infer_instance
  | cons slot rest ih =>
      unfold Machine.tryParts
      split <;> infer_instance

instance (handlers : List (String × Expr)) : F.Holds (m.evalHandlers ctx env handlers) := by
  induction handlers with
  | nil => unfold Machine.evalHandlers; infer_instance
  | cons handler rest ih => unfold Machine.evalHandlers; infer_instance

instance (handlers : List (String × Value)) (body : Expr) :
    F.Holds (m.guarded ctx env handlers body) := by
  unfold Machine.guarded
  have hhandler (f : FailureRef) : F.Holds (match handlers.find? fun handler =>
      f.cause.classes.contains handler.1 with
      | none => Run.raise (.failure f)
      | some (name, handler) => do
          Run.trace fun _ => s!"tryCatch handler `{name}` caught " ++ f.cause.typeName
          m.call ctx handler [.failure f] [] env) := by split <;> infer_instance
  infer_instance

instance : F.Holds (m.tryCatchForm ctx slots env) := by
  unfold Machine.tryCatchForm
  apply Holds.andThen
  intro parts
  apply Holds.andThen
  intro handlers
  have hbody : F.Holds (match parts.body with
      | none => pure .null
      | some body => m.guarded ctx env handlers body : Run Value) := by split <;> infer_instance
  dsimp only
  split <;> infer_instance

/-! ## Promises and parts of values -/

instance (v : Value) : F.Holds (Machine.isMissing v) := by
  unfold Machine.isMissing
  apply Holds.andThen
  intro s
  split <;> infer_instance

instance : F.Holds (Machine.missingForm slots env) := by
  unfold Machine.missingForm
  split
  · apply Holds.andThen
    intro s
    split <;> infer_instance
  · infer_instance

instance (e : Option Expr) : F.Holds (m.environmentSlot ctx e env) := by
  unfold Machine.environmentSlot
  split <;> infer_instance

instance : F.Holds (m.delayedAssignForm ctx slots env) := by
  unfold Machine.delayedAssignForm
  apply Holds.andThen
  intro matched
  have hlast (code : Expr) (name : String) (evalEnv assignEnv : Value) : F.Holds (match
      evalEnv, assignEnv with
      | .env evalEnv, .env assignEnv => do
          let p ← Run.newPromise ⟨code, some evalEnv, some ctx, false, .unforced⟩
          Run.define assignEnv name (.promise p)
          pure .null
      | _, _ => Run.failType .delayedEnvironment : Run Value) := by split <;> infer_instance
  split
  · apply Holds.andThen
    intro x
    split <;> infer_instance
  · infer_instance

instance (target : Value) (name : String) : F.Holds (m.getMember target name) := by
  unfold Machine.getMember
  split
  case h_3 =>
    apply Holds.andThen
    intro s
    split <;> infer_instance
  all_goals infer_instance

instance : F.Holds (m.memberForm ctx slots env) := by
  unfold Machine.memberForm
  split
  · apply Holds.andThen
    intro v
    split <;> infer_instance
  · infer_instance

end Flow

end Quasi
