import Quasi.Form.Assign
import Quasi.Form.Condition
import Quasi.Form.Lazy
import Quasi.Form.Quote
import Quasi.Library.Apply
import Quasi.Library.Code
import Quasi.Library.Data
import Quasi.Library.Host
import Quasi.Library.Scope
import Quasi.Library.Signal

/-!
# Evaluation

A constant evaluates to its value, a symbol to what it is bound to, and a call applies its head. A
machine of level `n` nests evaluations at most `n` deep: each of its steps evaluates the parts of an
expression with the machine of the level below.
-/

namespace Quasi

namespace Machine

/-- Apply a special form to its slots as they were written. -/
def applyForm (m : Machine) (ctx : EvaluatorId) (form : SpecialForm) (slots : List Slot)
    (env : EnvId) : Run Value :=
  match form with
  | .quote => quoteForm slots
  | .template => templateForm m ctx slots env
  | .quosure => quosureForm m ctx slots env
  | .templates => templatesForm m ctx slots env
  | .quosures => quosuresForm m ctx slots env
  | .captured => capturedForm m ctx slots env
  | .capturedQuosure => capturedQuosureForm m ctx slots env
  | .capturedDots => capturedDotsForm m ctx slots env
  | .capturedQuosures => capturedQuosuresForm m ctx slots env
  | .substitute => substituteForm m ctx slots env
  | .unquote => outsideTemplate unquoteName
  | .splice => outsideTemplate spliceName
  | .embrace => outsideTemplate embraceName
  | .nameAssign => outsideTemplate nameAssignName
  | .function => functionForm slots env
  | .assign => assignForm m ctx slots env
  | .equalsAssign => assignForm m ctx slots env
  | .superAssign => superAssignForm m ctx slots env
  | .block => blockForm m ctx env slots
  | .paren => parenForm m ctx slots env
  | .ifElse => ifForm m ctx slots env
  | .andAlso => andForm m ctx slots env
  | .orElse => orForm m ctx slots env
  | .returnFrom => returnForm m ctx slots env
  | .onExit => onExitForm m ctx slots env
  | .tryCatch => tryCatchForm m ctx slots env
  | .missing => missingForm slots env
  | .delayedAssign => delayedAssignForm m ctx slots env
  | .localScope => localForm m ctx slots env
  | .member => memberForm m ctx slots env
  | .slotMember => memberForm m ctx slots env

/-- Apply a primitive to evaluated arguments. -/
def applyPrimitive (m : Machine) (ctx : EvaluatorId) (fn : Primitive) (args : List Value)
    (named : Bindings Value) (env : EnvId) : Run Value :=
  match fn with
  | .binary op => Library.operatorOrSign op args
  | .not => Library.not args
  | .identical => Library.identical args
  | .combine => Library.combine args named
  | .list => pure (.list (Library.tagged args named))
  | .length => Library.length args
  | .names => Library.names args
  | .element => Library.element m args
  | .isNull => Library.predicate "is.null" Value.isNull args
  | .isFunction => Library.predicate "is.function" Value.isInvocable args
  | .isEnvironment => Library.predicate "is.environment" Library.isEnvironment args
  | .sum => Library.sum args
  | .mean => Library.mean args
  | .sqrt => Library.sqrt args
  | .lapply => Library.lapply m ctx args named env
  | .doCall => Library.doCall m ctx args env
  | .paste => Library.paste args named
  | .paste0 => Library.paste0 args
  | .print => Library.print args
  | .cat => Library.cat args named
  | .identity => Library.oneArg "identity" args
  | .invisible => pure (args.headD .null)
  | .deparse => Library.deparse args
  | .exprText => Library.deparse args
  | .stop => Library.stop ctx args named env
  | .warning => Library.warning ctx args env
  | .message => Library.message args
  | .conditionMessage => Library.conditionMessage args
  | .conditionCall => Library.conditionCall args
  | .newEnv => Library.newEnv args named env
  | .environment => Library.environment args named env
  | .parentFrame => Library.parentFrame ctx args named env
  | .parentEnv => Library.parentEnv args
  | .emptyEnv => pure (.env .empty)
  | .globalEnv => do pure (.env (← topEnv ctx))
  | .sysCall => Library.sysCall ctx env
  | .sysFunction => Library.sysFunction ctx env
  | .assign => Library.assign args named env
  | .get => Library.get m args named env
  | .exists => Library.exists? args named env
  | .rm => Library.rm args named env
  | .force => Library.oneArg "force" args
  | .eval => Library.evalCode m ctx args named env
  | .evalTidy => Library.evalTidy m ctx args named env
  | .newDataMask => Library.newDataMask args
  | .asDataMask => Library.asDataMask args
  | .quoGetExpr => Library.quoGetExpr args
  | .quoGetEnv => Library.quoGetEnv args
  | .newQuosure => Library.newQuosure args named env
  | .quoSquash => Library.quoSquash args
  | .asLabel => Library.asLabel args
  | .isQuosure => Library.predicate "is_quosure" Library.isQuosure args
  | .quoIsMissing => Library.quosurePredicate "quo_is_missing" Expr.isMissing args
  | .quoIsSymbol => Library.quosurePredicate "quo_is_symbol" Library.isSymbol args
  | .quoIsCall => Library.quosurePredicate "quo_is_call" Library.isCall args
  | .isSymbol => Library.predicate "is.symbol" (Library.isCode Library.isSymbol) args
  | .isCall => Library.predicate "is.call" (Library.isCode Library.isCall) args
  | .sym => Library.sym args
  | .syms => Library.syms args
  | .call2 => Library.call2 args named

/-- Apply a function to the slots of a call, which are evaluated from an environment. -/
def apply (m : Machine) (ctx : EvaluatorId) (fn : Value) (call : Expr) (slots : List Slot)
    (env : EnvId) : Run Value := do
  match fn with
  | .builtin (.special form) _ => applyForm m ctx form slots env
  | .builtin (.primitive fn) _ => do
      let (args, named) ← evalArgs m ctx slots env call
      applyPrimitive m ctx fn args named env
  | .closure c => do
      let supplied ← promiseArgs ctx env slots
      applyClosure m ctx c supplied call env
  | .host fn => do
      let (args, named) ← evalArgs m ctx slots env call
      fn.apply m args named
  | _ => Run.failWith (.callable .notFunction) (some call)

/-- The value of a call. A head that is a symbol is looked up among functions only. -/
def evalCall (m : Machine) (ctx : EvaluatorId) (head : Expr) (slots : List Slot) (env : EnvId) :
    Run Value := do
  let call := Expr.call head slots
  match head.symbolName? with
  | some name => do
      let fn ← lookupFunction m env name
      apply m ctx fn call slots env
  | none => do
      let fn ← m.eval ctx head env
      if fn.isInvocable then apply m ctx fn call slots env
      else Run.failWith (.callable .notFunction) (some call)

/-- The value of an expression, its parts being evaluated by a machine. -/
def evalStep (m : Machine) (ctx : EvaluatorId) (e : Expr) (env : EnvId) : Run Value :=
  match e with
  | .const (.quosure e home) => evalQuosure m ctx e home env
  | .const v => pure v
  | .symbol name => evalSymbol m ctx name env
  | .call head slots => evalCall m ctx head slots env
  | .formals items => pure (.code (.formals items))
  | .missing => Run.fail (.missingArgument none)

/-- The value of a function at values, as if it was called with them. -/
def callStep (m : Machine) (ctx : EvaluatorId) (fn : Value) (args : List Value)
    (named : Bindings Value) (env : EnvId) : Run Value := do
  let call := callOf (← get) fn args named
  match fn with
  | .closure c => do
      let supplied ← args.mapM fun v => do pure (Tagged.bare (← givenPromise v))
      let byName ← named.mapM fun (name, v) => do pure (Tagged.mk (some name) (← givenPromise v))
      applyClosure m ctx c (supplied ++ byName) call env
  | .builtin (.special form) _ =>
      match call with
      | .call _ slots => applyForm m ctx form slots env
      | _ => pure .null
  | .builtin (.primitive fn) _ => applyPrimitive m ctx fn args named env
  | .host fn => fn.apply m args named
  | _ => Run.failWith (.callable .notFunction) (some call)

/-- The machine whose steps use another one. -/
def above (m : Machine) : Machine where
  eval ctx e env := evalStep m ctx e env
  call ctx fn args named env := callStep m ctx fn args named env
  expand ctx e env := expandTemplate m ctx env e

/-- The machine with room for `n` levels of nesting. -/
def ofLevel : Nat → Machine
  | 0 => exhausted
  | n + 1 =>
      { eval := fun ctx e env => evalStep (ofLevel n) ctx e env
        call := fun ctx fn args named env => callStep (ofLevel n) ctx fn args named env
        expand := fun ctx e env => expandTemplate (ofLevel n) ctx env e }

theorem ofLevel_succ (n : Nat) : ofLevel (n + 1) = above (ofLevel n) := rfl

/-- How many levels of nesting fit beside a number of calls under way. -/
def levelsFor (maxDepth : Int) : Nat := 40 * maxDepth.toNat + 1000

end Machine

end Quasi
