import Quasi.Machine.Apply
import Quasi.Quotation.Template

/-!
# Quoting forms

Forms that give code instead of values: their own slots, with injections expanded or not, and the
arguments of the function that evaluates them.
-/

namespace Quasi

namespace Machine

variable (m : Machine) (ctx : EvaluatorId)

/-- The only slot of a form. -/
def single (form : String) (slots : List Slot) : Run Expr := do
  match slots with
  | [slot] => pure slot.item
  | slots => Run.failArity (.exactlyOne form slots.length)

def quoteForm (slots : List Slot) : Run Value := do
  pure (.code (← single "quote" slots))

def templateForm (slots : List Slot) (env : EnvId) : Run Value := do
  let e ← single "expr" slots
  pure (.code (← expandTemplate m ctx env e))

def quosureForm (slots : List Slot) (env : EnvId) : Run Value := do
  let e ← single "quo" slots
  pure (.quosure (← expandTemplate m ctx env e) env)

/-- Slots with their injections expanded, missing ones left out. -/
def templateSlots (slots : List Slot) (env : EnvId) : Run (List Slot) :=
  expandList m ctx env (slots.filter fun slot => !slot.item.isMissing)

def templatesForm (slots : List Slot) (env : EnvId) : Run Value := do
  pure (.list ((← templateSlots m ctx slots env).map (Tagged.map .code)))

/-- The quosure of an expression, or the one that it embeds. -/
def quosureAround (env : EnvId) : Expr → Value
  | .const (.quosure e home) => .quosure e home
  | e => .quosure e env

def quosuresForm (slots : List Slot) (env : EnvId) : Run Value := do
  pure (.list ((← templateSlots m ctx slots env).map (Tagged.map (quosureAround env))))

def capturedForm (slots : List Slot) (env : EnvId) : Run Value := do
  let arg ← single "enexpr" slots
  pure (.code (← captureCode m ctx arg env))

def capturedQuosureForm (slots : List Slot) (env : EnvId) : Run Value := do
  let arg ← single "enquo" slots
  captureQuosure m ctx arg env

/-- Refuse everything but `...`. -/
def onlyDots (form : String) (slots : List Slot) : Run Unit := do
  match slots with
  | [slot] => if slot.item.isSymbol dotsName then pure () else Run.failArity (.onlyDots form)
  | _ => Run.failArity (.onlyDots form)

def capturedDotsForm (slots : List Slot) (env : EnvId) : Run Value := do
  onlyDots "enexprs" slots
  let entries ← dotsOf env
  pure (.list (← captureDots (fun v => do pure (.code (← codeOf m ctx v))) entries))

def capturedQuosuresForm (slots : List Slot) (env : EnvId) : Run Value := do
  onlyDots "enquos" slots
  let entries ← dotsOf env
  pure (.list (← captureDots (quosureOf m ctx) entries))

def substituteForm (slots : List Slot) (env : EnvId) : Run Value := do
  let matched ← matchSlots ["expr", "env"] slots
  match (matched.get? "expr").getD .missing, (matched.get? "env").getD .missing with
  | .missing, _ => pure (.code .missing)
  | e, .missing => do pure (.code (← substituteFrom ctx (.env env) e))
  | e, source => do
      let source ← m.eval ctx source env
      pure (.code (← substituteFrom ctx source e))

/-- Injection operators have no meaning of their own. -/
def outsideTemplate (name : String) : Run Value :=
  Run.fail (.template (.outsideTemplate name))

end Machine

end Quasi
