import Quasi.Machine.Eval

/-!
# Reading code under a mask

What code under a mask means, said without the bottom environment of the mask: a name stands for
what the first of some sources of data has under it, or else for what it is bound to in the
environment of the innermost quosure that it is written in. The data pronoun looks into the sources
only and the environment pronoun into that environment only.

A reading covers constants, names, pronouns, the control forms, calls of primitives that look
neither into environments nor at the calls under way, and embedded quosures. Where code does
anything else a reading is lost, so that nothing is said of such code.
-/

namespace Quasi

def EnvId.isBottom : EnvId → Bool
  | .bottom _ => true
  | _ => false

namespace Store

/-- What the first of some sources of data that has a name has under it. -/
def inScopes? (s : Store) (scopes : List DataScope) (name : String) : Option Value :=
  scopes.findSome? fun scope => s.dataSlot? scope name

/-- Whether an environment exists and its chain comes to its end without a mask on it. -/
def isPlain (s : Store) (e : EnvId) : Bool :=
  s.known e = e && (s.chain e).2 && (s.chain e).1.all fun e => !e.isBottom

end Store

/-- Whether names or arguments are looked up in a value. -/
def Value.hasBindings : Value → Bool
  | .env _ => true
  | .pronoun _ _ => true
  | .dots _ => true
  | _ => false

mutual

/-- Whether nothing that a value holds has bindings. -/
def Value.isInert : Value → Bool
  | .env _ => false
  | .pronoun _ _ => false
  | .dots _ => false
  | .code e => e.isInert
  | .slot ⟨_, e⟩ => e.isInert
  | .list items => inertTagged items
  | .sequence items => inertItems items
  | .tuple items => inertItems items
  | .mapping entries => inertEntries entries
  | .vec ⟨_, .objects xs⟩ => inertItems xs
  | _ => true
termination_by structural v => v

def Expr.isInert : Expr → Bool
  | .const v => v.isInert
  | .call head slots => head.isInert && inertSlots slots
  | .formals items => inertFormals items
  | _ => true
termination_by structural e => e

def inertItems : List Value → Bool
  | [] => true
  | v :: rest => v.isInert && inertItems rest
termination_by structural items => items

def inertTagged : List (Tagged Value) → Bool
  | [] => true
  | ⟨_, v⟩ :: rest => v.isInert && inertTagged rest
termination_by structural items => items

def inertEntries : List (String × Value) → Bool
  | [] => true
  | (_, v) :: rest => v.isInert && inertEntries rest
termination_by structural entries => entries

def inertSlots : List (Tagged Expr) → Bool
  | [] => true
  | ⟨_, e⟩ :: rest => e.isInert && inertSlots rest
termination_by structural slots => slots

def inertFormals : List (String × Expr) → Bool
  | [] => true
  | (_, e) :: rest => e.isInert && inertFormals rest
termination_by structural items => items

end

namespace Primitive

/-- The primitives that look neither into environments nor at the calls under way, and call no
function. -/
def isRegular : Primitive → Bool
  | .lapply | .doCall | .stop | .warning | .newEnv | .environment | .parentFrame | .parentEnv
  | .sysCall | .sysFunction | .assign | .get | .exists | .rm | .eval | .evalTidy
  | .newQuosure => false
  | _ => true

/-- Whether a primitive does not evaluate anything. An element of what has bindings is looked up. -/
def standsAlone (fn : Primitive) (args : List Value) : Bool :=
  fn.isRegular && match fn, args with
    | .element, v :: _ => !v.hasBindings
    | _, _ => true

/-- Whether a primitive finds no bindings where it looks into its arguments. Some show all that
their arguments hold, if only in the text of a failure. -/
def looksPast (fn : Primitive) (args : List Value) : Bool :=
  match fn, args with
  | .length, args => args.all fun v => !v.hasBindings
  | .names, args => args.all fun v => !v.hasBindings
  | .element, _ :: rest => inertItems rest
  | .paste, args | .paste0, args | .print, args | .cat, args | .message, args
  | .conditionMessage, args | .quoGetExpr, args | .quoGetEnv, args | .quoIsMissing, args
  | .quoIsSymbol, args | .quoIsCall, args | .sym, args | .syms, args | .asLabel, args =>
      inertItems args
  | _, _ => true

/-- Whether the value of a primitive depends on nothing but its arguments. -/
def readsOnly (fn : Primitive) (args : List Value) : Bool :=
  fn.standsAlone args && fn.looksPast args

end Primitive

/-- A way to read code under a mask. -/
structure Reading where
  mask : MaskId
  scopes : List DataScope
  /-- The primitives that are covered, at arguments. -/
  admits : Primitive → List Value → Bool
  /-- What is done about the mask while the code of an environment is read. -/
  within : EnvId → Run Value → Run Value
  /-- The value of the code of a promise that was made elsewhere, with room for so many levels. -/
  foreign : Nat → EvaluatorId → Expr → EnvId → Run Value

namespace Reading

/-- What no reading covers. -/
def outside {α : Type} : Run α := throw .endless

variable (r : Reading)

def bottom : EnvId := .bottom r.mask

/-- What a name stands for in the code of an environment. Nothing but the pronouns is bound under
the mask itself. -/
def bound (home : EnvId) (name : String) : Run Value := do
  let s ← get
  match (s.mask r.mask).vars.get? name with
  | some (.pronoun p mask) =>
      if p.name = name ∧ mask = r.mask then pure (.pronoun p mask) else outside
  | some _ => outside
  | none =>
      match s.inScopes? r.scopes name with
      | some v => Run.own v
      | none => Run.binding home name

def symbol (m : Machine) (home : EnvId) (name : String) : Run Value := do
  if name = dotsName ∨ (Machine.dotsPosition? name).isSome then outside
  else
    match ← r.bound home name with
    | .code .missing => Run.fail (.missingArgument (some name))
    | v => Machine.forceValue m none v

/-- The first function that a name stands for. -/
def firstFunction (m : Machine) (home : EnvId) (name : String) : Run (Option Value) := do
  let s ← get
  let chain := (s.chain home).1
  match (s.mask r.mask).vars.get? name, s.inScopes? r.scopes name with
  | some _, _ => outside
  | none, some v => do
      let v ← Machine.forceValue m none v
      if v.isInvocable then pure (some v) else Machine.firstFunction m name chain
  | none, none => Machine.firstFunction m name chain

def function (m : Machine) (home : EnvId) (name : String) : Run Value := do
  match ← r.firstFunction m home name with
  | some fn => pure fn
  | none => do
      Run.reachEnd home
      Run.fail (.lookup (.noFunction name))

/-- What a pronoun of the mask has under a name. -/
def member (m : Machine) (home : EnvId) (target : Value) (name : String) : Run Value := do
  match target with
  | .pronoun p mask =>
      if mask ≠ r.mask then outside
      else
        match p, (← get).inScopes? r.scopes name with
        | .data, some v => do Machine.forceValue m none (← Run.own v)
        | .data, none => Run.fail (.ambiguousName name)
        | .env, _ => Machine.lookup m home name
  | _ => outside

def memberForm (m : Machine) (ctx : EvaluatorId) (home : EnvId) (slots : List Slot) :
    Run Value := do
  match slots with
  | [target, name] => do
      let v ← m.eval ctx target.item r.bottom
      match name.item with
      | .symbol name => r.member m home v name
      | .const (.str name) => r.member m home v name
      | e => Run.failType (.memberName e.plain)
  | _ => Run.failArity .targetAndName

def form (m : Machine) (ctx : EvaluatorId) (home : EnvId) (form : SpecialForm)
    (slots : List Slot) : Run Value :=
  match form with
  | .block => m.blockForm ctx r.bottom slots
  | .paren => m.parenForm ctx slots r.bottom
  | .ifElse => m.ifForm ctx slots r.bottom
  | .andAlso => m.andForm ctx slots r.bottom
  | .orElse => m.orForm ctx slots r.bottom
  | .member => r.memberForm m ctx home slots
  | _ => outside

def apply (m : Machine) (ctx : EvaluatorId) (home : EnvId) (fn : Value) (call : Expr)
    (slots : List Slot) : Run Value := do
  match fn with
  | .builtin (.special form) _ => r.form m ctx home form slots
  | .builtin (.primitive fn) _ =>
      if slots.any fun slot => slot.item.isSymbol dotsName then outside
      else do
        let (args, named) ← m.evalArgs ctx slots r.bottom call
        if r.admits fn (args ++ named.map (·.2)) then
          m.applyPrimitive ctx fn args named r.bottom
        else outside
  | _ => outside

/-- The value of code of the environment `home`, its parts being read by a machine and the quosures
in it by `enter`. -/
def step (m : Machine) (enter : EnvId → Expr → Run Value) (ctx : EvaluatorId) (home : EnvId)
    (e : Expr) : Run Value := do
  match e with
  | .const (.quosure e inner) => if (← get).isPlain inner then enter inner e else outside
  | .const v => pure v
  | .symbol name => r.symbol m home name
  | .call (.symbol name) slots => do
      let fn ← r.function m home name
      r.apply m ctx home fn (.call (.symbol name) slots) slots
  | .call _ _ => outside
  | .formals items => pure (.code (.formals items))
  | .missing => Run.fail (.missingArgument none)

/-- The machine that reads code of the environment `home`. -/
def machine : Nat → EnvId → Machine
  | 0, _ => .exhausted
  | n + 1, home =>
      { eval := fun ctx e env =>
          if env = r.bottom then
            r.step (machine n home)
              (fun inner e => r.within inner ((machine n inner).eval ctx e r.bottom)) ctx home e
          else r.foreign (n + 1) ctx e env
        call := fun _ _ _ _ _ => outside
        expand := fun _ _ _ => outside }

/-- The value of code of the environment `home` in front of which the mask is put. -/
def tidy (n : Nat) (ctx : EvaluatorId) (e : Expr) (home : EnvId) : Run Value := do
  if (← get).isPlain home then
    r.within home (Machine.inTarget ctx r.bottom ((r.machine n home).eval ctx e r.bottom))
  else outside

end Reading

end Quasi
