import Quasi.Proofs.Tidy.Parts
import Quasi.Proofs.Tidy.Primitive

/-!
# Code that binds where it is evaluated

Code is enclosed while all that it does is to look names up and to bind them where it is evaluated,
to open scopes of its own there, to go through the control forms, to descend into quosures, and to
call primitives that neither look into environments nor call functions. Evaluation is followed as
long as it does nothing else and forces no promise that was left unevaluated before; where it goes
further it is lost, so that nothing is said of such code.
-/

namespace Quasi

open Run (Agrees)
open Reading (outside)

/-- Whether a promise is being evaluated. -/
def Progress.isForcing : Progress → Bool
  | .forcing => true
  | _ => false

/-- Whether a promise is being evaluated that was waiting for it in an earlier store. -/
def Store.reopens (before s : Store) : Bool :=
  (List.range before.promises.size).any fun i =>
    (before.promise ⟨i⟩).progress.isIdle && (s.promise ⟨i⟩).progress.isForcing

namespace Enclosed

variable (m : Machine) (ctx : EvaluatorId)

/-- A local scope is followed if it is a fresh one. -/
def localForm (slots : List Slot) (env : EnvId) : Run Value := do
  let matched ← Machine.matchSlots ["expr", "envir"] slots
  match matched.get? "expr", matched.get? "envir" with
  | none, _ => Run.failArity .noLocalExpression
  | some expr, none => do
      let place ← Run.newScope env [] none
      m.evalIn ctx expr place
  | some _, some _ => outside

def applyForm (form : SpecialForm) (slots : List Slot) (env : EnvId) : Run Value :=
  match form with
  | .block => m.blockForm ctx env slots
  | .paren => m.parenForm ctx slots env
  | .ifElse => m.ifForm ctx slots env
  | .andAlso => m.andForm ctx slots env
  | .orElse => m.orForm ctx slots env
  | .assign => m.assignForm ctx slots env
  | .equalsAssign => m.assignForm ctx slots env
  | .localScope => localForm m ctx slots env
  | _ => outside

def apply (fn : Value) (call : Expr) (slots : List Slot) (env : EnvId) : Run Value :=
  match fn with
  | .builtin (.special form) _ => applyForm m ctx form slots env
  | .builtin (.primitive fn) _ => do
      let (args, named) ← m.evalArgs ctx slots env call
      if fn.standsAlone args then m.applyPrimitive ctx fn args named env else outside
  | _ => outside

def step (e : Expr) (env : EnvId) : Run Value :=
  match e with
  | .call (.symbol name) slots => do
      let fn ← m.lookupFunction env name
      apply m ctx fn (.call (.symbol name) slots) slots env
  | .call _ _ => outside
  | e => m.evalStep ctx e env

/-- The machine that follows the evaluation of enclosed code from an earlier store on. -/
def machine (before : Store) : Nat → Machine
  | 0 => Machine.exhausted
  | n + 1 =>
      { eval := fun ctx e env => do
          if before.reopens (← get) then outside else step (machine before n) ctx e env
        call := fun _ _ _ _ _ => outside
        expand := fun _ _ _ => outside }

/-! ## Following is faithful -/

/-- A run under a mask agrees with another one where what they run there does. -/
theorem agrees_under {α : Type} {a b : EnvId → Run α} (mask : MaskId) (home : EnvId)
    (h : ∀ e, Agrees Eq (a e) (b e)) :
    Agrees Eq (Run.under mask home a) (Run.under mask home b) := by
  unfold Run.under
  refine .bind (Run.respects_eq _).agrees fun previous => ?_
  exact fun s t hst => (h _ s t hst).andFinally (Run.respects_eq _).agrees

section Mirrors

variable {m} {m' : Machine} (h : Machine.Mirrors Eq Eq m m') (env : EnvId)
include h

theorem agrees_eval (e : Expr) : Agrees Eq (m.eval ctx e env) (m'.eval ctx e env) :=
  h.eval ctx e rfl

theorem agrees_evalIn (e : Expr) : Agrees Eq (m.evalIn ctx e env) (m'.evalIn ctx e env) :=
  Machine.ReadAs.inTarget ctx env (agrees_eval ctx h env e)

theorem agrees_lookupFunction (name : String) :
    Agrees Eq (m.lookupFunction env name) (m'.lookupFunction env name) := by
  unfold Machine.lookupFunction
  refine .get_bind fun s t hst => ?_
  subst hst
  have hslots : ∀ e ∈ (s.chain env).1, ∀ s t : Store, s = t → s.slot? e name = t.slot? e name :=
    fun _ _ _ _ hst => hst ▸ rfl
  refine .bind (h.firstFunction (List.forall₂_same.mpr hslots)) fun found => ?_
  exact (Run.respects_eq _).agrees

theorem agrees_evalSymbol (name : String) :
    Agrees Eq (m.evalSymbol ctx name env) (m'.evalSymbol ctx name env) := by
  unfold Machine.evalSymbol
  split
  · exact (Run.respects_eq _).agrees
  · cases Machine.dotsPosition? name with
    | none => exact h.lookup fun s t hst => Store.sees_of_eq (hst ▸ rfl) (hst ▸ rfl)
    | some n =>
        refine .bind (Run.respects_eq _).agrees fun entries => ?_
        split
        · exact (Run.respects_eq _).agrees
        · exact (Run.respects_eq _).agrees
        · exact h.forceValue (some ctx) _

theorem agrees_evalQuosure (e : Expr) (home : EnvId) :
    Agrees Eq (m.evalQuosure ctx e home env) (m'.evalQuosure ctx e home env) := by
  unfold Machine.evalQuosure
  refine .bind (Run.respects_eq _).agrees fun found => ?_
  split
  · exact agrees_eval ctx h home e
  · exact agrees_under _ home fun bottom => agrees_eval ctx h bottom e

theorem agrees_evalArgs (slots : List Slot) (call : Expr) :
    Agrees Eq (m.evalArgs ctx slots env call) (m'.evalArgs ctx slots env call) :=
  .bind (Run.respects_eq _).agrees fun _ =>
    Machine.agrees_forceArgs ctx call (fun t _ => h.forceValue (some ctx) t.item) [] []

/-! ### Forms -/

theorem agrees_assignForm (slots : List Slot) :
    Agrees Eq (m.assignForm ctx slots env) (m'.assignForm ctx slots env) := by
  have hassignment : Agrees Eq (m.assignment ctx slots env) (m'.assignment ctx slots env) := by
    unfold Machine.assignment
    split
    · refine .bind (Run.respects_eq _).agrees fun name => ?_
      exact .bind (agrees_eval ctx h env _) fun v => (Run.respects_eq _).agrees
    · exact (Run.respects_eq _).agrees
  exact .bind hassignment fun _ => (Run.respects_eq _).agrees

theorem agrees_localForm (slots : List Slot) :
    Agrees Eq (m.localForm ctx slots env) (localForm m' ctx slots env) := by
  unfold Machine.localForm localForm
  refine .bind (Run.respects_eq _).agrees fun matched => ?_
  cases matched.get? "expr" with
  | none => exact (Run.respects_eq _).agrees
  | some expr =>
      cases matched.get? "envir" with
      | none => exact .bind (Run.respects_eq _).agrees fun place => agrees_evalIn ctx h place expr
      | some place => exact .endless

theorem agrees_applyForm (form : SpecialForm) (slots : List Slot) :
    Agrees Eq (m.applyForm ctx form slots env) (applyForm m' ctx form slots env) := by
  have hslots := h.eval_slots (x := env) rfl slots
  cases form with
  | block => exact Machine.agrees_blockForm hslots ctx
  | paren => exact Machine.agrees_parenForm hslots ctx
  | ifElse => exact Machine.agrees_ifForm hslots ctx
  | andAlso => exact Machine.agrees_andForm hslots ctx
  | orElse => exact Machine.agrees_orForm hslots ctx
  | assign => exact agrees_assignForm ctx h env slots
  | equalsAssign => exact agrees_assignForm ctx h env slots
  | localScope => exact agrees_localForm ctx h env slots
  | _ => exact .endless

theorem agrees_apply (fn : Value) (call : Expr) (slots : List Slot) :
    Agrees Eq (m.apply ctx fn call slots env) (apply m' ctx fn call slots env) := by
  cases fn with
  | builtin b home =>
      cases b with
      | special form => exact agrees_applyForm ctx h env form slots
      | primitive fn =>
          refine .bind (agrees_evalArgs ctx h env slots call) fun args => ?_
          dsimp only
          split
          next halone =>
              rw [applyPrimitive_congr halone m m' ctx args.2 env env]
              exact (Run.respects_eq _).agrees
          next => exact .endless
  | _ => exact .endless

theorem agrees_step (e : Expr) : Agrees Eq (m.evalStep ctx e env) (step m' ctx e env) := by
  cases e with
  | const v =>
      cases v with
      | quosure e home => exact agrees_evalQuosure ctx h env e home
      | _ => exact .pure _
  | symbol name => exact agrees_evalSymbol ctx h env name
  | call head slots =>
      cases head with
      | symbol name =>
          exact .bind (agrees_lookupFunction h env name) fun fn => agrees_apply ctx h env fn _ slots
      | _ => exact .endless
  | formals items => exact .pure _
  | missing => exact (Run.respects_eq _).agrees

end Mirrors

/-- Where evaluation is followed to its end, it ends as it is followed. -/
theorem mirrors (before : Store) (n : Nat) :
    Machine.Mirrors Eq Eq (Machine.ofLevel n) (machine before n) := by
  induction n with
  | zero => exact ⟨fun hst _ => hst ▸ .refl _, fun _ _ hxy => hxy ▸ (Run.respects_eq _).agrees⟩
  | succ n ih =>
      refine ⟨fun hst _ => hst ▸ .refl _, fun {x y} ctx e hxy s t hst => ?_⟩
      subst hxy hst
      change Run.Matches Eq _ ((if before.reopens s then outside else
        step (machine before n) ctx e x : Run Value) s)
      split
      · exact .endless
      · exact agrees_step ctx ih x e s s rfl

/-- So does evaluation under a mask. -/
theorem agrees_evalTidy (before : Store) (n : Nat) (code data : Value) (env : Option EnvId) :
    Agrees Eq ((Machine.ofLevel n).evalTidy ctx code data env)
      ((machine before n).evalTidy ctx code data env) := by
  have hunder (mask : MaskId) (e : Expr) (home : EnvId) :
      Agrees Eq (Run.under mask home fun bottom => (Machine.ofLevel n).evalIn ctx e bottom)
        (Run.under mask home fun bottom => (machine before n).evalIn ctx e bottom) :=
    agrees_under mask home fun bottom => agrees_evalIn ctx (mirrors before n) bottom e
  refine .bind (Run.respects_eq _).agrees fun mask => ?_
  unfold Machine.evalUnder
  split
  · exact hunder mask _ _
  · exact hunder mask _ _
  · exact .bind (Run.respects_eq _).agrees fun home => hunder mask _ home

end Enclosed

end Quasi
