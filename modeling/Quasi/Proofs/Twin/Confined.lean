import Quasi.Proofs.Tidy.Covered
import Quasi.Proofs.Tidy.Parts

/-!
# Confined code

Code is confined while all that it does is to look names up and to bind them in its own environment,
to go through the control forms, and to call primitives that look into no environment. Confined
evaluation follows code step by step and is lost where the code does anything else, so that nothing
is said of such code. The code of promises may be evaluated as it stands instead.
-/

namespace Quasi

open Run (Agrees Forces Matches Respects)
open Reading (outside)

/-- Whether a name is that of a pronoun. -/
def isPronoun (name : String) : Bool := name = Pronoun.data.name || name = Pronoun.env.name

/-- Whether a primitive looks into no environment at arguments, also not through a mask that it
makes. -/
def Primitive.leavesEnvs (fn : Primitive) (args : List Value) : Bool :=
  fn.readsOnly args && (!fn.makesMask || inertItems args)

theorem standsAlone_of_leavesEnvs {fn : Primitive} {args : List Value}
    (h : fn.leavesEnvs args = true) : fn.standsAlone args = true :=
  (Bool.and_eq_true_iff.mp (Bool.and_eq_true_iff.mp h).1).1

namespace Confined

/-- Whether the name that an assignment binds is that of a pronoun. -/
def bindsPronoun : List Slot → Bool
  | [⟨_, .symbol name⟩, _] => isPronoun name
  | [⟨_, .const (.str name)⟩, _] => isPronoun name
  | _ => false

variable (m : Machine) (ctx : EvaluatorId)

def applyForm (form : SpecialForm) (slots : List Slot) (env : EnvId) : Run Value :=
  match form with
  | .block => m.blockForm ctx env slots
  | .paren => m.parenForm ctx slots env
  | .ifElse => m.ifForm ctx slots env
  | .andAlso => m.andForm ctx slots env
  | .orElse => m.orForm ctx slots env
  | .assign | .equalsAssign =>
      if bindsPronoun slots then outside else m.assignForm ctx slots env
  | _ => outside

def apply (fn : Value) (call : Expr) (slots : List Slot) (env : EnvId) : Run Value :=
  match fn with
  | .builtin (.special form) _ => applyForm m ctx form slots env
  | .builtin (.primitive fn) _ =>
      if slots.any fun slot => slot.item.isSymbol dotsName then outside
      else do
        let (args, named) ← m.evalArgs ctx slots env call
        if fn.leavesEnvs (args ++ named.map (·.2)) then m.applyPrimitive ctx fn args named env
        else outside
  | _ => outside

def step (e : Expr) (env : EnvId) : Run Value :=
  match e with
  | .const (.quosure _ _) => outside
  | .const v => pure v
  | .symbol name => if Reading.isOrdinary name then m.lookup env name else outside
  | .call (.symbol name) slots =>
      if isPronoun name then outside
      else do
        let fn ← m.lookupFunction env name
        apply m ctx fn (.call (.symbol name) slots) slots env
  | .call _ _ => outside
  | .formals items => pure (.code (.formals items))
  | .missing => Run.fail (.missingArgument none)

open Classical in
/-- Confined evaluation, with room for so many levels of nesting. What is to be evaluated as it
stands is never code of its own environments. -/
noncomputable def eval (own : EnvId → Bool)
    (asIs : Nat → EvaluatorId → Expr → EnvId → Store → Prop) (n : Nat) (ctx : EvaluatorId)
    (e : Expr) (env : EnvId) : Run Value := fun s =>
  match own env with
  | true => step m ctx e env s
  | false => if asIs n ctx e env s then (Machine.ofLevel n).eval ctx e env s else step m ctx e env s

/-- The machine for confined code. -/
noncomputable def machine (own : EnvId → Bool)
    (asIs : Nat → EvaluatorId → Expr → EnvId → Store → Prop) : Nat → Machine
  | 0 => Machine.exhausted
  | n + 1 =>
      { eval := eval (machine own asIs n) own asIs (n + 1)
        call := fun _ _ _ _ _ => outside
        expand := fun _ _ _ => outside }

/-- Code is evaluated step by step, or as it stands. -/
theorem eval_cases (own : EnvId → Bool) (asIs : Nat → EvaluatorId → Expr → EnvId → Store → Prop)
    (n : Nat) (e : Expr) (env : EnvId) (s : Store) :
    eval m own asIs n ctx e env s = step m ctx e env s ∨
    (own env = false ∧ asIs n ctx e env s) ∧
      eval m own asIs n ctx e env s = (Machine.ofLevel n).eval ctx e env s := by
  unfold eval
  split
  next => exact .inl rfl
  next hown =>
      split
      next h => exact .inr ⟨⟨hown, h⟩, rfl⟩
      next => exact .inl rfl

end Confined

/-! ## Paired environments -/

/-- Paired environments are of no difference to confined code: from related stores, all names but
the pronouns are bound the same, in the environments themselves and along their chains. -/
structure Pairing (E : EnvId → EnvId → Prop) (Q : Store → Store → Prop) : Prop where
  chain {s t : Store} {x y : EnvId} : Q s t → E x y →
    List.Forall₂ E (s.chain x).1 (t.chain y).1 ∧ (s.chain x).2 = (t.chain y).2
  slot? {s t : Store} {x y : EnvId} {name : String} : Q s t → E x y → isPronoun name = false →
    s.slot? x name = t.slot? y name
  promise {s t : Store} : Q s t → ∀ p, (s.promise p).Pairs E (t.promise p)
  newPromise {x y : EnvId} (ctx : EvaluatorId) (e : Expr) : E x y →
    Agrees Q (Run.newPromise ⟨e, some x, some ctx, false, .unforced⟩)
      (Run.newPromise ⟨e, some y, some ctx, false, .unforced⟩)
  define {x y : EnvId} {name : String} (v : Value) : E x y → isPronoun name = false →
    Agrees Q (Run.define x name v) (Run.define y name v)
  nameClosure (v : Value) (name : String) : Respects Q (Machine.nameClosure v name)
  primitive {fn : Primitive} {args : List Value} {named : Bindings Value} (m : Machine)
    (ctx : EvaluatorId) (env : EnvId) : fn.leavesEnvs (args ++ named.map (·.2)) = true →
    Respects Q (m.applyPrimitive ctx fn args named env)

namespace Pairing

variable {E : EnvId → EnvId → Prop} {Q : Store → Store → Prop} [Forces Q] {m m' : Machine}
  {x y : EnvId} {name : String}

omit [Forces Q] in
theorem sees (hp : Pairing E Q) (hxy : E x y) (hname : isPronoun name = false) {s t : Store}
    (hst : Q s t) : s.Sees name x t y where
  slots := (hp.chain hst hxy).1.imp fun _ _ hab => hp.slot? hst hab hname
  ends := (hp.chain hst hxy).2

section Step

variable (hp : Pairing E Q) (h : Machine.Mirrors E Q m m') (ctx : EvaluatorId) (hxy : E x y)
include hp h hxy

theorem agrees_lookupFunction (hname : isPronoun name = false) :
    Agrees Q (m.lookupFunction x name) (m'.lookupFunction y name) := by
  unfold Machine.lookupFunction
  refine .get_bind fun s t hst => ?_
  have hslots : List.Forall₂ (fun a b => ∀ s t, Q s t → s.slot? a name = t.slot? b name)
      (s.chain x).1 (t.chain y).1 :=
    (hp.chain hst hxy).1.imp fun _ _ hab _ _ hst => hp.slot? hst hab hname
  refine .bind (h.firstFunction hslots) fun found => ?_
  split
  · exact .pure _
  · refine .bind (Run.agrees_reachEnd fun s t hst => (hp.chain hst hxy).2) fun _ => ?_
    exact Respects.agrees

/-- An ordinary symbol is looked up. -/
theorem agrees_evalSymbol (hname : Reading.isOrdinary name = true) :
    Agrees Q (m.evalSymbol ctx name x) (m'.lookup y name) := by
  obtain ⟨hdots, hposition, hdata, henv⟩ := Reading.isOrdinary_iff.mp hname
  have hpronoun : isPronoun name = false := by simp [isPronoun, hdata, henv]
  unfold Machine.evalSymbol
  rw [if_neg hdots, hposition]
  exact h.lookup fun s t hst => hp.sees hxy hpronoun hst

omit [Forces Q] hp h hxy in
theorem assignForm_eq (m : Machine) (ctx : EvaluatorId) {env : EnvId} {target value : Slot}
    (htarget : target.item = .symbol name ∨ target.item = .const (.str name)) :
    m.assignForm ctx [target, value] env = (do
      let v ← m.eval ctx value.item env
      Machine.nameClosure v name
      Run.define env name v
      pure v) := by
  simp only [Machine.assignForm, Machine.assignment]
  rcases htarget with htarget | htarget <;>
    simp only [htarget, Machine.assignmentTarget, pure_bind, bind_assoc]

theorem agrees_assignForm {slots : List Slot} (hbinds : Confined.bindsPronoun slots = false) :
    Agrees Q (m.assignForm ctx slots x) (m'.assignForm ctx slots y) := by
  have hbind (name : String) (hname : isPronoun name = false) {target value : Slot}
      (htarget : target.item = .symbol name ∨ target.item = .const (.str name)) :
      Agrees Q (m.assignForm ctx [target, value] x) (m'.assignForm ctx [target, value] y) := by
    rw [assignForm_eq m ctx htarget, assignForm_eq m' ctx htarget]
    exact .bind (h.eval ctx _ hxy) fun v => .bind (hp.nameClosure v name).agrees fun _ =>
      .bind (hp.define v hxy hname) fun _ => .pure v
  have hfail (cause : Cause) : Respects Q (Run.fail cause : Run Value) := inferInstance
  match slots with
  | [] | [_] | _ :: _ :: _ :: _ => exact (hfail (.arity .targetAndValue)).agrees
  | [⟨_, target⟩, value] =>
      cases target with
      | symbol name => exact hbind name hbinds (.inl rfl)
      | const v =>
          cases v with
          | str name => exact hbind name hbinds (.inr rfl)
          | _ => exact (hfail (.binding (.badTarget _))).agrees
      | _ => exact (hfail (.binding (.badTarget _))).agrees

theorem agrees_applyForm (form : SpecialForm) (slots : List Slot) :
    Agrees Q (m.applyForm ctx form slots x) (Confined.applyForm m' ctx form slots y) := by
  have hassign : Agrees Q (m.assignForm ctx slots x)
      (if Confined.bindsPronoun slots then outside else m'.assignForm ctx slots y) := by
    split
    next => exact .endless
    next hbinds => exact hp.agrees_assignForm h ctx hxy (Bool.not_eq_true _ ▸ hbinds)
  cases form with
  | block => exact Machine.agrees_blockForm (h.eval_slots hxy slots) ctx
  | paren => exact Machine.agrees_parenForm (h.eval_slots hxy slots) ctx
  | ifElse => exact Machine.agrees_ifForm (h.eval_slots hxy slots) ctx
  | andAlso => exact Machine.agrees_andForm (h.eval_slots hxy slots) ctx
  | orElse => exact Machine.agrees_orForm (h.eval_slots hxy slots) ctx
  | assign => exact hassign
  | equalsAssign => exact hassign
  | _ => exact .endless

theorem agrees_apply (fn : Value) (call : Expr) (slots : List Slot) :
    Agrees Q (m.apply ctx fn call slots x) (Confined.apply m' ctx fn call slots y) := by
  cases fn with
  | builtin b env =>
      cases b with
      | special form => exact hp.agrees_applyForm h ctx hxy form slots
      | primitive fn =>
          unfold Confined.apply
          cases hdots : slots.any fun slot => slot.item.isSymbol dotsName with
          | true => exact .endless
          | false =>
              refine .bind (h.evalArgs ctx call (fun e => hp.newPromise ctx e hxy) hdots)
                fun args => ?_
              dsimp only
              split
              · rename_i hleaves
                have halone := standsAlone_of_append (standsAlone_of_leavesEnvs hleaves)
                rw [applyPrimitive_congr halone m' m ctx args.2 y x]
                exact (hp.primitive m ctx x hleaves).agrees
              · exact .endless
  | _ => exact .endless

/-- One step of confined evaluation. -/
theorem agrees_step (e : Expr) :
    Agrees Q (m.evalStep ctx e x) (Confined.step m' ctx e y) := by
  cases e with
  | const v =>
      cases v with
      | quosure e inner => exact .endless
      | _ => exact .pure _
  | symbol name =>
      change Agrees Q (m.evalSymbol ctx name x)
        (if Reading.isOrdinary name then m'.lookup y name else outside)
      split
      · exact hp.agrees_evalSymbol h ctx hxy ‹_›
      · exact .endless
  | call head slots =>
      cases head with
      | symbol name =>
          rw [Confined.step]
          split
          next => exact .endless
          next hname =>
              exact .bind (hp.agrees_lookupFunction h hxy (Bool.not_eq_true _ ▸ hname))
                fun fn => hp.agrees_apply h ctx hxy fn _ slots
      | _ => exact .endless
  | formals items => exact .pure _
  | missing =>
      have hfail : Respects Q (Run.fail (.missingArgument none) : Run Value) := inferInstance
      exact hfail.agrees

end Step

/-- In paired environments, evaluation comes to what confined evaluation comes to, if that is so of
the code that is evaluated as it stands. -/
theorem mirrors (hp : Pairing E Q) {own : EnvId → Bool}
    {asIs : Nat → EvaluatorId → Expr → EnvId → Store → Prop}
    (hasIs : ∀ {n : Nat} {ctx : EvaluatorId} {e : Expr} {x y : EnvId} {s t : Store}, E x y →
      Q s t → own y = false → asIs n ctx e y t →
      Matches Q ((Machine.ofLevel n).eval ctx e x s) ((Machine.ofLevel n).eval ctx e y t))
    (n : Nat) : Machine.Mirrors E Q (Machine.ofLevel n) (Confined.machine own asIs n) := by
  induction n with
  | zero => exact ⟨hp.promise, fun _ _ _ => .raise _⟩
  | succ n ih =>
      refine ⟨hp.promise, fun {x y} ctx e hxy s t hst => ?_⟩
      change Matches Q _ (Confined.eval (Confined.machine own asIs n) own asIs (n + 1) ctx e y t)
      rcases Confined.eval_cases (Confined.machine own asIs n) ctx own asIs (n + 1) e y t with
        h | ⟨⟨hown, has⟩, h⟩ <;> rw [h]
      · exact hp.agrees_step ih ctx hxy e s t hst
      · exact hasIs hxy hst hown has

end Pairing

/-- Every environment stands for itself. -/
theorem pairing_eq : Pairing Eq Eq where
  chain hst hxy := hst ▸ hxy ▸ ⟨List.forall₂_same.mpr fun _ _ => rfl, rfl⟩
  slot? hst hxy _ := hst ▸ hxy ▸ rfl
  promise hst _ := hst ▸ .refl _
  newPromise _ _ hxy := hxy ▸ (Run.respects_eq _).agrees
  define _ hxy _ := hxy ▸ (Run.respects_eq _).agrees
  nameClosure _ _ := Run.respects_eq _
  primitive _ _ _ _ := Run.respects_eq _

end Quasi
