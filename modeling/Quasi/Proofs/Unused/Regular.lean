import Quasi.Expr.Traversal
import Quasi.Proofs.Tidy.Covered
import Quasi.Proofs.Tidy.Held
import Quasi.Proofs.Tidy.Parts

/-!
# Regular code

Regular code is made of constants, names, the control forms, and calls of primitives that look
neither into environments or promises nor at the calls under way, and call no function. Regular
evaluation follows code step by step and is lost where the code does anything else, so that nothing
is said of such code. What it comes to depends on the names in the code, and on promises that it
comes by, but on no others.
-/

namespace Quasi

open Run (Agrees Fails Matches Respects)
open Reading (outside)

namespace Regular

/-- What shows bindings where it is part of a value, or else the code of a promise. -/
def hides (v : Value) : Bool := v.hasBindings || v.isPromise

/-- Whether no bindings are shown of a value. An environment on its own is shown by its label. -/
def isShown (v : Value) : Bool := v.hasBindings || v.avoids hides

/-- What a primitive shows of its arguments, if only in the text of a failure. -/
def shownArgs : Primitive → List Value → List Value
  | .element, args => args.drop 1
  | fn, args => if fn.shows then args else []

theorem shownArgs_of_shows {fn : Primitive} (h : fn.shows = true) (args : List Value) :
    shownArgs fn args = args := by
  unfold shownArgs
  split
  · cases h
  · rw [if_pos h]

/-- Whether a primitive is regular at arguments. -/
def admits (fn : Primitive) (args : List Value) : Bool :=
  fn.standsAlone args && (shownArgs fn args).all isShown

/-- Whether a name is that of a binding, rather than of dots or of one of their entries. -/
def isPlainName (name : String) : Bool :=
  name ≠ dotsName && (Machine.dotsPosition? name).isNone

variable (m : Machine) (ctx : EvaluatorId)

/-- Control forms and regular primitives are all that is applied. -/
def apply (fn : Value) (call : Expr) (slots : List Slot) (env : EnvId) : Run Value :=
  match fn with
  | .builtin (.special form) _ =>
      if form.isControl then m.applyForm ctx form slots env else outside
  | .builtin (.primitive fn) _ =>
      if slots.any fun slot => slot.item.isSymbol dotsName then outside
      else do
        let (args, named) ← m.evalArgs ctx slots env call
        if admits fn (args ++ named.map (·.2)) then m.applyPrimitive ctx fn args named env
        else outside
  | _ => outside

/-- The value of a regular expression. A name stands for what it is bound to, and a call applies
what its head is bound to. -/
def step (e : Expr) (env : EnvId) : Run Value :=
  match e with
  | .const (.quosure _ _) => outside
  | .const v => pure v
  | .symbol name => if isPlainName name then m.lookup env name else outside
  | .call (.symbol name) slots => do
      let fn ← m.lookupFunction env name
      apply m ctx fn (.call (.symbol name) slots) slots env
  | _ => outside

/-- The machine for regular code. -/
def machine : Nat → Machine
  | 0 => .exhausted
  | n + 1 =>
      { eval := step (machine n)
        call := fun _ _ _ _ _ => outside
        expand := fun _ _ _ => outside }

end Regular

namespace Expr

/-! ## Names in parts of code -/

theorem symbolNames_head (head : Expr) (slots : List Slot) :
    head.symbolNames ⊆ (Expr.call head slots).symbolNames := by
  rw [symbolNames]
  exact List.subset_append_left ..

theorem symbolNames_slot {slot : Slot} {slots : List Slot} (h : slot ∈ slots) (head : Expr) :
    slot.item.symbolNames ⊆ (Expr.call head slots).symbolNames := by
  rw [symbolNames]
  refine List.subset_append_of_subset_right _ ?_
  induction slots with
  | nil => cases h
  | cons other rest ih =>
      obtain ⟨tag, e⟩ := other
      rw [slotNames]
      rcases List.mem_cons.mp h with rfl | h
      · exact List.subset_append_left ..
      · exact List.subset_append_of_subset_right _ (ih h)

end Expr

/-- In related stores regular code comes by the same. `K` tells which code may be evaluated where,
and `P` which promises may be come by. -/
structure Encloses (K : Expr → EnvId → Prop) (P : PromiseId → Prop) (Q : Store → Store → Prop) :
    Prop where
  part {e part : Expr} {env : EnvId} : K e env → part.symbolNames ⊆ e.symbolNames → K part env
  chain {s t : Store} : Q s t → s.chain = t.chain
  slot? {s t : Store} : Q s t → s.slot? = t.slot?
  binds {s t s' t' : Store} {e : Expr} {env b : EnvId} {name : String} {p : PromiseId} : Q s t →
    Q s' t' → K e env → name ∈ e.symbolNames → b ∈ (t.chain env).1 →
    t'.slot? b name = some (.promise p) → P p
  promise {s t : Store} {p : PromiseId} : Q s t → P p → s.promise p = t.promise p
  starts {s t : Store} {p : PromiseId} : Q s t → P p → (t.promise p).progress.isIdle = true →
    Run.Starts Q p ∧ ∀ s t, Q s t → ∀ home, (t.promise p).env = some home →
      K (t.promise p).code home
  fresh {s t : Store} {p : PromiseId} : Q s t → t.promises.size ≤ p.index → P p
  newPromise {e : Expr} {env : EnvId} (ctx : EvaluatorId) : K e env →
    Respects Q (Run.newPromise ⟨e, some env, some ctx, false, .unforced⟩)
  primitive {fn : Primitive} {args : List Value} {named : Bindings Value} (m : Machine)
    (ctx : EvaluatorId) (env : EnvId) : Regular.admits fn (args ++ named.map (·.2)) = true →
    Respects Q (m.applyPrimitive ctx fn args named env)

/-- All code comes by the same in one store. -/
theorem encloses_eq : Encloses (fun _ _ => True) (fun _ => True) Eq where
  part _ _ := trivial
  chain h := h ▸ rfl
  slot? h := h ▸ rfl
  binds _ _ _ _ _ _ := trivial
  promise h _ := h ▸ rfl
  starts _ _ _ := ⟨Run.starts _, fun _ _ _ _ _ => trivial⟩
  fresh _ _ := trivial
  newPromise _ _ := Run.respects_eq _
  primitive _ _ _ _ := Run.respects_eq _

/-- Without dots, all arguments are promised anew. -/
theorem promiseArgs_fresh {ctx : EvaluatorId} {env : EnvId} {slots : List Slot}
    {supplied : List (Tagged Value)} {s t : Store}
    (hdots : (slots.any fun slot => slot.item.isSymbol dotsName) = false)
    (h : Machine.promiseArgs ctx env slots s = .ok supplied t) :
    ∀ a ∈ supplied, ∀ p, a.item = .promise p → s.promises.size ≤ p.index := by
  induction slots generalizing s supplied with
  | nil =>
      cases h
      exact nofun
  | cons slot rest ih =>
      obtain ⟨tag, e⟩ := slot
      rw [List.any_cons, Bool.or_eq_false_iff] at hdots
      unfold Machine.promiseArgs at h
      simp only [hdots.1, Bool.false_eq_true, if_false] at h
      split at h
      · obtain ⟨others, u, hrest, h⟩ := Run.bind_eq_ok h
        cases h
        exact List.forall_mem_cons.mpr ⟨nofun, ih hdots.2 hrest⟩
      · obtain ⟨p, u, hnew, h⟩ := Run.bind_eq_ok h
        cases hnew
        obtain ⟨others, v, hrest, h⟩ := Run.bind_eq_ok h
        cases h
        refine List.forall_mem_cons.mpr ⟨fun p hp => ?_, fun a ha p hp => ?_⟩
        · cases hp
          exact Nat.le_refl _
        · exact Nat.le_trans (Nat.le_of_lt (s.lt_size_addPromise _)) (ih hdots.2 hrest a ha p hp)

namespace Encloses

variable {K : Expr → EnvId → Prop} {P : PromiseId → Prop} {Q : Store → Store → Prop} [Fails Q]
  {m m' : Machine}

section Step

variable (hc : Encloses K P Q)
  (h : ∀ {e : Expr} {env : EnvId} (ctx : EvaluatorId), K e env →
    Agrees Q (m.eval ctx e env) (m'.eval ctx e env))
include hc h

/-! ## Promises -/

theorem agrees_force (ctx : Option EvaluatorId) {p : PromiseId} (hp : P p) :
    Agrees Q (m.force ctx p) (m'.force ctx p) := by
  refine Machine.agrees_force ctx fun s t hst => ?_
  have hsame := hc.promise hst hp
  refine ⟨congrArg _ hsame, congrArg _ hsame, fun hidle ctx => ?_⟩
  obtain ⟨hstarts, hcode⟩ := hc.starts hst hp hidle
  refine Machine.agrees_runPromise ctx hstarts fun s t hst => ?_
  rw [hc.promise hst hp]
  refine ⟨rfl, ?_⟩
  unfold Machine.evalPromise
  cases henv : (t.promise p).env with
  | none => exact Respects.agrees
  | some home => exact h ctx (hcode s t hst home henv)

theorem agrees_forceValue (ctx : Option EvaluatorId) {v : Value}
    (hv : ∀ p, v = .promise p → P p) :
    Agrees Q (m.forceValue ctx v) (m'.forceValue ctx v) :=
  Machine.agrees_forceValue ctx fun p hvp => hc.agrees_force h ctx (hv p hvp)

/-! ## Names -/

section Names

variable {e : Expr} {env : EnvId} {name : String} (hk : K e env) (hname : name ∈ e.symbolNames)
include hk hname

theorem agrees_lookup : Agrees Q (m.lookup env name) (m'.lookup env name) :=
  Machine.agrees_lookup
    (fun _ _ hst => Store.sees_of_eq (hc.slot? hst).symm (congrFun (hc.chain hst) env))
    fun _ _ hst _ hb _ hv => hc.agrees_forceValue h none fun _ hp =>
      hc.binds hst hst hk hname hb (hp ▸ hv)

theorem agrees_lookupFunction :
    Agrees Q (m.lookupFunction env name) (m'.lookupFunction env name) := by
  unfold Machine.lookupFunction
  refine .get_bind fun s t hst => ?_
  rw [hc.chain hst]
  -- The chain was read before promises are forced, which bindings are found in the stores then.
  have hfirst : Agrees Q (m.firstFunction name (t.chain env).1)
      (m'.firstFunction name (t.chain env).1) :=
    Machine.agrees_firstFunction <| List.forall₂_same.mpr fun b hb s' t' hst' =>
      ⟨by rw [hc.slot? hst'], fun v hv => hc.agrees_forceValue h none fun _ hp =>
        hc.binds hst hst' hk hname hb (hp ▸ hv)⟩
  refine .bind hfirst fun found => ?_
  split
  · exact .pure _
  · refine .bind (Run.agrees_reachEnd fun s t hst => ?_) fun _ => Respects.agrees
    rw [hc.chain hst]

end Names

/-! ## Calls -/

section Calls

variable {env : EnvId} {slots : List Slot} (hslots : ∀ slot ∈ slots, K slot.item env)
include hslots

/-- Arguments are promised alike, and none of their promises existed before. -/
theorem agrees_evalArgs (ctx : EvaluatorId) (call : Expr)
    (hdots : (slots.any fun slot => slot.item.isSymbol dotsName) = false) :
    Agrees Q (m.evalArgs ctx slots env call) (m'.evalArgs ctx slots env call) := by
  have hpromised : Agrees Q (Machine.promiseArgs ctx env slots)
      (Machine.promiseArgs ctx env slots) :=
    Machine.agrees_promiseArgs ctx
      (fun slot hslot => (hc.newPromise ctx (hslots slot hslot)).agrees) hdots
  refine hpromised.bind_of fun supplied s u t v hst _ hrun huv => ?_
  have hfresh := promiseArgs_fresh hdots hrun
  refine Machine.agrees_forceArgs ctx call (fun a ha => ?_) [] [] u v huv
  exact hc.agrees_forceValue h _ fun p hp => hc.fresh hst (hfresh a ha p hp)

omit hc in
theorem agrees_applyForm (ctx : EvaluatorId) {form : SpecialForm}
    (hform : form.isControl = true) :
    Agrees Q (m.applyForm ctx form slots env) (m'.applyForm ctx form slots env) := by
  have heval : ∀ slot ∈ slots, ∀ ctx, Agrees Q (m.eval ctx slot.item env)
      (m'.eval ctx slot.item env) := fun slot hslot ctx => h ctx (hslots slot hslot)
  cases form with
  | block => exact Machine.agrees_blockForm heval ctx
  | paren => exact Machine.agrees_parenForm heval ctx
  | ifElse => exact Machine.agrees_ifForm heval ctx
  | andAlso => exact Machine.agrees_andForm heval ctx
  | orElse => exact Machine.agrees_orForm heval ctx
  | _ => cases hform

theorem agrees_apply (ctx : EvaluatorId) (fn : Value) (call : Expr) :
    Agrees Q (m.apply ctx fn call slots env) (Regular.apply m' ctx fn call slots env) := by
  cases fn with
  | builtin b home =>
      cases b with
      | special form =>
          rw [Regular.apply]
          split
          next hform => exact agrees_applyForm h hslots ctx hform
          next => exact .endless
      | primitive fn =>
          unfold Regular.apply
          cases hdots : slots.any fun slot => slot.item.isSymbol dotsName with
          | true => exact .endless
          | false =>
              refine .bind (hc.agrees_evalArgs h hslots ctx call hdots) fun args => ?_
              dsimp only
              split
              next hadmits =>
                have halone := standsAlone_of_append (Bool.and_eq_true_iff.mp hadmits).1
                rw [applyPrimitive_congr halone m' m ctx args.2 env env]
                exact (hc.primitive m ctx env hadmits).agrees
              next => exact .endless
  | _ => exact .endless

end Calls

/-! ## Steps -/

/-- One step of regular evaluation. -/
theorem agrees_step (ctx : EvaluatorId) {e : Expr} {env : EnvId} (hk : K e env) :
    Agrees Q (m.evalStep ctx e env) (Regular.step m' ctx e env) := by
  cases e with
  | const v =>
      cases v with
      | quosure e inner => exact .endless
      | _ => exact .pure _
  | symbol name =>
      change Agrees Q (m.evalSymbol ctx name env)
        (if Regular.isPlainName name then m'.lookup env name else outside)
      split
      next hplain =>
        obtain ⟨hdots, hposition⟩ := Bool.and_eq_true_iff.mp hplain
        unfold Machine.evalSymbol
        rw [if_neg (of_decide_eq_true hdots), Option.isNone_iff_eq_none.mp hposition]
        exact hc.agrees_lookup h hk (List.mem_singleton_self name)
      next => exact .endless
  | call head slots =>
      cases head with
      | symbol name =>
          have hname : name ∈ (Expr.call (.symbol name) slots).symbolNames :=
            Expr.symbolNames_head (.symbol name) slots (List.mem_singleton_self name)
          refine .bind (hc.agrees_lookupFunction h hk hname) fun fn => ?_
          exact hc.agrees_apply h (fun slot hslot => hc.part hk (Expr.symbolNames_slot hslot _)) ctx
            fn _
      | _ => exact .endless
  | _ => exact .endless

end Step

/-- Evaluation comes to what regular evaluation comes to. -/
theorem agrees_eval (hc : Encloses K P Q) (n : Nat) {e : Expr} {env : EnvId} (ctx : EvaluatorId)
    (hk : K e env) :
    Agrees Q ((Machine.ofLevel n).eval ctx e env) ((Regular.machine n).eval ctx e env) := by
  induction n generalizing e env ctx with
  | zero => exact .raise _
  | succ n ih => exact hc.agrees_step (fun ctx hk => ih ctx hk) ctx hk

end Encloses

end Quasi
