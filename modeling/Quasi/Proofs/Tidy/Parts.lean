import Mathlib.Data.List.Forall2
import Quasi.Proofs.Promise.Course
import Quasi.Proofs.Tidy.Alike

/-!
# Parts of evaluation that agree

Where one machine evaluates as another one does, forcing promises, looking names up, evaluating
arguments and the control forms agree as well. Neither machine is asked to call a function or to
expand a template. What one machine does in an environment the other one may do in another
environment that is paired with it.
-/

namespace Quasi

open Run (Agrees Respects Fails Forces Steps)

variable {E : EnvId → EnvId → Prop} {Q : Store → Store → Prop}

/-- Two promises that differ at most in their environments, which are paired. -/
structure Promise.Pairs (E : EnvId → EnvId → Prop) (p q : Promise) : Prop where
  code : p.code = q.code
  env : Option.Rel E p.env q.env
  evaluator : p.evaluator = q.evaluator
  isDefault : p.isDefault = q.isDefault
  progress : p.progress = q.progress

theorem Promise.Pairs.refl (p : Promise) : p.Pairs Eq p :=
  ⟨rfl, by cases p.env; exacts [.none, .some rfl], rfl, rfl, rfl⟩

/-- A name is looked up the same from an environment of one store and from one of another. -/
structure Store.Sees (name : String) (s : Store) (x : EnvId) (t : Store) (y : EnvId) : Prop where
  slots : List.Forall₂ (fun a b => s.slot? a name = t.slot? b name) (s.chain x).1 (t.chain y).1
  ends : (s.chain x).2 = (t.chain y).2

theorem Store.sees_of_eq {name : String} {s t : Store} {e : EnvId} (hslot : t.slot? = s.slot?)
    (hchain : s.chain e = t.chain e) : s.Sees name e t e := by
  refine ⟨?_, congrArg Prod.snd hchain⟩
  rw [← hchain, hslot]
  exact List.forall₂_same.mpr fun _ _ => rfl

namespace Run

variable {name : String} {x y : EnvId}

/-- The nearest binding in two lists of environments. -/
theorem find?_sees {s t : Store} {xs ys : List EnvId}
    (h : List.Forall₂ (fun a b => s.slot? a name = t.slot? b name) xs ys) :
    Option.Rel (fun a b => s.slot? a name = t.slot? b name)
      (xs.find? fun e => (s.slot? e name).isSome) (ys.find? fun e => (t.slot? e name).isSome) := by
  induction h with
  | nil => exact .none
  | @cons a b xs ys hab _ ih =>
      rw [List.find?_cons, List.find?_cons, hab]
      cases (t.slot? b name).isSome with
      | true => exact .some hab
      | false => exact ih

theorem agrees_reachEnd (h : ∀ s t, Q s t → (s.chain x).2 = (t.chain y).2) :
    Agrees Q (reachEnd x) (reachEnd y) := by
  refine .get_bind fun s t hst => ?_
  rw [h s t hst]
  split
  · exact .pure _
  · exact .endless

theorem binding_apply (e : EnvId) (name : String) (s : Store) : binding e name s =
    (match (s.chain e).1.find? fun env => (s.slot? env name).isSome with
      | some env =>
          (match s.slot? env name with
            | some v => own v
            | none => fail (.lookup (.unbound name)))
      | none => do
          reachEnd e
          fail (.lookup (.unbound name)) : Run Value) s := by
  unfold binding find search
  simp only [bind_assoc, get_bind]
  cases (s.chain e).1.find? fun env => (s.slot? env name).isSome with
  | some env => rfl
  | none => simp only [bind_assoc, pure_bind]

theorem agrees_binding [Fails Q] (h : ∀ s t, Q s t → s.Sees name x t y) :
    Agrees Q (binding x name) (binding y name) := by
  intro s t hst
  have hsees := h s t hst
  have hfound := find?_sees hsees.slots
  rw [binding_apply, binding_apply]
  generalize (s.chain x).1.find? _ = found, (t.chain y).1.find? _ = found' at hfound
  cases hfound with
  | none =>
      exact Agrees.bind (agrees_reachEnd fun s t hst => (h s t hst).ends)
        (fun _ => Respects.agrees) s t hst
  | @some a b hab =>
      dsimp only
      rw [hab]
      cases t.slot? b name with
      | some v => exact Respects.agrees s t hst
      | none => exact Respects.agrees s t hst

/-- A promise whose evaluation begins and ends the same in related stores. -/
structure Starts (Q : Store → Store → Prop) (p : PromiseId) : Prop where
  begin : Respects Q (Machine.begin p)
  conclude (outcome : Except Signal Value) : Respects Q (Machine.conclude p outcome)

theorem starts [Forces Q] (p : PromiseId) : Starts Q p :=
  ⟨inferInstance, fun _ => inferInstance⟩

end Run

namespace Machine

variable {m m' : Machine} {x y : EnvId} {name : String}

/-! ## Parts that agree where their own parts do -/

section

variable [Fails Q]

instance (e : Expr) : Respects Q (evalNowhere e) := by
  unfold evalNowhere
  split <;> infer_instance

/-! ### Promises -/

theorem agrees_runPromise (ctx : EvaluatorId) {p : PromiseId} (hstarts : Run.Starts Q p)
    (h : ∀ s t, Q s t → (s.promise p).code = (t.promise p).code ∧
      Agrees Q (m.evalPromise ctx (s.promise p)) (m'.evalPromise ctx (t.promise p))) :
    Agrees Q (m.runPromise ctx p) (m'.runPromise ctx p) := by
  have hbegin := hstarts.begin
  have hconclude := hstarts.conclude
  unfold Machine.runPromise
  refine .get_bind fun s t hst => ?_
  obtain ⟨hcode, heval⟩ := h s t hst
  dsimp only
  rw [hcode]
  refine .bind Respects.agrees fun _ => .bind Respects.agrees fun _ => ?_
  exact .bind heval.attempt fun outcome => .bind Respects.agrees fun _ => .resume outcome

theorem agrees_force (ctx : Option EvaluatorId) {p : PromiseId}
    (h : ∀ s t, Q s t → (s.promise p).progress = (t.promise p).progress ∧
      (s.promise p).evaluator = (t.promise p).evaluator ∧
      ((t.promise p).progress.isIdle = true →
        ∀ ctx, Agrees Q (m.runPromise ctx p) (m'.runPromise ctx p))) :
    Agrees Q (m.force ctx p) (m'.force ctx p) := by
  unfold Machine.force
  refine .get_bind fun s t hst => ?_
  obtain ⟨hprogress, hevaluator, hrun⟩ := h s t hst
  dsimp only
  rw [hprogress, hevaluator]
  cases hp : (t.promise p).progress with
  | value v => exact .pure v
  | given v => exact .pure v
  | failed f => exact .raise _
  | forcing => exact Respects.agrees
  | unforced =>
      cases ctx <|> (t.promise p).evaluator with
      | none => exact Respects.agrees
      | some ctx => exact hrun (by rw [hp]; rfl) ctx
  | interrupted =>
      cases ctx <|> (t.promise p).evaluator with
      | none => exact Respects.agrees
      | some ctx => exact .bind Respects.agrees fun _ => hrun (by rw [hp]; rfl) ctx

omit [Fails Q] in
theorem agrees_forceValue (ctx : Option EvaluatorId) {v : Value}
    (h : ∀ p, v = .promise p → Agrees Q (m.force ctx p) (m'.force ctx p)) :
    Agrees Q (m.forceValue ctx v) (m'.forceValue ctx v) := by
  unfold Machine.forceValue
  split
  · exact h _ rfl
  · exact .pure _

/-! ### Names -/

omit [Fails Q] in
/-- The first function in two lists of environments, each of which binds a name as its counterpart
does, also while promises are being forced. -/
theorem agrees_firstFunction {xs ys : List EnvId}
    (hslots : List.Forall₂ (fun a b => ∀ s t, Q s t → s.slot? a name = t.slot? b name ∧
      ∀ v, t.slot? b name = some v → Agrees Q (m.forceValue none v) (m'.forceValue none v)) xs ys) :
    Agrees Q (m.firstFunction name xs) (m'.firstFunction name ys) := by
  induction hslots with
  | nil => exact .pure none
  | @cons a b xs ys hab _ ih =>
      unfold Machine.firstFunction
      refine .get_bind fun s t hst => ?_
      obtain ⟨hslot, hforce⟩ := hab s t hst
      rw [hslot]
      cases hv : t.slot? b name with
      | none => exact ih
      | some v =>
          refine .bind (hforce v hv) fun v => ?_
          split
          · exact .pure _
          · exact ih

/-- What a name is looked up as, from the binding that is found. -/
theorem own_bind_forceValue (m : Machine) (name : String) (v : Value) :
    (do match ← Run.own v with
        | .code .missing => Run.fail (.missingArgument (some name))
        | v => m.forceValue none v : Run Value) =
      match v with
      | .code .missing => Run.fail (.missingArgument (some name))
      | .promise p => m.forceValue none (.promise p)
      | v => Run.own v := by
  cases v with
  | code e => cases e <;> rfl
  | nan origin => cases origin <;> rfl
  | vec v =>
      obtain ⟨id, elements⟩ := v
      cases id <;> rfl
  | _ => rfl

theorem lookup_apply (m : Machine) (e : EnvId) (name : String) (s : Store) : m.lookup e name s =
    (match (s.chain e).1.find? fun env => (s.slot? env name).isSome with
      | some env =>
          (match s.slot? env name with
            | some v => do
                match ← Run.own v with
                | .code .missing => Run.fail (.missingArgument (some name))
                | v => m.forceValue none v
            | none => Run.fail (.lookup (.unbound name)))
      | none => do
          Run.reachEnd e
          Run.fail (.lookup (.unbound name)) : Run Value) s := by
  unfold Machine.lookup
  simp only [bind, EStateM.bind, Run.binding_apply]
  cases (s.chain e).1.find? fun env => (s.slot? env name).isSome with
  | some env =>
      dsimp only
      cases s.slot? env name with
      | some v => rfl
      | none => rfl
  | none =>
      dsimp only [bind, EStateM.bind]
      cases Run.reachEnd e s <;> rfl

theorem agrees_lookup (hsees : ∀ s t, Q s t → s.Sees name x t y)
    (hforce : ∀ s t, Q s t → ∀ b ∈ (t.chain y).1, ∀ v, t.slot? b name = some v →
      Agrees Q (m.forceValue none v) (m'.forceValue none v)) :
    Agrees Q (m.lookup x name) (m'.lookup y name) := by
  intro s t hst
  have hsees' := hsees s t hst
  have hfound := Run.find?_sees hsees'.slots
  rw [lookup_apply, lookup_apply]
  generalize hx : (s.chain x).1.find? _ = found at hfound
  generalize hy : (t.chain y).1.find? _ = found' at hfound
  cases hfound with
  | none =>
      exact Agrees.bind (Run.agrees_reachEnd fun s t hst => (hsees s t hst).ends)
        (fun _ => Respects.agrees) s t hst
  | @some a b hab =>
      have hmem := List.mem_of_find?_eq_some hy
      dsimp only
      rw [hab]
      cases hv : t.slot? b name with
      | none => exact Respects.agrees s t hst
      | some v =>
          have hagrees := hforce s t hst b hmem v hv
          dsimp only
          rw [own_bind_forceValue, own_bind_forceValue]
          split
          · exact Respects.agrees s t hst
          · exact hagrees s t hst
          · exact Respects.agrees s t hst

/-! ### Arguments -/

omit [Fails Q] in
/-- Arguments are promised alike where each of them is. -/
theorem agrees_promiseArgs (ctx : EvaluatorId) {slots : List Slot}
    (hpromise : ∀ slot ∈ slots,
      Agrees Q (Run.newPromise ⟨slot.item, some x, some ctx, false, .unforced⟩)
        (Run.newPromise ⟨slot.item, some y, some ctx, false, .unforced⟩))
    (hdots : (slots.any fun slot => slot.item.isSymbol dotsName) = false) :
    Agrees Q (promiseArgs ctx x slots) (promiseArgs ctx y slots) := by
  induction slots with
  | nil => exact .pure []
  | cons slot rest ih =>
      rw [List.any_cons, Bool.or_eq_false_iff] at hdots
      rw [List.forall_mem_cons] at hpromise
      have hrest := ih hpromise.2 hdots.2
      unfold Machine.promiseArgs
      simp only [hdots.1, Bool.false_eq_true, if_false]
      split
      · exact .bind hrest fun _ => .pure _
      · exact .bind hpromise.1 fun _ => .bind hrest fun _ => .pure _

theorem agrees_forceArgs (ctx : EvaluatorId) (call : Expr) {supplied : List (Tagged Value)}
    (hforce : ∀ t ∈ supplied,
      Agrees Q (m.forceValue (some ctx) t.item) (m'.forceValue (some ctx) t.item))
    (positional : List Value) (named : Bindings Value) :
    Agrees Q (m.forceArgs ctx call supplied positional named)
      (m'.forceArgs ctx call supplied positional named) := by
  induction supplied generalizing positional named with
  | nil => exact .pure _
  | cons t rest ih =>
      rw [List.forall_mem_cons] at hforce
      unfold Machine.forceArgs
      split
      · exact Respects.agrees
      · refine .bind hforce.1 fun v => ?_
        split
        · exact ih hforce.2 _ _
        · split
          · exact Respects.agrees
          · exact ih hforce.2 _ _

/-! ### Control forms -/

section Forms

variable {slots : List Slot}
  (heval : ∀ slot ∈ slots, ∀ ctx, Agrees Q (m.eval ctx slot.item x) (m'.eval ctx slot.item y))
include heval

omit [Fails Q] in
theorem agrees_blockForm (ctx : EvaluatorId) :
    Agrees Q (m.blockForm ctx x slots) (m'.blockForm ctx y slots) := by
  induction slots with
  | nil => exact .pure _
  | cons slot rest ih =>
      rw [List.forall_mem_cons] at heval
      cases rest with
      | nil => exact heval.1 ctx
      | cons next rest => exact .bind (heval.1 ctx) fun _ => ih heval.2

theorem agrees_parenForm (ctx : EvaluatorId) :
    Agrees Q (m.parenForm ctx slots x) (m'.parenForm ctx slots y) := by
  unfold Machine.parenForm
  split
  · exact heval _ (by simp) ctx
  · exact Respects.agrees

theorem agrees_conditionOf (ctx : EvaluatorId) (form : String) {slot : Slot} (h : slot ∈ slots) :
    Agrees Q (m.conditionOf ctx form slot.item x) (m'.conditionOf ctx form slot.item y) :=
  .bind (heval slot h ctx) fun _ => Respects.agrees

theorem agrees_ifForm (ctx : EvaluatorId) :
    Agrees Q (m.ifForm ctx slots x) (m'.ifForm ctx slots y) := by
  unfold Machine.ifForm
  split
  · refine .bind (agrees_conditionOf heval ctx "if" (by simp)) fun b => ?_
    split
    · exact heval _ (by simp) ctx
    · exact .pure _
  · refine .bind (agrees_conditionOf heval ctx "if" (by simp)) fun b => ?_
    split
    · exact heval _ (by simp) ctx
    · exact heval _ (by simp) ctx
  · exact Respects.agrees

theorem agrees_andForm (ctx : EvaluatorId) :
    Agrees Q (m.andForm ctx slots x) (m'.andForm ctx slots y) := by
  unfold Machine.andForm
  split
  · refine .bind (agrees_conditionOf heval ctx "&&" (by simp)) fun b => ?_
    split
    · exact .bind (agrees_conditionOf heval ctx "&&" (by simp)) fun _ => .pure _
    · exact .pure _
  · exact Respects.agrees

theorem agrees_orForm (ctx : EvaluatorId) :
    Agrees Q (m.orForm ctx slots x) (m'.orForm ctx slots y) := by
  unfold Machine.orForm
  split
  · refine .bind (agrees_conditionOf heval ctx "||" (by simp)) fun b => ?_
    split
    · exact .pure _
    · exact .bind (agrees_conditionOf heval ctx "||" (by simp)) fun _ => .pure _
  · exact Respects.agrees

end Forms

end

/-! ## Machines that mirror each other -/

/-- A machine that evaluates in an environment as another one does in any environment that is
paired with it. -/
structure Mirrors (E : EnvId → EnvId → Prop) (Q : Store → Store → Prop) (m m' : Machine) :
    Prop where
  promise {s t : Store} : Q s t → ∀ p, (s.promise p).Pairs E (t.promise p)
  eval {x y : EnvId} (ctx : EvaluatorId) (e : Expr) (hxy : E x y) :
    Agrees Q (m.eval ctx e x) (m'.eval ctx e y)

namespace Mirrors

section

variable [Forces Q] (h : Mirrors E Q m m')

include h

theorem evalPromise (ctx : EvaluatorId) {p q : Promise} (hpq : p.Pairs E q) :
    Agrees Q (m.evalPromise ctx p) (m'.evalPromise ctx q) := by
  have henv := hpq.env
  unfold Machine.evalPromise
  rw [hpq.code]
  generalize p.env = env, q.env = env' at henv
  cases henv with
  | none => exact Respects.agrees
  | some hxy => exact h.eval ctx _ hxy

theorem force (ctx : Option EvaluatorId) (p : PromiseId) :
    Agrees Q (m.force ctx p) (m'.force ctx p) :=
  agrees_force ctx fun _ _ hst =>
    have hpairs := h.promise hst p
    ⟨hpairs.progress, hpairs.evaluator, fun _ ctx =>
      agrees_runPromise ctx (Run.starts p) fun _ _ hst =>
        have hpairs := h.promise hst p
        ⟨hpairs.code, h.evalPromise ctx hpairs⟩⟩

theorem forceValue (ctx : Option EvaluatorId) (v : Value) :
    Agrees Q (m.forceValue ctx v) (m'.forceValue ctx v) :=
  agrees_forceValue ctx fun p _ => h.force ctx p

theorem firstFunction {xs ys : List EnvId}
    (hslots : List.Forall₂ (fun a b => ∀ s t, Q s t → s.slot? a name = t.slot? b name) xs ys) :
    Agrees Q (m.firstFunction name xs) (m'.firstFunction name ys) :=
  agrees_firstFunction (hslots.imp fun _ _ hab s t hst =>
    ⟨hab s t hst, fun v _ => h.forceValue none v⟩)

theorem lookup (hsees : ∀ s t, Q s t → s.Sees name x t y) :
    Agrees Q (m.lookup x name) (m'.lookup y name) :=
  agrees_lookup hsees fun _ _ _ _ _ v _ => h.forceValue none v

theorem evalArgs (ctx : EvaluatorId) (call : Expr)
    (hpromise : ∀ e, Agrees Q (Run.newPromise ⟨e, some x, some ctx, false, .unforced⟩)
      (Run.newPromise ⟨e, some y, some ctx, false, .unforced⟩)) {slots : List Slot}
    (hdots : (slots.any fun slot => slot.item.isSymbol dotsName) = false) :
    Agrees Q (m.evalArgs ctx slots x call) (m'.evalArgs ctx slots y call) :=
  .bind (agrees_promiseArgs ctx (fun slot _ => hpromise slot.item) hdots) fun _ =>
    agrees_forceArgs ctx call (fun t _ => h.forceValue (some ctx) t.item) [] []

end

theorem eval_slots (h : Mirrors E Q m m') (hxy : E x y) (slots : List Slot) :
    ∀ slot ∈ slots, ∀ ctx, Agrees Q (m.eval ctx slot.item x) (m'.eval ctx slot.item y) :=
  fun slot _ ctx => h.eval ctx slot.item hxy

end Mirrors

/-! ## Stores that are alike but for a mask -/

/-- A machine that evaluates as another one does, from stores that are alike but for a mask. -/
structure ReadAs (mask : MaskId) (Q : Store → Store → Prop) (m m' : Machine) : Prop where
  alike {s t : Store} : Q s t → s.Alike mask t
  eval (ctx : EvaluatorId) (e : Expr) (env : EnvId) :
    Agrees Q (m.eval ctx e env) (m'.eval ctx e env)

namespace ReadAs

variable {mask : MaskId} {m m' : Machine}

theorem mirrors (h : ReadAs mask Q m m') : Mirrors Eq Q m m' where
  promise hst p := (h.alike hst).promise p ▸ .refl _
  eval ctx e hxy := hxy ▸ h.eval ctx e _

theorem slot? (h : ReadAs mask Q m m') {s t : Store} (hst : Q s t) : t.slot? = s.slot? :=
  funext fun e => funext fun name => (h.alike hst).slot? e name

theorem sees (h : ReadAs mask Q m m') {home : EnvId}
    (hchain : ∀ s t, Q s t → s.chain home = t.chain home) (name : String) (s t : Store)
    (hst : Q s t) : s.Sees name home t home :=
  Store.sees_of_eq (h.slot? hst) (hchain s t hst)

theorem firstFunction [Forces Q] (h : ReadAs mask Q m m') (name : String) (chain : List EnvId) :
    Agrees Q (m.firstFunction name chain) (m'.firstFunction name chain) :=
  h.mirrors.firstFunction (List.forall₂_same.mpr fun e _ s t hst => by rw [h.slot? hst])

variable [Steps Q]

theorem inTarget (ctx : EvaluatorId) (env : EnvId) {a b : Run Value} (h : Agrees Q a b) :
    Agrees Q (Machine.inTarget ctx env a) (Machine.inTarget ctx env b) := by
  unfold Machine.inTarget
  refine .bind Respects.agrees fun _ => .bind h.attempt fun outcome => ?_
  refine .bind Respects.agrees fun _ => ?_
  split
  · split
    · exact .pure _
    · exact .raise _
  · exact .resume _

end ReadAs

end Machine

end Quasi
