import Quasi.Proofs.Stack.Flow

/-!
# Parts of runs

A part of a run lies inside of it behind layers where signals are caught: bodies of calls, scopes of
evaluation, requests, promises, exit actions and whatever is followed by a last run. The signal of a
`return` gets through the layers that are not its target, after what each of them does before it
passes a signal on.
-/

namespace Quasi

namespace Run

variable {α β : Type} {a : Run α} {s t : Store}

theorem modify_bind (f : Store → Store) (k : PUnit → Run α) (s : Store) :
    (modify f >>= k) s = k ⟨⟩ (f s) := rfl

theorem attempt_of_signal {x : Signal} (h : a s = .error x.interrupt t) :
    attempt a s = .ok (.error x) t := by
  cases x <;> simp only [attempt, h, Signal.interrupt]

theorem attempt_congr {b : Run α} (h : a s = b t) : attempt a s = attempt b t := by
  simp only [attempt, h]

theorem attempt_resume (r : Except Signal α) (s : Store) : attempt (resume r) s = .ok r s := by
  cases r with
  | ok v => rfl
  | error x => exact attempt_of_signal rfl

end Run

/-! ## Layers -/

/-- What lies between a part of a run and the run, where signals are caught. -/
inductive Layer where
  /-- The body of a call. -/
  | body (m : Machine) (ctx : EvaluatorId) (env : EnvId) (id : Nat)
  /-- What a call does after its body. -/
  | ending (env : EnvId)
  /-- An exit action: whether a signal leaves the call anyway, the first fault of the actions that
  ran before, and the actions that are left. -/
  | exit (m : Machine) (ctx : EvaluatorId) (id : Nat) (pending : Bool) (first : Option Signal)
      (rest : List ExitAction)
  /-- An expression under evaluation in an environment that `return` can end. -/
  | scope (ctx : EvaluatorId) (env : EnvId)
  /-- A request, and the evaluator as it was before. -/
  | request (ctx : EvaluatorId) (before : Evaluator)
  | promise (p : PromiseId)
  /-- A run that is followed by another one whichever way it ends. -/
  | followed (last : Run Unit)

namespace Layer

/-- The environment that a layer puts on a stack. -/
def env? : Layer → Option EnvId
  | .body _ _ env _ => some env
  | .ending env => some env
  | .scope _ env => some env
  | _ => none

/-- Whether a `return` in the environment of a layer ends there. -/
def catches : Layer → Bool
  | .body _ _ _ _ => true
  | .scope _ _ => true
  | _ => false

/-- Whether the signal of a `return` for another environment gets through. An exit action passes
the first fault on, unless a signal is on its way already. An idle evaluator refuses requests that
end by a `return`. -/
def passesOn : Layer → Bool
  | .exit _ _ _ pending first _ => !pending && first.isNone
  | .request _ before => !before.frames.isEmpty
  | _ => true

/-- Whether the signal of a `return` for an environment gets through a layer. -/
structure Passes (T : EnvId) (layer : Layer) : Prop where
  passesOn : layer.passesOn = true
  other : layer.catches = true → layer.env? ≠ some T

/-- Whether a signal that is no failure leaves a layer as it came. An exit action passes the first
fault on, unless a signal is on its way already. A request makes a failure of what is no `return`,
and an idle evaluator of a `return` too. -/
def Lets (x : Signal) : Layer → Prop
  | .body _ _ env _ => ∀ v, x ≠ .returning v env
  | .ending _ => True
  | .exit _ _ _ pending first _ => pending = false ∧ first = none
  | .scope _ env => ∀ v, x ≠ .returning v env
  | .request _ before => (∃ v T, x = .returning v T) ∧ before.frames.isEmpty = false
  | .promise _ => True
  | .followed _ => True

theorem Passes.lets {T : EnvId} {layer : Layer} (h : layer.Passes T) (v : Value) :
    layer.Lets (.returning v T) := by
  have hpass := h.passesOn
  cases layer with
  | body m ctx env id =>
      rintro v' heq
      cases heq
      exact h.other rfl rfl
  | scope ctx env =>
      rintro v' heq
      cases heq
      exact h.other rfl rfl
  | exit m ctx id pending first rest => simpa [Layer.passesOn, Layer.Lets] using hpass
  | request ctx before => exact ⟨⟨v, T, rfl⟩, by simpa [Layer.passesOn] using hpass⟩
  | ending env => trivial
  | promise p => trivial
  | followed last => trivial

/-- The store after a request: the stack is as long as it was before. -/
def restored (s : Store) (ctx : EvaluatorId) (before : Evaluator) : Store :=
  s.setEvaluator ctx fun e =>
    { e with
      frames := Machine.restore before.frames.length e.frames
      depth := before.depth
      targets := Machine.restore before.targets.length e.targets }

/-- What is done before a signal is passed on. -/
def after (x : Signal) : Layer → Run Unit
  | .body m ctx _ id => m.unwind ctx id true
  | .ending _ => pure ()
  | .exit m ctx id _ _ rest => do
      let _ ← m.runExits ctx false rest (some x)
      Machine.popFrame ctx id
  | .scope ctx _ => modify fun s => Flow.untargeted s ctx
  | .request ctx before => modify fun s => restored s ctx before
  | .promise p => Machine.conclude p (.error x)
  | .followed last => last

/-- What is done on the way out of some layers, from the inside out. -/
def passOut (x : Signal) : List Layer → Run Unit
  | [] => pure ()
  | layer :: rest => do
      layer.after x
      passOut x rest

/-- What is done before a call or a scope ends with the value of a `return`. -/
def finish : Layer → Run Unit
  | .body m ctx _ id => m.unwind ctx id false
  | .scope ctx _ => modify fun s => Flow.untargeted s ctx
  | _ => pure ()

end Layer

namespace Machine

/-- The end of a call, its body having ended. -/
def leave (m : Machine) (ctx : EvaluatorId) (env : EnvId) (id : Nat) :
    Except Signal Value → Run Value
  | .ok v => do
      unwind m ctx id false
      pure v
  | .error (.returning v target) =>
      if target = env then do
        unwind m ctx id false
        pure v
      else do
        unwind m ctx id true
        Run.raise (.returning v target)
  | .error (.failure f) => do
      noteFailure ctx f
      unwind m ctx id true
      Run.raise (.failure f)
  | .error .overflow => do
      unwind m ctx id true
      Run.raise .overflow

theorem inFrame_eq (m : Machine) (ctx : EvaluatorId) (call : Expr) (env : EnvId)
    (function : Option ClosureId) (caller : Option EnvId) (handlers : List ExitAction)
    (body : Run Value) : m.inFrame ctx call env function caller handlers body = (do
      let id ← pushFrame ctx call env function caller handlers
      m.leave ctx env id (← Run.attempt body)) := by
  unfold inFrame
  refine bind_congr fun id => bind_congr fun outcome => ?_
  rcases outcome with (f | ⟨v, target⟩ | _) | v <;> rfl

end Machine

/-- A part `b` of a run that starts in `u`, inside of another run: the layers between them,
innermost first. What runs before the part and beside its layers leaves all stacks as they were. -/
inductive Inside {β : Type} (b : Run β) (u : Store) :
    {α : Type} → Run α → Store → List Layer → Prop where
  | here : Inside b u b u []
  | first {α γ : Type} {a : Run α} {f : α → Run γ} {s : Store} {layers : List Layer} :
      Inside b u a s layers → Inside b u (a >>= f) s layers
  | rest {α γ : Type} {a : Run α} {f : α → Run γ} {v : α} {s t : Store} {layers : List Layer}
      [Flow.stacks.Holds a] (h : a s = .ok v t) :
      Inside b u (f v) t layers → Inside b u (a >>= f) s layers
  | guarded {α : Type} {a : Run α} {handler : FailureRef → Run α} {s : Store}
      {layers : List Layer} :
      Inside b u a s layers → Inside b u (Run.orElse a handler) s layers
  | followed {α : Type} {a : Run α} {last : Run Unit} {s : Store} {layers : List Layer} :
      Inside b u a s layers →
      Inside b u (Run.andFinally a last) s (layers ++ [.followed last])
  | promise {a : Run Value} {p : PromiseId} {s : Store} {layers : List Layer} :
      Inside b u a s layers →
      Inside b u (do
        let outcome ← Run.attempt a
        Machine.conclude p outcome
        Run.resume outcome) s (layers ++ [.promise p])
  | body {m : Machine} {ctx : EvaluatorId} {call : Expr} {env : EnvId}
      {function : Option ClosureId} {caller : Option EnvId} {handlers : List ExitAction}
      {body : Run Value} {id : Nat} {s t : Store} {layers : List Layer}
      (hpush : Machine.pushFrame ctx call env function caller handlers s = .ok id t) :
      Inside b u body t layers →
      Inside b u (m.inFrame ctx call env function caller handlers body) s
        (layers ++ [.body m ctx env id])
  | ending {m : Machine} {ctx : EvaluatorId} {call : Expr} {env : EnvId}
      {function : Option ClosureId} {caller : Option EnvId} {handlers : List ExitAction}
      {body : Run Value} {id : Nat} {outcome : Except Signal Value} {s t t' : Store}
      {layers : List Layer} [Flow.stacks.Holds body]
      (hpush : Machine.pushFrame ctx call env function caller handlers s = .ok id t)
      (hbody : Run.attempt body t = .ok outcome t') :
      Inside b u (m.leave ctx env id outcome) t' layers →
      Inside b u (m.inFrame ctx call env function caller handlers body) s
        (layers ++ [.ending env])
  | exit {m : Machine} {ctx : EvaluatorId} {id : Nat} {pending : Bool} {action : ExitAction}
      {done rest : List ExitAction} {first : Option Signal} {s t t' : Store} {layers : List Layer}
      [∀ ctx e env, Flow.stacks.Holds (m.eval ctx e env)]
      (htake : Machine.takeExits ctx id s = .ok (done ++ action :: rest) t)
      (hdone : m.runExits ctx pending done none t = .ok first t') :
      Inside b u (m.runExit ctx action) t' layers →
      Inside b u (m.unwind ctx id pending) s (layers ++ [.exit m ctx id pending first rest])
  | scope {ctx : EvaluatorId} {env : EnvId} {body : Run Value} {s : Store} {layers : List Layer} :
      Inside b u body (Flow.targeted s ctx env) layers →
      Inside b u (Machine.inTarget ctx env body) s (layers ++ [.scope ctx env])
  | request {α : Type} {ctx : EvaluatorId} {a : Run α} {s : Store} {layers : List Layer} :
      Inside b u a s layers →
      Inside b u (Machine.request ctx a) s (layers ++ [.request ctx (s.evaluator ctx)])

/-- A part of a part lies behind the layers of both. -/
theorem Inside.trans {α β γ : Type} {a : Run α} {b : Run β} {c : Run γ} {s t u : Store}
    {inner outer : List Layer} (houter : Inside c t a s outer) (hinner : Inside b u c t inner) :
    Inside b u a s (inner ++ outer) := by
  induction houter with
  | here =>
      rw [List.append_nil]
      exact hinner
  | first _ ih => exact .first ih
  | rest ha _ ih => exact .rest ha ih
  | guarded _ ih => exact .guarded ih
  | followed _ ih => exact List.append_assoc .. ▸ ih.followed
  | promise _ ih => exact List.append_assoc .. ▸ ih.promise
  | body hpush _ ih => exact List.append_assoc .. ▸ ih.body hpush
  | ending hpush hbody _ ih => exact List.append_assoc .. ▸ ih.ending hpush hbody
  | exit htake hdone _ ih => exact List.append_assoc .. ▸ ih.exit htake hdone
  | scope _ ih => exact List.append_assoc .. ▸ ih.scope
  | request _ ih => exact List.append_assoc .. ▸ ih.request

/-! ## Passing layers -/

section Pass

open Run (attempt_of_signal bind_eq_ok bind_of_ok bind_of_error)

variable {m : Machine} {ctx : EvaluatorId} {s t w : Store} {x : Signal} {v : Value} {T : EnvId}

theorem runExits_append (m : Machine) (ctx : EvaluatorId) (pending : Bool)
    (done rest : List ExitAction) (first : Option Signal) :
    m.runExits ctx pending (done ++ rest) first =
      m.runExits ctx pending done first >>= m.runExits ctx pending rest := by
  induction done generalizing first with
  | nil => rw [List.nil_append, Machine.runExits, pure_bind]
  | cons action done ih =>
      rw [List.cons_append, Machine.runExits, Machine.runExits, bind_assoc]
      refine bind_congr fun outcome => ?_
      cases outcome with
      | ok _ => exact ih first
      | error x =>
          dsimp only
          split
          · simp only [bind_assoc, ih]
          · exact ih (some x)

/-- The first fault remains the one that is raised in the end. -/
theorem runExits_first {pending : Bool} {actions : List ExitAction} {first : Option Signal}
    (h : m.runExits ctx pending actions (some x) s = .ok first t) : first = some x := by
  induction actions generalizing s with
  | nil =>
      cases h
      rfl
  | cons action rest ih =>
      rw [Machine.runExits] at h
      obtain ⟨outcome, u, -, h⟩ := bind_eq_ok h
      cases outcome with
      | ok _ => exact ih h
      | error y =>
          simp only [Option.isSome_some, Bool.or_true, if_true] at h
          obtain ⟨text, u, -, h⟩ := bind_eq_ok h
          obtain ⟨_, u, -, h⟩ := bind_eq_ok h
          exact ih h

/-- A fault of an exit action is raised once the other actions ran and the frame is popped. -/
theorem unwind_of_exit {id : Nat} {action : ExitAction} {done rest : List ExitAction}
    {t t' : Store} (htake : Machine.takeExits ctx id s = .ok (done ++ action :: rest) t)
    (hdone : m.runExits ctx false done none t = .ok none t')
    (hexit : m.runExit ctx action t' = .error x.interrupt w) {u : Store}
    (hafter : (Layer.exit m ctx id false none rest).after x w = .ok ⟨⟩ u) :
    m.unwind ctx id false s = .error x.interrupt u := by
  obtain ⟨first, w', hrest, hpop⟩ := bind_eq_ok hafter
  have hruns : m.runExits ctx false (done ++ action :: rest) none t = .ok (some x) w' := by
    rw [runExits_append, bind_of_ok hdone, Machine.runExits, bind_of_ok (attempt_of_signal hexit)]
    rw [runExits_first hrest] at hrest
    exact hrest
  rw [Machine.unwind, bind_of_ok htake, bind_of_ok hruns, bind_of_ok hpop]
  rfl

theorem forall_mem_concat {layers : List Layer} {layer : Layer} {P : Layer → Prop}
    (h : ∀ k ∈ layers ++ [layer], P k) : (∀ k ∈ layers, P k) ∧ P layer :=
  ⟨fun k hk => h k (List.mem_append_left _ hk),
    h layer (List.mem_append_right _ List.mem_cons_self)⟩

theorem passOut_append (x : Signal) (front back : List Layer) :
    Layer.passOut x (front ++ back) = (do
      Layer.passOut x front
      Layer.passOut x back) := by
  induction front with
  | nil => rfl
  | cons layer front ih => rw [List.cons_append, Layer.passOut, Layer.passOut, ih, bind_assoc]

theorem passOut_concat {layers : List Layer} {layer : Layer}
    (h : Layer.passOut x (layers ++ [layer]) w = .ok () t) :
    ∃ w', Layer.passOut x layers w = .ok () w' ∧ layer.after x w' = .ok () t := by
  rw [passOut_append] at h
  obtain ⟨_, w', hlayers, h⟩ := bind_eq_ok h
  obtain ⟨_, t', hlayer, h⟩ := bind_eq_ok h
  cases h
  exact ⟨w', hlayers, hlayer⟩

/-! ## What becomes of a signal -/

theorem inFrame_of_signal {call : Expr} {env : EnvId} {function : Option ClosureId}
    {caller : Option EnvId} {handlers : List ExitAction} {body : Run Value} {id : Nat}
    (hpush : Machine.pushFrame ctx call env function caller handlers s = .ok id t)
    (hbody : body t = .error x.interrupt w) :
    m.inFrame ctx call env function caller handlers body s = m.leave ctx env id (.error x) w := by
  rw [Machine.inFrame_eq, bind_of_ok hpush, bind_of_ok (attempt_of_signal hbody)]

theorem leave_of_signal {env : EnvId} (hx : ∀ f, x ≠ .failure f)
    (hother : ∀ v, x ≠ .returning v env) (m : Machine) (ctx : EvaluatorId) (id : Nat) :
    m.leave ctx env id (.error x) = (do
      m.unwind ctx id true
      Run.raise x) := by
  cases x with
  | failure f => exact absurd rfl (hx f)
  | returning v T =>
      have hne : T ≠ env := fun h => hother v (h ▸ rfl)
      rw [Machine.leave, if_neg hne]
  | overflow => rfl

theorem inTarget_of_signal {env : EnvId} {body : Run Value}
    (hbody : body (Flow.targeted s ctx env) = .error x.interrupt w) :
    Machine.inTarget ctx env body s =
      (match x with
        | .returning v T => if T = env then pure v else Run.raise (.returning v T)
        | x => Run.raise x : Run Value) (Flow.untargeted w ctx) := by
  unfold Machine.inTarget
  rw [Run.modify_bind]
  change (Run.attempt body >>= _) (Flow.targeted s ctx env) = _
  rw [bind_of_ok (attempt_of_signal hbody)]
  cases x <;> rfl

theorem request_of_signal {α : Type} {a : Run α} (ha : a s = .error x.interrupt w) :
    Machine.request ctx a s =
      (match x with
        | .returning v T =>
            if (s.evaluator ctx).frames.isEmpty then Run.fail (.general .noFunctionToReturn)
            else Run.raise (.returning v T)
        | .overflow => Run.fail .recursion
        | x => Run.raise x : Run α) (Layer.restored w ctx (s.evaluator ctx)) := by
  unfold Machine.request
  rw [Run.get_bind, bind_of_ok (attempt_of_signal ha)]
  cases x <;> rfl

/-- A signal that is no failure gets through all layers that let it, after what each of them does,
from the inside out. -/
theorem Inside.passed {α β : Type} {a : Run α} {b : Run β} {u : Store} {layers : List Layer}
    (h : Inside b u a s layers) (hx : ∀ f, x ≠ .failure f) (hb : b u = .error x.interrupt w)
    (hlets : ∀ layer ∈ layers, layer.Lets x) (hout : Layer.passOut x layers w = .ok () t) :
    a s = .error x.interrupt t := by
  -- In each case the layer is the outermost one; the inner ones led to where its run goes on.
  induction h generalizing t with
  | here =>
      cases hout
      exact hb
  | first h ih => exact bind_of_error (ih hlets hout)
  | rest ha h ih => rw [bind_of_ok ha, ih hlets hout]
  | guarded h ih =>
      rw [Run.orElse, bind_of_ok (attempt_of_signal (ih hlets hout))]
      cases x with
      | failure f => exact absurd rfl (hx f)
      | returning v T => rfl
      | overflow => rfl
  | followed h ih =>
      obtain ⟨hinner, -⟩ := forall_mem_concat hlets
      obtain ⟨w', hw', hlast⟩ := passOut_concat hout
      rw [Run.andFinally, bind_of_ok (attempt_of_signal (ih hinner hw'))]
      exact bind_of_ok hlast
  | promise h ih =>
      obtain ⟨hinner, -⟩ := forall_mem_concat hlets
      obtain ⟨w', hw', hconclude⟩ := passOut_concat hout
      rw [bind_of_ok (attempt_of_signal (ih hinner hw'))]
      exact bind_of_ok hconclude
  | @body m ctx call env function caller handlers body id s t' layers hpush h ih =>
      obtain ⟨hinner, hother⟩ := forall_mem_concat hlets
      obtain ⟨w', hw', hunwind⟩ := passOut_concat hout
      rw [inFrame_of_signal hpush (ih hinner hw'), leave_of_signal hx hother]
      exact bind_of_ok hunwind
  | ending hpush hbody h ih =>
      obtain ⟨hinner, -⟩ := forall_mem_concat hlets
      obtain ⟨w', hw', hend⟩ := passOut_concat hout
      cases hend
      rw [Machine.inFrame_eq, bind_of_ok hpush, bind_of_ok hbody, ih hinner hw']
  | @exit m ctx id pending action done rest first s t' t'' layers _ htake hdone h ih =>
      obtain ⟨hinner, rfl, rfl⟩ := forall_mem_concat hlets
      obtain ⟨w', hw', hend⟩ := passOut_concat hout
      exact unwind_of_exit htake hdone (ih hinner hw') hend
  | @scope ctx env body s layers h ih =>
      obtain ⟨hinner, hother⟩ := forall_mem_concat hlets
      obtain ⟨w', hw', hdrop⟩ := passOut_concat hout
      cases hdrop
      rw [inTarget_of_signal (ih hinner hw')]
      cases x with
      | failure f => exact absurd rfl (hx f)
      | returning v T =>
          have hne : T ≠ env := fun h => hother v (h ▸ rfl)
          simp only [if_neg hne]
          rfl
      | overflow => rfl
  | @request _ ctx a s layers h ih =>
      obtain ⟨hinner, ⟨v, T, rfl⟩, hbusy⟩ := forall_mem_concat hlets
      obtain ⟨w', hw', hrestore⟩ := passOut_concat hout
      cases hrestore
      rw [request_of_signal (ih hinner hw')]
      simp only [hbusy, Bool.false_eq_true, if_false]
      rfl

/-- The signal of a `return` gets through all layers that let it pass. -/
theorem Inside.carried {α β : Type} {a : Run α} {b : Run β} {u : Store} {layers : List Layer}
    (h : Inside b u a s layers) (hb : b u = .error (.returning v T) w)
    (hpasses : ∀ layer ∈ layers, layer.Passes T)
    (hout : Layer.passOut (.returning v T) layers w = .ok () t) :
    a s = .error (.returning v T) t := by
  have hlets : ∀ layer ∈ layers, layer.Lets (.returning v T) :=
    fun layer hlayer => (hpasses layer hlayer).lets v
  exact h.passed (x := .returning v T) nofun hb hlets hout

end Pass

/-! ## The nearest layer of an environment -/

/-- The call or the scope that a layer belongs to, its body, and the store where the body starts. -/
inductive Layer.Opens : Layer → Run Value → Store → Run Value → Store → Prop where
  | call {m : Machine} {ctx : EvaluatorId} {call : Expr} {env : EnvId}
      {function : Option ClosureId} {caller : Option EnvId} {handlers : List ExitAction}
      {body : Run Value} {id : Nat} {s t : Store}
      (hpush : Machine.pushFrame ctx call env function caller handlers s = .ok id t) :
      Opens (.body m ctx env id) (m.inFrame ctx call env function caller handlers body) s body t
  | scope (ctx : EvaluatorId) (env : EnvId) (body : Run Value) (s : Store) :
      Opens (.scope ctx env) (Machine.inTarget ctx env body) s body (Flow.targeted s ctx env)

/-- A call or a scope whose body ends by a `return` for its environment ends with the value. -/
theorem Layer.Opens.ends {layer : Layer} {c body : Run Value} {s t w : Store} {v : Value}
    {T : EnvId} (h : layer.Opens c s body t) (hT : layer.env? = some T)
    (hbody : body t = .error (.returning v T) w) :
    c s = (do layer.finish; pure v : Run Value) w := by
  cases h with
  | call hpush =>
      cases hT
      rw [inFrame_of_signal (x := .returning v T) hpush hbody, Machine.leave, if_pos rfl]
      rfl
  | scope ctx env =>
      cases hT
      rw [inTarget_of_signal (x := .returning v T) hbody]
      simp only [if_true]
      rfl

section Nearest

variable {α β : Type} {T : EnvId} {b : Run β} {u : Store} {a : Run α} {s : Store}

/-- The nearest layer of an environment around a part of a run: the layers inside and outside of
it, and the call or the scope `c` that it belongs to, which starts in `t`. -/
structure Nearest (T : EnvId) (b : Run β) (u : Store) (a : Run α) (s : Store)
    (inner : List Layer) (layer : Layer) (outer : List Layer) (c : Run Value) (t : Store) :
    Prop where
  env? : layer.env? = some T
  nearest : ∀ k ∈ inner, k.env? ≠ some T
  outside : Inside c t a s outer
  inside : Inside b u c t (inner ++ [layer])
  opens : layer.catches = true → ∃ body t', layer.Opens c t body t' ∧ Inside b u body t' inner

/-- How the value of a `return` gets from the part of a run that raises it to the call or the scope
that it ends. Whatever lies between ends by the signal and the target with the value, once all
layers on the way did what they do when they are left. If one of them ends by a signal of its own
then, this is what replaces the `return`. -/
structure Reaches (v : Value) (T : EnvId) (b : Run β) (u w : Store) (inner : List Layer)
    (layer : Layer) (c : Run Value) (t : Store) : Prop where
  between {γ : Type} {d : Run γ} {t' w' : Store} {front back : List Layer}
    (hsplit : inner = front ++ back) (hinside : Inside b u d t' front)
    (hout : Layer.passOut (.returning v T) front w = .ok () w') :
    d t' = .error (.returning v T) w'
  target {w' : Store} (hout : Layer.passOut (.returning v T) inner w = .ok () w') :
    c t = (do layer.finish; pure v : Run Value) w'

namespace Nearest

variable {inner outer layers : List Layer} {layer : Layer} {c : Run Value} {t : Store}

/-- A `return` for the environment gets to the call or the scope, if all layers on the way let it
through. -/
theorem reaches (h : Nearest T b u a s inner layer outer c t) {v : Value} {w : Store}
    (hb : b u = .error (.returning v T) w) (hcatches : layer.catches = true)
    (hpasses : ∀ k ∈ inner, k.passesOn = true) : Reaches v T b u w inner layer c t where
  between := by
    intro γ d t' w' front back hsplit hinside hout
    refine hinside.carried hb (fun k hk => ?_) hout
    have hmem : k ∈ inner := hsplit ▸ List.mem_append_left _ hk
    exact ⟨hpasses k hmem, fun _ => h.nearest k hmem⟩
  target := by
    intro w' hout
    obtain ⟨body, start, hopens, hinside⟩ := h.opens hcatches
    have hbody := hinside.carried hb (fun k hk => ⟨hpasses k hk, fun _ => h.nearest k hk⟩) hout
    exact hopens.ends h.env? hbody

/-- A call that is past its body does not end with the value: the signal leaves it. -/
theorem outlives (h : Nearest T b u a s inner layer outer c t) {v : Value} {w w' : Store}
    (hb : b u = .error (.returning v T) w) (hpast : layer.catches = false)
    (hpasses : ∀ k ∈ inner, k.passesOn = true)
    (hout : Layer.passOut (.returning v T) inner w = .ok () w') :
    c t = .error (.returning v T) w' := by
  have hending : layer = .ending T := by
    have henv := h.env?
    cases layer with
    | ending env =>
        cases henv
        rfl
    | body => cases hpast
    | scope => cases hpast
    | _ => cases henv
  subst hending
  refine h.inside.carried hb (fun k hk => ?_) ?_
  · rcases List.mem_append.mp hk with hk | hk
    · exact ⟨hpasses k hk, fun _ => h.nearest k hk⟩
    · cases List.mem_singleton.mp hk
      exact ⟨rfl, nofun⟩
  · rw [passOut_append, Run.bind_of_ok hout]
    rfl

end Nearest

/-- There is only one nearest layer of an environment. -/
theorem nearest_unique {inner inner' outer outer' : List Layer} {layer layer' : Layer}
    (hsplit : inner ++ layer :: outer = inner' ++ layer' :: outer')
    (henv : layer.env? = some T) (hinner : ∀ k ∈ inner, k.env? ≠ some T)
    (henv' : layer'.env? = some T) (hinner' : ∀ k ∈ inner', k.env? ≠ some T) :
    inner = inner' ∧ layer = layer' := by
  induction inner generalizing inner' with
  | nil =>
      cases inner' with
      | nil =>
          cases hsplit
          exact ⟨rfl, rfl⟩
      | cons k rest =>
          cases hsplit
          exact absurd henv (hinner' _ List.mem_cons_self)
  | cons k rest ih =>
      cases inner' with
      | nil =>
          cases hsplit
          exact absurd henv' (hinner _ List.mem_cons_self)
      | cons k' rest' =>
          rw [List.cons_append, List.cons_append, List.cons.injEq] at hsplit
          obtain ⟨rfl, hrest⟩ := hsplit
          obtain ⟨rfl, rfl⟩ := ih hrest (fun k hk => hinner k (List.mem_cons_of_mem _ hk))
            (fun k hk => hinner' k (List.mem_cons_of_mem _ hk))
          exact ⟨rfl, rfl⟩

/-- One more layer is the nearest one if there is none inside of it. -/
theorem exists_nearest_concat {γ : Type} {a' : Run γ} {s' : Store} {layers : List Layer}
    {added : Layer}
    (ih : (∃ k ∈ layers, k.env? = some T) → ∃ inner layer outer c t,
      layers = inner ++ layer :: outer ∧ Nearest T b u a s inner layer outer c t)
    (houtside : ∀ {c : Run Value} {t : Store} {outer : List Layer},
      Inside c t a s outer → Inside c t a' s' (outer ++ [added]))
    (hadded : added.env? = some T → (∀ k ∈ layers, k.env? ≠ some T) →
      ∃ c t, Nearest T b u a' s' layers added [] c t)
    (hT : ∃ k ∈ layers ++ [added], k.env? = some T) :
    ∃ inner layer outer c t, layers ++ [added] = inner ++ layer :: outer ∧
      Nearest T b u a' s' inner layer outer c t := by
  by_cases hinner : ∃ k ∈ layers, k.env? = some T
  · obtain ⟨inner, layer, outer, c, t, rfl, hnear⟩ := ih hinner
    refine ⟨inner, layer, outer ++ [added], c, t, by simp, ?_⟩
    exact { hnear with outside := houtside hnear.outside }
  · have hnone : ∀ k ∈ layers, k.env? ≠ some T := fun k hk h => hinner ⟨k, hk, h⟩
    obtain ⟨k, hk, henv⟩ := hT
    rcases List.mem_append.mp hk with hk | hk
    · exact absurd henv (hnone k hk)
    · rw [List.mem_singleton.mp hk] at henv
      obtain ⟨c, t, hnear⟩ := hadded henv hnone
      exact ⟨layers, added, [], c, t, rfl, hnear⟩

/-- Around a part of a run that lies behind layers of an environment there is a nearest one. -/
theorem Inside.exists_nearest {layers : List Layer} (h : Inside b u a s layers)
    (hT : ∃ k ∈ layers, k.env? = some T) :
    ∃ inner layer outer c t, layers = inner ++ layer :: outer ∧
      Nearest T b u a s inner layer outer c t := by
  induction h with
  | here =>
      obtain ⟨_, hmem, -⟩ := hT
      cases hmem
  | first h ih =>
      obtain ⟨inner, layer, outer, c, t, hsplit, hnear⟩ := ih hT
      exact ⟨inner, layer, outer, c, t, hsplit, { hnear with outside := .first hnear.outside }⟩
  | rest ha h ih =>
      obtain ⟨inner, layer, outer, c, t, hsplit, hnear⟩ := ih hT
      exact ⟨inner, layer, outer, c, t, hsplit, { hnear with outside := .rest ha hnear.outside }⟩
  | guarded h ih =>
      obtain ⟨inner, layer, outer, c, t, hsplit, hnear⟩ := ih hT
      exact ⟨inner, layer, outer, c, t, hsplit, { hnear with outside := .guarded hnear.outside }⟩
  | followed h ih => exact exists_nearest_concat ih .followed nofun hT
  | promise h ih => exact exists_nearest_concat ih .promise nofun hT
  | exit htake hdone h ih => exact exists_nearest_concat ih (.exit htake hdone) nofun hT
  | request h ih => exact exists_nearest_concat ih .request nofun hT
  | body hpush h ih =>
      refine exists_nearest_concat ih (.body hpush) (fun henv hnone => ?_) hT
      exact ⟨_, _, henv, hnone, .here, .body hpush h, fun _ => ⟨_, _, .call hpush, h⟩⟩
  | ending hpush hbody h ih =>
      refine exists_nearest_concat ih (.ending hpush hbody) (fun henv hnone => ?_) hT
      exact ⟨_, _, henv, hnone, .here, .ending hpush hbody h, nofun⟩
  | scope h ih =>
      refine exists_nearest_concat ih .scope (fun henv hnone => ?_) hT
      exact ⟨_, _, henv, hnone, .here, .scope h, fun _ => ⟨_, _, .scope _ _ _ _, h⟩⟩

end Nearest

end Quasi
