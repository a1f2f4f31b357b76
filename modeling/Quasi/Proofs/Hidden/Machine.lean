import Quasi.Machine.Apply
import Quasi.Machine.Masks
import Quasi.Proofs.Hidden.Runs

/-!
# Machines to which hidden promises do not matter

A machine is discreet if its runs are, whatever they are given that mentions nothing hidden.
Forcing promises, looking names up, frames, calls and evaluation under a mask are discreet with it:
they come by no promise but those that are mentioned.
-/

namespace Quasi

open Run (Discreet)
open Run.Discreet (andThen read update of_value of_modify search)

variable {hidden : PromiseId → Prop} {α : Type} [Mention α]

/-- A machine whose runs are discreet. -/
class Machine.IsDiscreet (hidden : PromiseId → Prop) (m : Machine) : Prop where
  eval (ctx : EvaluatorId) (e : Expr) (env : EnvId) [Conceals hidden e] :
    Discreet hidden (m.eval ctx e env)
  call (ctx : EvaluatorId) (fn : Value) (args : List Value) (named : Bindings Value) (env : EnvId)
    [Conceals hidden fn] [Conceals hidden args] [Conceals hidden named] :
    Discreet hidden (m.call ctx fn args named env)
  expand (ctx : EvaluatorId) (e : Expr) (env : EnvId) [Conceals hidden e] :
    Discreet hidden (m.expand ctx e env)

namespace Machine

attribute [instance] IsDiscreet.eval IsDiscreet.call IsDiscreet.expand

variable {m : Machine} [m.IsDiscreet hidden] (ctx : EvaluatorId)

/-! ## Promises -/

instance (e : Expr) [Conceals hidden e] : Discreet hidden (evalNowhere e) := by
  unfold evalNowhere
  split
  · infer_instance
  next v _ hconst =>
    have hv := conceals_const.mp hconst
    infer_instance
  · infer_instance
  · infer_instance
  · infer_instance
  · infer_instance

instance (p : PromiseId) [hp : Conceals hidden p] : Discreet hidden (begin p) := of_modify fun h => by
  have hset := h.setPromise hp (f := fun promise => { promise with progress := .forcing })
    (fun _ => rfl) fun _ hq => conceals_promised.mpr ⟨⟨hq.out.1⟩, ⟨trivial⟩⟩
  simp only [Store.begin, Store.use_eq]
  exact hset.history _ _

instance (p : PromiseId) (signal : Signal) [hp : Conceals hidden p] :
    Discreet hidden (abandon p signal) :=
  of_modify fun h => (h.setPromise hp (f := fun promise => { promise with progress := .interrupted })
    (fun _ => rfl) fun _ hq => conceals_promised.mpr ⟨⟨hq.out.1⟩, ⟨trivial⟩⟩).history _ _

instance (p : PromiseId) (progress : Progress) [hp : Conceals hidden p] [hprogress : Conceals hidden progress] :
    Discreet hidden (settle p progress) :=
  of_modify fun h => (h.setPromise hp
    (f := fun promise => { promise with progress := progress, env := none })
    (fun _ => rfl) fun _ hq => conceals_promised.mpr ⟨⟨hq.out.1⟩, hprogress⟩).history _ _

instance (p : PromiseId) (outcome : Except Signal Value) [Conceals hidden p] [hr : Conceals hidden outcome] :
    Discreet hidden (conclude p outcome) := by
  unfold conclude
  split
  next v =>
    have hv : Conceals hidden (Progress.value v) := conceals_value.mpr (conceals_ok.mp hr)
    infer_instance
  next f =>
    have hf : Conceals hidden (Progress.failed f) := ⟨trivial⟩
    infer_instance
  · infer_instance

instance (promise : Promise) [Conceals hidden promise] :
    Discreet hidden (m.evalPromise ctx promise) := by
  unfold evalPromise
  split <;> infer_instance

instance (p : PromiseId) [hp : Conceals hidden p] : Discreet hidden (m.runPromise ctx p) := by
  unfold runPromise
  refine read (fun h => by rw [h.promise p (conceals_promiseId.mp hp)]) fun s hs => ?_
  have hpromise := hs.out.promise p (conceals_promiseId.mp hp)
  have hrest : Discreet hidden (do
      let outcome ← Run.attempt (m.evalPromise ctx (s.promise p))
      conclude p outcome
      Run.resume outcome) := andThen fun outcome _ => inferInstance
  infer_instance

instance (ctx : Option EvaluatorId) (p : PromiseId) [hp : Conceals hidden p] :
    Discreet hidden (m.force ctx p) := by
  unfold force
  refine read (fun h => by rw [h.promise p (conceals_promiseId.mp hp)]) fun s hs => ?_
  have hpromise := (hs.out.promise p (conceals_promiseId.mp hp)).out.2
  dsimp only
  split
  next v hv =>
    have hv : Conceals hidden v := ⟨by rw [hv] at hpromise; exact hpromise⟩
    infer_instance
  next v hv =>
    have hv : Conceals hidden v := ⟨by rw [hv] at hpromise; exact hpromise⟩
    infer_instance
  · infer_instance
  · infer_instance
  · split <;> infer_instance
  · split <;> infer_instance

instance (ctx : Option EvaluatorId) (v : Value) [hv : Conceals hidden v] :
    Discreet hidden (m.forceValue ctx v) := by
  unfold forceValue
  split
  next p =>
    have hp := conceals_promise.mp hv
    infer_instance
  · infer_instance

/-! ## Looking names up -/

instance (env : EnvId) (name : String) : Discreet hidden (m.lookup env name) := by
  unfold lookup
  refine andThen fun v _ => ?_
  split <;> infer_instance

instance (name : String) (chain : List EnvId) : Discreet hidden (m.firstFunction name chain) := by
  induction chain with
  | nil => unfold firstFunction; infer_instance
  | cons env rest ih =>
      unfold firstFunction
      refine read (fun h => by rw [h.slot?]) fun s hs => ?_
      split
      · infer_instance
      next v hslot =>
        have hv : Conceals hidden v := .of_some hslot
        exact andThen fun v _ => inferInstance

instance (env : EnvId) (name : String) : Discreet hidden (m.lookupFunction env name) := by
  unfold lookupFunction
  refine read (fun h => by rw [h.chain]) fun s _ => ?_
  refine andThen fun found hfound => ?_
  split
  next fn =>
    have hfn := conceals_some.mp hfound
    infer_instance
  · infer_instance

instance (mask : MaskId) (name : String) : Discreet hidden (m.lookupData mask name) := by
  unfold lookupData
  refine read (fun h => by rw [h.data?]) fun s hs => ?_
  split
  next v hdata =>
    have hv : Conceals hidden v := .of_some hdata
    exact andThen fun v _ => inferInstance
  · infer_instance

instance (env : EnvId) : Discreet hidden (dotsOf env) := by
  unfold dotsOf
  refine andThen fun found _ => ?_
  split
  · infer_instance
  next found =>
    refine read (fun h => by rw [h.slot?]) fun s hs => ?_
    split
    next entries hslot =>
      have hdots : Conceals hidden (Value.dots entries) := .of_some hslot
      have hentries := conceals_dots.mp hdots
      infer_instance
    · infer_instance

instance (name : String) (env : EnvId) : Discreet hidden (m.evalSymbol ctx name env) := by
  unfold evalSymbol
  split
  · infer_instance
  · split
    · infer_instance
    next n _ =>
      refine andThen fun entries hentries => ?_
      have hentry : Conceals hidden entries[n - 1]? := inferInstance
      split
      · infer_instance
      · infer_instance
      next tag v _ hfound =>
        have htagged : Conceals hidden (⟨tag, v⟩ : Tagged Value) := .of_some hfound
        have hv := conceals_tagged.mp htagged
        infer_instance

/-! ## Frames -/

instance (env : EnvId) : Discreet hidden (functionFrame ctx env) := by
  unfold functionFrame
  have hsearch : Discreet hidden
      (Run.search env fun s e => ((s.evaluator ctx).frameOf? e).isSome) :=
    search env fun h => by rw [h.evaluator]
  refine andThen fun found _ => ?_
  split
  · infer_instance
  next found _ =>
    refine read (fun h => by rw [h.evaluator]) fun s hs => ?_
    have hframes : Conceals hidden (s.evaluator ctx).frames := inferInstance
    have hframe : Conceals hidden ((s.evaluator ctx).frameOf? found) :=
      conceals_option fun frame hfound => hframes.mem (List.mem_of_find?_eq_some hfound)
    infer_instance

instance (env : EnvId) : Discreet hidden (returnTarget ctx env) :=
  search env fun h => by rw [h.evaluator]

instance : Discreet hidden (topEnv ctx) := by
  unfold topEnv
  exact read (fun h => by rw [h.evaluator]) fun s _ => inferInstance

instance (n : Nat) (env : EnvId) : Discreet hidden (parentFrame ctx n env) := by
  induction n generalizing env with
  | zero => unfold parentFrame; infer_instance
  | succ n ih =>
      unfold parentFrame
      refine andThen fun frame _ => ?_
      split <;> infer_instance

theorem conceals_setHandlers {e : Evaluator} (he : Conceals hidden e.frames) (id : Nat)
    {f : List ExitAction → List ExitAction}
    (hf : ∀ handlers, Conceals hidden handlers → Conceals hidden (f handlers)) :
    Conceals hidden (e.setHandlers id f).frames :=
  conceals_map fun frame hframe => by
    split
    · exact conceals_frame.mpr ⟨inferInstance, hf frame.handlers inferInstance⟩
    · exact hframe

instance (id : Nat) (r : Registration) [hr : Conceals hidden r] :
    Discreet hidden (register ctx id r) := of_modify fun h => by
  refine (h.setEvaluator ctx fun e he => conceals_setHandlers he id fun handlers hh => ?_).history
    _ _
  cases r with
  | clear => exact inferInstanceAs (Conceals hidden [])
  | exit action add after =>
      have haction : Conceals hidden action := ⟨hr.out⟩
      unfold Registration.apply registerExit
      infer_instance

instance (call : Expr) (env : EnvId) (function : Option ClosureId) (caller : Option EnvId)
    (handlers : List ExitAction) [hcall : Conceals hidden call]
    [hhandlers : Conceals hidden handlers] :
    Discreet hidden (pushFrame ctx call env function caller handlers) := by
  unfold pushFrame
  refine read (fun h => by rw [h.evaluator]) fun s hs => ?_
  have hpush (id : Nat) : Discreet hidden (modify fun u =>
      (u.setEvaluator ctx fun e =>
        { e with
          frames := ⟨id, call, env, function, caller, handlers⟩ :: e.frames
          depth := e.depth + 1 }).record (.entered ctx ((s.evaluator ctx).depth + 1)
            ((s.evaluator ctx).frames.length + 1)) : Run PUnit) :=
    of_modify fun h => (h.setEvaluator ctx fun e he =>
      conceals_cons.mpr ⟨conceals_frame.mpr ⟨hcall, hhandlers⟩, he⟩).history _ _
  infer_instance

instance : Discreet hidden (misplaced ctx) := by
  unfold misplaced
  have hnote : Discreet hidden (modify fun s => s.record (.misplaced ctx) : Run PUnit) :=
    of_modify fun h => h.history _ _
  infer_instance

instance (id : Nat) : Discreet hidden (popFrame ctx id) := by
  unfold popFrame
  refine read (fun h => by rw [h.evaluator]) fun s hs => ?_
  have hframes : Conceals hidden (s.evaluator ctx).frames := inferInstance
  dsimp only
  split
  · infer_instance
  next frame rest hstack =>
    have hrest : Conceals hidden rest := (conceals_cons.mp (hstack ▸ hframes)).2
    have hpop : Discreet hidden (modify fun u =>
        (u.setEvaluator ctx fun e => { e with frames := rest, depth := e.depth - 1 }).record
          (.left ctx ((s.evaluator ctx).depth - 1) rest.length) : Run PUnit) :=
      of_modify fun h => (h.setEvaluator ctx fun _ _ => hrest).history _ _
    infer_instance

instance (action : ExitAction) [haction : Conceals hidden action] :
    Discreet hidden (m.runExit ctx action) := by
  cases action with
  | evaluate e env =>
      have he := conceals_evaluate.mp haction
      unfold runExit
      exact andThen fun _ _ => inferInstance
  | note label =>
      exact of_modify fun h => h.of_apart (Nat.le_refl _)
        { h.toHiddenApart with notes := congrArg (·.push label) h.notes } (fun _ _ => rfl)
        ⟨{ h.conceals.out with }⟩

instance (pending : Bool) (actions : List ExitAction) (first : Option Signal)
    [hactions : Conceals hidden actions] [hfirst : Conceals hidden first] :
    Discreet hidden (m.runExits ctx pending actions first) := by
  revert hactions hfirst
  induction actions generalizing first with
  | nil =>
      intro _ _
      unfold runExits
      infer_instance
  | cons action rest ih =>
      intro hactions hfirst
      obtain ⟨haction, hrest⟩ := conceals_cons.mp hactions
      have hnext (first : Option Signal) (_ : Conceals hidden first) := ih first
      unfold runExits
      refine andThen fun outcome houtcome => ?_
      split
      · exact hnext first hfirst
      next signal =>
        have hsignal := conceals_error.mp houtcome
        have hgiven := hnext first hfirst
        have hkept := hnext (some signal) inferInstance
        infer_instance

instance (id : Nat) : Discreet hidden (takeExits ctx id) := by
  unfold takeExits
  refine read (fun h => by rw [h.evaluator]) fun s hs => ?_
  have hframes : Conceals hidden (s.evaluator ctx).frames := inferInstance
  split
  · infer_instance
  next frame hframe =>
    have hframe : Conceals hidden frame := hframes.mem (List.mem_of_find?_eq_some hframe)
    have hclear : Discreet hidden (setHandlers ctx id fun _ => []) :=
      of_modify fun h => h.setEvaluator ctx fun e he =>
        conceals_setHandlers he id fun _ _ => inferInstance
    infer_instance

instance (id : Nat) (pending : Bool) : Discreet hidden (m.unwind ctx id pending) := by
  unfold unwind
  refine andThen fun actions _ => andThen fun first hfirst => andThen fun _ _ => ?_
  split
  next signal hfirst =>
    have hsignal := conceals_some.mp hfirst
    infer_instance
  · infer_instance

instance (f : FailureRef) : Discreet hidden (noteFailure ctx f) where
  ends {held s t} h := by
    have hs := h.conceals
    have hframes : Conceals hidden (s.evaluator ctx).frames := inferInstance
    have hhead : Conceals hidden ((s.evaluator ctx).frames.head?.map (·.call)) :=
      conceals_option fun call hcall => by
        obtain ⟨frame, hframe, rfl⟩ := Option.map_eq_some_iff.mp hcall
        have hframe : Conceals hidden frame := hframes.mem (List.mem_of_head? hframe)
        infer_instance
    have hnoted : (noted s ctx f).Veiled hidden held (noted t ctx f) := by
      unfold noted
      rw [h.evaluator]
      refine h.of_apart (Nat.le_refl _) (h.toHiddenApart.setIncident f _)
        (fun _ _ => rfl) (Store.conceals_setIncident f fun incident hincident => conceals_incident.mpr ?_)
      have hcall : Conceals hidden incident.call := ⟨hincident.out⟩
      infer_instance
    have htrace (message : Unit → String) : Discreet hidden (Run.trace message) := inferInstance
    rw [noteFailure_eq, noteFailure_eq, h.incident, h.evaluator]
    split
    · exact (htrace _).ends hnoted
    · exact .value inferInstance h

instance (call : Expr) (env : EnvId) (function : Option ClosureId) (caller : Option EnvId)
    (handlers : List ExitAction) (body : Run Value) [Conceals hidden call]
    [Conceals hidden handlers] [Discreet hidden body] :
    Discreet hidden (m.inFrame ctx call env function caller handlers body) := by
  unfold inFrame
  refine andThen fun id _ => andThen fun outcome houtcome => ?_
  split
  next v =>
    have hv := conceals_ok.mp houtcome
    infer_instance
  next v target =>
    have hsignal := conceals_error.mp houtcome
    have hv := conceals_returning.mp hsignal
    infer_instance
  · infer_instance
  · infer_instance

instance (env : EnvId) (body : Run Value) [Discreet hidden body] :
    Discreet hidden (inTarget ctx env body) := by
  unfold inTarget
  have hpush : Discreet hidden (modify fun s =>
      s.setEvaluator ctx fun e => { e with targets := env :: e.targets } : Run PUnit) :=
    of_modify fun h => h.setEvaluator ctx fun _ he => he
  have hpop : Discreet hidden (modify fun s =>
      s.setEvaluator ctx fun e => { e with targets := e.targets.drop 1 } : Run PUnit) :=
    of_modify fun h => h.setEvaluator ctx fun _ he => he
  refine andThen fun _ _ => andThen fun outcome houtcome => andThen fun _ _ => ?_
  split
  next v target =>
    have hsignal := conceals_error.mp houtcome
    have hv := conceals_returning.mp hsignal
    infer_instance
  · infer_instance

instance (e : Expr) (env : EnvId) [Conceals hidden e] : Discreet hidden (m.evalIn ctx e env) := by
  unfold evalIn
  infer_instance

instance (action : Run α) [Discreet hidden action] : Discreet hidden (request ctx action) := by
  unfold request
  refine read (fun h => by rw [h.evaluator]) fun s _ => andThen fun outcome houtcome => ?_
  have hrestore : Discreet hidden (modify fun u => u.setEvaluator ctx fun e =>
      { e with
        frames := restore (s.evaluator ctx).frames.length e.frames
        depth := (s.evaluator ctx).depth
        targets := restore (s.evaluator ctx).targets.length e.targets } : Run PUnit) :=
    of_modify fun h => h.setEvaluator ctx fun e he => by
      unfold restore
      infer_instance
  refine andThen fun _ _ => ?_
  split
  next v target houtcome =>
    have hsignal := conceals_error.mp houtcome
    infer_instance
  · infer_instance
  · infer_instance

instance (e : Expr) (env : EnvId) [Conceals hidden e] : Discreet hidden (m.evaluate ctx e env) := by
  unfold evaluate
  infer_instance

end Machine

end Quasi
