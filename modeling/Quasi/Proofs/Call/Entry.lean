import Quasi.Proofs.Call.Growth
import Quasi.Proofs.Exit.Call

/-!
# Entering and leaving calls

A call of a closure binds its arguments, pushes a frame and evaluates the body inside of it. Calls
that end in one another lie around the body of the innermost one, and what that ends with goes out
through all their frames unless exit actions were registered on one of them.
-/

namespace Quasi

open Run (bind_of_ok bind_of_error)

/-- A store that keeps a text if it is verbose. -/
def Store.traced (s : Store) (text : String) : Store :=
  if s.verbose then { s with log := s.log.push ⟨.debug, text⟩ } else s

theorem trace_apply (message : Unit → String) (s : Store) :
    Run.trace message s = .ok ⟨⟩ (s.traced (message ())) := by
  simp only [Run.trace, Run.get_bind, Store.traced]
  split <;> rfl

theorem evaluator_traced (s : Store) (text : String) (ctx : EvaluatorId) :
    (s.traced text).evaluator ctx = s.evaluator ctx := by
  unfold Store.traced
  split <;> rfl

/-- An evaluator with a call under way exists. -/
theorem Store.index_lt_of_frames {s : Store} {ctx : EvaluatorId} {frame : Frame}
    {rest : List Frame} (h : (s.evaluator ctx).frames = frame :: rest) :
    ctx.index < s.evaluators.size := by
  refine Decidable.byContradiction fun hnone => ?_
  simp [Store.evaluator, Array.getD, hnone, Inhabited.default] at h

namespace Machine

/-- A call under way: the machine that runs its body, its environment and the number of its
frame. -/
structure Activation where
  machine : Machine
  env : EnvId
  id : Nat

/-- A run inside of calls, innermost first. Each call is left with what ended inside of it. -/
def within (ctx : EvaluatorId) : List Activation → Run Value → Run Value
  | [], body => body
  | call :: rest, body =>
      within ctx rest do call.machine.leave ctx call.env call.id (← Run.attempt body)

/-- The calls are the innermost ones of an evaluator, on top of other frames, and none of them has
exit actions. -/
def Clear (ctx : EvaluatorId) (calls : List Activation) (below : List Frame) (s : Store) : Prop :=
  ∃ frames, (s.evaluator ctx).frames = frames ++ below ∧
    List.Forall₂ (fun (frame : Frame) call => frame.id = call.id ∧ frame.handlers = []) frames calls

variable {m : Machine} {ctx : EvaluatorId} {s t u : Store} {calls : List Activation}
  {below : List Frame}

theorem within_append (inner outer : List Activation) (body : Run Value) :
    within ctx (inner ++ outer) body = within ctx outer (within ctx inner body) := by
  induction inner generalizing body with
  | nil => rfl
  | cons call inner ih => exact ih _

theorem within_congr {a b : Run Value} (h : a s = b t) : within ctx calls a s = within ctx calls b t := by
  induction calls generalizing a b with
  | nil => exact h
  | cons call rest ih =>
      refine ih ?_
      simp only [bind, EStateM.bind, Run.attempt_congr h]

/-! ## Leaving -/

theorem Clear.nil : Clear ctx [] (s.evaluator ctx).frames s := ⟨[], rfl, .nil⟩

theorem Clear.append {inner outer : List Activation} (h : Clear ctx inner (t.evaluator ctx).frames s)
    (hout : Clear ctx outer below t) : Clear ctx (inner ++ outer) below s := by
  obtain ⟨frames, hframes, hinner⟩ := h
  obtain ⟨frames', hframes', houter⟩ := hout
  refine ⟨frames ++ frames', ?_, List.rel_append hinner houter⟩
  rw [hframes, hframes', List.append_assoc]

theorem Clear.of_evaluators (h : Clear ctx calls below s) (ht : t.evaluators = s.evaluators) :
    Clear ctx calls below t := by
  have heq : t.evaluator ctx = s.evaluator ctx := by simp only [Store.evaluator, ht]
  rwa [Clear, heq]

/-- Frames without the exit actions of the one with a number. -/
def cleared (id : Nat) (frames : List Frame) : List Frame :=
  frames.map fun frame => if frame.id = id then { frame with handlers := [] } else frame

theorem cleared_clear {frames : List Frame} {calls : List Activation} (id : Nat)
    (h : List.Forall₂ (fun frame call => frame.id = call.id ∧ frame.handlers = []) frames calls) :
    cleared id frames = frames := by
  induction h with
  | nil => rfl
  | @cons frame call frames calls hframe _ ih =>
      rw [cleared, List.map_cons, ← cleared, ih]
      split
      · rw [← hframe.2]
      · rfl

/-- A call whose frame is the innermost one and has no exit actions is left. -/
theorem leave_of_frames (env : EnvId) {outcome : Except Signal Value} {frame : Frame}
    {rest : List Frame} (hnote : noteEnd ctx outcome t = .ok ⟨⟩ u)
    (hctx : ctx.index < u.evaluators.size) (hframes : (u.evaluator ctx).frames = frame :: rest)
    (hhandlers : frame.handlers = []) :
    ∃ text, ∀ m : Machine, m.leave ctx env frame.id outcome t =
      Run.resume (callOutcome env outcome none)
        ((Popped.store (u.setEvaluator ctx fun e => e.setHandlers frame.id fun _ => []) ctx
          (cleared frame.id rest)).traced text) := by
  let taken := u.setEvaluator ctx fun e => e.setHandlers frame.id fun _ => []
  have htake : (do noteEnd ctx outcome; takeExits ctx frame.id) t = .ok [] taken := by
    rw [bind_of_ok hnote, takeExits_eq_ok hframes, hhandlers]
  have htaken : (taken.evaluator ctx).frames = frame :: cleared frame.id rest := by
    have hframe : { frame with handlers := [] } = frame := by rw [← hhandlers]
    rw [Store.evaluator_setEvaluator, if_pos ⟨rfl, hctx⟩, Evaluator.setHandlers, hframes,
      List.map_cons, if_pos rfl, hframe]
    rfl
  let text := s!"leave frame {(taken.evaluator ctx).depth}: " ++ frame.call.deparse
  have hpop : popFrame ctx frame.id taken =
      .ok ⟨⟩ ((Popped.store taken ctx (cleared frame.id rest)).traced text) :=
    (popFrame_of_frames htaken).trans (trace_apply (fun _ => text) _)
  refine ⟨text, fun m => ?_⟩
  rw [leave_of_taken htake, runExits, pure_bind, bind_of_ok hpop]
  rfl

/-- A call without exit actions ends with what its body ended with. -/
theorem leave_of_clear {call : Activation} {rest : List Activation}
    (h : Clear ctx (call :: rest) below u) (m : Machine) (env : EnvId)
    (outcome : Except Signal Value) :
    ∃ v below', m.leave ctx env call.id outcome u = Run.resume (callOutcome env outcome none) v ∧
      Clear ctx rest below' v := by
  obtain ⟨frames, hframes, hall⟩ := h
  obtain ⟨frame, frames, hframe, hrest, rfl⟩ := List.forall₂_cons_right_iff.mp hall
  obtain ⟨w, hnote, hevaluators, -, -⟩ := noteEnd_eq_ok ctx outcome u
  have hnoted : (w.evaluator ctx).frames = frame :: (frames ++ below) := by
    simp only [Store.evaluator, hevaluators]
    exact hframes
  have hctx : ctx.index < w.evaluators.size := Store.index_lt_of_frames hnoted
  obtain ⟨text, hleave⟩ := leave_of_frames env hnote hctx hnoted hframe.2
  let taken := w.setEvaluator ctx fun e => e.setHandlers frame.id fun _ => []
  have hctx' : ctx.index < taken.evaluators.size :=
    Nat.lt_of_lt_of_le hctx (Nat.le_of_eq Array.size_modify.symm)
  refine ⟨(Popped.store taken ctx (cleared frame.id (frames ++ below))).traced text,
    cleared frame.id below, ?_, frames, ?_, hrest⟩
  · rw [← hframe.1]
    exact hleave m
  · rw [evaluator_traced, Popped.evaluator_store _ _ hctx', if_pos rfl, cleared, List.map_append,
      ← cleared, ← cleared, cleared_clear frame.id hrest]

/-- A call ends with what it is left with. -/
theorem attempt_leave (call : Activation) {body : Run Value} {ended outcome : Except Signal Value}
    {v : Store} (hbody : Run.attempt body t = .ok ended u)
    (hleave : call.machine.leave ctx call.env call.id ended u = Run.resume outcome v) :
    Run.attempt (within ctx [call] body) t = .ok outcome v := by
  rw [Run.attempt_congr (a := within ctx [call] body) ((bind_of_ok hbody).trans hleave),
    Run.attempt_resume]

/-- What ends inside of calls without exit actions goes out through all of them, unless it is a
`return` that ends one of them. -/
theorem within_of_clear {body : Run Value} {outcome : Except Signal Value}
    (hbody : Run.attempt body t = .ok outcome u) (hclear : Clear ctx calls below u)
    (hout : ∀ env, callOutcome env outcome none = outcome) :
    ∃ v, within ctx calls body t = Run.resume outcome v := by
  induction calls generalizing body u below with
  | nil =>
      refine ⟨u, ?_⟩
      rcases Run.attempt_eq_ok hbody with ⟨v, rfl, hv⟩ | ⟨x, rfl, hx⟩
      · exact hv
      · exact hx
  | cons call rest ih =>
      obtain ⟨v, _, hleave, hrest⟩ := leave_of_clear hclear call.machine call.env outcome
      rw [hout] at hleave
      exact ih (attempt_leave call hbody hleave) hrest

/-! ## Entering -/

/-- A frame without exit actions was pushed, and nothing else that evaluation reads has changed. -/
structure Entered (ctx : EvaluatorId) (id : Nat) (s t : Store) : Prop where
  scopes : t.scopes = s.scopes
  masks : t.masks = s.masks
  promises : t.promises = s.promises
  closures : t.closures = s.closures
  settings : t.settings = s.settings
  frames : ∃ frame : Frame, frame.id = id ∧ frame.handlers = [] ∧
    (t.evaluator ctx).frames = frame :: (s.evaluator ctx).frames
  depth : (t.evaluator ctx).depth = (s.evaluator ctx).depth + 1
  maxDepth : (t.evaluator ctx).maxDepth = (s.evaluator ctx).maxDepth

theorem Entered.grows {id : Nat} (h : Entered ctx id s t) : s.Grows t :=
  .of_eq h.scopes h.masks h.promises h.closures h.settings

theorem Entered.clear {id : Nat} (h : Entered ctx id s t) (m : Machine) (env : EnvId) :
    Clear ctx [⟨m, env, id⟩] (s.evaluator ctx).frames t := by
  obtain ⟨frame, hid, hhandlers, hframes⟩ := h.frames
  exact ⟨[frame], hframes, .cons ⟨hid, hhandlers⟩ .nil⟩

theorem pushFrame_entered (hroom : (s.evaluator ctx).depth < (s.evaluator ctx).maxDepth)
    (call : Expr) (env : EnvId) (function : Option ClosureId) (caller : Option EnvId) :
    ∃ id t, pushFrame ctx call env function caller [] s = .ok id t ∧ Entered ctx id s t := by
  let numbered : Store := { s with nextId := s.nextId + 1 }
  let frame : Frame := ⟨s.nextId, call, env, function, caller, []⟩
  let message := fun _ : Unit =>
    s!"enter frame {(s.evaluator ctx).depth + 1}: " ++ call.deparse
  obtain ⟨log, hlog⟩ := Flow.trace_eq_log message (Pushed.store numbered ctx frame)
  have hfull : ¬(s.evaluator ctx).maxDepth ≤ (s.evaluator ctx).depth := Int.not_le.mpr hroom
  have hpush : pushFrame ctx call env function caller [] s =
      (do Run.trace message; pure s.nextId) (Pushed.store numbered ctx frame) :=
    pushFrame_of_room hfull call env function caller []
  have hevaluator : (Pushed.store numbered ctx frame).evaluator ctx =
      { s.evaluator ctx with
        frames := frame :: (s.evaluator ctx).frames
        depth := (s.evaluator ctx).depth + 1 } :=
    (Pushed.evaluator_store numbered frame (Pushed.index_lt_of_depth_lt hfull) ctx).trans
      (if_pos rfl)
  refine ⟨s.nextId, { Pushed.store numbered ctx frame with log := log }, ?_, ?_⟩
  · rw [hpush, bind_of_ok hlog]
    rfl
  · exact {
      scopes := rfl
      masks := rfl
      promises := rfl
      closures := rfl
      settings := rfl
      frames := ⟨frame, rfl, rfl, congrArg Evaluator.frames hevaluator⟩
      depth := congrArg Evaluator.depth hevaluator
      maxDepth := by
        change ((Pushed.store numbered ctx frame).evaluator ctx).maxDepth = _
        rw [hevaluator] }

/-- Once its arguments are bound a call evaluates its body in a frame of its own. -/
theorem applyClosure_entered {c : ClosureId} {supplied : List (Tagged Value)} {call body : Expr}
    {env : EnvId} (hbind : bindClosure ctx c supplied call s = .ok (body, env) t)
    (hroom : (t.evaluator ctx).depth < (t.evaluator ctx).maxDepth) (m : Machine) (caller : EnvId) :
    ∃ id u, m.applyClosure ctx c supplied call caller s =
      within ctx [⟨m, env, id⟩] (m.eval ctx body env) u ∧ Entered ctx id t u := by
  obtain ⟨id, u, hpush, hentered⟩ := pushFrame_entered hroom call env (some c) (some caller)
  refine ⟨id, u, ?_, hentered⟩
  rw [applyClosure_eq]
  exact (bind_of_ok hbind).trans (bind_of_ok hpush)

/-- A call whose arguments are bound needs room for its frame. -/
theorem applyClosure_full {c : ClosureId} {supplied : List (Tagged Value)} {call body : Expr}
    {env : EnvId} (hbind : bindClosure ctx c supplied call s = .ok (body, env) t)
    (hfull : (t.evaluator ctx).maxDepth ≤ (t.evaluator ctx).depth) (m : Machine) (caller : EnvId) :
    ∃ r u, m.applyClosure ctx c supplied call caller s = .error (.failure ⟨r, .recursion⟩) u ∧
      t.Grows u ∧ u.evaluators = t.evaluators := by
  have hpush : pushFrame ctx call env (some c) (some caller) [] t =
      .error (.failure ⟨t.failures.size, .recursion⟩)
        { t with failures := t.failures.push ⟨some call, none⟩ } :=
    pushFrame_of_full hfull call env (some c) (some caller) []
  refine ⟨t.failures.size, { t with failures := t.failures.push ⟨some call, none⟩ }, ?_,
    .of_eq rfl rfl rfl rfl rfl, rfl⟩
  rw [applyClosure_eq]
  exact (bind_of_ok hbind).trans (bind_of_error hpush)

/-! ## Binding arguments -/

/-- The store in which the arguments of a call of a closure are bound: its environment is made. -/
def opened (s : Store) (c : ClosureId) : Store :=
  (s.use (.closure c) (some (s.closure c).env)).addScope ⟨[], (s.closure c).env, none⟩

theorem opened_grows (s : Store) (c : ClosureId) : s.Grows (opened s c) := by
  have hused : s.Grows (s.use (.closure c) (some (s.closure c).env)) :=
    .of_eq rfl rfl rfl rfl rfl
  exact hused.trans (.addScope _ _)

theorem scope_opened (s : Store) (c : ClosureId) :
    (opened s c).scope s.scopes.size = ⟨[], s.known (s.closure c).env, none⟩ := by
  rw [opened, Store.scope_addScope]
  exact if_pos rfl

theorem size_scopes_opened (s : Store) (c : ClosureId) :
    (opened s c).scopes.size = s.scopes.size + 1 := Array.size_push _

/-- The arguments of a call are matched and bound once its environment is made. -/
theorem bindClosure_opened (ctx : EvaluatorId) (c : ClosureId) (supplied : List (Tagged Value))
    (call : Expr) (s : Store) :
    bindClosure ctx c supplied call s = (do
      let matched ← matchFormals ((s.closure c).formals.map (·.1)) (describe (opened s c)) supplied
        (some call)
      bindFormals ctx (.scope s.scopes.size) matched (s.closure c).formals
      pure ((s.closure c).body, .scope s.scopes.size) : Run (Expr × EnvId)) (opened s c) := rfl

section Matching

variable {pm : Bool} (hpm : s.settings.partialMatching = .ok pm)

include hpm

theorem matchFormals_eq {α : Type} (formals : List String) (describe : α → String)
    (supplied : List (Tagged α)) (call : Option Expr) :
    matchFormals formals describe supplied call s =
      (match matchArguments formals describe pm supplied with
        | .ok matched => pure matched
        | .error fault => Run.failWith (.arity fault) call : Run (Matched α)) s := by
  unfold matchFormals matchArguments
  cases hexact : Matching.exactRound formals [] (Matching.number supplied) with
  | error fault => rfl
  | ok state =>
      simp only [pure_bind, Run.get_bind, hpm]
      change _ = (match Matching.finish formals describe pm state with
        | .ok matched => pure matched
        | .error fault => Run.failWith (.arity fault) call : Run (Matched α)) s
      cases Matching.finish formals describe pm state <;> rfl

theorem bindClosure_eq (ctx : EvaluatorId) (c : ClosureId) (supplied : List (Tagged Value))
    (call : Expr) :
    bindClosure ctx c supplied call s =
      (match matchArguments ((s.closure c).formals.map (·.1)) (describe (opened s c)) pm supplied with
        | .ok matched => do
            bindFormals ctx (.scope s.scopes.size) matched (s.closure c).formals
            pure ((s.closure c).body, .scope s.scopes.size)
        | .error fault => Run.failWith (.arity fault) (some call) : Run (Expr × EnvId))
        (opened s c) := by
  have hmatch := matchFormals_eq (s := opened s c) hpm ((s.closure c).formals.map (·.1))
    (describe (opened s c)) supplied (some call)
  rw [bindClosure_opened]
  cases hmatched : matchArguments ((s.closure c).formals.map (·.1)) (describe (opened s c)) pm
    supplied with
  | ok matched =>
      rw [hmatched] at hmatch
      exact bind_of_ok hmatch
  | error fault =>
      rw [hmatched] at hmatch
      exact bind_of_error hmatch

end Matching

end Machine

end Quasi
