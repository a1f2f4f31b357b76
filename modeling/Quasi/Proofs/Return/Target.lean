import Quasi.Form.Control
import Quasi.Proofs.Return.Inside

/-!
# The target of a `return`

A `return` looks for an environment that is live: one that belongs to a frame on the stack or to an
expression under evaluation. The environments that become live between the start of a run and the
start of a part of it are those of the layers between them.
-/

namespace Quasi

/-- The environments of frames, and those under evaluation. -/
def Stack.envs (stack : Stack) : List EnvId := stack.frames.map (·.env) ++ stack.targets

/-- Whether a `return` can end an environment. -/
def Store.isLive (s : Store) (ctx : EvaluatorId) (e : EnvId) : Bool :=
  ((s.evaluator ctx).frameOf? e).isSome || (s.evaluator ctx).targets.contains e

theorem mem_envs_iff {e : Evaluator} {env : EnvId} :
    env ∈ e.stack.envs ↔ (e.frameOf? env).isSome = true ∨ env ∈ e.targets := by
  simp [Stack.envs, Evaluator.stack, Evaluator.frameOf?, Frame.bare, List.find?_isSome]

theorem isLive_iff {s : Store} {ctx : EvaluatorId} {e : EnvId} :
    s.isLive ctx e = true ↔ e ∈ (s.evaluator ctx).stack.envs := by
  rw [mem_envs_iff, Store.isLive, Bool.or_eq_true, List.contains_iff_mem]

/-- Whether an environment is live is seen from the stack. -/
theorem isLive_congr {s t : Store} {ctx : EvaluatorId} {e : EnvId}
    (h : (t.evaluator ctx).stack = (s.evaluator ctx).stack) : t.isLive ctx e = s.isLive ctx e := by
  rw [Bool.eq_iff_iff, isLive_iff, isLive_iff, h]

/-! ## What becomes live -/

section Live

variable {s t : Store} {ctx c : EvaluatorId} {e env : EnvId}

theorem aside_of_trace {message : Unit → String} {v : Unit} (h : Run.trace message s = .ok v t) :
    s.Aside t := by
  obtain ⟨u, hu, haside⟩ := Flow.trace_eq_ok message s
  rw [hu] at h
  cases h
  exact haside

/-- A frame that is pushed is the innermost one of its evaluator. -/
theorem evaluator_pushFrame {call : Expr} {function : Option ClosureId} {caller : Option EnvId}
    {handlers : List ExitAction} {id : Nat}
    (h : Machine.pushFrame ctx call env function caller handlers s = .ok id t) :
    ∃ frame : Frame, frame.env = env ∧ ∀ c, t.evaluator c =
      if c = ctx then
        { s.evaluator ctx with
          frames := frame :: (s.evaluator ctx).frames
          depth := (s.evaluator ctx).depth + 1 }
      else s.evaluator c := by
  rw [Machine.pushFrame, Run.get_bind] at h
  split at h
  next => cases h
  next hroom =>
      obtain ⟨fresh, u, hfresh, h⟩ := Run.bind_eq_ok h
      cases hfresh
      rw [Run.modify_bind] at h
      obtain ⟨_, u, htrace, h⟩ := Run.bind_eq_ok h
      cases h
      let numbered : Store := { s with nextId := s.nextId + 1 }
      let frame : Frame := ⟨s.nextId, call, env, function, caller, handlers⟩
      have hindex : ctx.index < numbered.evaluators.size := Pushed.index_lt_of_depth_lt hroom
      refine ⟨frame, rfl, fun c => ?_⟩
      have hpushed : t.evaluator c = (Pushed.store numbered ctx frame).evaluator c := by
        simp only [Store.evaluator, (aside_of_trace htrace).evaluators]
        rfl
      rw [hpushed, Pushed.evaluator_store numbered frame hindex]
      rfl

theorem mem_envs_pushFrame {call : Expr} {function : Option ClosureId} {caller : Option EnvId}
    {handlers : List ExitAction} {id : Nat}
    (h : Machine.pushFrame ctx call env function caller handlers s = .ok id t)
    (he : e ∈ (t.evaluator c).stack.envs) : e ∈ (s.evaluator c).stack.envs ∨ env = e := by
  obtain ⟨frame, rfl, hevaluator⟩ := evaluator_pushFrame h
  rw [hevaluator] at he
  split at he
  next hc =>
      rw [hc]
      rcases List.mem_cons.mp he with rfl | he
      · exact .inr rfl
      · exact .inl he
  next => exact .inl he

theorem mem_envs_targeted (he : e ∈ ((Flow.targeted s ctx env).evaluator c).stack.envs) :
    e ∈ (s.evaluator c).stack.envs ∨ env = e := by
  rw [Flow.targeted, Store.evaluator_setEvaluator] at he
  split at he
  next hc =>
      rw [hc.1]
      rw [mem_envs_iff] at he ⊢
      rcases he with he | he
      · exact .inl (.inl he)
      · rcases List.mem_cons.mp he with rfl | he
        · exact .inr rfl
        · exact .inl (.inr he)
  next => exact .inl he

theorem of_mem_concat {layers : List Layer} {k added : Layer} (h : k ∈ layers ++ [added])
    (hne : k ≠ added) : k ∈ layers :=
  (List.mem_append.mp h).resolve_right fun h => hne (List.mem_singleton.mp h)

theorem of_inner {layers added : List Layer} (h : ∃ layer ∈ layers, layer.env? = some e) :
    ∃ layer ∈ layers ++ added, layer.env? = some e := by
  obtain ⟨layer, hmem, he⟩ := h
  exact ⟨layer, List.mem_append_left _ hmem, he⟩

theorem of_added {layers : List Layer} {added : Layer} (h : added.env? = some e) :
    ∃ layer ∈ layers ++ [added], layer.env? = some e :=
  ⟨added, List.mem_append_right _ List.mem_cons_self, h⟩

/-- What is live where a part of a run starts was live before or belongs to a layer between. -/
theorem Inside.live {α β : Type} {a : Run α} {b : Run β} {u : Store} {layers : List Layer}
    (h : Inside b u a s layers) (he : e ∈ (u.evaluator c).stack.envs) :
    e ∈ (s.evaluator c).stack.envs ∨ ∃ layer ∈ layers, layer.env? = some e := by
  induction h with
  | here => exact .inl he
  | first h ih => exact ih
  | @rest _ _ a f v s t layers ha hv h ih =>
      rw [← (show StackStep s t from ha.of_ok hv).stack c]
      exact ih
  | guarded h ih => exact ih
  | followed h ih => exact ih.imp_right of_inner
  | promise h ih => exact ih.imp_right of_inner
  | body hpush h ih =>
      rcases ih with ih | ih
      · exact (mem_envs_pushFrame hpush ih).imp_right fun h => of_added (congrArg some h)
      · exact .inr (of_inner ih)
  | @ending m ctx call env function caller handlers body id outcome s t t' layers _ hpush hbody h
      ih =>
      have hstep : StackStep t t' := Flow.Holds.of_ok (inferInstance : Flow.stacks.Holds _) hbody
      rcases ih with ih | ih
      · rw [hstep.stack c] at ih
        exact (mem_envs_pushFrame hpush ih).imp_right fun h => of_added (congrArg some h)
      · exact .inr (of_inner ih)
  | @exit m ctx id pending action done rest first s t t' layers _ htake hdone h ih =>
      have htaken : StackStep s t := Flow.Holds.of_ok (inferInstance : Flow.stacks.Holds _) htake
      have hstep : StackStep t t' := Flow.Holds.of_ok (inferInstance : Flow.stacks.Holds _) hdone
      rw [hstep.stack c, htaken.stack c] at ih
      exact ih.imp_right of_inner
  | scope h ih =>
      rcases ih with ih | ih
      · exact (mem_envs_targeted ih).imp_right fun h => of_added (congrArg some h)
      · exact .inr (of_inner ih)
  | request h ih => exact ih.imp_right of_inner

/-! ## Evaluators with calls under way -/

/-- Whether calls of an evaluator are under way. -/
def Busy (s : Store) (ctx : EvaluatorId) : Prop := (s.evaluator ctx).stack.frames ≠ []

theorem busy_congr (h : (t.evaluator ctx).stack = (s.evaluator ctx).stack) :
    Busy t ctx ↔ Busy s ctx := by
  rw [Busy, Busy, h]

theorem busy_pushFrame {call : Expr} {function : Option ClosureId} {caller : Option EnvId}
    {handlers : List ExitAction} {id : Nat}
    (h : Machine.pushFrame c call env function caller handlers s = .ok id t)
    (hbusy : c = ctx ∨ Busy s ctx) : Busy t ctx := by
  obtain ⟨frame, -, hevaluator⟩ := evaluator_pushFrame h
  rw [Busy, hevaluator]
  split
  next => simp [Evaluator.stack]
  next hc => exact hbusy.resolve_left (Ne.symm hc)

theorem busy_targeted (hbusy : Busy s ctx) : Busy (Flow.targeted s c env) ctx := by
  rw [Busy, Flow.targeted, Store.evaluator_setEvaluator]
  split
  next hc => rw [hc.1] at hbusy; exact hbusy
  next => exact hbusy

/-- Requests that are made while calls are under way find their evaluator busy. -/
theorem Inside.busy {α β : Type} {a : Run α} {b : Run β} {u : Store} {layers : List Layer}
    (h : Inside b u a s layers) (hs : Busy s ctx) {before : Evaluator}
    (hk : .request ctx before ∈ layers) : before.frames ≠ [] := by
  induction h with
  | here => cases hk
  | first h ih => exact ih hs hk
  | @rest _ _ a f v s t layers ha hv h ih =>
      exact ih ((busy_congr ((show StackStep s t from ha.of_ok hv).stack ctx)).mpr hs) hk
  | guarded h ih => exact ih hs hk
  | followed h ih => exact ih hs (of_mem_concat hk nofun)
  | promise h ih => exact ih hs (of_mem_concat hk nofun)
  | body hpush h ih => exact ih (busy_pushFrame hpush (.inr hs)) (of_mem_concat hk nofun)
  | @ending m ctx' call env function caller handlers body id outcome s t t' layers _ hpush hbody h
      ih =>
      have hstep : StackStep t t' := Flow.Holds.of_ok (inferInstance : Flow.stacks.Holds _) hbody
      have hbusy := busy_pushFrame hpush (.inr hs)
      exact ih ((busy_congr (hstep.stack ctx)).mpr hbusy) (of_mem_concat hk nofun)
  | @exit m ctx' id pending action done rest first s t t' layers _ htake hdone h ih =>
      have htaken : StackStep s t := Flow.Holds.of_ok (inferInstance : Flow.stacks.Holds _) htake
      have hstep : StackStep t t' := Flow.Holds.of_ok (inferInstance : Flow.stacks.Holds _) hdone
      refine ih ((busy_congr ?_).mpr hs) (of_mem_concat hk nofun)
      rw [hstep.stack ctx, htaken.stack ctx]
  | scope h ih => exact ih (busy_targeted hs) (of_mem_concat hk nofun)
  | @request _ ctx' a s layers h ih =>
      rcases List.mem_append.mp hk with hk | hk
      · exact ih hs hk
      · cases List.mem_singleton.mp hk
        exact fun hnone => hs (by rw [Evaluator.stack, hnone, List.map_nil])

end Live

/-! ## What a `return` raises -/

/-- The value that a `return` carries. -/
def Machine.returnValue (m : Machine) (ctx : EvaluatorId) (slots : List Slot) (env : EnvId) :
    Run Value :=
  match slots with
  | slot :: _ => m.eval ctx slot.item env
  | [] => pure .null

section Return

variable {m : Machine} {ctx : EvaluatorId} {slots : List Slot} {env e T : EnvId} {u w s : Store}
  {v : Value}

instance holds_returnValue [Flow.stacks.Obeys m] :
    Flow.stacks.Holds (m.returnValue ctx slots env) := by
  unfold Machine.returnValue
  split <;> infer_instance

theorem search_of_find? (test : Store → EnvId → Bool)
    (h : (s.chain e).1.find? (test s) = some T) :
    Run.search e test s = .ok (some T) s := by
  rw [Run.search, Run.get_bind, h]
  rfl

theorem search_of_none (test : Store → EnvId → Bool)
    (h : (s.chain e).1.find? (test s) = none) (hends : (s.chain e).2 = true) :
    Run.search e test s = .ok none s := by
  rw [Run.search, Run.get_bind, h]
  dsimp only
  rw [Run.bind_of_ok (by rw [Flow.reachEnd_apply, hends])]
  rfl

/-- Every chain starts with the environment itself. -/
theorem chain_head (s : Store) (e : EnvId) : ∃ rest, (s.chain e).1 = e :: rest := by
  rw [Store.chain, Store.walk]
  split
  · exact ⟨_, rfl⟩
  · exact ⟨_, rfl⟩

theorem returnForm_eq (m : Machine) (ctx : EvaluatorId) (env : EnvId) (h : slots.length ≤ 1) :
    m.returnForm ctx slots env = (do
      let v ← m.returnValue ctx slots env
      match ← Machine.returnTarget ctx env with
      | none => Run.fail (.general .noFunctionToReturn)
      | some target => Run.raise (.returning v target)) := by
  rw [Machine.returnForm, if_neg (by omega)]
  cases slots <;> rfl

/-- A `return` ends the nearest environment that is live. -/
theorem returnForm_of_target (h : slots.length ≤ 1)
    (hvalue : m.returnValue ctx slots env u = .ok v w)
    (htarget : (w.chain env).1.find? (w.isLive ctx) = some T) :
    m.returnForm ctx slots env u = .error (.returning v T) w := by
  have hsearch : Machine.returnTarget ctx env w = .ok (some T) w :=
    search_of_find? (fun s e => s.isLive ctx e) htarget
  rw [returnForm_eq m ctx env h, Run.bind_of_ok hvalue, Run.bind_of_ok hsearch]
  rfl

/-- A `return` ends its own environment if that is live. -/
theorem returnForm_of_live (h : slots.length ≤ 1)
    (hvalue : m.returnValue ctx slots env u = .ok v w) (hlive : w.isLive ctx env = true) :
    m.returnForm ctx slots env u = .error (.returning v env) w := by
  refine returnForm_of_target h hvalue ?_
  obtain ⟨rest, hchain⟩ := chain_head w env
  rw [hchain, List.find?_cons_of_pos hlive]

/-- A `return` fails where nothing on its chain is live. -/
theorem returnForm_of_none (h : slots.length ≤ 1)
    (hvalue : m.returnValue ctx slots env u = .ok v w)
    (hnone : ∀ e ∈ (w.chain env).1, w.isLive ctx e = false) (hends : (w.chain env).2 = true) :
    ∃ f t, m.returnForm ctx slots env u = .error (.failure f) t ∧
      f.cause = .general .noFunctionToReturn := by
  have hfind : (w.chain env).1.find? (w.isLive ctx) = none :=
    List.find?_eq_none.mpr fun e he => by simp [hnone e he]
  have hsearch : Machine.returnTarget ctx env w = .ok none w :=
    search_of_none (fun s e => s.isLive ctx e) hfind hends
  rw [returnForm_eq m ctx env h, Run.bind_of_ok hvalue, Run.bind_of_ok hsearch]
  exact ⟨_, _, rfl, rfl⟩

end Return

end Quasi
