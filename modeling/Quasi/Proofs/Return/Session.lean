import Quasi.Proofs.Return.Parts
import Quasi.Proofs.Return.Target
import Quasi.Proofs.Stack.Session

/-!
# Returns in a session

Whatever a session is asked for, a `return` ends the nearest call or scope of its target, however
many layers lie between: promises, guarded expressions, calls, scopes, requests and exit actions of
other calls. Two kinds of layers need not let it through. An exit action of a call that a signal
leaves anyway keeps its own faults back, and a request is refused that ends by a `return` although
its evaluator has no call under way. And a call that is past its body is live while its exit actions
run, but does not end by a `return` any more.
-/

namespace Quasi

/-- A request to the evaluator of a call. -/
def Layer.Reenters (call k : Layer) : Prop :=
  ∃ m ctx env id before, call = .body m ctx env id ∧ k = .request ctx before

/-- Requests to the evaluator of a call that are made inside of it are let through. -/
theorem Nearest.passesOn {α β : Type} {T : EnvId} {b : Run β} {u : Store} {a : Run α} {s t : Store}
    {inner outer : List Layer} {layer : Layer} {c : Run Value}
    (h : Nearest T b u a s inner layer outer c t)
    (hpasses : ∀ k ∈ inner, k.passesOn = true ∨ layer.Reenters k) :
    ∀ k ∈ inner, k.passesOn = true := by
  intro k hk
  rcases hpasses k hk with hpass | ⟨m, ctx, env, id, before, rfl, rfl⟩
  · exact hpass
  · obtain ⟨body, t', hopens, hinside⟩ := h.opens rfl
    cases hopens with
    | call hpush =>
        have hbusy := hinside.busy (busy_pushFrame hpush (.inl rfl)) hk
        simpa [Layer.passesOn] using hbusy

namespace Session

variable {β : Type} {s u w : Store} {b : Run β} {layers : List Layer} {ctx : EvaluatorId}
  {T env : EnvId} {v : Value}

/-- In a session, what is live where a part of a request starts is live by a layer in between. -/
theorem exists_nearest (hs : Reachable s) (r : Request) (h : Inside b u r.run s layers)
    (hlive : u.isLive ctx T = true) :
    ∃ inner layer outer c t, layers = inner ++ layer :: outer ∧
      Nearest T b u r.run s inner layer outer c t := by
  apply h.exists_nearest
  rcases h.live (isLive_iff.mp hlive) with hbefore | hlayer
  · rw [hs.idle.stack ctx] at hbefore
    cases hbefore
  · exact hlayer

/-- The signal of a `return` does not outlive its target. If any part of a request ends by a
`return` for an environment that is live there, then around it is a nearest call or scope of the
environment, and as long as that is in its body, the value gets there. A call that is past its body
is left by the signal instead. -/
theorem return_ends_target (hs : Reachable s) (r : Request) (h : Inside b u r.run s layers)
    (hlive : u.isLive ctx T = true) (hb : b u = .error (.returning v T) w) :
    ∃ inner layer outer c t, layers = inner ++ layer :: outer ∧
      Nearest T b u r.run s inner layer outer c t ∧
      ((∀ k ∈ inner, k.passesOn = true ∨ layer.Reenters k) →
        (layer.catches = true → Reaches v T b u w inner layer c t) ∧
        (layer.catches = false → ∀ w', Layer.passOut (.returning v T) inner w = .ok () w' →
          c t = .error (.returning v T) w')) := by
  obtain ⟨inner, layer, outer, c, t, hsplit, hnear⟩ := exists_nearest hs r h hlive
  refine ⟨inner, layer, outer, c, t, hsplit, hnear, fun hpasses => ⟨fun hcatches => ?_, ?_⟩⟩
  · exact hnear.reaches hb hcatches (hnear.passesOn hpasses)
  · intro hpast w' hout
    exact hnear.outlives hb hpast (hnear.passesOn hpasses) hout

/-! ## A function to return from -/

instance : Flow.stacks.Holds machine := .of_value fun s => ⟨_, s, rfl, .of_eq rfl rfl⟩

/-- A store that holds a function without formals. -/
def holding (body : Expr) : Store := ({} : Store).addClosure ⟨[], body, .empty, none⟩

theorem reachable_holding (body : Expr) : Reachable (holding body) :=
  .request (.blank [] false) (.makeClosure (.sequence []) (.code body) (.env .empty) none)
    (.value _ rfl)

/-- A call of the function. -/
def heldCall : Expr := .call (.const (.closure ⟨0⟩)) []

def callHeld : Request := .evaluate (.code heldCall) (.env .empty) none

/-- The store in which the body of the function starts. -/
def entered (body : Expr) : Store :=
  { holding body with
    scopes := #[⟨[], .empty, none⟩]
    evaluators := #[⟨none, 100, [⟨1, heldCall, .scope 0, some ⟨0⟩, some .empty, []⟩], 1, []⟩]
    nextId := 2
    history := .entered ⟨0⟩ 1 1 :: .used (.closure ⟨0⟩) .empty #[] :: (holding body).history }

/-- The layer of the body. -/
def heldBody : Layer := .body (Machine.ofLevel 4999) ⟨0⟩ (.scope 0) 1

/-- The layer of the request for the call. -/
def heldRequest : Layer := .request ⟨0⟩ ⟨none, 100, [], 0, []⟩

theorem inside_callHeld (body : Expr) : Inside ((Machine.ofLevel 4999).eval ⟨0⟩ body (.scope 0))
    (entered body) callHeld.run (holding body) [heldBody, heldRequest] := by
  have h : ∃ layers, Inside ((Machine.ofLevel 4999).eval ⟨0⟩ body (.scope 0)) (entered body)
      callHeld.run (holding body) layers ∧ layers = [heldBody, heldRequest] := by
    apply Exists.intro
    apply And.intro
    · apply Inside.rest (a := context none) rfl
      apply Inside.rest (a := machine) rfl
      apply Inside.request
      apply Inside.rest (a := Machine.eval _ ⟨0⟩ (.const (.closure ⟨0⟩)) .empty) rfl
      apply Inside.rest (a := Machine.promiseArgs ⟨0⟩ .empty []) rfl
      apply Inside.rest (a := Machine.useClosure ⟨0⟩) rfl
      apply Inside.rest (a := Run.newScope .empty [] none) rfl
      apply Inside.rest (a := (get : Run Store)) rfl
      apply Inside.rest (a := Machine.matchFormals _ _ _ _) rfl
      apply Inside.rest (a := Machine.bindFormals _ _ _ _) rfl
      apply Inside.body (t := entered body) rfl
      exact .here
    · change [_, _] = [_, _]
      rfl
  obtain ⟨_, h, rfl⟩ := h
  exact h

/-- The code `(return 7)`, with the function in place of its name. -/
def returnSeven : Expr :=
  .call (.const (.builtin (.special .returnFrom) .empty)) [.bare (.const (.int 7))]

theorem inside_returnSeven (n : Nat) (env : EnvId) (s : Store) :
    Inside ((Machine.ofLevel (n + 1)).returnForm ⟨0⟩ [.bare (.const (.int 7))] env) s
      ((Machine.ofLevel (n + 2)).eval ⟨0⟩ returnSeven env) s [] := by
  apply Inside.rest
    (a := Machine.eval _ ⟨0⟩ (.const (.builtin (.special .returnFrom) .empty)) env) rfl
  exact .here

/-- A function that returns in an argument of another one, `((function (x) x) (return 7))`. -/
def passing : Expr :=
  .call (.call (.const (.builtin (.special .function) .empty))
    [.bare (.formals [("x", .missing)]), .bare (.symbol "x")]) [.bare returnSeven]

/-- The layers between the `return` and the body: a promise, and the call of the other function. -/
def passingLayers : List Layer := [.promise ⟨0⟩, .body (Machine.ofLevel 4998) ⟨0⟩ (.scope 1) 2]

theorem inside_passing : ∃ u layers, Inside ((Machine.ofLevel 4996).returnForm ⟨0⟩
      [.bare (.const (.int 7))] (.scope 0)) u callHeld.run (holding passing) layers ∧
    layers = passingLayers ++ [heldBody, heldRequest] ∧ u.isLive ⟨0⟩ (.scope 0) = true ∧
    ∃ t w, Layer.passOut (.returning (.int 7) (.scope 0)) passingLayers u = .ok () t ∧
      (do heldBody.finish; pure (.int 7) : Run Value) t = .ok (.int 7) w := by
  apply Exists.intro
  apply Exists.intro
  apply And.intro
  · apply Inside.trans (inside_callHeld passing)
    apply Inside.rest (a := Machine.eval _ ⟨0⟩ (.call _ _) (.scope 0)) rfl
    apply Inside.rest (a := Machine.promiseArgs ⟨0⟩ (.scope 0) [.bare returnSeven]) rfl
    apply Inside.rest (a := Machine.useClosure ⟨1⟩) rfl
    apply Inside.rest (a := Run.newScope (.scope 0) [] none) rfl
    apply Inside.rest (a := (get : Run Store)) rfl
    apply Inside.rest (a := Machine.matchFormals _ _ _ _) rfl
    apply Inside.rest (a := Machine.bindFormals _ _ _ _) rfl
    apply Inside.body rfl
    apply Inside.rest (a := Run.binding (.scope 1) "x") rfl
    apply Inside.rest (a := (get : Run Store)) rfl
    apply Inside.rest (a := (get : Run Store)) rfl
    apply Inside.rest (a := Machine.begin ⟨0⟩) rfl
    apply Inside.rest (a := Run.trace _) rfl
    apply Inside.promise
    exact inside_returnSeven 4995 _ _
  · refine ⟨?_, rfl, _, _, rfl, rfl⟩
    change [_, _, _, _] = [_, _, _, _]
    rfl

/-- The call of the first function ends with 7. -/
theorem return_ends_target_passing : ∃ (u t w : Store) (outer : List Layer) (c : Run Value),
    Nearest (.scope 0) ((Machine.ofLevel 4996).returnForm ⟨0⟩ [.bare (.const (.int 7))] (.scope 0))
      u callHeld.run (holding passing) passingLayers heldBody outer c t ∧
    c t = .ok (.int 7) w := by
  obtain ⟨u, _, h, rfl, hlive, t, w, hout, hfinish⟩ := inside_passing
  have hb : (Machine.ofLevel 4996).returnForm ⟨0⟩ [.bare (.const (.int 7))] (.scope 0) u =
      .error (.returning (.int 7) (.scope 0)) u := returnForm_of_live (by decide) rfl hlive
  obtain ⟨inner, layer, outer, c, start, hsplit, hnear, hreaches⟩ :=
    return_ends_target (reachable_holding passing) callHeld h hlive hb
  obtain ⟨rfl, rfl⟩ := nearest_unique hsplit rfl (by simp [passingLayers, Layer.env?])
    hnear.env? hnear.nearest
  have hreach := (hreaches (by simp [passingLayers, Layer.passesOn])).1 rfl
  exact ⟨u, start, w, outer, c, hnear, (hreach.target hout).trans hfinish⟩

/-- A `return` ends the right call. While its environment is live and nothing but calls is evaluated
there, the value gets to the nearest of them, unless that is past its body. When the environment is
not live any more, the nearest live one on its chain is the target instead; if there is none, the
evaluation fails. -/
theorem return_ends_its_call (hs : Reachable s) (r : Request) {m : Machine} [Flow.stacks.Obeys m]
    {slots : List Slot} (h : Inside (m.returnForm ctx slots env) u r.run s layers)
    (hslots : slots.length ≤ 1) (hvalue : m.returnValue ctx slots env u = .ok v w) :
    (w.isLive ctx env = true → (∀ k ∈ layers, ∀ ctx', k ≠ .scope ctx' env) →
      m.returnForm ctx slots env u = .error (.returning v env) w ∧
      ∃ inner layer outer c t, layers = inner ++ layer :: outer ∧
        Nearest env (m.returnForm ctx slots env) u r.run s inner layer outer c t ∧
        (layer.catches = true → (∃ m' ctx' id, layer = .body m' ctx' env id) ∧
          ((∀ k ∈ inner, k.passesOn = true ∨ layer.Reenters k) →
            Reaches v env (m.returnForm ctx slots env) u w inner layer c t))) ∧
    (∀ T, (w.chain env).1.find? (w.isLive ctx) = some T →
      m.returnForm ctx slots env u = .error (.returning v T) w) ∧
    ((∀ e ∈ (w.chain env).1, w.isLive ctx e = false) → (w.chain env).2 = true →
      ∃ f t, m.returnForm ctx slots env u = .error (.failure f) t ∧
        f.cause = .general .noFunctionToReturn) := by
  refine ⟨fun hlive hscope => ?_, fun T htarget => returnForm_of_target hslots hvalue htarget,
    returnForm_of_none hslots hvalue⟩
  have hb := returnForm_of_live hslots hvalue hlive
  have hkept : u.isLive ctx env = true := by
    rw [← hlive]
    exact (isLive_congr ((holds_returnValue.of_ok hvalue).stack ctx)).symm
  obtain ⟨inner, layer, outer, c, t, hsplit, hnear⟩ := exists_nearest hs r h hkept
  refine ⟨hb, inner, layer, outer, c, t, hsplit, hnear, fun hcatches => ⟨?_, fun hpasses => ?_⟩⟩
  · have henv := hnear.env?
    cases layer with
    | body m' ctx' e id =>
        cases henv
        exact ⟨m', ctx', id, rfl⟩
    | scope ctx' e =>
        cases henv
        exact absurd rfl (hscope _ (hsplit ▸ by simp) ctx')
    | _ => cases hcatches
  · exact hnear.reaches hb hcatches (hnear.passesOn hpasses)

def trySlots : List Slot := [.bare returnSeven, ⟨some "finally", .const (.int 1)⟩]

/-- A function that returns out of a `tryCatch`, `(tryCatch (return 7) :finally 1)`. -/
def trying : Expr :=
  .call (.const (.builtin (.special .tryCatch) .empty)) trySlots

/-- The layer between the `return` and the body. -/
def tryingLayers : List Layer :=
  lastLayers (Machine.ofLevel 4998) ⟨0⟩ (.scope 0) ⟨some returnSeven, some (.const (.int 1)), []⟩

theorem inside_trying : Inside ((Machine.ofLevel 4997).returnForm ⟨0⟩ [.bare (.const (.int 7))]
    (.scope 0)) (entered trying) callHeld.run (holding trying)
    (tryingLayers ++ [heldBody, heldRequest]) := by
  apply Inside.trans (inside_callHeld trying)
  apply Inside.rest
    (a := Machine.eval _ ⟨0⟩ (.const (.builtin (.special .tryCatch) .empty)) (.scope 0)) rfl
  have hbody : Inside ((Machine.ofLevel 4998).eval ⟨0⟩ returnSeven (.scope 0)) (entered trying)
      ((Machine.ofLevel 4998).tryCatchForm ⟨0⟩ trySlots (.scope 0)) (entered trying)
      tryingLayers := inside_tryBody rfl rfl rfl
  exact hbody.trans (inside_returnSeven 4996 _ _)

/-- Its call ends with 7 as well. -/
theorem return_ends_its_call_trying : ∃ (t w : Store) (outer : List Layer) (c : Run Value),
    Nearest (.scope 0) ((Machine.ofLevel 4997).returnForm ⟨0⟩ [.bare (.const (.int 7))] (.scope 0))
      (entered trying) callHeld.run (holding trying) tryingLayers heldBody outer c t ∧
    c t = .ok (.int 7) w := by
  have hlayers : ∀ k ∈ tryingLayers ++ [heldBody, heldRequest],
      ∀ ctx', k ≠ .scope ctx' (.scope 0) := by
    simp [tryingLayers, lastLayers, heldBody, heldRequest]
  obtain ⟨hlive, -, -⟩ := return_ends_its_call (reachable_holding trying) callHeld inside_trying
    (by decide) rfl
  obtain ⟨-, inner, layer, outer, c, start, hsplit, hnear, hreaches⟩ := hlive rfl hlayers
  obtain ⟨rfl, rfl⟩ := nearest_unique hsplit rfl (by simp [tryingLayers, lastLayers, Layer.env?])
    hnear.env? hnear.nearest
  have hreach := (hreaches rfl).2 (by simp [tryingLayers, lastLayers, Layer.passesOn])
  exact ⟨start, _, outer, c, hnear, hreach.target rfl⟩

end Session

end Quasi
