import Quasi.Store.Environment

/-!
# Reading a store after a change

What a reference shows after something was added to the store or changed in it. A change of what
does not exist changes nothing.
-/

namespace Quasi

theorem getD_push {α : Type} (xs : Array α) (a d : α) (i : Nat) :
    (xs.push a).getD i d = if i = xs.size then a else xs.getD i d := by
  simp only [Array.getD_eq_getD_getElem?, Array.getElem?_push]
  split <;> rfl

theorem getD_modify {α : Type} (xs : Array α) (f : α → α) (d : α) (i j : Nat) :
    (xs.modify j f).getD i d = if i = j ∧ j < xs.size then f (xs.getD i d) else xs.getD i d := by
  simp only [Array.getD_eq_getD_getElem?, Array.getElem?_modify]
  by_cases hij : j = i
  · subst hij
    by_cases hj : j < xs.size <;> simp [hj]
  · simp [hij, Ne.symm hij]

theorem findSome?_congr {α β : Type} {f g : α → Option β} {xs : List α}
    (h : ∀ x ∈ xs, f x = g x) : xs.findSome? f = xs.findSome? g := by
  induction xs with
  | nil => rfl
  | cons x xs ih =>
      rw [List.findSome?_cons, List.findSome?_cons, h x (List.mem_cons_self ..),
        ih fun y hy => h y (List.mem_cons_of_mem x hy)]

namespace Store

variable (s : Store)

theorem scope_addScope (scope : Scope) (i : Nat) : (s.addScope scope).scope i =
    if i = s.scopes.size then { scope with parent := s.known scope.parent } else s.scope i :=
  getD_push ..

theorem mask_addMask (mask : Mask) (m : MaskId) : (s.addMask mask).mask m =
    if m.index = s.masks.size then { mask with home := s.known mask.home } else s.mask m :=
  getD_push ..

theorem scope_setScope (j : Nat) (f : Scope → Scope) (i : Nat) : (s.setScope j f).scope i =
    if i = j ∧ j < s.scopes.size then f (s.scope i) else s.scope i := getD_modify ..

theorem mask_setMask (n : MaskId) (f : Mask → Mask) (m : MaskId) : (s.setMask n f).mask m =
    if m.index = n.index ∧ n.index < s.masks.size then f (s.mask m) else s.mask m :=
  getD_modify ..

theorem promise_setPromise (p : PromiseId) (f : Promise → Promise) (q : PromiseId) :
    (s.setPromise p f).promise q =
      if q.index = p.index ∧ p.index < s.promises.size then f (s.promise q) else s.promise q :=
  getD_modify ..

theorem evaluator_setEvaluator (c : EvaluatorId) (f : Evaluator → Evaluator) (ctx : EvaluatorId) :
    (s.setEvaluator c f).evaluator ctx =
      if ctx = c ∧ c.index < s.evaluators.size then f (s.evaluator c) else s.evaluator ctx := by
  apply (getD_modify s.evaluators f default ctx.index c.index).trans
  by_cases h : ctx = c
  · rw [h]
    simp only [true_and]
    rfl
  · rw [if_neg fun h' => h (congrArg EvaluatorId.mk h'.1), if_neg fun h' => h h'.1]
    rfl

theorem evaluator_push (e : Evaluator) (ctx : EvaluatorId) :
    { s with evaluators := s.evaluators.push e }.evaluator ctx =
      if ctx.index = s.evaluators.size then e else s.evaluator ctx :=
  getD_push ..

theorem promise_addPromise (promise : Promise) (q : PromiseId) : (s.addPromise promise).promise q =
    if q.index = s.promises.size then { promise with env := promise.env.map s.known }
    else s.promise q := by
  cases h : promise.env <;> simp only [addPromise, h, Option.map] <;> exact getD_push ..

theorem closure_addClosure (closure : Closure) (c : ClosureId) :
    (s.addClosure closure).closure c =
      if c.index = s.closures.size then { closure with env := s.known closure.env }
      else s.closure c :=
  getD_push ..

theorem closure_setClosure (d : ClosureId) (f : Closure → Closure) (c : ClosureId) :
    (s.setClosure d f).closure c =
      if c.index = d.index ∧ d.index < s.closures.size then f (s.closure c) else s.closure c :=
  getD_modify ..

/-! ## Histories -/

theorem capture_eq (holder : Holder) (env : Option EnvId) : s.capture holder env =
    { s with history := env.toList.map (fun e => .captured holder e s.masks) ++ s.history } := by
  cases env <;> rfl

theorem use_eq (holder : Holder) (env : Option EnvId) : s.use holder env =
    { s with history := env.toList.map (fun e => .used holder e s.masks) ++ s.history } := by
  cases env <;> rfl

/-! ## What a new promise leaves as it is -/

section AddPromise

variable (promise : Promise)

@[simp] theorem scopes_addPromise : (s.addPromise promise).scopes = s.scopes := by
  simp only [addPromise, capture_eq]

@[simp] theorem masks_addPromise : (s.addPromise promise).masks = s.masks := by
  simp only [addPromise, capture_eq]

@[simp] theorem closures_addPromise : (s.addPromise promise).closures = s.closures := by
  simp only [addPromise, capture_eq]

@[simp] theorem evaluators_addPromise : (s.addPromise promise).evaluators = s.evaluators := by
  simp only [addPromise, capture_eq]

@[simp] theorem settings_addPromise : (s.addPromise promise).settings = s.settings := by
  simp only [addPromise, capture_eq]

@[simp] theorem size_addPromise :
    (s.addPromise promise).promises.size = s.promises.size + 1 := by
  simp [addPromise, capture_eq]

theorem lt_size_addPromise : s.promises.size < (s.addPromise promise).promises.size := by
  rw [size_addPromise]
  exact Nat.lt_succ_self _

@[simp] theorem scope_addPromise (i : Nat) : (s.addPromise promise).scope i = s.scope i := by
  simp only [scope, scopes_addPromise]

@[simp] theorem known_addPromise (e : EnvId) : (s.addPromise promise).known e = s.known e := by
  simp only [known, scopes_addPromise, masks_addPromise]

end AddPromise

/-! ## Environments that exist -/

variable {s}

theorem known_eq_scope {i : Nat} : s.known (.scope i) = .scope i ↔ i < s.scopes.size := by
  simp only [known]
  split <;> simp_all

theorem known_eq_bottom {m : MaskId} : s.known (.bottom m) = .bottom m ↔ m.index < s.masks.size := by
  simp only [known]
  split <;> simp_all

theorem known_known (e : EnvId) : s.known (s.known e) = s.known e := by
  cases e with
  | empty => rfl
  | scope i => by_cases hi : i < s.scopes.size <;> simp [known, hi]
  | bottom m => by_cases hm : m.index < s.masks.size <;> simp [known, hm]

/-- Environments go on existing while the store grows. -/
theorem known_mono {t : Store} (hscopes : s.scopes.size ≤ t.scopes.size)
    (hmasks : s.masks.size ≤ t.masks.size) {e : EnvId} (h : s.known e = e) : t.known e = e := by
  cases e with
  | empty => rfl
  | scope i => exact known_eq_scope.mpr (Nat.lt_of_lt_of_le (known_eq_scope.mp h) hscopes)
  | bottom m => exact known_eq_bottom.mpr (Nat.lt_of_lt_of_le (known_eq_bottom.mp h) hmasks)

end Store

end Quasi
