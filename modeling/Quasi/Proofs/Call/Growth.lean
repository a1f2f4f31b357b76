import Quasi.Proofs.Twin.Masking

/-!
# Stores that grow

A call makes an environment and promises of its own and leaves all others as they are. What a chain
of environments shows, and which function a name is bound to on it, is therefore the same in all
calls that are under way beneath the one that evaluates it.
-/

namespace Quasi

/-- The value of a promise that has come to one. -/
def Progress.ready? : Progress → Option Value
  | .value v => some v
  | .given v => some v
  | _ => none

namespace Store

/-- The second store has what the first one has, as it is there, and new environments and promises
beside it. Evaluators, failures and what was written may differ. -/
structure Grows (s t : Store) : Prop where
  scopes : s.scopes.size ≤ t.scopes.size
  scope (i : Nat) : i < s.scopes.size → t.scope i = s.scope i
  masks : t.masks = s.masks
  promises : s.promises.size ≤ t.promises.size
  promise (p : PromiseId) : p.index < s.promises.size → t.promise p = s.promise p
  closures : t.closures = s.closures
  settings : t.settings = s.settings

variable {s t u : Store} {e p : EnvId} {name : String}

namespace Grows

theorem trans (h : s.Grows t) (h' : t.Grows u) : s.Grows u where
  scopes := Nat.le_trans h.scopes h'.scopes
  scope i hi := (h'.scope i (Nat.lt_of_lt_of_le hi h.scopes)).trans (h.scope i hi)
  masks := h'.masks.trans h.masks
  promises := Nat.le_trans h.promises h'.promises
  promise p hp := (h'.promise p (Nat.lt_of_lt_of_le hp h.promises)).trans (h.promise p hp)
  closures := h'.closures.trans h.closures
  settings := h'.settings.trans h.settings

theorem of_eq (hscopes : t.scopes = s.scopes) (hmasks : t.masks = s.masks)
    (hpromises : t.promises = s.promises) (hclosures : t.closures = s.closures)
    (hsettings : t.settings = s.settings) : s.Grows t where
  scopes := Nat.le_of_eq (congrArg Array.size hscopes.symm)
  scope i _ := by simp only [Store.scope, hscopes]
  masks := hmasks
  promises := Nat.le_of_eq (congrArg Array.size hpromises.symm)
  promise p _ := by simp only [Store.promise, hpromises]
  closures := hclosures
  settings := hsettings

theorem refl (s : Store) : s.Grows s := of_eq rfl rfl rfl rfl rfl

theorem addScope (s : Store) (scope : Scope) : s.Grows (s.addScope scope) where
  scopes := by simp [Store.addScope]
  scope i hi := by rw [Store.scope_addScope, if_neg (Nat.ne_of_lt hi)]
  masks := rfl
  promises := Nat.le_refl _
  promise _ _ := rfl
  closures := rfl
  settings := rfl

theorem addPromise (s : Store) (promise : Promise) : s.Grows (s.addPromise promise) where
  scopes := by simp
  scope i _ := s.scope_addPromise promise i
  masks := s.masks_addPromise promise
  promises := by simp
  promise p hp := by rw [Store.promise_addPromise, if_neg (Nat.ne_of_lt hp)]
  closures := s.closures_addPromise promise
  settings := s.settings_addPromise promise

/-- Binding a name in an environment that is new does not matter. -/
theorem setVars (h : s.Grows t) {i : Nat} (hi : s.scopes.size ≤ i)
    (f : Bindings Value → Bindings Value) : s.Grows (t.setVars (.scope i) f) where
  scopes := Nat.le_trans h.scopes (Nat.le_of_eq Array.size_modify.symm)
  scope j hj := by
    have hne : ¬(j = i ∧ i < t.scopes.size) := fun hji => absurd hji.1 (by omega)
    rw [Store.setVars, Store.scope_setScope, if_neg hne]
    exact h.scope j hj
  masks := h.masks
  promises := h.promises
  promise := h.promise
  closures := h.closures
  settings := h.settings

theorem closure (h : s.Grows t) (c : ClosureId) : t.closure c = s.closure c := by
  simp only [Store.closure, h.closures]

theorem mask (h : s.Grows t) (m : MaskId) : t.mask m = s.mask m := by
  simp only [Store.mask, h.masks]

theorem known (h : s.Grows t) (he : s.known e = e) : t.known e = e :=
  known_mono h.scopes (Nat.le_of_eq (congrArg Array.size h.masks.symm)) he

theorem parent? (h : s.Grows t) (he : s.known e = e) : t.parent? e = s.parent? e := by
  cases e with
  | empty => rfl
  | scope i => exact congrArg (fun scope => some scope.parent) (h.scope i (known_eq_scope.mp he))
  | bottom m => exact congrArg (fun mask => some mask.home) (h.mask m)

theorem environmentCount (h : s.Grows t) : s.environmentCount ≤ t.environmentCount :=
  Nat.add_le_add h.scopes (Nat.le_of_eq (congrArg Array.size h.masks.symm))

end Grows

/-! ## Environments that exist -/

theorem Whole.known_parent (hs : s.Whole) (hp : s.parent? e = some p) : s.known p = p := by
  cases e with
  | empty => cases hp
  | scope i =>
      cases hp
      exact hs.parent i
  | bottom m =>
      cases hp
      exact hs.home m

theorem Whole.addPromise (hs : s.Whole) (promise : Promise) : (s.addPromise promise).Whole := by
  have hgrows := Grows.addPromise s promise
  refine ⟨fun i => ?_, fun m => ?_, fun m e hmem => ?_, fun p e hp => ?_⟩
  · rw [scope_addPromise]
    exact hgrows.known (hs.parent i)
  · rw [hgrows.mask]
    exact hgrows.known (hs.home m)
  · rw [hgrows.mask] at hmem
    exact hgrows.known (hs.source m e hmem)
  · rw [promise_addPromise] at hp
    split at hp
    · obtain ⟨e', -, rfl⟩ := Option.map_eq_some_iff.mp hp
      exact hgrows.known (known_known e')
    · exact hgrows.known (hs.promise p e hp)

/-- What an environment shows that exists depends on the scopes and masks that exist. -/
theorem Whole.maskSlot? (hs : s.Whole) (hscope : ∀ i < s.scopes.size, t.scope i = s.scope i)
    {n : Nat} (hmask : ∀ m : MaskId, m.index ≤ n → t.mask m = s.mask m) :
    t.maskSlot? n name = s.maskSlot? n name := by
  induction n using Nat.strongRecOn with
  | ind n ih =>
      unfold Store.maskSlot?
      rw [hmask ⟨n⟩ (Nat.le_refl n)]
      congr 1
      funext _
      refine findSome?_congr fun source hsource => ?_
      match source with
      | .mapping _ | .table _ | .row _ _ | .env .empty => rfl
      | .env (.scope i) =>
          have hi : i < s.scopes.size := known_eq_scope.mp (hs.source ⟨n⟩ _ hsource)
          exact congrArg (fun scope => scope.vars.get? name) (hscope i hi)
      | .env (.bottom m) =>
          dsimp only
          split
          next hm =>
              exact ih m.index hm fun k hk => hmask k (Nat.le_of_lt (Nat.lt_of_le_of_lt hk hm))
          next => rfl

theorem Whole.slot? (hs : s.Whole) (hscope : ∀ i < s.scopes.size, t.scope i = s.scope i)
    (hmask : ∀ m : MaskId, m.index < s.masks.size → t.mask m = s.mask m) (he : s.known e = e)
    (name : String) : t.slot? e name = s.slot? e name := by
  cases e with
  | empty => rfl
  | scope i => exact congrArg (fun scope => scope.vars.get? name) (hscope i (known_eq_scope.mp he))
  | bottom m =>
      exact hs.maskSlot? hscope fun k hk => hmask k (Nat.lt_of_le_of_lt hk (known_eq_bottom.mp he))

theorem Grows.slot? (hs : s.Whole) (h : s.Grows t) (he : s.known e = e) (name : String) :
    t.slot? e name = s.slot? e name := hs.slot? h.scope (fun m _ => h.mask m) he name

theorem Grows.walk (hs : s.Whole) (h : s.Grows t) (he : s.known e = e) (n : Nat) :
    t.walk n e = s.walk n e := by
  induction n generalizing e with
  | zero => rfl
  | succ n ih =>
      have hparent := h.parent? he
      cases hp : s.parent? e with
      | none => rw [walk_of_none n hp, walk_of_none n (hparent.trans hp)]
      | some p => rw [walk_of_some n hp, walk_of_some n (hparent.trans hp), ih (hs.known_parent hp)]

theorem known_of_mem_walk (hs : s.Whole) (he : s.known e = e) {n : Nat} :
    ∀ x ∈ (s.walk n e).1, s.known x = x := by
  induction n generalizing e with
  | zero => simp [Store.walk]
  | succ n ih =>
      cases hp : s.parent? e with
      | none =>
          rw [walk_of_none n hp]
          simpa using he
      | some p =>
          rw [walk_of_some n hp]
          exact List.forall_mem_cons.mpr ⟨he, ih (hs.known_parent hp)⟩

/-- A walk of more steps goes on where the shorter one stops. -/
theorem walk_prefix {m n : Nat} (hmn : m ≤ n) : (s.walk m e).1 <+: (s.walk n e).1 := by
  induction m generalizing e n with
  | zero => exact List.nil_prefix
  | succ m ih =>
      obtain ⟨n, rfl⟩ := Nat.exists_eq_add_of_lt hmn
      cases hp : s.parent? e with
      | none =>
          have heq : s.walk (m + n + 1) e = s.walk (m + 1) e := by
            rw [walk_of_none m hp, walk_of_none (m + n) hp]
          exact heq ▸ List.prefix_refl _
      | some p =>
          rw [walk_of_some m hp, walk_of_some (m + n) hp]
          exact List.prefix_cons_inj e |>.mpr (ih (Nat.le_add_right m n))

/-! ## Functions that names are bound to -/

/-- The value of a binding, if it has one without an evaluation. -/
def ready? (s : Store) : Value → Option Value
  | .promise p => if p.index < s.promises.size then (s.promise p).progress.ready? else none
  | v => some v

/-- The first function that a name is bound to in a list of environments is the given one, and
finding it evaluates nothing. -/
inductive Finds (s : Store) (name : String) (fn : Value) : List EnvId → Prop where
  | here {env : EnvId} {rest : List EnvId} {v : Value} (hslot : s.slot? env name = some v)
      (hready : s.ready? v = some fn) (hfn : fn.isInvocable = true) :
      Finds s name fn (env :: rest)
  | other {env : EnvId} {rest : List EnvId} {v w : Value} (hslot : s.slot? env name = some v)
      (hready : s.ready? v = some w) (hother : w.isInvocable = false)
      (h : Finds s name fn rest) : Finds s name fn (env :: rest)
  | unbound {env : EnvId} {rest : List EnvId} (hslot : s.slot? env name = none)
      (h : Finds s name fn rest) : Finds s name fn (env :: rest)

/-- A name in the head of a call stands for a function. -/
def Calls (s : Store) (env : EnvId) (name : String) (fn : Value) : Prop :=
  s.Finds name fn (s.chain env).1

/-- The name of a built-in function stands for it. -/
def Offers (s : Store) (env : EnvId) (b : Builtin) : Prop :=
  ∃ home, s.Calls env b.name (.builtin b home)

variable {fn : Value}

theorem Grows.ready? (h : s.Grows t) {v w : Value} (hv : s.ready? v = some w) :
    t.ready? v = some w := by
  cases v with
  | promise p =>
      obtain ⟨hp, hw⟩ := Option.ite_none_right_eq_some.mp hv
      have hp' : p.index < t.promises.size := Nat.lt_of_lt_of_le hp h.promises
      refine (if_pos hp').trans ?_
      rw [h.promise p hp, hw]
  | _ => exact hv

theorem Finds.append {envs : List EnvId} (h : s.Finds name fn envs) (more : List EnvId) :
    s.Finds name fn (envs ++ more) := by
  induction h with
  | here hslot hready hfn => exact .here hslot hready hfn
  | other hslot hready hother _ ih => exact .other hslot hready hother ih
  | unbound hslot _ ih => exact .unbound hslot ih

theorem Finds.grow (hs : s.Whole) (hst : s.Grows t) {envs : List EnvId}
    (henvs : ∀ x ∈ envs, s.known x = x) (h : s.Finds name fn envs) : t.Finds name fn envs := by
  induction h with
  | here hslot hready hfn =>
      have henv := henvs _ (List.mem_cons_self ..)
      exact .here ((hst.slot? hs henv name).trans hslot) (hst.ready? hready) hfn
  | other hslot hready hother _ ih =>
      obtain ⟨henv, hrest⟩ := List.forall_mem_cons.mp henvs
      exact .other ((hst.slot? hs henv name).trans hslot) (hst.ready? hready) hother (ih hrest)
  | unbound hslot _ ih =>
      obtain ⟨henv, hrest⟩ := List.forall_mem_cons.mp henvs
      exact .unbound ((hst.slot? hs henv name).trans hslot) (ih hrest)

/-- Names go on standing for functions while the store grows, in new environments that hang off an
old one too. -/
theorem Calls.walk (hs : s.Whole) (hst : s.Grows t) (he : s.known e = e)
    (h : s.Calls e name fn) {n : Nat} (hn : s.environmentCount + 2 ≤ n) :
    t.Finds name fn (t.walk n e).1 := by
  have hgrown : t.Finds name fn (s.chain e).1 :=
    Finds.grow hs hst (known_of_mem_walk hs he) h
  obtain ⟨more, hmore⟩ := walk_prefix (s := s) (e := e) hn
  rw [hst.walk hs he, ← hmore]
  exact hgrown.append more

theorem Calls.grow (hs : s.Whole) (hst : s.Grows t) (he : s.known e = e) (h : s.Calls e name fn) :
    t.Calls e name fn := h.walk hs hst he (Nat.add_le_add_right hst.environmentCount 2)

theorem Offers.grow {b : Builtin} (hs : s.Whole) (hst : s.Grows t) (he : s.known e = e)
    (h : s.Offers e b) : t.Offers e b := h.imp fun _ hname => hname.grow hs hst he

/-- In a new environment that hangs off an old one a name stands for the same function, unless it
is bound to another one there. -/
theorem Calls.below (hs : s.Whole) (hst : s.Grows t) (he : s.known e = e) (h : s.Calls e name fn)
    {i : Nat} (hi : s.scopes.size ≤ i ∧ i < t.scopes.size) (hparent : (t.scope i).parent = e)
    (hown : ∀ v, t.slot? (.scope i) name = some v →
      ∃ w, t.ready? v = some w ∧ w.isInvocable = false) :
    t.Calls (.scope i) name fn := by
  have hcount : s.environmentCount + 2 ≤ t.environmentCount + 1 := by
    have hmasks := congrArg Array.size hst.masks
    simp only [Store.environmentCount]
    omega
  have hp : t.parent? (.scope i) = some e := congrArg some hparent
  have hrest := h.walk hs hst he hcount
  rw [Calls, Store.chain, walk_of_some _ hp]
  cases hslot : t.slot? (.scope i) name with
  | none => exact .unbound hslot hrest
  | some v =>
      obtain ⟨w, hready, hother⟩ := hown v hslot
      exact .other hslot hready hother hrest

end Store

/-! ## Looking names up -/

namespace Machine

variable {m : Machine} {ctx : Option EvaluatorId} {s : Store} {name : String} {fn v w : Value}

theorem forceValue_of_ready (h : s.ready? v = some w) : m.forceValue ctx v s = .ok w s := by
  cases v with
  | promise p =>
      obtain ⟨-, hw⟩ := Option.ite_none_right_eq_some.mp h
      change m.force ctx p s = _
      rw [force, Run.get_bind]
      cases hp : (s.promise p).progress with
      | value v | given v =>
          rw [hp] at hw
          cases hw
          rfl
      | _ =>
          rw [hp] at hw
          cases hw
  | _ =>
      cases h
      rfl

theorem firstFunction_of_finds {envs : List EnvId} (h : s.Finds name fn envs) :
    m.firstFunction name envs s = .ok (some fn) s := by
  induction h with
  | here hslot hready hfn =>
      rw [firstFunction, Run.get_bind, hslot]
      change (m.forceValue none _ >>= _) s = _
      rw [Run.bind_of_ok (forceValue_of_ready hready), if_pos hfn]
      rfl
  | other hslot hready hother _ ih =>
      rw [firstFunction, Run.get_bind, hslot]
      change (m.forceValue none _ >>= _) s = _
      rw [Run.bind_of_ok (forceValue_of_ready hready), if_neg (by simp [hother]), ih]
  | unbound hslot _ ih =>
      rw [firstFunction, Run.get_bind, hslot]
      exact ih

theorem lookupFunction_of_calls {env : EnvId} (h : s.Calls env name fn) :
    m.lookupFunction env name s = .ok fn s := by
  rw [lookupFunction, Run.get_bind, Run.bind_of_ok (firstFunction_of_finds h)]
  rfl

/-- The nearest binding of a name is the one of the environment itself. -/
theorem find_of_slot {e : EnvId} (h : s.slot? e name = some v) :
    Run.find e name s = .ok (some e) s := by
  obtain ⟨rest, hchain⟩ : ∃ rest, (s.chain e).1 = e :: rest := by
    cases hp : s.parent? e with
    | none => exact ⟨[], by rw [Store.chain, Store.walk_of_none _ hp]⟩
    | some parent => exact ⟨_, by rw [Store.chain, Store.walk_of_some _ hp]⟩
  have hfind : (s.chain e).1.find? (fun e => (s.slot? e name).isSome) = some e := by
    rw [hchain]
    exact List.find?_cons_of_pos (by simp [h])
  rw [Run.find, Run.search, Run.get_bind, hfind]
  rfl

theorem binding_of_slot {e : EnvId} (h : s.slot? e name = some v) (hown : Run.own v = pure v) :
    Run.binding e name s = .ok v s := by
  rw [Run.binding, Run.bind_of_ok (find_of_slot h)]
  dsimp only
  rw [Run.get_bind, h]
  exact congrFun hown s

/-- A call whose head is a name applies the function that the name stands for. -/
theorem eval_call_of_calls {n : Nat} {env : EnvId} (h : s.Calls env name fn) (ctx : EvaluatorId)
    (slots : List Slot) :
    (ofLevel (n + 1)).eval ctx (.call (.symbol name) slots) env s =
      (ofLevel n).apply ctx fn (.call (.symbol name) slots) slots env s := by
  change evalCall (ofLevel n) ctx (.symbol name) slots env s = _
  unfold evalCall
  simp only [Expr.symbolName?]
  rw [Run.bind_of_ok (lookupFunction_of_calls h)]

end Machine

end Quasi
