import Mathlib.Data.List.Basic
import Quasi.Proofs.Tidy.Settled

/-!
# What a reading covers

Code is covered if all that its names are bound to is known before it is read: if its names are
bound to values rather than promises, and its calls are of control forms, of member access to a
pronoun, and of primitives that evaluate nothing. A reading of covered code comes to an end.
-/

namespace Quasi

open Run (Finishes Settles Steady)

def Value.isPromise : Value → Bool
  | .promise _ => true
  | _ => false

def SpecialForm.isControl : SpecialForm → Bool
  | .block | .paren | .ifElse | .andAlso | .orElse => true
  | _ => false

/-- What environments bind a name to. -/
def Store.slots (s : Store) (chain : List EnvId) (name : String) : List Value :=
  chain.filterMap fun e => s.slot? e name

namespace Reading

/-- What a name is bound to in code of an environment, in the order in which it is looked up. -/
def bindings (r : Reading) (s : Store) (home : EnvId) (name : String) : List Value :=
  (s.inScopes? r.scopes name).toList ++ s.slots (s.chain home).1 name

/-- Whether a name stands neither for arguments nor for a pronoun. -/
def isOrdinary (name : String) : Bool :=
  name ≠ dotsName && (Machine.dotsPosition? name).isNone && name ≠ Pronoun.data.name &&
    name ≠ Pronoun.env.name

/-- A name whose first function is the given one. -/
structure Calls (r : Reading) (s : Store) (home : EnvId) (name : String) (fn : Value) : Prop where
  ordinary : isOrdinary name = true
  values : ∀ v ∈ r.bindings s home name, v.isPromise = false
  first : (r.bindings s home name).find? Value.isInvocable = some fn

/-- Code of an environment that a reading covers. -/
inductive Covers (r : Reading) (s : Store) : EnvId → Expr → Prop where
  | const {home : EnvId} {v : Value} (hv : ∀ e inner, v ≠ .quosure e inner) :
      Covers r s home (.const v)
  | quosure {home inner : EnvId} {e : Expr} (hplain : s.isPlain inner = true)
      (h : Covers r s inner e) : Covers r s home (.const (.quosure e inner))
  | symbol {home : EnvId} {name : String} (hname : isOrdinary name = true)
      (hvalues : ∀ v ∈ r.bindings s home name, v.isPromise = false) :
      Covers r s home (.symbol name)
  | control {home env : EnvId} {name : String} {form : SpecialForm} {slots : List Slot}
      (hfn : r.Calls s home name (.builtin (.special form) env)) (hform : form.isControl = true)
      (hslots : ∀ slot ∈ slots, Covers r s home slot.item) :
      Covers r s home (.call (.symbol name) slots)
  | member {home env : EnvId} {head name : String} {p : Pronoun} {target item : Slot}
      (hfn : r.Calls s home head (.builtin (.special .member) env))
      (htarget : target.item = .symbol p.name)
      (hitem : item.item = .symbol name ∨ item.item = .const (.str name))
      (hvalues : ∀ v ∈ r.bindings s home name, v.isPromise = false) :
      Covers r s home (.call (.symbol head) [target, item])
  | primitive {home env : EnvId} {name : String} {fn : Primitive} {slots : List Slot}
      (hfn : r.Calls s home name (.builtin (.primitive fn) env))
      (hadmits : ∀ args, r.admits fn args = true)
      (hslots : ∀ slot ∈ slots, Covers r s home slot.item) :
      Covers r s home (.call (.symbol name) slots)

/-- The mask of a reading as it was made, in a store whose environments all exist. -/
structure Ready (r : Reading) (s : Store) : Prop where
  founded : r.Founded
  made : r.mask.index < s.masks.size
  parent (i : Nat) : s.known (s.scope i).parent = (s.scope i).parent
  vars : (s.mask r.mask).vars =
    [(Pronoun.data.name, .pronoun .data r.mask), (Pronoun.env.name, .pronoun .env r.mask)]

variable {r : Reading} {s t : Store} {home : EnvId} {A : PromiseId → Prop} {name : String}

/-! ## Calm runs do not matter -/

theorem Ready.calm (hr : r.Ready s) (h : s.Calm A t) : r.Ready t where
  founded := hr.founded
  made := Nat.lt_of_lt_of_le hr.made h.masks
  parent i := by
    have hscope : t.scope i = s.scope i := by simp only [Store.scope, h.scopes]
    rw [hscope]
    exact Store.known_mono h.fixed.scopes h.masks (hr.parent i)
  vars := (h.vars r.mask hr.made).trans hr.vars

theorem Ready.inScopes? (hr : r.Ready s) (h : s.Calm A t) :
    t.inScopes? r.scopes name = s.inScopes? r.scopes name := by
  refine findSome?_congr fun source hmem => ?_
  match source with
  | .mapping _ | .table _ | .row _ _ | .env .empty => rfl
  | .env (.scope i) => exact h.slot?_scope i name
  | .env (.bottom m) => exact h.maskSlot? m.index (Nat.lt_trans (hr.founded m hmem) hr.made) name

theorem Ready.isPlain (hr : r.Ready s) (h : s.Calm A t) (hplain : s.isPlain home = true) :
    t.isPlain home = true := Store.isPlain_fixed hr.parent h.fixed hplain

theorem Ready.bindings (hr : r.Ready s) (h : s.Calm A t) (hplain : s.isPlain home = true) :
    r.bindings t home name = r.bindings s home name := by
  have hslots : t.slots (s.chain home).1 name = s.slots (s.chain home).1 name := by
    refine List.filterMap_congr fun e he => ?_
    cases e with
    | empty => rfl
    | scope i => exact h.slot?_scope i name
    | bottom m => exact ((Store.isPlain_iff.mp hplain).2.2 _ he m rfl).elim
  rw [Reading.bindings, hr.inScopes? h, Store.chain_fixed hr.parent h.fixed hplain, hslots]
  rfl

theorem Calls.calm {fn : Value} (hfn : r.Calls s home name fn) (hr : r.Ready s) (h : s.Calm A t)
    (hplain : s.isPlain home = true) : r.Calls t home name fn := by
  have hbindings : r.bindings t home name = r.bindings s home name := hr.bindings h hplain
  exact ⟨hfn.ordinary, hbindings ▸ hfn.values, hbindings ▸ hfn.first⟩

theorem Covers.calm {e : Expr} (he : r.Covers s home e) (hr : r.Ready s) (h : s.Calm A t)
    (hplain : s.isPlain home = true) : r.Covers t home e := by
  induction he with
  | const hv => exact .const hv
  | quosure hinner _ ih => exact .quosure (hr.isPlain h hinner) (ih hinner)
  | symbol hname hvalues => exact .symbol hname ((hr.bindings h hplain).symm ▸ hvalues)
  | control hfn hform _ ih =>
      exact .control (hfn.calm hr h hplain) hform fun slot hslot => ih slot hslot hplain
  | member hfn htarget hitem hvalues =>
      exact .member (hfn.calm hr h hplain) htarget hitem ((hr.bindings h hplain).symm ▸ hvalues)
  | primitive hfn hadmits _ ih =>
      exact .primitive (hfn.calm hr h hplain) hadmits fun slot hslot => ih slot hslot hplain

/-! ## Names -/

theorem settles_fail {α : Type} {P : α → Prop} (cause : Cause) :
    Settles A P s (Run.fail cause : Run α) :=
  ⟨{ s with failures := s.failures.push ⟨none, none⟩ }, .of_eq rfl rfl rfl,
    .inr ⟨.failure ⟨s.failures.size, cause⟩, rfl⟩⟩

theorem settles_own {v : Value} (hv : v.isPromise = false) :
    Settles A (fun w => w.isPromise = false) s (Run.own v) := by
  have hid (f : Nat → Value) (hf : ∀ n, (f n).isPromise = false) :
      Settles A (fun w => w.isPromise = false) s (do pure (f (← Run.freshId))) :=
    (Steady.settles Run.freshId s).bind fun n _ _ _ => .pure (hf n)
  unfold Run.own
  split
  · exact hid _ fun _ => rfl
  · exact hid _ fun _ => rfl
  · exact .pure hv

theorem forceValue_of_value {v : Value} (hv : v.isPromise = false) (m : Machine)
    (ctx : Option EvaluatorId) : m.forceValue ctx v = pure v := by
  cases v with
  | promise p => cases hv
  | _ => rfl

theorem settles_binding (hplain : s.isPlain home = true)
    (hvalues : ∀ v ∈ s.slots (s.chain home).1 name, v.isPromise = false) :
    Settles A (fun v => v.isPromise = false) s (Run.binding home name) := by
  have hfind : Run.find home name s = .ok ((s.chain home).1.find? fun e =>
      (s.slot? e name).isSome) s := search_of_ends (Store.isPlain_iff.mp hplain).2.1
  refine .bind_ok hfind (.refl s) ?_
  cases hfound : (s.chain home).1.find? fun e => (s.slot? e name).isSome with
  | none => exact settles_fail _
  | some e =>
      refine .get ?_
      split
      next v hv =>
        have hmem : v ∈ s.slots (s.chain home).1 name :=
          List.mem_filterMap.mpr ⟨e, List.mem_of_find?_eq_some hfound, hv⟩
        exact settles_own (hvalues v hmem)
      next => exact settles_fail _

theorem settles_lookup (hplain : s.isPlain home = true)
    (hvalues : ∀ v ∈ s.slots (s.chain home).1 name, v.isPromise = false)
    (m : Machine) : Settles A (fun _ => True) s (m.lookup home name) := by
  refine (settles_binding hplain hvalues).bind fun v t hv _ => ?_
  split
  · exact settles_fail _
  · rw [forceValue_of_value hv]
    exact .pure trivial

theorem values_of_bindings (h : ∀ v ∈ r.bindings s home name, v.isPromise = false) :
    (∀ v, s.inScopes? r.scopes name = some v → v.isPromise = false) ∧
      ∀ v ∈ s.slots (s.chain home).1 name, v.isPromise = false :=
  ⟨fun v hv => h v (List.mem_append_left _ (Option.mem_toList.mpr hv)),
    fun v hv => h v (List.mem_append_right _ hv)⟩

theorem isOrdinary_iff : isOrdinary name = true ↔ name ≠ dotsName ∧
    Machine.dotsPosition? name = none ∧ name ≠ Pronoun.data.name ∧ name ≠ Pronoun.env.name := by
  simp [isOrdinary, and_assoc]

theorem Ready.vars_ordinary (hr : r.Ready s) (hname : isOrdinary name = true) :
    (s.mask r.mask).vars.get? name = none := by
  obtain ⟨-, -, hdata, henv⟩ := isOrdinary_iff.mp hname
  rw [hr.vars]
  simp [Bindings.get?, hdata.symm, henv.symm]

theorem Ready.vars_pronoun (hr : r.Ready s) (p : Pronoun) :
    (s.mask r.mask).vars.get? p.name = some (.pronoun p r.mask) := by
  rw [hr.vars]
  cases p <;> rfl

theorem settles_symbol (hr : r.Ready s) (hplain : s.isPlain home = true)
    (hname : isOrdinary name = true)
    (hvalues : ∀ v ∈ r.bindings s home name, v.isPromise = false) (m : Machine) :
    Settles A (fun _ => True) s (r.symbol m home name) := by
  obtain ⟨hdots, hposition, -, -⟩ := isOrdinary_iff.mp hname
  obtain ⟨hscopes, hchain⟩ := values_of_bindings hvalues
  have hbound : Settles A (fun v => v.isPromise = false) s (r.bound home name) := by
    unfold bound
    refine .get ?_
    rw [hr.vars_ordinary hname]
    dsimp only
    split
    next v hv => exact settles_own (hscopes v hv)
    next => exact settles_binding hplain hchain
  unfold symbol
  rw [if_neg (by simp [hdots, hposition])]
  refine hbound.bind fun v t hv _ => ?_
  split
  · exact settles_fail _
  · rw [forceValue_of_value hv]
    exact .pure trivial

theorem firstFunction_eq (m : Machine) {chain : List EnvId}
    (hvalues : ∀ v ∈ s.slots chain name, v.isPromise = false) :
    m.firstFunction name chain s = .ok ((s.slots chain name).find? Value.isInvocable) s := by
  induction chain with
  | nil => rfl
  | cons e rest ih =>
      unfold Machine.firstFunction
      rw [Run.get_bind]
      cases hv : s.slot? e name with
      | none =>
          have hslots : s.slots (e :: rest) name = s.slots rest name :=
            List.filterMap_cons_none hv
          rw [hslots] at hvalues ⊢
          exact ih hvalues
      | some v =>
          have hslots : s.slots (e :: rest) name = v :: s.slots rest name :=
            List.filterMap_cons_some hv
          rw [hslots] at hvalues ⊢
          have hrest := ih fun w hw => hvalues w (List.mem_cons_of_mem v hw)
          dsimp only
          rw [List.find?_cons, forceValue_of_value (hvalues v (List.mem_cons_self ..)), pure_bind]
          cases v.isInvocable with
          | true => rfl
          | false => exact hrest

theorem Calls.function {fn : Value} (h : r.Calls s home name fn) (hr : r.Ready s) (m : Machine) :
    r.function m home name s = .ok fn s := by
  obtain ⟨hscopes, hchain⟩ := values_of_bindings h.values
  have hfirst : r.firstFunction m home name s = .ok (some fn) s := by
    have hfound := h.first
    unfold Reading.bindings at hfound
    rw [firstFunction, Run.get_bind, hr.vars_ordinary h.ordinary]
    cases hv : s.inScopes? r.scopes name with
    | none =>
        rw [hv] at hfound
        exact (firstFunction_eq m hchain).trans (congrArg (EStateM.Result.ok · s) hfound)
    | some v =>
        rw [hv, Option.toList_some, List.singleton_append, List.find?_cons] at hfound
        dsimp only
        rw [forceValue_of_value (hscopes v hv), pure_bind]
        cases hi : v.isInvocable with
        | true =>
            rw [hi] at hfound
            exact congrArg (EStateM.Result.ok · s) hfound
        | false =>
            rw [hi] at hfound
            exact (firstFunction_eq m hchain).trans (congrArg (EStateM.Result.ok · s) hfound)
  rw [Reading.function, Run.bind_of_ok hfirst]
  rfl

theorem settles_member (hplain : s.isPlain home = true)
    (hvalues : ∀ v ∈ r.bindings s home name, v.isPromise = false) (m : Machine) (p : Pronoun) :
    Settles A (fun _ => True) s (r.member m home (.pronoun p r.mask) name) := by
  obtain ⟨hscopes, hchain⟩ := values_of_bindings hvalues
  rw [member, if_neg (not_not.mpr rfl)]
  refine .get ?_
  cases p with
  | env => exact settles_lookup hplain hchain m
  | data =>
      cases hv : s.inScopes? r.scopes name with
      | none => exact settles_fail _
      | some v =>
          refine (settles_own (hscopes v hv)).bind fun w t hw _ => ?_
          rw [forceValue_of_value hw]
          exact .pure trivial

/-! ## Arguments -/

/-- The promises of slots, made one after the other. -/
def awaited (k : Nat) : List Slot → List (Tagged Value)
  | [] => []
  | slot :: rest => ⟨slot.tag, .promise ⟨k⟩⟩ :: awaited (k + 1) rest

/-- Promises of slots that were not forced yet. -/
def Awaits (ctx : EvaluatorId) (env : EnvId) (s : Store) : Nat → List Slot → Prop
  | _, [] => True
  | k, slot :: rest =>
      k < s.promises.size ∧ s.promise ⟨k⟩ = ⟨slot.item, some env, some ctx, false, .unforced⟩ ∧
        Awaits ctx env s (k + 1) rest

variable {ctx : EvaluatorId} {env : EnvId} {slots : List Slot} {k : Nat}

theorem Awaits.calm (h : Awaits ctx env s k slots) (hst : s.Calm A t)
    (hA : ∀ p, A p → p.index < k) : Awaits ctx env t k slots := by
  induction slots generalizing k with
  | nil => trivial
  | cons slot rest ih =>
      obtain ⟨hk, hpromise, hrest⟩ := h
      refine ⟨Nat.lt_of_lt_of_le hk hst.promises, ?_, ih hrest fun p hp => ?_⟩
      · exact (hst.promise ⟨k⟩ hk fun hp => Nat.lt_irrefl k (hA _ hp)).trans hpromise
      · exact Nat.lt_succ_of_lt (hA p hp)

theorem calm_addPromise (promise : Promise) : s.Calm A (s.addPromise promise) where
  scopes := by simp
  masks := by simp
  vars _ _ := by simp [Store.mask]
  sources _ _ := by simp [Store.mask]
  promises := by simp
  promise p hp _ := by rw [Store.promise_addPromise, if_neg (Nat.ne_of_lt hp)]

/-- Slots that are neither missing nor the dots each make a promise. -/
theorem promiseArgs_eq (henv : s.known env = env)
    (hslots : ∀ slot ∈ slots, slot.item.isMissing = false ∧ slot.item.isSymbol dotsName = false) :
    ∃ t, Machine.promiseArgs ctx env slots s = .ok (awaited s.promises.size slots) t ∧
      s.Calm (fun _ => False) t ∧ Awaits ctx env t s.promises.size slots := by
  induction slots generalizing s with
  | nil => exact ⟨s, rfl, .refl s, trivial⟩
  | cons slot rest ih =>
      obtain ⟨hmissing, hdots⟩ := hslots slot (List.mem_cons_self ..)
      let promise : Promise := ⟨slot.item, some env, some ctx, false, .unforced⟩
      have hcalm : s.Calm (fun _ => False) (s.addPromise promise) := calm_addPromise promise
      have hsize : (s.addPromise promise).promises.size = s.promises.size + 1 :=
        s.size_addPromise promise
      have henv' : (s.addPromise promise).known env = env :=
        Store.known_mono hcalm.fixed.scopes hcalm.masks henv
      obtain ⟨t, ht, hst, hawaits⟩ :=
        ih henv' fun slot hslot => hslots slot (List.mem_cons_of_mem _ hslot)
      rw [hsize] at ht hawaits
      refine ⟨t, ?_, hcalm.trans hst, ?_, ?_, hawaits⟩
      · unfold Machine.promiseArgs
        rw [if_neg (by simp [hmissing]), if_neg (by simp [hdots])]
        have hnew : Run.newPromise promise s = .ok ⟨s.promises.size⟩ (s.addPromise promise) := rfl
        rw [Run.bind_of_ok hnew, Run.bind_of_ok ht]
        rfl
      · exact Nat.lt_of_lt_of_le (by omega) hst.promises
      · rw [hst.promise ⟨s.promises.size⟩ (hsize ▸ Nat.lt_succ_self _) id,
          Store.promise_addPromise, if_pos rfl]
        exact congrArg (fun env => { promise with env := some env }) henv

/-- A machine settles at the code of slots, wherever calm runs have led. -/
def Evaluates (m : Machine) (ctx : EvaluatorId) (env : EnvId) (s : Store) (slots : List Slot) :
    Prop :=
  ∀ slot ∈ slots, ∀ t, s.Calm (fun _ => True) t →
    Finishes t (m.eval ctx slot.item env)

variable {m : Machine}

theorem Evaluates.calm (h : Evaluates m ctx env s slots) (hst : s.Calm A t) :
    Evaluates m ctx env t slots :=
  fun slot hslot _ htu => h slot hslot _ ((hst.mono fun _ _ _ => trivial).trans htu)

theorem Evaluates.tail {slot : Slot} (h : Evaluates m ctx env s (slot :: slots)) :
    Evaluates m ctx env s slots := fun slot hslot => h slot (List.mem_cons_of_mem _ hslot)

theorem Evaluates.settles (h : Evaluates m ctx env s slots) {slot : Slot} (hslot : slot ∈ slots) :
    Finishes s (m.eval ctx slot.item env) :=
  h slot hslot s (.refl s)

theorem calm_setPromise (p : PromiseId) (f : Promise → Promise) :
    s.Calm (· = p) (s.setPromise p f) where
  scopes := rfl
  masks := Nat.le_refl _
  vars _ _ := rfl
  sources _ _ := rfl
  promises := Nat.le_of_eq Array.size_modify.symm
  promise q _ hq := by
    rw [Store.promise_setPromise, if_neg fun h => hq (congrArg PromiseId.mk h.1)]

theorem settles_conclude (p : PromiseId) (outcome : Except Signal Value) :
    Settles (· = p) (fun _ => True) s (Machine.conclude p outcome) := by
  have hset (f : Promise → Promise) (event : Event) :
      s.Calm (· = p) ((s.setPromise p f).record event) :=
    (calm_setPromise p f).trans (.of_eq rfl rfl rfl)
  unfold Machine.conclude
  split
  · exact .of_ok rfl (hset _ _) trivial
  · exact .of_ok rfl (hset _ _) trivial
  · exact .of_ok rfl (hset _ _) trivial

/-- A promise that was not forced yet settles if its code does. -/
theorem settles_force {p : PromiseId} {e : Expr}
    (hp : s.promise p = ⟨e, some env, some ctx, false, .unforced⟩)
    (heval : ∀ t, s.Calm (fun _ => True) t →
      Finishes t (m.eval ctx e env)) :
    Settles (· = p) (fun _ => True) s (m.force (some ctx) p) := by
  have hbegin : s.Calm (· = p) (s.begin p) := by
    rw [Store.begin, Store.use_eq]
    exact (calm_setPromise p fun promise => { promise with progress := .forcing }).trans
      (.of_eq rfl rfl rfl)
  unfold Machine.force
  refine .get ?_
  rw [hp]
  change Settles _ _ s (m.runPromise ctx p)
  unfold Machine.runPromise
  refine .get ?_
  rw [hp]
  refine .bind_ok rfl hbegin ((Steady.settles (Run.trace _) _).bind fun _ t _ ht => ?_)
  have hcode := heval t ((hbegin.trans ht).mono fun _ _ _ => trivial)
  refine (Settles.of_finishes hcode).attempt.bind fun outcome u _ _ => ?_
  exact (settles_conclude p outcome).bind fun _ _ _ _ => .resume fun _ _ => trivial

theorem settles_forceArgs (call : Expr) (positional : List Value) (named : Bindings Value)
    (heval : Evaluates m ctx env s slots) (hs : Awaits ctx env s k slots) :
    Settles (fun p => k ≤ p.index) (fun _ => True) s
      (m.forceArgs ctx call (awaited k slots) positional named) := by
  induction slots generalizing s k positional named with
  | nil => exact .pure trivial
  | cons slot rest ih =>
      obtain ⟨hk, hpromise, hrest⟩ := hs
      have hforce := settles_force hpromise (heval slot (List.mem_cons_self ..))
      unfold awaited Machine.forceArgs
      refine hforce.bind_mono (fun p _ hp => hp ▸ Nat.le_refl k) fun v t _ ht => ?_
      -- Forcing one promise leaves the later ones as they are.
      have hrest' : Awaits ctx env t (k + 1) rest :=
        hrest.calm ht fun p hp => hp ▸ Nat.lt_succ_self k
      have hlater (positional : List Value) (named : Bindings Value) :=
        (ih positional named (heval.tail.calm ht) hrest').mono
          (fun p _ hp => Nat.le_of_succ_le hp) fun _ _ => trivial
      split
      · exact hlater _ _
      · split
        · exact Steady.settles _ _
        · exact hlater _ _

theorem settles_evalArgs (call : Expr) (henv : s.known env = env)
    (hslots : ∀ slot ∈ slots, slot.item.isMissing = false ∧ slot.item.isSymbol dotsName = false)
    (heval : Evaluates m ctx env s slots) :
    Finishes s (m.evalArgs ctx slots env call) := by
  obtain ⟨t, ht, hst, hawaits⟩ := promiseArgs_eq henv hslots
  have hforce := settles_forceArgs call [] [] (heval.calm hst) hawaits
  have hargs : Settles (fun p => s.promises.size ≤ p.index) (fun _ => True) s
      (m.evalArgs ctx slots env call) :=
    .bind_ok ht (hst.mono fun _ _ h => h.elim) hforce
  exact hargs.mono (fun p hp hA => Nat.not_le_of_lt hp hA) fun _ _ => trivial

/-! ## Control forms -/

theorem settles_blockForm (heval : Evaluates m ctx env s slots) :
    Finishes s (m.blockForm ctx env slots) := by
  induction slots generalizing s with
  | nil => exact .pure trivial
  | cons slot rest ih =>
      have hslot := heval.settles (List.mem_cons_self ..)
      cases rest with
      | nil => exact hslot
      | cons next rest => exact hslot.bind fun _ t _ ht => ih (heval.tail.calm ht)

theorem settles_conditionOf (form : String) {slot : Slot} (heval : Evaluates m ctx env s slots)
    (hslot : slot ∈ slots) :
    Finishes s (m.conditionOf ctx form slot.item env) :=
  (heval.settles hslot).bind fun _ _ _ _ => Steady.settles _ _

theorem settles_control {form : SpecialForm} (hform : form.isControl = true)
    (hr : env = r.bottom) (heval : Evaluates m ctx env s slots) :
    Finishes s (r.form m ctx home form slots) := by
  subst hr
  have hcondition (form : String) {slot : Slot} (hslot : slot ∈ slots) :=
    settles_conditionOf form heval hslot
  cases form with
  | block => exact settles_blockForm heval
  | paren =>
      change Settles _ _ s (m.parenForm ctx slots r.bottom)
      unfold Machine.parenForm
      split
      · exact heval.settles (List.mem_singleton.mpr rfl)
      · exact Steady.settles _ _
  | ifElse =>
      change Settles _ _ s (m.ifForm ctx slots r.bottom)
      unfold Machine.ifForm
      split
      · refine (hcondition "if" (by simp)).bind fun b t _ ht => ?_
        split
        · exact (heval.calm ht).settles (by simp)
        · exact .pure trivial
      · refine (hcondition "if" (by simp)).bind fun b t _ ht => ?_
        split
        · exact (heval.calm ht).settles (by simp)
        · exact (heval.calm ht).settles (by simp)
      · exact Steady.settles _ _
  | andAlso =>
      change Settles _ _ s (m.andForm ctx slots r.bottom)
      unfold Machine.andForm
      split
      · refine (hcondition "&&" (by simp)).bind fun b t _ ht => ?_
        split
        · have hsecond := settles_conditionOf "&&" (heval.calm ht) (.tail _ (.head _))
          exact hsecond.bind fun _ _ _ _ => .pure trivial
        · exact .pure trivial
      · exact Steady.settles _ _
  | orElse =>
      change Settles _ _ s (m.orForm ctx slots r.bottom)
      unfold Machine.orForm
      split
      · refine (hcondition "||" (by simp)).bind fun b t _ ht => ?_
        split
        · exact .pure trivial
        · have hsecond := settles_conditionOf "||" (heval.calm ht) (.tail _ (.head _))
          exact hsecond.bind fun _ _ _ _ => .pure trivial
      · exact Steady.settles _ _
  | _ => cases hform

/-! ## Code -/

/-- A reading that settles wherever the code and the primitives that it reads do. -/
structure Orderly (r : Reading) : Prop where
  alone {fn : Primitive} {args : List Value} :
    r.admits fn args = true → fn.standsAlone args = true
  within {home : EnvId} {a : Run Value} {s : Store} :
    (∀ t, s.Calm (fun _ => False) t → Finishes t a) →
      Finishes s (r.within home a)

theorem Covers.isArgument {e : Expr} (h : r.Covers s home e) :
    e.isMissing = false ∧ e.isSymbol dotsName = false := by
  cases h with
  | symbol hname =>
      obtain ⟨hdots, -⟩ := isOrdinary_iff.mp hname
      simp [Expr.isMissing, Expr.isSymbol, hdots]
  | _ => exact ⟨rfl, rfl⟩

/-- The name of a pronoun stands for the pronoun. -/
theorem machine_pronoun (hr : r.Ready s) (n : Nat) (p : Pronoun) :
    Settles A (fun v => v = .pronoun p r.mask) s
      ((r.machine n home).eval ctx (.symbol p.name) r.bottom) := by
  cases n with
  | zero => exact .raise _
  | succ n =>
      have hsymbol : r.symbol (r.machine n home) home p.name s = .ok (.pronoun p r.mask) s := by
        have hname : ¬(p.name = dotsName ∨ (Machine.dotsPosition? p.name).isSome = true) := by
          cases p <;> decide
        have hbound : r.bound home p.name s = .ok (.pronoun p r.mask) s := by
          rw [bound, Run.get_bind, hr.vars_pronoun]
          dsimp only
          rw [if_pos ⟨rfl, rfl⟩]
          rfl
        rw [symbol, if_neg hname, Run.bind_of_ok hbound]
        rfl
      refine .of_ok ?_ (.refl s) rfl
      change (if r.bottom = r.bottom then r.step _ _ ctx home (.symbol p.name)
        else r.foreign (n + 1) ctx (.symbol p.name) r.bottom) s = _
      rw [if_pos rfl]
      exact hsymbol

/-- Member access to a pronoun. -/
theorem settles_memberForm (hr : r.Ready s) (hplain : s.isPlain home = true) (n : Nat)
    {p : Pronoun} {target item : Slot} (htarget : target.item = .symbol p.name)
    (hitem : item.item = .symbol name ∨ item.item = .const (.str name))
    (hvalues : ∀ v ∈ r.bindings s home name, v.isPromise = false) :
    Finishes s (r.memberForm (r.machine n home) ctx home [target, item]) := by
  unfold memberForm
  dsimp only
  rw [htarget]
  refine (machine_pronoun hr n p).bind fun v t hv ht => ?_
  subst hv
  have hmember : Finishes t (r.member (r.machine n home) home (.pronoun p r.mask) name) :=
    settles_member (hr.isPlain ht hplain) ((hr.bindings ht hplain).symm ▸ hvalues) _ p
  rcases hitem with hitem | hitem
  · rw [hitem]
    exact hmember
  · rw [hitem]
    exact hmember

/-- A call of a primitive that is covered at all arguments. -/
theorem settles_primitive (hr : r.Ready s) (horderly : r.Orderly) {fn : Primitive} {b : EnvId}
    (hadmits : ∀ args, r.admits fn args = true) (call : Expr)
    (hslots : ∀ slot ∈ slots, r.Covers s home slot.item)
    (heval : Evaluates m ctx r.bottom s slots) :
    Finishes s (r.apply m ctx home (.builtin (.primitive fn) b) call slots) := by
  have hdots : (slots.any fun slot => slot.item.isSymbol dotsName) = false :=
    List.any_eq_false.mpr fun slot hslot => by simp [(hslots slot hslot).isArgument.2]
  have hknown : s.known r.bottom = r.bottom := Store.known_eq_bottom.mpr hr.made
  have hargs := settles_evalArgs call hknown
    (fun slot hslot => (hslots slot hslot).isArgument) heval
  unfold apply
  rw [hdots]
  dsimp only
  rw [if_neg Bool.false_ne_true]
  refine hargs.bind fun args t _ _ => ?_
  rw [if_pos (hadmits _)]
  have hsteady := steady_applyPrimitive (horderly.alone (hadmits args.1)) m ctx args.2 r.bottom
  exact Steady.settles _ t

/-- What is read of covered code comes to an end. -/
theorem settles_machine (horderly : r.Orderly) (n : Nat) {e : Expr} (hr : r.Ready s)
    (hplain : s.isPlain home = true) (h : r.Covers s home e) :
    Finishes s ((r.machine n home).eval ctx e r.bottom) := by
  induction n generalizing s home e with
  | zero => exact .raise _
  | succ n ih =>
      -- Parts of the code are read after others, all of which have left the bindings alone.
      have heval {slots : List Slot} (hslots : ∀ slot ∈ slots, r.Covers s home slot.item) :
          Evaluates (r.machine n home) ctx r.bottom s slots := fun slot hslot t ht =>
        ih (hr.calm ht) (hr.isPlain ht hplain) ((hslots slot hslot).calm hr ht hplain)
      change Finishes s (if r.bottom = r.bottom then r.step _ _ ctx home e
        else r.foreign (n + 1) ctx e r.bottom)
      rw [if_pos rfl]
      cases h with
      | @const _ v hv =>
          cases v with
          | quosure e inner => exact (hv e inner rfl).elim
          | _ => exact .pure trivial
      | quosure hinner h =>
          refine .get ?_
          rw [if_pos hinner]
          exact horderly.within fun t ht =>
            ih (hr.calm ht) (hr.isPlain ht hinner) (h.calm hr ht hinner)
      | symbol hname hvalues => exact settles_symbol hr hplain hname hvalues _
      | control hfn hform hslots =>
          exact .bind_ok (hfn.function hr _) (.refl s) (settles_control hform rfl (heval hslots))
      | member hfn htarget hitem hvalues =>
          exact .bind_ok (hfn.function hr _) (.refl s)
            (settles_memberForm hr hplain n htarget hitem hvalues)
      | primitive hfn hadmits hslots =>
          exact .bind_ok (hfn.function hr _) (.refl s)
            (settles_primitive hr horderly hadmits _ hslots (heval hslots))

/-- What is read of covered code in front of which the mask is put comes to an end. -/
theorem tidy_ends (horderly : r.Orderly) (n : Nat) {e : Expr} (hr : r.Ready s)
    (hplain : s.isPlain home = true) (h : r.Covers s home e) :
    ∃ t, (r.tidy n ctx e home).EndsIn s t := by
  have hset (s : Store) (f : Evaluator → Evaluator) :
      Finishes s
        (modify fun s => s.setEvaluator ctx f : Run PUnit) :=
    .of_ok rfl (.of_eq rfl rfl rfl) trivial
  refine Settles.endsIn (A := fun _ => False) (P := fun _ => True) (.get ?_)
  rw [if_pos hplain]
  refine horderly.within fun t ht => (hset _ _).bind fun _ u _ hu => ?_
  have htu := ht.trans hu
  have hcode : Finishes u ((r.machine n home).eval ctx e r.bottom) :=
    settles_machine horderly n (hr.calm htu) (hr.isPlain htu hplain) (h.calm hr htu hplain)
  refine hcode.attempt.bind fun outcome v _ _ => (hset _ _).bind fun _ w _ _ => ?_
  split
  · split
    · exact .pure trivial
    · exact .raise _
  · exact .resume fun _ _ => trivial

end Reading

end Quasi
