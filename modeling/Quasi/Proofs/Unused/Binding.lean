import Quasi.Proofs.Arguments.Natural
import Quasi.Proofs.Call.Binding
import Quasi.Proofs.Unused.Stores

/-!
# Binding an argument that is not used

Two calls of one closure that differ in one argument promise their arguments alike and match them to
the same formals. Afterwards their stores differ in the code of one promise, which only the formal
of that argument is bound to.
-/

namespace Quasi

open Run (Agrees Respects bind_of_ok)

/-! ## Promises of arguments -/

namespace Machine

section Promised

variable (ctx : EvaluatorId) (env : EnvId)

/-- The store after slots were promised. -/
def promisedIn (s : Store) : List Slot → Store
  | [] => s
  | slot :: rest =>
      promisedIn (s.addPromise ⟨slot.item, some env, some ctx, false, .unforced⟩) rest

theorem promiseArgs_apply {slots : List Slot}
    (hslots : ∀ slot ∈ slots, slot.item.isMissing = false ∧ slot.item.isSymbol dotsName = false)
    (s : Store) : promiseArgs ctx env slots s =
      .ok (Reading.awaited s.promises.size slots) (promisedIn ctx env s slots) := by
  induction slots generalizing s with
  | nil => rfl
  | cons slot rest ih =>
      obtain ⟨⟨hmissing, hdots⟩, hrest⟩ := List.forall_mem_cons.mp hslots
      have hnew : Run.newPromise ⟨slot.item, some env, some ctx, false, .unforced⟩ s =
        .ok ⟨s.promises.size⟩ (s.addPromise ⟨slot.item, some env, some ctx, false, .unforced⟩) := rfl
      unfold promiseArgs
      rw [if_neg (by simp [hmissing]), if_neg (by simp [hdots]), bind_of_ok hnew,
        bind_of_ok (ih hrest _), Store.size_addPromise]
      rfl

theorem promisedIn_append (s : Store) (slots more : List Slot) :
    promisedIn ctx env s (slots ++ more) = promisedIn ctx env (promisedIn ctx env s slots) more := by
  induction slots generalizing s with
  | nil => rfl
  | cons slot rest ih => exact ih _

theorem promisedIn_grows (s : Store) (slots : List Slot) : s.Grows (promisedIn ctx env s slots) := by
  induction slots generalizing s with
  | nil => exact .refl s
  | cons slot rest ih => exact (Store.Grows.addPromise s _).trans (ih _)

theorem size_promisedIn (s : Store) (slots : List Slot) :
    (promisedIn ctx env s slots).promises.size = s.promises.size + slots.length := by
  induction slots generalizing s with
  | nil => rfl
  | cons slot rest ih =>
      rw [promisedIn, ih, Store.size_addPromise, List.length_cons]
      omega

theorem eventsOf_promisedIn (s : Store) (slots : List Slot) (p : PromiseId) :
    (promisedIn ctx env s slots).eventsOf p = s.eventsOf p := by
  induction slots generalizing s with
  | nil => rfl
  | cons slot rest ih => exact (ih _).trans (Store.eventsOf_capture ..)

theorem evaluators_promisedIn (s : Store) (slots : List Slot) :
    (promisedIn ctx env s slots).evaluators = s.evaluators := by
  induction slots generalizing s with
  | nil => rfl
  | cons slot rest ih => exact (ih _).trans (s.evaluators_addPromise _)

theorem log_promisedIn (s : Store) (slots : List Slot) :
    (promisedIn ctx env s slots).log = s.log := by
  induction slots generalizing s with
  | nil => rfl
  | cons slot rest ih =>
      refine (ih _).trans ?_
      rw [Store.addPromise, Store.capture_eq]

theorem scopes_promisedIn (s : Store) (slots : List Slot) :
    (promisedIn ctx env s slots).scopes = s.scopes := by
  induction slots generalizing s with
  | nil => rfl
  | cons slot rest ih => exact (ih _).trans (s.scopes_addPromise _)

variable {env}

theorem promise_promisedIn {s : Store} (henv : s.known env = env) {slots : List Slot} {j : Nat}
    {slot : Slot} (h : slots[j]? = some slot) :
    (promisedIn ctx env s slots).promise ⟨s.promises.size + j⟩ =
      ⟨slot.item, some env, some ctx, false, .unforced⟩ := by
  induction slots generalizing s j with
  | nil => cases h
  | cons first rest ih =>
      let promise : Promise := ⟨first.item, some env, some ctx, false, .unforced⟩
      cases j with
      | zero =>
          cases h
          have hgrows := promisedIn_grows ctx env (s.addPromise promise) rest
          have hlast : (s.addPromise promise).promise ⟨s.promises.size⟩ = promise := by
            rw [Store.promise_addPromise, if_pos rfl]
            exact congrArg (fun env => { promise with env := some env }) henv
          exact (hgrows.promise _ (s.lt_size_addPromise promise)).trans hlast
      | succ j =>
          have hnext := ih (s := s.addPromise promise) (by simpa using henv) h
          rw [Store.size_addPromise, Nat.add_right_comm] at hnext
          exact hnext

end Promised

end Machine

/-! ## Calls with one argument left open -/

/-- The slots of a call around one argument, and the tag of that argument. -/
structure Around where
  before : List Slot
  tag : Option String
  after : List Slot

namespace Around

variable (call : Around)

/-- The slots with an expression for the argument. -/
def slots (e : Expr) : List Slot := call.before ++ ⟨call.tag, e⟩ :: call.after

def tags : List (Option String) :=
  call.before.map Tagged.tag ++ call.tag :: call.after.map Tagged.tag

theorem tag_slots (e : Expr) : (call.slots e).map Tagged.tag = call.tags := by
  simp [slots, tags]

theorem slots_argument (e : Expr) : (call.slots e)[call.before.length]? = some ⟨call.tag, e⟩ := by
  simp [slots]

end Around

/-- Whether an expression makes a promise where it is an argument. -/
def Expr.isPromised (e : Expr) : Bool := !e.isMissing && !e.isSymbol dotsName

/-- An argument of a call that nothing uses. The name of the formal that it is for occurs neither in
the body of the closure nor in a default, and the chains of the caller and of the closure bind
promises only that are not waiting to be forced. -/
structure Unused (s : Store) (c : ClosureId) (caller : EnvId) (call : Around) (x : String) :
    Prop where
  whole : s.Whole
  known_caller : s.known caller = caller
  known_home : s.known (s.closure c).env = (s.closure c).env
  settled {env : EnvId} {name : String} {p : PromiseId} :
    s.Leads caller env ∨ s.Leads (s.closure c).env env → s.slot? env name = some (.promise p) →
      p.index < s.promises.size ∧ (s.promise p).progress.isIdle = false
  formals : ((s.closure c).formals.map (·.1)).Nodup
  body : x ∉ (s.closure c).body.symbolNames
  defaults : ∀ formal ∈ (s.closure c).formals, x ∉ formal.2.symbolNames
  others : ∀ slot ∈ call.before ++ call.after, slot.item.isPromised = true
  isFor {partialNames : Bool} : s.settings.partialMatching = .ok partialNames →
    IsFor ((s.closure c).formals.map (·.1)) partialNames call.tags call.before.length x

namespace Spare

variable (sp : Spare)

/-- Stores in which the arguments of the call are being bound, with one argument and with the
other. -/
inductive Bound (e : Expr) : Store → Store → Prop where
  | intro {t : Store} (hgrows : sp.before.Grows t)
      (hscope : sp.before.scopes.size ≤ sp.scope ∧ sp.scope < t.scopes.size)
      (hparent : (t.scope sp.scope).parent = sp.home)
      (hbinds : ∀ name p, name ≠ sp.formal →
        (t.scope sp.scope).vars.get? name = some (.promise p) → sp.Open p)
      (hkeeps : sp.Keeps t) (hevaluators : t.evaluators = sp.before.evaluators)
      (hlog : t.log = sp.before.log) :
      Bound e (sp.view e sp.before.evaluators sp.before.log t) t

variable {sp} {e : Expr} {s t : Store}

namespace Bound

/-- A name is bound. Only the formal may be bound to a promise that is not to be forced. -/
theorem setVars (h : sp.Bound e s t) {name : String} {v : Value}
    (hv : name ≠ sp.formal → ∀ p, v = .promise p → sp.Open p) :
    sp.Bound e (s.setVars (.scope sp.scope) (·.set name v))
      (t.setVars (.scope sp.scope) (·.set name v)) := by
  cases h with
  | intro hgrows hscope hparent hbinds hkeeps hevaluators hlog =>
    have hset := Machine.scope_setVars hscope.2 (·.set name v)
    refine .intro (t := t.setVars (.scope sp.scope) (·.set name v)) (hgrows.setVars hscope.1 _)
      ⟨hscope.1, Nat.lt_of_lt_of_eq hscope.2 Array.size_modify.symm⟩ (by rw [hset, hparent])
      (fun other p hother hp => ?_) (hkeeps.of_same rfl rfl) hevaluators hlog
    rw [hset] at hp
    by_cases hname : other = name
    · subst hname
      rw [Bindings.get?_set_self] at hp
      exact hv hother p (Option.some.inj hp)
    · rw [Bindings.get?_set_of_ne _ _ hname] at hp
      exact hbinds other p hother hp

/-- A default is promised. -/
theorem addPromise (h : sp.Bound e s t) (ctx : EvaluatorId) {default : Expr}
    (hdefault : sp.formal ∉ default.symbolNames) :
    sp.Bound e (s.addPromise ⟨default, some (.scope sp.scope), some ctx, true, .unforced⟩)
      (t.addPromise ⟨default, some (.scope sp.scope), some ctx, true, .unforced⟩) := by
  cases h with
  | intro hgrows hscope hparent hbinds hkeeps hevaluators hlog =>
    let promise : Promise := ⟨default, some (.scope sp.scope), some ctx, true, .unforced⟩
    have hkeeps' : sp.Keeps (t.addPromise promise) := hkeeps.addPromise fun env henv => by
      rw [Option.map_some, Store.known_eq_scope.mpr hscope.2, Option.some.injEq] at henv
      exact .inr ⟨henv.symm, hdefault⟩
    rw [addPromise_view hkeeps.index_lt]
    refine .intro (hgrows.trans (.addPromise t promise)) (by simpa using hscope)
      (by simpa using hparent) (by simpa using hbinds) hkeeps' (by simpa using hevaluators) ?_
    rw [Store.addPromise, Store.capture_eq]
    exact hlog

theorem promise (h : sp.Bound e s t) {p : PromiseId} (hp : p ≠ sp.promise) :
    s.promise p = t.promise p := by
  cases h
  exact promise_view hp

theorem size_eq (h : sp.Bound e s t) : s.promises.size = t.promises.size := by
  cases h
  exact Array.size_modify

/-- A promise that is made next may be forced. -/
theorem open_next (h : sp.Bound e s t) : sp.Open ⟨t.promises.size⟩ := by
  cases h with
  | intro hgrows hscope hparent hbinds hkeeps hevaluators hlog =>
    have hsize := hkeeps.size
    refine ⟨fun hsame => ?_, fun hold => absurd hold (by simpa using hsize)⟩
    have hindex := hkeeps.index_lt
    rw [← hsame] at hindex
    exact Nat.lt_irrefl _ hindex

end Bound

/-- Formals are bound alike. -/
theorem respects_bindFormals (ctx : EvaluatorId) {matched : Matched Value}
    {formals : List (String × Expr)}
    (hformals : ∀ formal ∈ formals, sp.formal ∉ formal.2.symbolNames ∧ (formal.1 ≠ sp.formal →
      ∀ p, Machine.boundTo? matched formal.1 formal.2 = some (.promise p) → sp.Open p)) :
    Respects (sp.Bound e) (Machine.bindFormals ctx (.scope sp.scope) matched formals) := by
  induction formals with
  | nil => exact ⟨.pure _⟩
  | cons formal rest ih =>
      obtain ⟨name, default⟩ := formal
      rw [List.forall_mem_cons] at hformals
      obtain ⟨⟨hdefault, hopen⟩, hrest⟩ := hformals
      rw [Machine.bindFormals_cons]
      cases hbound : Machine.boundTo? matched name default with
      | some v =>
          have hdefine : Respects (sp.Bound e) (Run.define (.scope sp.scope) name v) :=
            .of_value (v := fun _ => ⟨⟩) (Machine.define_scope sp.scope name v) (fun _ _ _ => rfl)
              fun s t h => h.setVars fun hname p hp => hopen hname p (hp ▸ hbound)
          exact ⟨hdefine.agrees.bind fun _ => (ih hrest).agrees⟩
      | none =>
          have hpromise : Respects (sp.Bound e)
              (Machine.bindFormals.bindDefault ctx (.scope sp.scope) name default) :=
            .of_value (v := fun _ => ⟨⟩) (fun _ => rfl) (fun _ _ _ => rfl) fun s t h => by
              rw [h.size_eq]
              exact (h.addPromise ctx hdefault).setVars fun _ p hp => by
                cases hp
                exact h.open_next
          exact ⟨hpromise.agrees.bind fun _ => (ih hrest).agrees⟩

end Spare

namespace Unused

/-- The promise of the argument and the environments of the call. -/
def spare (s : Store) (ctx : EvaluatorId) (c : ClosureId) (caller : EnvId) (call : Around)
    (x : String) (e : Expr) : Spare where
  formal := x
  promise := ⟨s.promises.size + call.before.length⟩
  argument := ⟨e, some caller, some ctx, false, .unforced⟩
  scope := s.scopes.size
  caller := caller
  home := (s.closure c).env
  before := s

variable {s t : Store} {ctx : EvaluatorId} {c : ClosureId} {caller : EnvId} {call : Around}
  {x : String} {e e' : Expr}

theorem isPromised_slots (h : Unused s c caller call x) (he : e.isPromised = true) :
    ∀ slot ∈ call.slots e, slot.item.isMissing = false ∧ slot.item.isSymbol dotsName = false := by
  intro slot hslot
  have hpromised : slot.item.isPromised = true := by
    rcases List.mem_append.mp hslot with hbefore | hrest
    · exact h.others slot (List.mem_append_left _ hbefore)
    · rcases List.mem_cons.mp hrest with rfl | hafter
      · exact he
      · exact h.others slot (List.mem_append_right _ hafter)
  simpa [Expr.isPromised] using hpromised

/-! ## Both stores with promised arguments -/

theorem awaited_eq (n j : Nat) (slots : List Slot) : Reading.awaited (n + j) slots =
    ((slots.map Tagged.tag).zipIdx j).map fun (tag, i) => ⟨tag, .promise ⟨n + i⟩⟩ := by
  induction slots generalizing j with
  | nil => rfl
  | cons slot rest ih =>
      rw [Reading.awaited, Nat.add_assoc, ih]
      rfl

/-- The promises of the arguments are the same, whatever the argument is. -/
theorem awaited_slots (n : Nat) (call : Around) (e : Expr) : Reading.awaited n (call.slots e) =
    (positionsOf call.tags).map (Tagged.map fun j => .promise ⟨n + j⟩) := by
  have hawaited := awaited_eq n 0 (call.slots e)
  rw [Nat.add_zero, call.tag_slots] at hawaited
  rw [hawaited, positionsOf, List.map_map]
  rfl

/-- The store in which the arguments were promised. -/
def promised (s : Store) (ctx : EvaluatorId) (caller : EnvId) (call : Around) (e : Expr) : Store :=
  Machine.promisedIn ctx caller s (call.slots e)

theorem promisedIn_view {sp : Spare} {ev : Array Evaluator} {log : Array LogRecord}
    (ht : sp.promise.index < t.promises.size) (slots : List Slot) :
    Machine.promisedIn ctx caller (sp.view e ev log t) slots =
      sp.view e ev log (Machine.promisedIn ctx caller t slots) := by
  induction slots generalizing t with
  | nil => rfl
  | cons slot rest ih =>
      have hnext := Nat.lt_trans ht
        (t.lt_size_addPromise ⟨slot.item, some caller, some ctx, false, .unforced⟩)
      rw [Machine.promisedIn, Spare.addPromise_view ht, ih hnext]
      rfl

theorem promised_view (s : Store) (ctx : EvaluatorId) (c : ClosureId) (caller : EnvId)
    (call : Around) (x : String) (e e' : Expr) : promised s ctx caller call e =
    (spare s ctx c caller call x e').view e s.evaluators s.log (promised s ctx caller call e') := by
  let sp := spare s ctx c caller call x e'
  let t := Machine.promisedIn ctx caller s call.before
  let t' := t.addPromise ⟨e', some caller, some ctx, false, .unforced⟩
  have hindex : sp.promise.index = t.promises.size :=
    (Machine.size_promisedIn ctx caller s call.before).symm
  have hargument : t.addPromise ⟨e, some caller, some ctx, false, .unforced⟩ =
      sp.view e s.evaluators s.log t' := by
    have hevaluators : t.evaluators = s.evaluators := Machine.evaluators_promisedIn ..
    have hlog : t.log = s.log := Machine.log_promisedIn ..
    rw [← hevaluators, ← hlog]
    simp only [t', Store.addPromise, Store.capture_eq, Spare.view, hindex, modify_push_last]
  have hview : promised s ctx caller call e =
      Machine.promisedIn ctx caller (sp.view e s.evaluators s.log t') call.after := by
    rw [promised, Around.slots, Machine.promisedIn_append, ← hargument]
    rfl
  have ht' : sp.promise.index < t'.promises.size := hindex ▸ t.lt_size_addPromise _
  rw [hview, promisedIn_view ht', promised, Around.slots, Machine.promisedIn_append]
  rfl

/-- The promises of the arguments are new and are promises of code of the caller. -/
theorem keeps_promised (h : Unused s c caller call x) :
    (spare s ctx c caller call x e').Keeps (promised s ctx caller call e') := by
  have hgrows := Machine.promisedIn_grows ctx caller s (call.slots e')
  have hsize := Machine.size_promisedIn ctx caller s (call.slots e')
  have hargument := call.slots_argument e'
  have hlt : call.before.length < (call.slots e').length := (List.getElem?_eq_some_iff.mp hargument).1
  exact {
    index_lt := by
      rw [promised, hsize]
      exact Nat.add_lt_add_left hlt _
    argument := Machine.promise_promisedIn ctx h.known_caller hargument
    events := Machine.eventsOf_promisedIn ..
    size := hgrows.promises
    settled := fun hp hidle => by
      rw [promised, hgrows.promise _ hp]
      exact hidle
    code := fun {p env} hp _ henv => by
      obtain ⟨j, hj⟩ := Nat.exists_eq_add_of_le hp
      cases hslot : (call.slots e')[j]? with
      | some slot =>
          have hpromise := Machine.promise_promisedIn ctx h.known_caller hslot
          have hindex : p = ⟨s.promises.size + j⟩ := congrArg PromiseId.mk hj
          rw [promised, hindex, hpromise] at henv
          exact .inl (Option.some.inj henv).symm
      | none =>
          have hlength := List.getElem?_eq_none_iff.mp hslot
          have hlast : (promised s ctx caller call e').promises.size ≤ p.index := by
            rw [promised, hsize, hj]
            exact Nat.add_le_add_left hlength _
          rw [Store.promise, Array.getD_eq_getD_getElem?, Array.getElem?_eq_none hlast] at henv
          cases henv }

/-- The store in which the arguments are bound: the environment of the call is made. -/
def opening (s : Store) (ctx : EvaluatorId) (c : ClosureId) (caller : EnvId) (call : Around)
    (e : Expr) : Store := Machine.opened (promised s ctx caller call e) c

theorem opening_grows : s.Grows (opening s ctx c caller call e) :=
  (Machine.promisedIn_grows ..).trans (Machine.opened_grows ..)

theorem bound_opening (h : Unused s c caller call x) (ctx : EvaluatorId) (e e' : Expr) :
    (spare s ctx c caller call x e').Bound e (opening s ctx c caller call e)
      (opening s ctx c caller call e') := by
  let t := promised s ctx caller call e'
  have hgrows : s.Grows t := Machine.promisedIn_grows ..
  have hscopes : t.scopes = s.scopes := Machine.scopes_promisedIn ..
  have hscope : (opening s ctx c caller call e').scope s.scopes.size =
      ⟨[], (s.closure c).env, none⟩ := by
    rw [opening, ← hscopes, Machine.scope_opened, hgrows.closure, hgrows.known h.known_home]
  rw [opening, promised_view s ctx c caller call x e e']
  refine .intro (t := opening s ctx c caller call e') opening_grows ⟨Nat.le_refl _, ?_⟩
    (congrArg Scope.parent hscope) (fun name p _ hp => ?_)
    ((h.keeps_promised.use _ _).of_same rfl rfl) (Machine.evaluators_promisedIn ..)
    (Machine.log_promisedIn ..)
  · rw [opening, Machine.size_scopes_opened, hscopes]
    exact Nat.lt_succ_self _
  · rw [show (spare s ctx c caller call x e').scope = s.scopes.size from rfl, hscope] at hp
    cases hp

/-! ## Matching -/

theorem bound_of_boundTo? {matched : Matched Value} {name : String} {default : Expr}
    {p : PromiseId} (h : Machine.boundTo? matched name default = some (.promise p)) :
    matched.bound.get? name = some (.promise p) := by
  unfold Machine.boundTo? at h
  split at h
  · cases h
  · split at h <;> cases h
    assumption

/-- The arguments are matched to the formals of the closure. -/
def matching (s : Store) (ctx : EvaluatorId) (c : ClosureId) (caller : EnvId) (call : Around)
    (note : Option Expr) (e : Expr) : Run (Matched Value) :=
  Machine.matchFormals ((s.closure c).formals.map (·.1))
    (Machine.describe (opening s ctx c caller call e))
    (Reading.awaited s.promises.size (call.slots e)) note

/-- What the arguments match, or the failure that they do not, does not depend on the argument. -/
theorem matching_cases (h : Unused s c caller call x) (ctx : EvaluatorId) :
    (∃ matched : Matched Value,
      (∀ {name default p}, name ≠ x →
        Machine.boundTo? matched name default = some (.promise p) →
          s.promises.size ≤ p.index ∧ p.index ≠ s.promises.size + call.before.length) ∧
      ∀ note e, matching s ctx c caller call note e (opening s ctx c caller call e) =
        .ok matched (opening s ctx c caller call e)) ∨
    ∃ (cause : Cause) (own : Bool), ∀ note e,
      matching s ctx c caller call note e (opening s ctx c caller call e) =
        Run.failWith cause (if own then note else none) (opening s ctx c caller call e) := by
  let names := (s.closure c).formals.map (·.1)
  let g : Nat → Value := fun j => .promise ⟨s.promises.size + j⟩
  have hsettings (e : Expr) : (opening s ctx c caller call e).settings = s.settings :=
    opening_grows.settings
  have hpositions (e : Expr) : Reading.awaited s.promises.size (call.slots e) =
      (positionsOf call.tags).map (Tagged.map g) := awaited_slots _ call e
  cases hnames : s.settings.partialMatching with
  | error fault =>
      refine .inr ?_
      cases hexact : Matching.exactRound names []
        (Matching.number ((positionsOf call.tags).map (Tagged.map g))) with
      | error fault =>
          refine ⟨.arity fault, true, fun note e => ?_⟩
          rw [matching, Machine.matchFormals, hpositions, hexact]
          rfl
      | ok state =>
          refine ⟨.host (.value fault.message), false, fun note e => ?_⟩
          rw [matching, Machine.matchFormals, hpositions, hexact, pure_bind, Run.get_bind,
            hsettings, hnames]
          rfl
  | ok partialNames =>
      have hfor := h.isFor hnames
      let describe := Machine.describe (opening s ctx c caller call .missing) ∘ g
      have hmatch (e : Expr) : matchArguments names
          (Machine.describe (opening s ctx c caller call e)) partialNames
          (Reading.awaited s.promises.size (call.slots e)) =
            (matchArguments names describe partialNames (positionsOf call.tags)).map
              (Matched.map g) := by
        rw [hpositions, matchArguments_map]
        refine congrArg (Except.map _) (hfor.unshown fun j hj => ?_)
        have hother : (⟨s.promises.size + j⟩ : PromiseId) ≠ ⟨s.promises.size + call.before.length⟩ :=
          fun hsame => hj (Nat.add_left_cancel (congrArg PromiseId.index hsame))
        exact congrArg (fun promise : Promise => promise.code.deparse)
          ((h.bound_opening ctx e .missing).promise hother)
      have hrun (note : Option Expr) (e : Expr) := Machine.matchFormals_eq
        ((congrArg Settings.partialMatching (hsettings e)).trans hnames) names
        (Machine.describe (opening s ctx c caller call e))
        (Reading.awaited s.promises.size (call.slots e)) note
      cases hmatched : matchArguments names describe partialNames (positionsOf call.tags) with
      | error fault =>
          refine .inr ⟨.arity fault, true, fun note e => (hrun note e).trans ?_⟩
          rw [hmatch, hmatched]
          rfl
      | ok matched =>
          refine .inl ⟨matched.map g, fun {name default p} hname hp => ?_, fun note e =>
            (hrun note e).trans ?_⟩
          · have hbound := bound_of_boundTo? hp
            rw [Matched.map, Bindings.get?_mapItems] at hbound
            obtain ⟨j, hj, hjp⟩ := Option.map_eq_some_iff.mp hbound
            cases hjp
            refine ⟨Nat.le_add_right _ _, fun hk => hname ?_⟩
            have hj' := Nat.add_left_cancel hk
            exact (bound_injective h.formals hmatched (hfor.bound hmatched) (hj' ▸ hj)).symm
          · rw [hmatch, hmatched]
            rfl

/-! ## Binding -/

theorem bindFormals_ok (ctx : EvaluatorId) (matched : Matched Value) (formals : List (String × Expr)) (i : Nat)
    (t : Store) : ∃ u, Machine.bindFormals ctx (.scope i) matched formals t = .ok ⟨⟩ u := by
  induction formals generalizing t with
  | nil => exact ⟨t, rfl⟩
  | cons formal rest ih =>
      obtain ⟨name, default⟩ := formal
      rw [Machine.bindFormals_cons]
      cases Machine.boundTo? matched name default with
      | some v => exact ih _
      | none => exact ih _

/-- The arguments of the call are bound. -/
def binding (s : Store) (ctx : EvaluatorId) (c : ClosureId) (caller : EnvId) (call : Around)
    (note e : Expr) : EStateM.Result Interrupt Store (Expr × EnvId) :=
  Machine.bindClosure ctx c (Reading.awaited s.promises.size (call.slots e)) note
    (promised s ctx caller call e)

/-- The arguments are bound alike, or the same failure is noted not to have bound them. -/
theorem binding_cases (h : Unused s c caller call x) (ctx : EvaluatorId) (e' : Expr) :
    (∃ t', (∀ note, binding s ctx c caller call note e' =
        .ok ((s.closure c).body, .scope s.scopes.size) t') ∧
      ∀ note e, ∃ t, binding s ctx c caller call note e =
          .ok ((s.closure c).body, .scope s.scopes.size) t ∧
        (spare s ctx c caller call x e').Bound e t t') ∨
    ∃ (cause : Cause) (own : Bool), ∀ note e, binding s ctx c caller call note e =
      Run.failWith cause (if own then some note else none) (opening s ctx c caller call e) := by
  let sp := spare s ctx c caller call x e'
  have hscopes (e : Expr) : (promised s ctx caller call e).scopes = s.scopes :=
    Machine.scopes_promisedIn ..
  have hclosure (e : Expr) : (promised s ctx caller call e).closure c = s.closure c :=
    (Machine.promisedIn_grows ..).closure c
  have hbinding (note e : Expr) : binding s ctx c caller call note e = (do
      let matched ← matching s ctx c caller call (some note) e
      Machine.bindFormals ctx (.scope s.scopes.size) matched (s.closure c).formals
      pure ((s.closure c).body, .scope s.scopes.size) : Run (Expr × EnvId))
        (opening s ctx c caller call e) := by
    rw [binding, Machine.bindClosure_opened, hclosure, hscopes]
    rfl
  rcases h.matching_cases ctx with ⟨matched, hopen, hmatched⟩ | ⟨cause, own, hfailed⟩
  · refine .inl ?_
    have hbind (e : Expr) : Respects (sp.Bound e)
        (Machine.bindFormals ctx (.scope s.scopes.size) matched (s.closure c).formals) :=
      Spare.respects_bindFormals ctx fun formal hformal =>
        ⟨h.defaults formal hformal, fun hname p hp =>
          have hplace := hopen hname hp
          ⟨fun hsame => hplace.2 (congrArg PromiseId.index hsame),
            fun hold => absurd hplace.1 (Nat.not_le_of_lt hold)⟩⟩
    obtain ⟨t', ht'⟩ := bindFormals_ok ctx matched (s.closure c).formals s.scopes.size
      (opening s ctx c caller call e')
    refine ⟨t', fun note => ?_, fun note e => ?_⟩
    · rw [hbinding, bind_of_ok (hmatched (some note) e'), bind_of_ok ht']
      rfl
    · have hagrees := (hbind e).agrees _ _ (h.bound_opening ctx e e')
      rw [ht'] at hagrees
      obtain ⟨t, ht, hbound⟩ := hagrees.of_value
      refine ⟨t, ?_, hbound⟩
      rw [hbinding, bind_of_ok (hmatched (some note) e), bind_of_ok ht]
      rfl
  · refine .inr ⟨cause, own, fun note e => ?_⟩
    rw [hbinding]
    exact Run.bind_of_error (hfailed (some note) e)

end Unused

end Quasi
