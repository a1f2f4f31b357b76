import Quasi.Proofs.Chain.Leads
import Quasi.Proofs.Promise.Flow
import Quasi.Proofs.Tidy.Primitive
import Quasi.Proofs.Unused.Regular

/-!
# Stores that differ in an argument

Two stores in which the same call is under way, with different code in the promise of one argument.
As long as nothing comes by that promise they stay as they are to each other. The body of the call
may hold any names but that of the formal, and the arguments any names at all, because they are
evaluated where the call was made.
-/

namespace Quasi

open Run (Agrees Respects)

theorem modify_comm {α : Type} (xs : Array α) {i j : Nat} (hij : i ≠ j) (f g : α → α) :
    (xs.modify i f).modify j g = (xs.modify j g).modify i f := by
  refine Array.ext_getElem? fun k => ?_
  simp only [Array.getElem?_modify]
  by_cases hk : i = k
  · subst hk
    rw [if_neg hij.symm, if_neg hij.symm]
  · rw [if_neg hk, if_neg hk]

theorem modify_push {α : Type} (xs : Array α) {i : Nat} (hi : i < xs.size) (f : α → α) (a : α) :
    (xs.push a).modify i f = (xs.modify i f).push a := by
  refine Array.ext_getElem? fun k => ?_
  simp only [Array.getElem?_modify, Array.getElem?_push, Array.size_modify]
  by_cases hk : k = xs.size
  · rw [if_neg (by omega), if_pos hk, if_pos hk]
  · rw [if_neg hk, if_neg hk]

theorem modify_push_last {α : Type} (xs : Array α) (f : α → α) (a : α) :
    (xs.push a).modify xs.size f = xs.push (f a) := by
  refine Array.ext_getElem? fun k => ?_
  simp only [Array.getElem?_modify, Array.getElem?_push]
  by_cases hk : k = xs.size
  · rw [if_pos hk.symm, if_pos hk, if_pos hk, Option.map_some]
  · rw [if_neg fun h => hk h.symm, if_neg hk, if_neg hk]

/-! ## Stores with the same environments -/

namespace Store

/-- Two stores that have the same environments. -/
structure SamePlaces (s t : Store) : Prop where
  scopes : t.scopes = s.scopes
  masks : t.masks = s.masks

namespace SamePlaces

variable {s t : Store} (h : s.SamePlaces t)
include h

theorem scope : t.scope = s.scope := funext fun i => by simp only [Store.scope, h.scopes]

theorem mask : t.mask = s.mask := funext fun m => by simp only [Store.mask, h.masks]

theorem known : t.known = s.known :=
  funext fun e => by cases e <;> simp only [Store.known, h.scopes, h.masks]

theorem parent? : t.parent? = s.parent? :=
  funext fun e => by cases e <;> simp only [Store.parent?, h.scope, h.mask]

theorem slot? : t.slot? = s.slot? := by
  funext e name
  exact slot?_congr h.scope (fun _ => by rw [h.mask]) (fun _ => by rw [h.mask]) e name

theorem chain : t.chain = s.chain := by
  funext e
  rw [Store.chain, Store.chain, environmentCount, environmentCount, h.scopes, h.masks]
  exact walk_eq_iff.mpr (fun x _ => by rw [h.parent?]) _

theorem names (e : EnvId) : t.names e = s.names e :=
  names_congr h.scope (fun _ => by rw [h.mask]) (fun _ => by rw [h.mask]) e

theorem dataNames (m : MaskId) : t.dataNames m = s.dataNames m :=
  dataNames_congr h.scope (fun _ => by rw [h.mask]) (fun _ => by rw [h.mask]) m

end SamePlaces

/-- An environment that exists is the same after a mask was made. -/
theorem addMask_known {s : Store} {e : EnvId} (he : s.known e = e) (mask : Mask) :
    (s.addMask mask).known e = e ∧ (s.addMask mask).parent? e = s.parent? e ∧
      (s.addMask mask).slot? e = s.slot? e := by
  have hmasks : s.masks.size ≤ (s.addMask mask).masks.size := by simp [Store.addMask]
  have hscopes : s.scopes.size ≤ (s.addMask mask).scopes.size := Nat.le_refl _
  have hknown : (s.addMask mask).known e = e := known_mono hscopes hmasks he
  have hold {m : MaskId} (hm : m.index < s.masks.size) : (s.addMask mask).mask m = s.mask m := by
    rw [mask_addMask, if_neg (Nat.ne_of_lt hm)]
  refine ⟨hknown, ?_, funext fun name => ?_⟩
  · cases e with
    | empty | scope i => rfl
    | bottom m => simp only [Store.parent?, hold (known_eq_bottom.mp he)]
  · cases e with
    | empty | scope i => rfl
    | bottom m =>
        have hm := known_eq_bottom.mp he
        exact maskSlot?_congr (s := s) (t := s.addMask mask) rfl
          (fun k hk => by rw [hold (Nat.lt_of_le_of_lt hk hm)])
          (fun k hk => by rw [hold (Nat.lt_of_le_of_lt hk hm)]) name

end Store

/-! ## Logs -/

/-- Two records that are the same, unless both are about details. -/
def LogRecord.Alike (r r' : LogRecord) : Prop := r = r' ∨ r.level = .debug ∧ r'.level = .debug

/-- Two logs that differ in the texts of details only. -/
def LogsAlike (log log' : Array LogRecord) : Prop :=
  List.Forall₂ LogRecord.Alike log.toList log'.toList

theorem LogsAlike.refl (log : Array LogRecord) : LogsAlike log log :=
  List.forall₂_same.mpr fun _ _ => .inl rfl

theorem LogsAlike.push {log log' : Array LogRecord} (h : LogsAlike log log') {r r' : LogRecord}
    (hr : r.Alike r') : LogsAlike (log.push r) (log'.push r') := by
  rw [LogsAlike, Array.toList_push, Array.toList_push]
  exact List.rel_append h (.cons hr .nil)

/-- Evaluators with the same global environments. -/
def SameGlobals (ev ev' : Array Evaluator) : Prop :=
  ∀ i, (ev.getD i default).globalEnv = (ev'.getD i default).globalEnv

/-! ## An argument that is not used -/

/-- A call with an argument that nothing uses: the formal that the argument is for, the promise that
was made of it, the environment of the call, that of its caller and that of the closure, and the
store in which the call was made. -/
structure Spare where
  formal : String
  promise : PromiseId
  argument : Promise
  scope : Nat
  caller : EnvId
  home : EnvId
  before : Store

namespace Spare

variable (sp : Spare)

/-- The environments on the chains of the caller and of the closure. -/
def Old (e : EnvId) : Prop := sp.before.Leads sp.caller e ∨ sp.before.Leads sp.home e

/-- The promises that may be forced: new ones, and those that have come to an outcome. -/
def Open (p : PromiseId) : Prop :=
  p ≠ sp.promise ∧
    (p.index < sp.before.promises.size → (sp.before.promise p).progress.isIdle = false)

/-- The code that may be evaluated: that of arguments, and without the formal that of the call. -/
def Reads (e : Expr) (env : EnvId) : Prop :=
  env = sp.caller ∨ env = .scope sp.scope ∧ sp.formal ∉ e.symbolNames

/-- The environments of the call exist, and only the formal is bound to promises that must not be
forced. -/
structure Places (t : Store) : Prop where
  known {e : EnvId} : sp.Old e ∨ e = .scope sp.scope → t.known e = e
  parent {e p : EnvId} : sp.Old e ∨ e = .scope sp.scope → t.parent? e = some p → sp.Old p
  binds {e : EnvId} {name : String} {p : PromiseId} :
    sp.Old e ∨ e = .scope sp.scope ∧ name ≠ sp.formal → t.slot? e name = some (.promise p) →
      sp.Open p

/-- The promise of the argument waits to be forced, promises that had come to an outcome did so for
good, and those that were made since are promises of code that may be evaluated. -/
structure Keeps (t : Store) : Prop where
  index_lt : sp.promise.index < t.promises.size
  argument : t.promise sp.promise = sp.argument
  events : t.eventsOf sp.promise = sp.before.eventsOf sp.promise
  size : sp.before.promises.size ≤ t.promises.size
  settled {p : PromiseId} : p.index < sp.before.promises.size →
    (sp.before.promise p).progress.isIdle = false → (t.promise p).progress.isIdle = false
  code {p : PromiseId} {env : EnvId} : sp.before.promises.size ≤ p.index → p ≠ sp.promise →
    (t.promise p).env = some env → sp.Reads (t.promise p).code env

/-- A store with other code in the promise of the argument. -/
def view (e : Expr) (ev : Array Evaluator) (log : Array LogRecord) (t : Store) : Store :=
  { t with
    promises := t.promises.modify sp.promise.index fun p => { p with code := e }
    evaluators := ev
    log := log }

/-- Stores in which the body of the call is evaluated, with one argument and with the other. -/
inductive Related (e : Expr) (ev ev' : Array Evaluator) : Store → Store → Prop where
  | intro {t : Store} {log : Array LogRecord} (hplaces : sp.Places t) (hkeeps : sp.Keeps t)
      (hevaluators : t.evaluators = ev') (hlog : LogsAlike log t.log) :
      Related e ev ev' (sp.view e ev log t) t

variable {sp} {e : Expr} {ev ev' : Array Evaluator} {log : Array LogRecord}
  {s t u : Store} {env : EnvId} {p : PromiseId}

/-! ## Environments -/

namespace Places

theorem of_same (h : sp.Places t) (hsame : t.SamePlaces u) : sp.Places u where
  known he := by rw [hsame.known]; exact h.known he
  parent he hp := by rw [hsame.parent?] at hp; exact h.parent he hp
  binds he hv := by rw [hsame.slot?] at hv; exact h.binds he hv

theorem addMask (h : sp.Places t) (mask : Mask) : sp.Places (t.addMask mask) where
  known he := (Store.addMask_known (h.known he) mask).1
  parent he hp := by
    rw [(Store.addMask_known (h.known he) mask).2.1] at hp
    exact h.parent he hp
  binds he hv := by
    rw [(Store.addMask_known (h.known (he.imp_right And.left)) mask).2.2] at hv
    exact h.binds he hv

/-- Walks from the environments of the call come by nothing else. -/
theorem walk (h : sp.Places t) {env : EnvId} (henv : sp.Old env ∨ env = .scope sp.scope) (n : Nat) :
    ∀ b ∈ (t.walk n env).1, sp.Old b ∨ b = env := by
  induction n generalizing env with
  | zero => exact nofun
  | succ n ih =>
      cases hp : t.parent? env with
      | none =>
          rw [Store.walk_of_none n hp]
          simp
      | some p =>
          have hold := h.parent henv hp
          rw [Store.walk_of_some n hp]
          refine List.forall_mem_cons.mpr ⟨.inr rfl, fun b hb => .inl ?_⟩
          rcases ih (.inl hold) b hb with hb | rfl
          · exact hb
          · exact hold

theorem chain (h : sp.Places t) {e : Expr} {env b : EnvId} {name : String} (hk : sp.Reads e env)
    (hname : name ∈ e.symbolNames) (hb : b ∈ (t.chain env).1) :
    sp.Old b ∨ b = .scope sp.scope ∧ name ≠ sp.formal := by
  rcases hk with rfl | ⟨rfl, hformal⟩
  · have hcaller : sp.Old sp.caller := .inl (.refl _)
    rcases h.walk (.inl hcaller) _ b hb with hold | rfl
    · exact .inl hold
    · exact .inl hcaller
  · exact (h.walk (.inr rfl) _ b hb).imp_right fun hscope =>
      ⟨hscope, fun hsame => hformal (hsame ▸ hname)⟩

end Places

theorem Reads.known {e : Expr} (hk : sp.Reads e env) (h : sp.Places t) : t.known env = env := by
  rcases hk with rfl | ⟨rfl, -⟩
  · exact h.known (.inl (.inl (.refl _)))
  · exact h.known (.inr rfl)

/-! ## Promises -/

namespace Keeps

theorem of_events (h : sp.Keeps t) (hpromises : u.promises = t.promises)
    (hevents : u.eventsOf sp.promise = t.eventsOf sp.promise) : sp.Keeps u := by
  have hpromise (p : PromiseId) : u.promise p = t.promise p := by
    simp only [Store.promise, hpromises]
  exact {
    index_lt := hpromises ▸ h.index_lt
    argument := (hpromise _).trans h.argument
    events := hevents.trans h.events
    size := hpromises ▸ h.size
    settled := fun hp hidle => by rw [hpromise]; exact h.settled hp hidle
    code := fun hp hne henv => by
      rw [hpromise] at henv ⊢
      exact h.code hp hne henv }

theorem of_same (h : sp.Keeps t) (hpromises : u.promises = t.promises)
    (hhistory : u.history = t.history) : sp.Keeps u :=
  h.of_events hpromises (by simp only [Store.eventsOf, hhistory])

/-- A promise other than that of the argument goes on, and keeps its code. -/
theorem setPromise (h : sp.Keeps t) (hne : p ≠ sp.promise) (hp : sp.before.promises.size ≤ p.index)
    {f : Promise → Promise}
    (hf : ∀ q env, (f q).env = some env → q.env = some env ∧ (f q).code = q.code) :
    sp.Keeps (t.setPromise p f) := by
  have hother {q : PromiseId} (hq : q.index ≠ p.index) : (t.setPromise p f).promise q =
      t.promise q := by rw [Store.promise_setPromise, if_neg fun h => hq h.1]
  have hindex : sp.promise.index ≠ p.index := fun h => hne (congrArg PromiseId.mk h.symm)
  exact {
    index_lt := by simpa only [Store.setPromise, Array.size_modify] using h.index_lt
    argument := (hother hindex).trans h.argument
    events := h.events
    size := by simpa only [Store.setPromise, Array.size_modify] using h.size
    settled := fun {q} hq hidle => by
      rw [hother (Nat.ne_of_lt (Nat.lt_of_lt_of_le hq hp))]
      exact h.settled hq hidle
    code := fun {q} env hq hqne henv => by
      rw [Store.promise_setPromise] at henv ⊢
      split at henv
      next hsame =>
        obtain ⟨henv, hcode⟩ := hf _ _ henv
        rw [if_pos hsame, hcode]
        exact h.code hq hqne henv
      next hsame =>
        rw [if_neg hsame]
        exact h.code hq hqne henv }

theorem record (h : sp.Keeps t) {event : Event} (hevent : event.isOf sp.promise = false) :
    sp.Keeps (t.record event) :=
  h.of_events rfl (by rw [Store.eventsOf_record, hevent]; rfl)

theorem use (h : sp.Keeps t) (holder : Holder) (env : Option EnvId) :
    sp.Keeps (t.use holder env) :=
  h.of_events (by rw [Store.use_eq]) (Store.eventsOf_use ..)

/-- A promise is made of code that may be evaluated. -/
theorem addPromise (h : sp.Keeps t) {q : Promise}
    (hq : ∀ env, q.env.map t.known = some env → sp.Reads q.code env) :
    sp.Keeps (t.addPromise q) := by
  have hold {p : PromiseId} (hp : p.index < t.promises.size) :
      (t.addPromise q).promise p = t.promise p := by
    rw [Store.promise_addPromise, if_neg (Nat.ne_of_lt hp)]
  exact {
    index_lt := Nat.lt_trans h.index_lt (t.lt_size_addPromise q)
    argument := (hold h.index_lt).trans h.argument
    events := (Store.eventsOf_capture ..).trans h.events
    size := Nat.le_trans h.size (Nat.le_of_lt (t.lt_size_addPromise q))
    settled := fun hp hidle => by
      rw [hold (Nat.lt_of_lt_of_le hp h.size)]
      exact h.settled hp hidle
    code := fun hp hne henv => by
      rw [Store.promise_addPromise] at henv ⊢
      split at henv
      next hlast =>
        rw [if_pos hlast]
        exact hq _ henv
      next hlast =>
        rw [if_neg hlast]
        exact h.code hp hne henv }

/-- Promises that may be forced and were not are new. -/
theorem size_le (h : sp.Keeps t) (hp : sp.Open p) (hidle : (t.promise p).progress.isIdle = true) :
    sp.before.promises.size ≤ p.index := by
  refine Nat.not_lt.mp fun hlt => ?_
  rw [h.settled hlt (hp.2 hlt)] at hidle
  cases hidle

end Keeps

/-! ## Both stores -/

section View

theorem promise_view (hp : p ≠ sp.promise) : (sp.view e ev log t).promise p = t.promise p := by
  refine (getD_modify ..).trans (if_neg fun h => hp ?_)
  exact congrArg PromiseId.mk h.1

theorem samePlaces_view : t.SamePlaces (sp.view e ev log t) := ⟨rfl, rfl⟩

theorem setPromise_view (hp : p ≠ sp.promise) (f : Promise → Promise) :
    (sp.view e ev log t).setPromise p f = sp.view e ev log (t.setPromise p f) := by
  have hindex : sp.promise.index ≠ p.index := fun h => hp (congrArg PromiseId.mk h.symm)
  simp only [view, Store.setPromise, modify_comm _ hindex]

theorem begin_view (hp : p ≠ sp.promise) :
    (sp.view e ev log t).begin p = sp.view e ev log (t.begin p) := by
  simp only [Store.begin, Store.use_eq, setPromise_view hp, promise_view hp]
  rfl

theorem addPromise_view (h : sp.promise.index < t.promises.size) (q : Promise) :
    (sp.view e ev log t).addPromise q = sp.view e ev log (t.addPromise q) := by
  have hknown : (sp.view e ev log t).known = t.known := samePlaces_view.known
  simp only [Store.addPromise, Store.capture_eq, hknown]
  simp only [view, Array.size_modify, modify_push _ h]

end View

namespace Related

theorem keeps (h : sp.Related e ev ev' s t) : sp.Keeps t := by
  cases h with
  | intro hplaces hkeeps hevaluators hlog => exact hkeeps

theorem places (h : sp.Related e ev ev' s t) : sp.Places t := by
  cases h with
  | intro hplaces hkeeps hevaluators hlog => exact hplaces

theorem samePlaces (h : sp.Related e ev ev' s t) : t.SamePlaces s := by
  cases h with
  | intro hplaces hkeeps hevaluators hlog => exact samePlaces_view

theorem promise (h : sp.Related e ev ev' s t) (hp : p ≠ sp.promise) :
    s.promise p = t.promise p := by
  cases h with
  | intro hplaces hkeeps hevaluators hlog => exact promise_view hp

/-- Only what is written and logged may change. -/
theorem aside (h : sp.Related e ev ev' s t) {f : Store → Store}
    (hf : ∀ t log, f (sp.view e ev log t) = sp.view e ev log (f t))
    (hlog : (f t).log = t.log) (hsame : t.SamePlaces (f t)) (hpromises : (f t).promises = t.promises)
    (hhistory : (f t).history = t.history) (hstacks : (f t).evaluators = t.evaluators) :
    sp.Related e ev ev' (f s) (f t) := by
  cases h with
  | @intro _ log hplaces hkeeps hevaluators hlogs =>
    rw [hf]
    exact .intro (hplaces.of_same hsame) (hkeeps.of_same hpromises hhistory)
      (hstacks.trans hevaluators) (hlog ▸ hlogs)

theorem logged (h : sp.Related e ev ev' s t) {r r' : LogRecord} (hr : r.Alike r') :
    sp.Related e ev ev' { s with log := s.log.push r } { t with log := t.log.push r' } := by
  cases h with
  | @intro _ log hplaces hkeeps hevaluators hlogs =>
    change sp.Related e ev ev' (sp.view e ev (log.push r) { t with log := t.log.push r' }) _
    exact .intro (hplaces.of_same ⟨rfl, rfl⟩) (hkeeps.of_same rfl rfl) hevaluators (hlogs.push hr)

end Related

instance : Run.Fails (sp.Related e ev ev') where
  failWith cause call := ⟨fun s t h => by
    have hsize : s.failures.size = t.failures.size := by cases h; rfl
    simp only [Run.failWith, Run.get_bind, Run.set_bind, Run.raise_apply, hsize]
    exact .signal (h.aside (f := fun s => { s with failures := s.failures.push ⟨call, none⟩ })
      (fun _ _ => rfl) rfl ⟨rfl, rfl⟩ rfl rfl rfl)⟩
  trace message := by
    have hlog (level : LogLevel) (text : String) :
        Respects (sp.Related e ev ev') (Run.logRecord level text) :=
      .of_modify fun _ _ h => h.logged (.inl rfl)
    unfold Run.trace
    refine .get_bind (fun s t h => ?_) fun s => inferInstance
    cases h
    rfl
  warn message := .of_modify fun _ _ h => h.logged (.inl rfl)
  freshId := .of_value (v := Store.nextId) (g := fun s => { s with nextId := s.nextId + 1 })
    (fun _ => rfl) (fun _ _ h => by cases h; rfl)
    fun _ _ h => h.aside (f := fun s => { s with nextId := s.nextId + 1 }) (fun _ _ => rfl) rfl
      ⟨rfl, rfl⟩ rfl rfl rfl

/-! ## Evaluation -/

theorem respects_begin (hne : p ≠ sp.promise) (hp : sp.before.promises.size ≤ p.index) :
    Respects (sp.Related e ev ev') (Machine.begin p) := .of_modify fun s t h => by
  cases h with
  | @intro _ log hplaces hkeeps hevaluators hlogs =>
    have hset := hkeeps.setPromise hne hp (f := fun q => { q with progress := .forcing })
      fun q env henv => ⟨henv, rfl⟩
    have hevent : (Event.begun p).isOf sp.promise = false := decide_eq_false hne
    rw [begin_view hne]
    refine .intro (hplaces.of_same ?_) ((hset.record hevent).use _ _) ?_ ?_
    · rw [Store.begin, Store.use_eq]
      exact ⟨rfl, rfl⟩
    · rw [Store.begin, Store.use_eq]
      exact hevaluators
    · rw [Store.begin, Store.use_eq]
      exact hlogs

/-- What an evaluation of a promise ends with is noted at the promise. -/
theorem related_ended (h : sp.Related e ev ev' s t) (hne : p ≠ sp.promise)
    (hp : sp.before.promises.size ≤ p.index) {f : Promise → Promise}
    (hf : ∀ q env, (f q).env = some env → q.env = some env ∧ (f q).code = q.code)
    (event : Event) (hevent : event.isOf sp.promise = false) :
    sp.Related e ev ev' ((s.setPromise p f).record event) ((t.setPromise p f).record event) := by
  cases h with
  | @intro _ log hplaces hkeeps hevaluators hlogs =>
    rw [setPromise_view hne]
    exact .intro (t := (t.setPromise p f).record event) (hplaces.of_same ⟨rfl, rfl⟩)
      ((hkeeps.setPromise hne hp hf).record hevent) hevaluators hlogs

theorem starts_related (hne : p ≠ sp.promise) (hp : sp.before.promises.size ≤ p.index) :
    Run.Starts (sp.Related e ev ev') p where
  begin := respects_begin hne hp
  conclude outcome := by
    have hother : decide (p = sp.promise) = false := decide_eq_false hne
    have habandon (x : Signal) : Respects (sp.Related e ev ev') (Machine.abandon p x) :=
      .of_modify fun s t h => related_ended (f := fun q => { q with progress := .interrupted }) h
        hne hp (fun _ _ henv => ⟨henv, rfl⟩) (.abandoned p x) hother
    have hsettle (progress : Progress) :
        Respects (sp.Related e ev ev') (Machine.settle p progress) :=
      .of_modify fun s t h => related_ended h hne hp (fun _ _ henv => by cases henv) (.settled p)
        hother
    unfold Machine.conclude
    split <;> infer_instance

theorem respects_newPromise {code : Expr} (ctx : EvaluatorId) (hk : sp.Reads code env) :
    Respects (sp.Related e ev ev')
      (Run.newPromise ⟨code, some env, some ctx, false, .unforced⟩) :=
  .of_value (v := fun s => ⟨s.promises.size⟩)
    (g := fun s => s.addPromise ⟨code, some env, some ctx, false, .unforced⟩) (fun _ => rfl)
    (fun s t h => by
      cases h
      exact congrArg PromiseId.mk Array.size_modify) fun s t h => by
    cases h with
    | @intro _ log hplaces hkeeps hevaluators hlogs =>
      rw [addPromise_view hkeeps.index_lt]
      refine .intro (hplaces.of_same ⟨by simp, by simp⟩) (hkeeps.addPromise fun home hhome => ?_)
        (by simpa using hevaluators) ?_
      · cases hhome
        rwa [hk.known hplaces]
      · rw [Store.addPromise, Store.capture_eq]
        exact hlogs

/-! ## Primitives -/

theorem Related.shown (h : sp.Related e ev ev' s t) : t.Shown Regular.hides s where
  bindings hv := by simp [Regular.hides, hv]
  envName? e := by cases e <;> simp only [Store.envName?, h.samePlaces.scope]
  closure c := by cases h; rfl
  promise p hp := nomatch hp
  incident f := by cases h; rfl
  dataNames := h.samePlaces.dataNames

theorem shows_related (hglobal : SameGlobals ev ev') :
    Run.Shows (sp.Related e ev ev') fun v => Regular.isShown v = true := by
  have hparts : Run.Shows (sp.Related e ev ev') fun v => v.avoids Regular.hides = true :=
    shows_of_shown
      (fun v hv => by
        cases v with
        | bool | int | num | nan | str => rfl
        | _ => cases hv)
      (fun h => h.shown) fun ctx h => by
        cases h with
        | intro hplaces hkeeps hevaluators hlog =>
          cases hevaluators
          exact hglobal ctx.index
  exact {
    closure := hparts.closure
    incident := hparts.incident
    globalEnv := hparts.globalEnv
    dataNames := hparts.dataNames
    format := fun hv => by
      rcases Bool.or_eq_true_iff.mp hv with hbindings | hv
      · exact .read (fun s s' h => by rw [h.shown.format_of_bindings hbindings])
          fun s => inferInstance
      · exact hparts.format hv
    plainText := fun hv => by
      rcases Bool.or_eq_true_iff.mp hv with hbindings | hv
      · exact .read (fun s s' h => by rw [h.shown.plainText_of_bindings hbindings])
          fun s => inferInstance
      · exact hparts.plainText hv
    tagged := fun hitems ht => by
      rcases Bool.or_eq_true_iff.mp hitems with hbindings | hitems
      · cases hbindings
      · exact Bool.or_eq_true_iff.mpr (.inr (hparts.tagged hitems ht))
    operand := fun {v x} hv hx => by
      rcases Bool.or_eq_true_iff.mp hv with hbindings | hparted
      · have hself : x = v := by
          cases v with
          | env | pronoun | dots => exact List.mem_singleton.mp hx
          | _ => cases hbindings
        exact hself ▸ hv
      · exact Bool.or_eq_true_iff.mpr (.inr (hparts.operand hparted hx)) }

instance : Run.MakesMasks (sp.Related e ev ev') where
  size h := by cases h; rfl
  addMask {s t} mask h := by
    cases h with
    | @intro _ log hplaces hkeeps hevaluators hlog =>
      exact .intro (t := t.addMask mask) (hplaces.addMask mask)
        (hkeeps.of_same rfl rfl) hevaluators hlog

theorem respects_primitive (hglobal : SameGlobals ev ev') {fn : Primitive} {args : List Value}
    {named : Bindings Value} (h : Regular.admits fn (args ++ named.map (·.2)) = true) (m : Machine)
    (ctx : EvaluatorId) (env : EnvId) :
    Respects (sp.Related e ev ev') (m.applyPrimitive ctx fn args named env) := by
  obtain ⟨halone, hall⟩ := Bool.and_eq_true_iff.mp h
  have hshown : ∀ x ∈ Regular.shownArgs fn (args ++ named.map (·.2)), Regular.isShown x = true :=
    List.all_eq_true.mp hall
  have hargs (hfn : fn.shows = true) : ∀ x ∈ args, Regular.isShown x = true := fun x hx => by
    rw [Regular.shownArgs_of_shows hfn] at hshown
    exact hshown x (List.mem_append_left _ hx)
  have helement (hfn : fn = .element) (x i : Value) (hpair : args = [x, i]) :
      Regular.isShown i = true := by
    subst hfn hpair
    exact hshown i (List.mem_cons_self ..)
  refine respects_of_modest (fun s t out err h => ?_)
    (modest_applyPrimitive (shows_related hglobal) (standsAlone_of_append halone) hargs
      (fun _ e _ s t h => h.samePlaces.names e) helement (fun _ => inferInstance) m ctx named env)
  exact h.aside (f := fun s => { s with out := out s.out, err := err s.err }) (fun _ _ => rfl) rfl
    ⟨rfl, rfl⟩ rfl rfl rfl

/-! ## The body of the call -/

theorem encloses_related (hglobal : SameGlobals ev ev') :
    Encloses sp.Reads sp.Open (sp.Related e ev ev') where
  part hk hnames := hk.imp_right fun h => ⟨h.1, fun hmem => h.2 (hnames hmem)⟩
  chain h := h.samePlaces.chain
  slot? h := h.samePlaces.slot?
  binds h h' hk hname hb hv := h'.places.binds (h.places.chain hk hname hb) hv
  promise h hp := h.promise hp.1
  starts h hp hidle :=
    have hsize := h.keeps.size_le hp hidle
    ⟨starts_related hp.1 hsize, fun _ _ h _ henv => h.keeps.code hsize hp.1 henv⟩
  fresh h hp := by
    have hindex := h.keeps.index_lt
    have hsize := h.keeps.size
    exact ⟨fun hsame => by rw [hsame] at hp; omega, fun hold => by omega⟩
  newPromise ctx hk := respects_newPromise ctx hk
  primitive m ctx env h := respects_primitive hglobal h m ctx env

end Spare

end Quasi
