import Quasi.Proofs.Embrace.Transparency
import Quasi.Proofs.Quotation.Named

/-!
# Captured arguments and templates

Capturing an argument expands the injections in it where the call was written, as a template of the
same code would. Capturing expands code only if there are injection operators in it, though, and
names that are injected by `:=` are none: code with such names and no other injection is captured as
it is, while its template has the names in place.
-/

namespace Quasi

open Run (bind_of_ok bind_of_error Agrees Respects Forces)

/-- A name stands for a special form. -/
def Store.Forms (s : Store) (env : EnvId) (name : String) (form : SpecialForm) : Prop :=
  ∃ home, s.Calls env name (.builtin (.special form) home)

/-- A closure of one formal that captures its argument by a form and does nothing else. -/
def Store.Captor (s : Store) (g : ClosureId) (form : SpecialForm) : Prop :=
  ∃ x name, s.Unary g x ∧ (s.closure g).body = .call (.symbol name) [.bare (.symbol x)] ∧
    x ≠ name ∧ s.Forms (s.closure g).env name form

namespace Expr

mutual

/-- The injections in an expression. -/
def injections : Expr → List Injection
  | .call head slots =>
      (Expr.call head slots).injection?.toList ++ head.injections ++ slotInjections slots
  | .formals items => formalInjections items
  | _ => []

def slotInjections : List (Tagged Expr) → List Injection
  | [] => []
  | ⟨_, e⟩ :: rest => e.injections ++ slotInjections rest

def formalInjections : List (String × Expr) → List Injection
  | [] => []
  | (_, e) :: rest => e.injections ++ formalInjections rest

end

theorem mem_injections (e : Expr) {injection : Injection} (h : e.injection? = some injection) :
    injection ∈ e.injections := by
  cases e with
  | call head slots =>
      rw [injections, h]
      simp
  | _ => cases h

theorem injections_of_nameAssign {e lhs rhs : Expr} {injection : Injection}
    (h : e.nameAssign? = some (lhs, rhs)) (hlhs : injection ∈ lhs.injections) :
    injection ∈ e.injections := by
  obtain ⟨tag₁, tag₂, rfl⟩ := eq_of_nameAssign? h
  simp [injections, slotInjections, hlhs]

end Expr

open Quasi.Expr

namespace Machine

variable {m : Machine} {ctx : EvaluatorId} {s t u w : Store} {i k : Nat} {x : String}
  {E env : EnvId} {e : Expr}

/-! ## Templates in related stores -/

section Related

variable {Q : Store → Store → Prop}

instance [Forces Q] (v : Value) : Respects Q (splicedItems v) := by
  have hitems (items : List Slot) (f : Slot → Run Slot) (hf : ∀ slot, Respects Q (f slot)) :
      Respects Q (items.mapM f) := by
    induction items with
    | nil => exact inferInstanceAs (Respects Q (pure []))
    | cons slot items ih =>
        rw [List.mapM_cons]
        infer_instance
  unfold splicedItems
  refine .andThen fun items => hitems items _ fun slot => ?_
  split <;> infer_instance

instance [Forces Q] (head : Expr) (slots : List Slot) : Respects Q (checkCall head slots) := by
  unfold checkCall
  extract_lets checkHead
  have hhead (u : Unit) : Respects Q (checkHead u) := by
    unfold checkHead
    split <;> infer_instance
  clear_value checkHead
  split <;> infer_instance

/-- What an injection evaluates does the same in related stores. -/
def Respected (Q : Store → Store → Prop) (m : Machine) (ctx : EvaluatorId) (env : EnvId) :
    Injection → Prop
  | .unquote operand => Respects Q (m.eval ctx operand env)
  | .splice operand => Respects Q (m.eval ctx operand env)
  | .embrace operand => Respects Q (embrace m ctx operand env)

theorem respects_injectedName [Forces Q] (lhs : Expr)
    (h : ∀ injection ∈ lhs.injections, Respected Q m ctx env injection) :
    Respects Q (injectedName m ctx lhs env) := by
  unfold injectedName
  extract_lets nameOf
  have hname (v : Value) : Respects Q (nameOf v) := by
    unfold nameOf
    split <;> infer_instance
  clear_value nameOf
  split
  · rename_i operand hlhs
    have heval : Respects Q (m.eval ctx operand env) := h _ (lhs.mem_injections hlhs)
    infer_instance
  · split <;> infer_instance

mutual

/-- A template is built alike where its injections are evaluated alike. -/
theorem respects_expandTemplate [Forces Q] (e : Expr)
    (h : ∀ injection ∈ e.injections, Respected Q m ctx env injection) :
    Respects Q (expandTemplate m ctx env e) := by
  cases e with
  | call head slots =>
      have hown (injection : Injection)
          (hcall : (Expr.call head slots).injection? = some injection) :
          Respected Q m ctx env injection := h _ (Expr.mem_injections _ hcall)
      rw [Expr.injections, List.forall_mem_append, List.forall_mem_append] at h
      have hhead := respects_expandTemplate head h.1.2
      have hslots := respects_expandSlots head slots h.2
      rw [expandTemplate]
      split
      · rename_i operand hcall
        have heval : Respects Q (m.eval ctx operand env) := hown _ hcall
        infer_instance
      · rename_i operand hcall
        have hembrace : Respects Q (embrace m ctx operand env) := hown _ hcall
        infer_instance
      · infer_instance
      · infer_instance
  | formals items =>
      have hitems := respects_expandFormals items h
      rw [expandTemplate]
      infer_instance
  | const v => exact inferInstanceAs (Respects Q (pure _))
  | symbol name => exact inferInstanceAs (Respects Q (pure _))
  | missing => exact inferInstanceAs (Respects Q (pure _))
termination_by structural e

theorem respects_expandSlots [Forces Q] (head : Expr) (slots : List Slot)
    (h : ∀ injection ∈ slotInjections slots, Respected Q m ctx env injection) :
    Respects Q (expandSlots m ctx env head slots) := by
  cases slots with
  | nil => exact inferInstanceAs (Respects Q (pure _))
  | cons slot rest =>
      obtain ⟨tag, e⟩ := slot
      rw [slotInjections, List.forall_mem_append] at h
      have he := respects_expandTemplate e h.1
      have hassigned := respects_expandAssigned e h.1
      have hrest := respects_expandSlots head rest h.2
      unfold expandSlots
      extract_lets append
      have happend (here : List Slot) : Respects Q (append here) := by
        unfold append
        infer_instance
      clear_value append
      split
      · infer_instance
      · rename_i operand hsplice
        have heval : Respects Q (m.eval ctx operand env) := h.1 _ (e.mem_injections hsplice)
        infer_instance
      · rename_i lhs _ hassign _
        have hname := respects_injectedName lhs fun injection hlhs =>
          h.1 injection (injections_of_nameAssign hassign hlhs)
        infer_instance
      · infer_instance
termination_by structural slots

theorem respects_expandAssigned [Forces Q] (e : Expr)
    (h : ∀ injection ∈ e.injections, Respected Q m ctx env injection) :
    Respects Q (expandAssigned m ctx env e) := by
  match e with
  | .call head [first, ⟨tag, rhs⟩] =>
      refine respects_expandTemplate rhs fun injection hrhs => h injection ?_
      simp only [Expr.injections, slotInjections, List.mem_append]
      exact .inr (.inr (.inl hrhs))
  | .call head [] | .call head [_] | .call head (_ :: _ :: _ :: _) =>
      exact inferInstanceAs (Respects Q (pure _))
  | .const v | .symbol name | .formals items | .missing =>
      exact inferInstanceAs (Respects Q (pure _))
termination_by structural e

theorem respects_expandFormals [Forces Q] (items : List Formal)
    (h : ∀ injection ∈ formalInjections items, Respected Q m ctx env injection) :
    Respects Q (expandFormals m ctx env items) := by
  cases items with
  | nil => exact inferInstanceAs (Respects Q (pure _))
  | cons item rest =>
      obtain ⟨name, e⟩ := item
      rw [formalInjections, List.forall_mem_append] at h
      have he := respects_expandTemplate e h.1
      have hrest := respects_expandFormals rest h.2
      rw [expandFormals]
      infer_instance
termination_by structural items

end

end Related

/-! ## The call that captures -/

/-- A written argument is supplied as something that is captured by expanding the argument where the
call was written. -/
theorem promiseArgs_code {e : Expr} (hE : s.known E = E) (hdots : e.isSymbol dotsName = false)
    (ctx : EvaluatorId) :
    ∃ v t, promiseArgs ctx E [.bare e] s = .ok [.bare v] t ∧ s.Grows t ∧
      t.evaluators = s.evaluators ∧ Run.own v = pure v ∧
      ∀ (m : Machine) w, t.Grows w → m.codeOf ctx v w = m.expandIn ctx (some E) e w := by
  cases hmissing : e.isMissing with
  | true =>
      cases e <;> cases hmissing
      exact ⟨.code .missing, s, rfl, .refl s, rfl, rfl, fun _ _ _ => rfl⟩
  | false =>
      let promise : Promise := ⟨e, some E, some ctx, false, .unforced⟩
      refine ⟨.promise ⟨s.promises.size⟩, s.addPromise promise,
        promiseArgs_written hmissing hdots ctx E s, .addPromise s promise,
        s.evaluators_addPromise promise, rfl, fun m w hw => codeOf_of_written ?_⟩
      have hpromise := hw.promise ⟨s.promises.size⟩ (s.lt_size_addPromise promise)
      rw [promise_written hE ctx] at hpromise
      simp only [Store.written?, hpromise]
      rfl

/-- A call of a closure that captures the code of its argument comes to expanding the argument. -/
theorem eval_captor {pm : Bool} {name : String} {g : ClosureId} (hs : s.Whole)
    (hpm : s.settings.partialMatching = .ok pm) (hE : s.known E = E)
    (hdots : e.isSymbol dotsName = false) (hname : s.Calls E name (.closure g))
    (hcaptor : s.Captor g .captured) (hroom : (s.evaluator ctx).depth < (s.evaluator ctx).maxDepth) :
    ∃ calls t, calls.length = 1 ∧ ComesTo ctx calls s t
      ((ofLevel (k + 2)).eval ctx (.call (.symbol name) [.bare e]) E)
      (do pure (.code (← (ofLevel k).expandIn ctx (some E) e))) := by
  obtain ⟨x, form, hg, hbody, hne, home, hform⟩ := hcaptor
  obtain ⟨v, t, hargs, ht, hevaluators, hown, hcode⟩ := promiseArgs_code hE hdots ctx
  have hevaluator : t.evaluator ctx = s.evaluator ctx := by
    simp only [Store.evaluator, hevaluators]
  rw [← hevaluator] at hroom
  obtain ⟨i, activation, w, heq, hpassed, hmade, hscope, hcalls⟩ := applyClosure_unary hs hpm ht
    hg (some v) hroom (ofLevel (k + 1)) (.call (.symbol name) [.bare e]) E
  refine ⟨[activation], w, rfl, .of_passed ?_ (hpassed.of_evaluators ht hevaluators)⟩
  rw [eval_call_of_calls hname ctx]
  refine (bind_of_ok hargs).trans (heq.trans (within_congr ?_))
  rw [hbody, eval_call_of_calls (hcalls w (.refl w) form _ hform hne) ctx]
  change (do pure (.code (← captureCode (ofLevel k) ctx (.symbol x) (.scope i))) : Run Value) w = _
  rw [captureCode, bind_assoc, bind_of_ok (argumentBinding_single hown hscope)]
  simp only [bind, EStateM.bind, hcode (ofLevel k) w hpassed.grows]

/-- The quosure that is captured of an argument whose expansion is given. One that the expansion
embeds is taken out. -/
def capturedAs (E : EnvId) (e expanded : Expr) : Value :=
  if e.isMissing then .quosure expanded .empty else quosureAround E expanded

theorem argumentQuosure_eq (m : Machine) (ctx : EvaluatorId) (E : EnvId) (e : Expr) :
    argumentQuosure m ctx E (some e) = (do
      pure (capturedAs E e (← m.expandIn ctx (some E) e))) := by
  cases e <;> rfl

theorem capturedAs_of_plain (E : EnvId) (e : Expr) {e' : Expr}
    (h : ∀ inner home, e' ≠ .const (.quosure inner home)) :
    ∃ home, capturedAs E e e' = .quosure e' home := by
  unfold capturedAs quosureAround
  split
  · exact ⟨.empty, rfl⟩
  · split
    · exact absurd rfl (h _ _)
    · exact ⟨E, rfl⟩

/-- A call of a closure that captures the quosure of its argument comes to expanding the argument. -/
theorem eval_quosureCaptor {pm : Bool} {name : String} {g : ClosureId} (hs : s.Whole)
    (hpm : s.settings.partialMatching = .ok pm) (hE : s.known E = E)
    (hdots : e.isSymbol dotsName = false) (hname : s.Calls E name (.closure g))
    (hcaptor : s.Captor g .capturedQuosure)
    (hroom : (s.evaluator ctx).depth < (s.evaluator ctx).maxDepth) :
    ∃ calls t, calls.length = 1 ∧ ComesTo ctx calls s t
      ((ofLevel (k + 2)).eval ctx (.call (.symbol name) [.bare e]) E)
      (do pure (capturedAs E e (← (ofLevel k).expandIn ctx (some E) e))) := by
  obtain ⟨x, form, hg, hbody, hne, hform⟩ := hcaptor
  have hdots' : ∀ arg ∈ some e, arg.isSymbol dotsName = false := by
    rintro _ ⟨⟩
    exact hdots
  have hroom' : (s.evaluator ctx).depth + ([] : List Passing).length <
      (s.evaluator ctx).maxDepth := by
    rw [List.length_nil]
    omega
  obtain ⟨calls, t, hlength, hcomes⟩ := eval_embraces (k := k) hs hpm hE hdots' hname
    (.last hg hbody hne hform) hroom'
  rw [argumentQuosure_eq] at hcomes
  exact ⟨calls, t, hlength, hcomes⟩

/-- At the limit of nested calls a call of a closure fails. -/
theorem eval_full {pm : Bool} {name : String} {g : ClosureId} {n : Nat}
    (hpm : s.settings.partialMatching = .ok pm) (hE : s.known E = E)
    (hdots : e.isSymbol dotsName = false) (hname : s.Calls E name (.closure g))
    (hg : s.Unary g x) (hfull : (s.evaluator ctx).maxDepth ≤ (s.evaluator ctx).depth) :
    ∃ r t, (ofLevel (n + 1)).eval ctx (.call (.symbol name) [.bare e]) E s =
      .error (.failure ⟨r, .recursion⟩) t := by
  obtain ⟨v, t, hargs, ht, hevaluators, -, -⟩ := promiseArgs_code hE hdots ctx
  have hbind := bindClosure_single (ht.settings ▸ hpm) hg.ordinary (ht.closure g ▸ hg.formals) ctx
    (some v) (.call (.symbol name) [.bare e])
  have hevaluator : (opened t g).evaluator ctx = s.evaluator ctx := by
    simp only [Store.evaluator, opened, Store.addScope, Store.use_eq, hevaluators]
  have hfull' : (((opened t g).setVars (.scope t.scopes.size) fun vars =>
      vars.set x v).evaluator ctx).maxDepth ≤ (((opened t g).setVars (.scope t.scopes.size)
        fun vars => vars.set x v).evaluator ctx).depth := by
    change ((opened t g).evaluator ctx).maxDepth ≤ ((opened t g).evaluator ctx).depth
    rw [hevaluator]
    exact hfull
  have hpush := pushFrame_of_full hfull' (.call (.symbol name) [.bare e])
    (.scope t.scopes.size) (some g) (some E) []
  have hcalled := (eval_call_of_calls (n := n) hname ctx [.bare e]).trans (bind_of_ok hargs)
  rw [applyClosure_eq] at hcalled
  exact ⟨_, _, hcalled.trans ((bind_of_ok hbind).trans (bind_of_error hpush))⟩

theorem eval_template {expr : String} (h : s.Forms E expr .template) (ctx : EvaluatorId)
    (e : Expr) :
    (ofLevel (k + 1)).eval ctx (.call (.symbol expr) [.bare e]) E s =
      (do pure (.code (← expandTemplate (ofLevel k) ctx E e)) : Run Value) s := by
  obtain ⟨home, h⟩ := h
  exact eval_call_of_calls h ctx _

theorem eval_quosure {quo : String} (h : s.Forms E quo .quosure) (ctx : EvaluatorId) (e : Expr) :
    (ofLevel (k + 1)).eval ctx (.call (.symbol quo) [.bare e]) E s =
      (do pure (.quosure (← expandTemplate (ofLevel k) ctx E e) E) : Run Value) s := by
  obtain ⟨home, h⟩ := h
  exact eval_call_of_calls h ctx _

/-! ## Captured arguments and templates -/

/-- What building a template of an expression and capturing the expression as an argument come to.
Both are made of the expanded expression, by `build` and by `take`. -/
inductive SameExpansion (ctx : EvaluatorId) (k : Nat) (E : EnvId) (e : Expr) (s : Store)
    (build take : Expr → Value) (template capture : Run Value) : Prop where
  /-- The flag that matching reads is none, and no closure can be called. -/
  | unreadable {fault : SettingFault} {r : Nat} {t : Store}
      (hflag : s.settings.partialMatching = .error fault)
      (hcapture : capture s = .error (.failure ⟨r, .host (.value fault.message)⟩) t)
  /-- There is no room for another call. -/
  | full {r : Nat} {t : Store} (hfull : (s.evaluator ctx).maxDepth ≤ (s.evaluator ctx).depth)
      (hcapture : capture s = .error (.failure ⟨r, .recursion⟩) t)
  /-- There are injection operators. Both expand the same expression in the same environment, the
  one outside and the other one inside of the call that captures. If what is injected is evaluated
  alike there, both give the same tree or end by the same failure. -/
  | expanded {calls : List Activation} {t : Store} (hinjection : e.containsInjection = true)
      (hlength : calls.length = 1)
      (htemplate : template s =
        (do pure (build (← expandTemplate (ofLevel k) ctx E e)) : Run Value) s)
      (hcapture : ComesTo ctx calls s t capture
        (do pure (take (← expandTemplate (ofLevel k) ctx E e))))
      (hsame : ∀ Q : Store → Store → Prop, Forces Q →
        (∀ injection ∈ e.injections, Respected Q (ofLevel k) ctx E injection) → Q t s →
        (∀ u w, Q u w → ∃ below, Clear ctx calls below u) →
          (∀ e' w, expandTemplate (ofLevel k) ctx E e s = .ok e' w →
            template s = .ok (build e') w ∧ ∃ u, capture s = .ok (take e') u) ∧
          (∀ f w, expandTemplate (ofLevel k) ctx E e s = .error (.failure f) w →
            template s = .error (.failure f) w ∧ ∃ u, capture s = .error (.failure f) u))
  /-- There is nothing to expand. -/
  | plain {u : Store} (hinjection : e.containsInjection = false) (hnames : e.injectsName = false)
      (htemplate : template s = .ok (build e) s) (hcapture : capture s = .ok (take e) u)
  /-- There are injected names and no injection operators. Capturing leaves the names where they
  are, and the template is another tree or fails at a name that is none. -/
  | named {u : Store} (hinjection : e.containsInjection = false) (hnames : e.injectsName = true)
      (hcapture : capture s = .ok (take e) u)
      (htemplate : (∃ e', e' ≠ e ∧ template s = .ok (build e') s) ∨
        template s = Run.fail (.template .badName) s)

/-- A run that ends alike outside and inside of the calls that it comes to ends in the same way. -/
theorem ComesTo.of_matches {calls : List Activation} {evaluation run : Run Value}
    {Q : Store → Store → Prop} (h : ComesTo ctx calls s t evaluation run)
    (hmatch : Run.Matches Q (run t) (run s))
    (hclear : ∀ u w, Q u w → ∃ below, Clear ctx calls below u) :
    (∀ v w, run s = .ok v w → ∃ u, evaluation s = .ok v u) ∧
      ∀ f w, run s = .error (.failure f) w → ∃ u, evaluation s = .error (.failure f) u := by
  constructor
  · intro v w hv
    rw [hv] at hmatch
    obtain ⟨u, hu, hQ⟩ := hmatch.of_value
    obtain ⟨below, hbelow⟩ := hclear u w hQ
    have hattempt : Run.attempt run t = .ok (.ok v) u := by
      simp only [Run.attempt, hu]
    obtain ⟨u', hwithin⟩ := within_of_clear hattempt hbelow fun _ => rfl
    exact ⟨u', h.inside.trans hwithin⟩
  · intro f w hf
    rw [hf] at hmatch
    obtain ⟨u, hu, hQ⟩ : ∃ u, run t = .error (.failure f) u ∧ Q u w := by
      generalize hx : run t = x, hy : EStateM.Result.error (Interrupt.failure f) w = y at hmatch
      cases hmatch with
      | value hQ => cases hy
      | @signal signal u w' hQ =>
          obtain ⟨hsignal, rfl⟩ := EStateM.Result.error.inj hy
          exact ⟨u, by rw [hsignal], hQ⟩
      | endless => cases hy
    obtain ⟨below, hbelow⟩ := hclear u w hQ
    obtain ⟨u', hwithin⟩ := within_of_clear (Run.attempt_of_signal (x := .failure f) hu) hbelow
      fun _ => rfl
    exact ⟨u', h.inside.trans hwithin⟩

section Expansion

variable {build take : Expr → Value} {template capture : Run Value} {calls : List Activation}

theorem sameExpansion_of_comesTo (hlength : calls.length = 1)
    (htemplate : template s =
      (do pure (build (← expandTemplate (ofLevel k) ctx E e)) : Run Value) s)
    (hcapture : ComesTo ctx calls s t capture
      (do pure (take (← (ofLevel (k + 1)).expandIn ctx (some E) e)))) :
    SameExpansion ctx k E e s build take template capture := by
  cases hinjection : e.containsInjection with
  | true =>
      have hexpand : (ofLevel (k + 1)).expandIn ctx (some E) e =
          expandTemplate (ofLevel k) ctx E e := by
        rw [expandIn, if_pos hinjection]
        rfl
      rw [hexpand] at hcapture
      refine .expanded hinjection hlength htemplate hcapture fun Q hQ hoperands hst hclear => ?_
      have hrespects := respects_expandTemplate e hoperands
      have htaken : Respects Q (do pure (take (← expandTemplate (ofLevel k) ctx E e))) :=
        inferInstance
      obtain ⟨hvalue, hfailure⟩ := hcapture.of_matches (htaken.agrees t s hst) hclear
      constructor
      · intro e' w he'
        exact ⟨htemplate.trans (bind_of_ok he'), hvalue (take e') w (bind_of_ok he')⟩
      · intro f w hf
        exact ⟨htemplate.trans (bind_of_error hf), hfailure f w (bind_of_error hf)⟩
  | false =>
      have hexpand : (ofLevel (k + 1)).expandIn ctx (some E) e = pure e := by
        rw [expandIn, hinjection]
        rfl
      rw [hexpand] at hcapture
      obtain ⟨u, hreturns⟩ := hcapture.returns (take e) t rfl rfl
      have hnamed := expandTemplate_named (ofLevel k) ctx E e
        ((containsInjection_eq_false_iff e).mp hinjection)
      rw [hnamed] at htemplate
      cases hnames : e.injectsName with
      | false =>
          rw [named_of_no_names e hnames] at htemplate
          exact .plain hinjection hnames htemplate hreturns
      | true =>
          refine .named hinjection hnames hreturns ?_
          cases hresult : e.named with
          | ok e' =>
              rw [hresult] at htemplate
              exact .inl ⟨e', named_ne hresult hnames, htemplate⟩
          | error fault =>
              rw [hresult] at htemplate
              obtain rfl := named_error e hresult
              exact .inr htemplate

theorem sameExpansion_of_captor {name : String} {g : ClosureId} {form : SpecialForm}
    (hE : s.known E = E) (hdots : e.isSymbol dotsName = false)
    (hname : s.Calls E name (.closure g)) (hg : s.Captor g form)
    (htemplate : template s =
      (do pure (build (← expandTemplate (ofLevel k) ctx E e)) : Run Value) s)
    (hcapture : ∀ pm, s.settings.partialMatching = .ok pm →
      (s.evaluator ctx).depth < (s.evaluator ctx).maxDepth →
        ∃ calls t, calls.length = 1 ∧ ComesTo ctx calls s t
          ((ofLevel (k + 3)).eval ctx (.call (.symbol name) [.bare e]) E)
          (do pure (take (← (ofLevel (k + 1)).expandIn ctx (some E) e)))) :
    SameExpansion ctx k E e s build take template
      ((ofLevel (k + 3)).eval ctx (.call (.symbol name) [.bare e]) E) := by
  obtain ⟨x, _, hunary, -⟩ := hg
  cases hflag : s.settings.partialMatching with
  | error fault =>
      have hdots' : ∀ arg ∈ some e, arg.isSymbol dotsName = false := by
        rintro _ ⟨⟩
        exact hdots
      obtain ⟨r, t, hunreadable⟩ :=
        eval_unreadable_unary (n := k + 2) ctx hflag hE hdots' hname hunary
      exact .unreadable hflag hunreadable
  | ok pm =>
      by_cases hroom : (s.evaluator ctx).depth < (s.evaluator ctx).maxDepth
      · obtain ⟨calls, t, hlength, hcomes⟩ := hcapture pm hflag hroom
        exact sameExpansion_of_comesTo hlength htemplate hcomes
      · have hfull := Int.not_lt.mp hroom
        obtain ⟨r, t, hrefused⟩ := eval_full (n := k + 2) hflag hE hdots hname hunary hfull
        exact .full hfull hrefused

end Expansion

/-- Capturing an argument agrees with building a template of it, except where names are injected
into an argument without injection operators: such an argument is captured as it is. -/
theorem capturing_agrees_with_templates {expr quo name name' : String} {g g' : ClosureId}
    (hs : s.Whole) (hE : s.known E = E) (hdots : e.isSymbol dotsName = false)
    (hexpr : s.Forms E expr .template) (hname : s.Calls E name (.closure g))
    (hg : s.Captor g .captured) (hquo : s.Forms E quo .quosure)
    (hname' : s.Calls E name' (.closure g')) (hg' : s.Captor g' .capturedQuosure) :
    SameExpansion ctx k E e s .code .code
        ((ofLevel (k + 1)).eval ctx (.call (.symbol expr) [.bare e]) E)
        ((ofLevel (k + 3)).eval ctx (.call (.symbol name) [.bare e]) E) ∧
      SameExpansion ctx k E e s (.quosure · E) (capturedAs E e)
        ((ofLevel (k + 1)).eval ctx (.call (.symbol quo) [.bare e]) E)
        ((ofLevel (k + 3)).eval ctx (.call (.symbol name') [.bare e]) E) ∧
      ∀ e', (∀ inner home, e' ≠ .const (.quosure inner home)) →
        ∃ home, capturedAs E e e' = .quosure e' home := by
  refine ⟨?_, ?_, fun e' hplain => capturedAs_of_plain E e hplain⟩
  · exact sameExpansion_of_captor hE hdots hname hg (eval_template hexpr ctx e) fun pm hpm hroom =>
      eval_captor hs hpm hE hdots hname hg hroom
  · exact sameExpansion_of_captor hE hdots hname' hg' (eval_quosure hquo ctx e)
      fun pm hpm hroom => eval_quosureCaptor hs hpm hE hdots hname' hg' hroom

/-- The forms that quote, and a closure for each that captures its only argument by such a form. -/
def capturing : Store where
  scopes := #[⟨[("expr", .builtin (.special .template) .empty),
    ("quo", .builtin (.special .quosure) .empty),
    ("enexpr", .builtin (.special .captured) .empty),
    ("enquo", .builtin (.special .capturedQuosure) .empty),
    ("code", .closure ⟨0⟩), ("quosure", .closure ⟨1⟩)], .empty, none⟩]
  closures := #[
    ⟨[("x", .missing)], .call (.symbol "enexpr") [.bare (.symbol "x")], .scope 0, none⟩,
    ⟨[("x", .missing)], .call (.symbol "enquo") [.bare (.symbol "x")], .scope 0, none⟩]
  evaluators := #[⟨some (.scope 0), 10, [], 0, []⟩]

theorem whole_capturing : capturing.Whole := Store.whole_of_single rfl rfl rfl rfl

/-- An argument with an injected name and an injection, captured by both forms. -/
theorem capturing_agrees_with_templates_mixed :
    let arg := Expr.call (.symbol "f") [
      .bare (.call (.symbol nameAssignName) [.bare (.symbol "a"), .bare (.const (.int 1))]),
      .bare (.call (.symbol unquoteName) [.bare (.symbol "b")])]
    SameExpansion ⟨0⟩ 3 (.scope 0) arg capturing .code .code
        ((ofLevel 4).eval ⟨0⟩ (.call (.symbol "expr") [.bare arg]) (.scope 0))
        ((ofLevel 6).eval ⟨0⟩ (.call (.symbol "code") [.bare arg]) (.scope 0)) ∧
      SameExpansion ⟨0⟩ 3 (.scope 0) arg capturing (.quosure · (.scope 0))
        (capturedAs (.scope 0) arg)
        ((ofLevel 4).eval ⟨0⟩ (.call (.symbol "quo") [.bare arg]) (.scope 0))
        ((ofLevel 6).eval ⟨0⟩ (.call (.symbol "quosure") [.bare arg]) (.scope 0)) ∧
      ∀ e', (∀ inner home, e' ≠ .const (.quosure inner home)) →
        ∃ home, capturedAs (.scope 0) arg e' = .quosure e' home := by
  have hcalls (name : String) (fn : Value) (hslot : capturing.slot? (.scope 0) name = some fn)
      (hready : capturing.ready? fn = some fn) (hfn : fn.isInvocable = true) :
      capturing.Calls (.scope 0) name fn := .here hslot hready hfn
  have hforms (name : String) (form : SpecialForm)
      (hslot : capturing.slot? (.scope 0) name = some (.builtin (.special form) .empty)) :
      capturing.Forms (.scope 0) name form := ⟨.empty, hcalls _ _ hslot rfl rfl⟩
  have hcode : capturing.Captor ⟨0⟩ .captured :=
    ⟨"x", "enexpr", ⟨by decide, rfl, rfl⟩, rfl, by decide, hforms _ _ rfl⟩
  have hquosure : capturing.Captor ⟨1⟩ .capturedQuosure :=
    ⟨"x", "enquo", ⟨by decide, rfl, rfl⟩, rfl, by decide, hforms _ _ rfl⟩
  exact capturing_agrees_with_templates (k := 3) whole_capturing rfl rfl (hforms _ _ rfl)
    (hcalls "code" _ rfl rfl rfl) hcode (hforms _ _ rfl) (hcalls "quosure" _ rfl rfl rfl) hquosure

end Machine

end Quasi
