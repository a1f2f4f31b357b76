import Quasi.Form.Lazy
import Quasi.Proofs.Call.Single
import Quasi.Proofs.Forward.Matching
import Quasi.Proofs.Quotation.Written

/-!
# Forwarding through dots

A wrapper takes `...` alone and calls another function with it. However many wrappers lie between,
the function that is called in the end gets the arguments of the outermost call, as they were
promised there: it refuses them if it would refuse them in a direct call, and else binds its formals
to the same.
-/

namespace Quasi

open Run (bind_of_ok bind_of_error)

/-- Calls of one closure get to another one through wrappers, outermost first. Each wrapper has
`...` as its only formal and hands it on to what a name stands for where the wrapper was made. -/
inductive Forwards (s : Store) (f : ClosureId) : ClosureId → List ClosureId → Prop where
  | last : Forwards s f f []
  | wrapper {w c : ClosureId} {next : String} {ws : List ClosureId}
      (hformals : (s.closure w).formals.map (·.1) = [dotsName])
      (hbody : (s.closure w).body = .call (.symbol next) [.bare (.symbol dotsName)])
      (henv : s.known (s.closure w).env = (s.closure w).env)
      (hnext : s.Calls (s.closure w).env next (.closure c)) (rest : Forwards s f c ws) :
      Forwards s f w (w :: ws)

theorem Forwards.grow {s t : Store} {f c : ClosureId} {ws : List ClosureId} (hs : s.Whole)
    (hst : s.Grows t) (h : Forwards s f c ws) : Forwards t f c ws := by
  induction h with
  | last => exact .last
  | @wrapper w c next ws hformals hbody henv hnext _ ih =>
      have hclosure := hst.closure w
      refine .wrapper (hclosure ▸ hformals) (hclosure ▸ hbody) ?_ ?_ ih
      · rw [hclosure]
        exact hst.known henv
      · rw [hclosure]
        exact hnext.grow hs hst henv

namespace Machine

variable {m : Machine} {ctx : EvaluatorId} {s t t' u : Store} {i i' : Nat} {pm : Bool}
  {supplied : List (Tagged Value)}

/-! ## One wrapper -/

theorem promiseArgs_dots {entries : List (Tagged Value)}
    (h : t.slot? (.scope i) dotsName = some (.dots entries)) (ctx : EvaluatorId) :
    promiseArgs ctx (.scope i) [.bare (.symbol dotsName)] t = .ok entries t := by
  have hdots : dotsOf (.scope i) t = .ok entries t := by
    rw [dotsOf, bind_of_ok (find_of_slot h)]
    dsimp only
    rw [Run.get_bind, h]
    rfl
  have hsymbol : (Expr.symbol dotsName).isSymbol dotsName = true := rfl
  unfold promiseArgs Tagged.bare
  rw [if_neg (by simp [Expr.isMissing]), if_pos hsymbol, bind_of_ok hdots]
  change (pure (entries ++ []) : Run (List (Tagged Value))) t = _
  rw [List.append_nil]
  rfl

/-- A wrapper binds `...` to all that it is called with. -/
theorem bindClosure_wrapper (hpm : t.settings.partialMatching = .ok pm) {w : ClosureId}
    (hformals : (t.closure w).formals.map (·.1) = [dotsName]) (ctx : EvaluatorId)
    (supplied : List (Tagged Value)) (call : Expr) :
    bindClosure ctx w supplied call t = .ok ((t.closure w).body, .scope t.scopes.size)
      ((opened t w).setVars (.scope t.scopes.size) fun vars =>
        vars.set dotsName (.dots (supplied.map Tagged.normal))) := by
  obtain ⟨⟨name, default⟩, heq, rfl⟩ : ∃ formal : String × Expr,
      (t.closure w).formals = [formal] ∧ formal.1 = dotsName := by
    obtain ⟨formal, heq, hname⟩ := List.map_eq_singleton_iff.mp hformals
    exact ⟨formal, heq, hname⟩
  have hmatch : matchArguments ((t.closure w).formals.map (·.1)) (describe (opened t w)) pm
      supplied = .ok ⟨[], supplied.map Tagged.normal⟩ := by
    rw [hformals]
    exact matchArguments_dots ..
  rw [bindClosure_eq hpm, hmatch, heq]
  have hdots : boundTo? ⟨[], supplied.map Tagged.normal⟩ dotsName default =
    some (.dots (supplied.map Tagged.normal)) := if_pos rfl
  dsimp only
  rw [bind_of_ok (bindFormals_single hdots _)]
  rfl

/-- The call of a wrapper comes to the call of the next closure, with the same arguments. -/
theorem applyClosure_wrapper {k : Nat} (hs : u.Whole) (hpm : u.settings.partialMatching = .ok pm)
    {w c : ClosureId} {next : String} (hformals : (u.closure w).formals.map (·.1) = [dotsName])
    (hbody : (u.closure w).body = .call (.symbol next) [.bare (.symbol dotsName)])
    (henv : u.known (u.closure w).env = (u.closure w).env)
    (hnext : u.Calls (u.closure w).env next (.closure c)) (ht : u.Grows t)
    (hroom : (t.evaluator ctx).depth < (t.evaluator ctx).maxDepth)
    (supplied : List (Tagged Value)) (call : Expr) (caller : EnvId) :
    ∃ activation call' env t', (ofLevel (k + 1)).applyClosure ctx w supplied call caller t =
      within ctx [activation]
        ((ofLevel k).applyClosure ctx c (supplied.map Tagged.normal) call' env) t' ∧
      Passed ctx [activation] t t' ∧ t'.promises = t.promises := by
  have hclosure := ht.closure w
  have hbind := bindClosure_wrapper (ht.settings ▸ hpm) (hclosure ▸ hformals) ctx supplied call
  have henvt : t.known (t.closure w).env = (t.closure w).env := hclosure ▸ ht.known henv
  obtain ⟨activation, t', heq, hpassed, hpromises, hmade, hscope⟩ :=
    applyClosure_single hbind henvt hroom (ofLevel (k + 1)) caller
  rw [hclosure] at heq hscope
  have hcalls : t'.Calls (.scope t.scopes.size) next (.closure c) :=
    calls_single hs (ht.trans hpassed.grows) henv hnext ⟨ht.scopes, hmade⟩ hscope (.inr ⟨rfl, rfl⟩)
  refine ⟨activation, .call (.symbol next) [.bare (.symbol dotsName)], .scope t.scopes.size, t', ?_,
    hpassed, hpromises⟩
  rw [heq]
  refine within_congr ?_
  rw [hbody, eval_call_of_calls hcalls ctx]
  exact bind_of_ok (promiseArgs_dots ((slot?_single hscope dotsName).trans (if_pos rfl)) ctx)

/-- A call of the outermost wrapper comes to a call of the closure behind all of them. -/
theorem applyClosure_forwards {k : Nat} (hs : u.Whole)
    (hpm : u.settings.partialMatching = .ok pm) {f c : ClosureId} {ws : List ClosureId}
    (h : Forwards u f c ws) (ht : u.Grows t)
    (hroom : (t.evaluator ctx).depth + ws.length ≤ (t.evaluator ctx).maxDepth)
    (supplied : List (Tagged Value)) (call : Expr) (caller : EnvId) :
    ∃ calls supplied' call' caller' t',
      (ofLevel (k + ws.length)).applyClosure ctx c supplied call caller t =
        within ctx calls ((ofLevel k).applyClosure ctx f supplied' call' caller') t' ∧
      supplied'.map Tagged.normal = supplied.map Tagged.normal ∧ calls.length = ws.length ∧
      Passed ctx calls t t' ∧ t'.promises = t.promises := by
  induction h generalizing t supplied call caller with
  | last => exact ⟨[], supplied, call, caller, t, rfl, rfl, rfl, .refl ctx t, rfl⟩
  | @wrapper w c next ws hformals hbody henv hnext rest ih =>
      rw [List.length_cons] at hroom
      have hroom' : (t.evaluator ctx).depth < (t.evaluator ctx).maxDepth := by omega
      obtain ⟨activation, call₁, env₁, t₁, heq, hpassed, hpromises⟩ := applyClosure_wrapper
        (k := k + ws.length) hs hpm hformals hbody henv hnext ht hroom' supplied call caller
      have hroom₁ : (t₁.evaluator ctx).depth + ws.length ≤ (t₁.evaluator ctx).maxDepth := by
        rw [hpassed.depth, hpassed.maxDepth, List.length_singleton]
        omega
      obtain ⟨calls, supplied', call', caller', t', heq', hsupplied, hlength, hpassed',
        hpromises'⟩ := ih (ht.trans hpassed.grows) hroom₁ (supplied.map Tagged.normal) call₁ env₁
      refine ⟨calls ++ [activation], supplied', call', caller', t', ?_, ?_, ?_,
        hpassed.trans hpassed', hpromises'.trans hpromises⟩
      · rw [within_append]
        exact heq.trans (within_congr heq')
      · rw [hsupplied, List.map_map]
        exact List.map_congr_left fun a _ => a.normal_normal
      · simp [hlength]

/-! ## The arguments of the outermost call -/

theorem find_eq_ok {e : EnvId} {name : String} {found : Option EnvId}
    (h : Run.find e name s = .ok found t) : t = s := by
  rw [Run.find, Run.search, Run.get_bind] at h
  cases hfound : (s.chain e).1.find? fun env => (s.slot? env name).isSome with
  | some env =>
      rw [hfound] at h
      cases h
      rfl
  | none =>
      rw [hfound] at h
      obtain ⟨_, v, hreach, hnone⟩ := Run.bind_eq_ok h
      cases hnone
      rw [Flow.reachEnd_apply] at hreach
      split at hreach
      · cases hreach
        rfl
      · cases hreach

theorem dotsOf_eq_ok {e : EnvId} {entries : List (Tagged Value)}
    (h : dotsOf e s = .ok entries t) : t = s := by
  obtain ⟨found, v, hfind, h⟩ := Run.bind_eq_ok h
  cases find_eq_ok hfind
  cases found with
  | none => cases h
  | some found =>
      dsimp only at h
      rw [Run.get_bind] at h
      cases hslot : s.slot? found dotsName with
      | none =>
          rw [hslot] at h
          cases h
      | some v =>
          rw [hslot] at h
          cases v with
          | dots entries =>
              cases h
              rfl
          | _ => cases h

/-- Promising arguments makes promises only. -/
structure Promised (ctx : EvaluatorId) (E : EnvId) (slots : List Slot)
    (supplied : List (Tagged Value)) (s u : Store) : Prop where
  grows : s.Grows u
  whole : s.Whole → u.Whole
  evaluators : u.evaluators = s.evaluators
  /-- The promise of a slot keeps the code as it was written beside the environment of the call. -/
  written : ∀ slot ∈ slots, slot.item.isMissing = false → slot.item.isSymbol dotsName = false →
    ∃ p : PromiseId, ⟨slot.tag, .promise p⟩ ∈ supplied ∧ p.index < u.promises.size ∧
      u.promise p = ⟨slot.item, some (s.known E), some ctx, false, .unforced⟩

namespace Promised

variable {E : EnvId} {slots : List Slot} {supplied' : List (Tagged Value)}

/-- More arguments do no harm to those of the slots. -/
theorem more (h : Promised ctx E slots supplied s u) (hmore : ∀ a ∈ supplied, a ∈ supplied') :
    Promised ctx E slots supplied' s u where
  grows := h.grows
  whole := h.whole
  evaluators := h.evaluators
  written slot hslot hpresent hdots := by
    obtain ⟨p, hmem, hp⟩ := h.written slot hslot hpresent hdots
    exact ⟨p, hmore _ hmem, hp⟩

/-- A slot that takes no promise comes in front of the others. -/
theorem skip (h : Promised ctx E slots supplied s u) {slot : Slot}
    (hslot : slot.item.isMissing = true ∨ slot.item.isSymbol dotsName = true) :
    Promised ctx E (slot :: slots) supplied s u := by
  refine { h with written := List.forall_mem_cons.mpr ⟨fun hpresent hdots => ?_, h.written⟩ }
  rcases hslot with hslot | hslot <;> simp_all

/-- The promise of a slot is made before those of the slots behind it. -/
theorem promise {tag : Option String} {e : Expr}
    (h : Promised ctx E slots supplied (s.addPromise ⟨e, some E, some ctx, false, .unforced⟩) u) :
    Promised ctx E (⟨tag, e⟩ :: slots) (⟨tag, .promise ⟨s.promises.size⟩⟩ :: supplied) s u := by
  let made : Promise := ⟨e, some E, some ctx, false, .unforced⟩
  have hsize := s.lt_size_addPromise made
  refine ⟨(Store.Grows.addPromise s made).trans h.grows, fun hs => h.whole (hs.addPromise made), ?_,
    List.forall_mem_cons.mpr ⟨fun _ _ => ?_, ?_⟩⟩
  · exact h.evaluators.trans (s.evaluators_addPromise made)
  · refine ⟨⟨s.promises.size⟩, List.mem_cons_self .., ?_, ?_⟩
    · exact Nat.lt_of_lt_of_le hsize h.grows.promises
    · rw [h.grows.promise ⟨s.promises.size⟩ hsize, Store.promise_addPromise, if_pos rfl]
      rfl
  · intro slot hslot hpresent hdots
    obtain ⟨p, hmem, hp, hpromise⟩ := h.written slot hslot hpresent hdots
    exact ⟨p, List.mem_cons_of_mem _ hmem, hp, s.known_addPromise made E ▸ hpromise⟩

end Promised

theorem promiseArgs_promised {E : EnvId} {slots : List Slot}
    (h : promiseArgs ctx E slots s = .ok supplied u) : Promised ctx E slots supplied s u := by
  induction slots generalizing s supplied with
  | nil =>
      cases h
      exact ⟨.refl _, id, rfl, nofun⟩
  | cons slot rest ih =>
      obtain ⟨tag, e⟩ := slot
      unfold promiseArgs at h
      by_cases hmissing : e.isMissing = true
      · rw [if_pos hmissing] at h
        obtain ⟨others, v, hrest, h⟩ := Run.bind_eq_ok h
        cases h
        exact ((ih hrest).more fun _ => List.mem_cons_of_mem _).skip (.inl hmissing)
      · rw [if_neg hmissing] at h
        by_cases hsymbol : e.isSymbol dotsName = true
        · rw [if_pos hsymbol] at h
          obtain ⟨entries, v, hentries, h⟩ := Run.bind_eq_ok h
          cases dotsOf_eq_ok hentries
          obtain ⟨others, v, hrest, h⟩ := Run.bind_eq_ok h
          cases h
          exact ((ih hrest).more fun _ => List.mem_append_right _).skip (.inr hsymbol)
        · rw [if_neg hsymbol] at h
          have hnew : Run.newPromise ⟨e, some E, some ctx, false, .unforced⟩ s =
            .ok ⟨s.promises.size⟩ (s.addPromise ⟨e, some E, some ctx, false, .unforced⟩) := rfl
          rw [bind_of_ok hnew] at h
          obtain ⟨others, v, hrest, h⟩ := Run.bind_eq_ok h
          cases h
          exact (ih hrest).promise

/-! ## What the called closure sees -/

namespace SameFrame

theorem isMissing? (hu : u.Whole) (h : SameFrame ctx u i t i' t') (n : Nat) (v : Value) :
    Machine.isMissing? t' n v = Machine.isMissing? t n v := by
  induction n generalizing v with
  | zero => rfl
  | succ n ih =>
      unfold Machine.isMissing?
      cases v with
      | promise p =>
          dsimp only
          by_cases hold : p.index < u.promises.size
          · rw [h.grows.promise p hold, h.grows'.promise p hold]
            split
            · rfl
            · split
              case h_4 _ henv _ _ _ =>
                have hknown := hu.promise p _ henv
                rw [h.grows.slot? hu hknown, h.grows'.slot? hu hknown]
                split
                · exact ih _
                · rfl
              all_goals rfl
          · by_cases hnew : p.index < t.promises.size
            · obtain ⟨e, ht, ht'⟩ := h.defaults p (Nat.not_lt.mp hold) hnew
              rw [ht, ht']
              rfl
            · have hnone (s : Store) (hs : s.promises.size = t.promises.size) :
                  s.promise p = ⟨.missing, none, none, false, .given .null⟩ := by
                simp [Store.promise, Array.getD, hs, hnew, Inhabited.default]
              rw [hnone t rfl, hnone t' h.count]
      | code e => cases e <;> rfl
      | _ => rfl

/-- In both frames `missing` gives the same answer. -/
theorem missing_iff (hu : u.Whole) (h : SameFrame ctx u i t i' t') (slots : List Slot) (v : Value) :
    (∃ w, missingForm slots (.scope i) t = .ok v w) ↔
      ∃ w, missingForm slots (.scope i') t' = .ok v w := by
  have hslot (name : String) : t'.slot? (.scope i') name = t.slot? (.scope i) name :=
    congrArg (Bindings.get? · name) h.vars
  have hmissing (v : Value) : Machine.isMissing? t' (t'.promises.size + 2) v =
      Machine.isMissing? t (t.promises.size + 2) v := by
    rw [h.count]
    exact h.isMissing? hu _ v
  unfold missingForm
  split
  next tag name =>
    rw [Run.get_bind, Run.get_bind, hslot]
    cases t.slot? (.scope i) name with
    | none => split <;> constructor <;> rintro ⟨w, hw⟩ <;> cases hw <;> exact ⟨_, rfl⟩
    | some v =>
        dsimp only
        unfold isMissing
        simp only [bind_assoc]
        rw [Run.get_bind, Run.get_bind, hmissing]
        cases Machine.isMissing? t (t.promises.size + 2) v with
        | none => constructor <;> rintro ⟨w, hw⟩ <;> cases hw
        | some b => constructor <;> rintro ⟨w, hw⟩ <;> cases hw <;> exact ⟨_, rfl⟩
  · constructor <;> rintro ⟨w, hw⟩ <;> cases hw

/-- What was written for an argument does not depend on the frame. -/
theorem written? (h : SameFrame ctx u i t i' t') {p : PromiseId} (hp : p.index < u.promises.size) :
    t.written? (.promise p) = u.written? (.promise p) ∧
      t'.written? (.promise p) = u.written? (.promise p) := by
  simp only [Store.written?, h.grows.promise p hp, h.grows'.promise p hp, and_self]

end SameFrame

/-! ## Direct calls and calls through wrappers -/

/-- What a direct call of a closure and a call of it through `n` wrappers come to, with the same
slots in the same environment. -/
inductive SameCall (ctx : EvaluatorId) (k n : Nat) (pm : Bool) (f : ClosureId) (slots : List Slot)
    (E : EnvId) (s : Store) (direct chained : Run Value) : Prop where
  /-- There is no `...` to take arguments from where the call was written. -/
  | unpromised {i : Interrupt} {t : Store} (hargs : promiseArgs ctx E slots s = .error i t)
      (hdirect : direct s = .error i t) (hchained : chained s = .error i t)
  /-- The arguments do not match the formals of the closure. -/
  | refused {supplied : List (Tagged Value)} {u t t' : Store} {fault fault' : ArityFault}
      {r r' : Nat} (hargs : promiseArgs ctx E slots s = .ok supplied u)
      (hmatch : (matchArguments ((s.closure f).formals.map (·.1)) (describe u) pm
        supplied).toOption = none)
      (hdirect : direct s = .error (.failure ⟨r, .arity fault⟩) t)
      (hchained : chained s = .error (.failure ⟨r', .arity fault'⟩) t')
  /-- The body of the closure is evaluated in frames that bind its formals to the same. -/
  | bound {supplied : List (Tagged Value)} {u t t' : Store} {matched : Matched Value}
      {i i' id id' : Nat} {calls : List Activation}
      (hargs : promiseArgs ctx E slots s = .ok supplied u)
      (hmatch : (matchArguments ((s.closure f).formals.map (·.1)) (describe u) pm
        supplied).toOption = some matched)
      (hdirect : direct s = within ctx [⟨ofLevel k, .scope i, id⟩]
        ((ofLevel k).eval ctx (s.closure f).body (.scope i)) t)
      (hchained : chained s = within ctx (⟨ofLevel k, .scope i', id'⟩ :: calls)
        ((ofLevel k).eval ctx (s.closure f).body (.scope i')) t')
      (hlength : calls.length = n) (hframe : SameFrame ctx u i t i' t')
      (hpromised : Promised ctx E slots supplied s u)
      (hmissing : ∀ slots v, (∃ w, missingForm slots (.scope i) t = .ok v w) ↔
        ∃ w, missingForm slots (.scope i') t' = .ok v w)
      (hwritten : ∀ p : PromiseId, p.index < u.promises.size →
        t.written? (.promise p) = u.written? (.promise p) ∧
          t'.written? (.promise p) = u.written? (.promise p))

section Alike

variable {f : ClosureId} {matched : Matched Value} (hpm : u.settings.partialMatching = .ok pm)
  (ht : u.Grows t)

include hpm ht

/-- A closure refuses arguments by a failure that changes no evaluator. -/
theorem applyClosure_refused
    (hmatch : (matchArguments ((u.closure f).formals.map (·.1)) (describe u) pm
      supplied).toOption = none) (m : Machine) (ctx : EvaluatorId) (call : Expr) (caller : EnvId) :
    ∃ r fault v, m.applyClosure ctx f supplied call caller t =
      .error (.failure ⟨r, .arity fault⟩) v ∧ v.evaluators = t.evaluators := by
  obtain ⟨fault, hfault⟩ := matchArguments_of_none hmatch (describe (opened t f))
  have hbind := bindClosure_eq (ht.settings ▸ hpm) ctx f supplied call
  rw [ht.closure, hfault] at hbind
  let refused : Store :=
    { opened t f with failures := (opened t f).failures.push ⟨some call, none⟩ }
  have hrefused : bindClosure ctx f supplied call t =
    .error (.failure ⟨(opened t f).failures.size, .arity fault⟩) refused := hbind
  refine ⟨(opened t f).failures.size, fault, refused, ?_, rfl⟩
  rw [applyClosure_eq]
  exact bind_of_error hrefused

/-- A closure that takes its arguments binds its formals in an environment of its own. -/
theorem bindClosure_matched
    (hmatch : (matchArguments ((u.closure f).formals.map (·.1)) (describe u) pm
      supplied).toOption = some matched) (ctx : EvaluatorId) (call : Expr) :
    bindClosure ctx f supplied call t = (do
      bindFormals ctx (.scope t.scopes.size) matched (u.closure f).formals
      pure ((u.closure f).body, .scope t.scopes.size) : Run (Expr × EnvId)) (opened t f) := by
  rw [bindClosure_eq (ht.settings ▸ hpm), ht.closure, matchArguments_of_some hmatch]

omit ht in
/-- A direct call of a closure and one behind wrappers evaluate its body in frames that are alike,
if the arguments of both match in the same way. -/
theorem applyClosure_alike {calls : List Activation} {supplied' : List (Tagged Value)}
    (henv : u.known (u.closure f).env = (u.closure f).env) (hpassed : Passed ctx calls u t')
    (hpromises : t'.promises = u.promises)
    (hroom : (u.evaluator ctx).depth + calls.length < (u.evaluator ctx).maxDepth)
    (hmatch : (matchArguments ((u.closure f).formals.map (·.1)) (describe u) pm
      supplied).toOption = some matched)
    (hmatch' : (matchArguments ((u.closure f).formals.map (·.1)) (describe u) pm
      supplied').toOption = some matched) (m : Machine) (call call' : Expr)
    (caller caller' : EnvId) :
    ∃ i id t i' id' v,
      m.applyClosure ctx f supplied call caller u =
        within ctx [⟨m, .scope i, id⟩] (m.eval ctx (u.closure f).body (.scope i)) t ∧
      m.applyClosure ctx f supplied' call' caller' t' =
        within ctx [⟨m, .scope i', id'⟩] (m.eval ctx (u.closure f).body (.scope i')) v ∧
      SameFrame ctx u i t i' v := by
  have hopened : SameFrame ctx u u.scopes.size (opened u f) t'.scopes.size (opened t' f) :=
    sameFrame_opened (.refl u) hpassed.grows rfl (congrArg Array.size hpromises) henv
  obtain ⟨v, v', hv, hv', hframe, hev, hev'⟩ := hopened.bindFormals matched (u.closure f).formals
  have hbind := bindClosure_matched hpm (.refl u) hmatch ctx call
  have hbind' := bindClosure_matched hpm hpassed.grows hmatch' ctx call'
  rw [bind_of_ok hv] at hbind
  rw [bind_of_ok hv'] at hbind'
  have hevaluator : v.evaluator ctx = u.evaluator ctx := by
    simp only [Store.evaluator, hev]
    rfl
  have hevaluator' : v'.evaluator ctx = t'.evaluator ctx := by
    simp only [Store.evaluator, hev']
    rfl
  have hroomv : (v.evaluator ctx).depth < (v.evaluator ctx).maxDepth := by
    rw [hevaluator]
    omega
  have hroomv' : (v'.evaluator ctx).depth < (v'.evaluator ctx).maxDepth := by
    rw [hevaluator', hpassed.depth, hpassed.maxDepth]
    exact hroom
  obtain ⟨id, t, hentry, hentered⟩ := applyClosure_entered hbind hroomv m caller
  obtain ⟨id', w, hentry', hentered'⟩ := applyClosure_entered hbind' hroomv' m caller'
  exact ⟨_, id, t, _, id', w, hentry, hentry', hframe.entered hentered hentered'⟩

end Alike

/-- Forwarding through `...` is transparent. Let one name stand for a closure and another one for
the outermost of `n` wrappers that lead to it. The same slots called by either name from the same
environment come to the same call, as long as the depth allows for the wrappers: the arguments are
promised where the call was written, they are refused in both calls or in none, and if they are
taken the frames of the closure are alike. In these frames nothing tells what was written for an
argument, or whether it is missing, apart from what was written in the outermost call. -/
theorem forwarding_agrees {k : Nat} {E : EnvId} {name first : String} {f c : ClosureId}
    {ws : List ClosureId} (hs : s.Whole) (hpm : s.settings.partialMatching = .ok pm)
    (henv : s.known (s.closure f).env = (s.closure f).env)
    (hname : s.Calls E name (.closure f)) (hfirst : s.Calls E first (.closure c))
    (hchain : Forwards s f c ws)
    (hroom : (s.evaluator ctx).depth + ws.length < (s.evaluator ctx).maxDepth)
    (slots : List Slot) :
    SameCall ctx k ws.length pm f slots E s
      ((ofLevel (k + 1)).eval ctx (.call (.symbol name) slots) E)
      ((ofLevel (k + ws.length + 1)).eval ctx (.call (.symbol first) slots) E) := by
  have hdirect := eval_call_of_calls (n := k) hname ctx slots
  have hchained := eval_call_of_calls (n := k + ws.length) hfirst ctx slots
  cases hargs : promiseArgs ctx E slots s with
  | error i t =>
      exact .unpromised hargs (hdirect.trans (bind_of_error hargs))
        (hchained.trans (bind_of_error hargs))
  | ok supplied u =>
      replace hdirect := hdirect.trans (bind_of_ok hargs)
      replace hchained := hchained.trans (bind_of_ok hargs)
      have hpromised := promiseArgs_promised hargs
      have hu := hpromised.whole hs
      have hpmu : u.settings.partialMatching = .ok pm := hpromised.grows.settings ▸ hpm
      have hevaluator : u.evaluator ctx = s.evaluator ctx := by
        simp only [Store.evaluator, hpromised.evaluators]
      have hclosure := hpromised.grows.closure f
      have henvu : u.known (u.closure f).env = (u.closure f).env := by
        rw [hclosure]
        exact hpromised.grows.known henv
      rw [← hevaluator] at hroom
      obtain ⟨calls, supplied', call', caller', t', heq, hsupplied, hlength, hpassed, hpromises⟩ :=
        applyClosure_forwards (k := k) hu hpmu (hchain.grow hs hpromised.grows) (.refl u)
          (Int.le_of_lt hroom) supplied (.call (.symbol first) slots) E
      replace hchained := hchained.trans heq
      -- Behind the wrappers the arguments match as they do in the direct call.
      have hsame : matchArguments ((u.closure f).formals.map (·.1)) (describe u) pm supplied' =
          matchArguments ((u.closure f).formals.map (·.1)) (describe u) pm supplied := by
        rw [← matchArguments_normal, hsupplied, matchArguments_normal]
      cases hmatch : (matchArguments ((u.closure f).formals.map (·.1)) (describe u) pm
        supplied).toOption with
      | none =>
          obtain ⟨r, fault, v, hrefused, -⟩ := applyClosure_refused hpmu (.refl u) hmatch
            (ofLevel k) ctx (.call (.symbol name) slots) E
          obtain ⟨r', fault', v', hrefused', hkept⟩ := applyClosure_refused hpmu hpassed.grows
            (hsame.symm ▸ hmatch) (ofLevel k) ctx call' caller'
          obtain ⟨w, hw⟩ := within_of_clear (Run.attempt_of_signal (x := .failure _) hrefused')
            (hpassed.clear.of_evaluators hkept) fun _ => rfl
          exact .refused hargs (hclosure ▸ hmatch) (hdirect.trans hrefused) (hchained.trans hw)
      | some matched =>
          obtain ⟨i, id, t, i', id', v, hentry, hentry', hframe⟩ :=
            applyClosure_alike hpmu henvu hpassed hpromises (hlength ▸ hroom) hmatch
              (hsame.symm ▸ hmatch) (ofLevel k) (.call (.symbol name) slots) call' E caller'
          rw [hclosure] at hentry hentry'
          replace hchained := hchained.trans (within_congr hentry')
          exact .bound hargs (hclosure ▸ hmatch) (hdirect.trans hentry) hchained hlength hframe
            hpromised (hframe.missing_iff hu) fun p hp => hframe.written? hp

/-- A closure with a formal and dots under the name `f`, and a wrapper of it under the name `w`. -/
def wrapping (settings : Settings) : Store where
  scopes := #[⟨[("f", .closure ⟨0⟩), ("w", .closure ⟨1⟩)], .empty, none⟩]
  closures := #[⟨[("x", .missing), (dotsName, .missing)], .symbol "x", .scope 0, none⟩,
    ⟨[(dotsName, .missing)], .call (.symbol "f") [.bare (.symbol dotsName)], .scope 0, none⟩]
  evaluators := #[⟨some (.scope 0), 10, [], 0, []⟩]
  settings := settings

theorem whole_wrapping (settings : Settings) : (wrapping settings).Whole :=
  Store.whole_of_single rfl rfl rfl rfl

/-- An argument with an empty name and a missing one get through. -/
theorem forwarding_agrees_unnamed :
    let slots := [⟨some "", .const (.int 1)⟩, ⟨some "y", .missing⟩]
    SameCall ⟨0⟩ 4 1 true ⟨0⟩ slots (.scope 0) (wrapping [])
      ((ofLevel 5).eval ⟨0⟩ (.call (.symbol "f") slots) (.scope 0))
      ((ofLevel 6).eval ⟨0⟩ (.call (.symbol "w") slots) (.scope 0)) := by
  have hname : (wrapping []).Calls (.scope 0) "f" (.closure ⟨0⟩) := .here rfl rfl rfl
  have hfirst : (wrapping []).Calls (.scope 0) "w" (.closure ⟨1⟩) := .here rfl rfl rfl
  have hchain : Forwards (wrapping []) ⟨0⟩ ⟨1⟩ [⟨1⟩] := .wrapper rfl rfl rfl hname .last
  exact forwarding_agrees (k := 4) (whole_wrapping []) rfl rfl hname hfirst hchain (by decide) _

/-- Exact names are matched before the flag is read that allows for abbreviated ones. If it cannot
be read a direct call still refuses a formal that is named twice, but the call of a wrapper, in which
nothing is named exactly, fails at the flag. -/
theorem unreadable_flag_hides_refusal :
    let slots := [⟨some "x", .const (.int 1)⟩, ⟨some "x", .const (.int 2)⟩]
    let s := wrapping [("RHO_PARTIAL_MATCH", "maybe")]
    s.Calls (.scope 0) "f" (.closure ⟨0⟩) ∧ s.Calls (.scope 0) "w" (.closure ⟨1⟩) ∧
      Forwards s ⟨0⟩ ⟨1⟩ [⟨1⟩] ∧
      (∃ r t, (ofLevel 5).eval ⟨0⟩ (.call (.symbol "f") slots) (.scope 0) s =
        .error (.failure ⟨r, .arity (.formalTwice "x")⟩) t) ∧
      ∃ r message t, (ofLevel 6).eval ⟨0⟩ (.call (.symbol "w") slots) (.scope 0) s =
        .error (.failure ⟨r, .host (.value message)⟩) t :=
  ⟨.here rfl rfl rfl, .here rfl rfl rfl, .wrapper rfl rfl rfl (.here rfl rfl rfl) .last,
    ⟨_, _, rfl⟩, ⟨_, _, _, rfl⟩⟩

end Machine

end Quasi
