import Quasi.Proofs.Tidy.Parts
import Quasi.Proofs.Tidy.Primitive
import Quasi.Proofs.Tidy.Stands

/-!
# Evaluation under a mask is static

While code of an environment is evaluated under a mask, the mask stands in front of it, so that
every name that is looked up from the bottom of the mask stands for what a reading says it stands
for. By induction on the levels of nesting, evaluation comes to what is read.
-/

namespace Quasi

namespace Reading

open Run (Agrees Matches Respects Steps)
open Machine (ReadAs)

variable {r : Reading} {Q : Store → Store → Prop} [Steps Q] {home : EnvId} {m m' : Machine}

omit [Steps Q] in
/-- The chain of the environment is the same in both stores. -/
theorem chain_eq (h : ReadAs r.mask (r.Beside Q home) m m') (s t : Store)
    (hst : r.Beside Q home s t) : s.chain home = t.chain home :=
  ((h.alike hst).chain hst.1.grounded hst.1.plain).symm

section Names

variable (h : ReadAs r.mask (r.Beside Q home) m m') (hr : r.Founded)
include h hr

theorem agrees_bound (name : String) :
    Agrees (r.Beside Q home) (Run.binding r.bottom name) (r.bound home name) := by
  intro s s' hs
  have halike := h.alike hs
  have hown (v : Value) : Matches (r.Beside Q home) (Run.own v s) (Run.own v s') :=
    Respects.agrees s s' hs
  have hbinding := Run.agrees_binding (h.sees (chain_eq h) name) s s' hs
  rw [hs.1.binding_bottom, hs.1.slot?_bottom hr, bound, Run.get_bind, halike.vars, halike.inScopes?]
  cases (s.mask r.mask).vars.get? name with
  | none =>
      cases s.inScopes? r.scopes name with
      | none => exact hbinding
      | some v => exact hown v
  | some v =>
      cases v with
      | pronoun p mask =>
          dsimp only
          split
          · exact .value hs
          · exact .endless
      | _ => exact .endless

theorem agrees_symbol (ctx : EvaluatorId) (name : String) :
    Agrees (r.Beside Q home) (m.evalSymbol ctx name r.bottom) (r.symbol m' home name) := by
  unfold symbol
  by_cases hdots : name = dotsName ∨ (Machine.dotsPosition? name).isSome = true
  · rw [if_pos hdots]
    exact .endless
  · rw [if_neg hdots]
    rw [not_or, Bool.not_eq_true, Option.isSome_eq_false_iff, Option.isNone_iff_eq_none] at hdots
    unfold Machine.evalSymbol
    rw [if_neg hdots.1, hdots.2]
    refine .bind (agrees_bound h hr name) fun v => ?_
    cases v with
    | code e =>
        cases e with
        | missing => exact Respects.agrees
        | _ => exact h.mirrors.forceValue none _
    | _ => exact h.mirrors.forceValue none _

theorem agrees_firstFunction (name : String) (s s' : Store) (hs : r.Beside Q home s s') :
    Matches (r.Beside Q home) (m.firstFunction name (s.chain r.bottom).1 s)
      (r.firstFunction m' home name s') := by
  have halike := h.alike hs
  rw [hs.1.firstFunction_bottom, hs.1.slot?_bottom hr, firstFunction, Run.get_bind, halike.vars,
    halike.inScopes?, ← chain_eq h s s' hs]
  cases (s.mask r.mask).vars.get? name with
  | some v => exact .endless
  | none =>
      have hrest := h.firstFunction name (s.chain home).1
      cases s.inScopes? r.scopes name with
      | none => exact hrest s s' hs
      | some v =>
          refine (h.mirrors.forceValue none v s s' hs).bind fun v t t' ht => ?_
          split
          · exact .value ht
          · exact hrest t t' ht

theorem agrees_function (name : String) :
    Agrees (r.Beside Q home) (m.lookupFunction r.bottom name) (r.function m' home name) := by
  intro s s' hs
  refine (agrees_firstFunction h hr name s s' hs).bind fun found t t' ht => ?_
  cases found with
  | some fn => exact .value ht
  | none =>
      have hend' : Run.reachEnd home t' = .ok () t' := by
        rw [Flow.reachEnd_apply, ← chain_eq h t t' ht, (Store.isPlain_iff.mp ht.1.plain).2.1]
      have hfail : Respects (r.Beside Q home)
          (Run.fail (.lookup (.noFunction name)) : Run Value) := inferInstance
      dsimp only
      rw [Run.bind_of_ok ht.1.reachEnd_bottom, Run.bind_of_ok hend']
      exact hfail.agrees t t' ht

omit hr in
theorem agrees_member (v : Value) (name : String) :
    Agrees (r.Beside Q home) (m.getMember v name) (r.member m' home v name) := by
  intro s s' hs
  unfold member
  split
  · rename_i p mask
    split
    · exact .endless
    · rename_i hmask
      obtain rfl := Decidable.not_not.mp hmask
      rw [Run.get_bind, (h.alike hs).inScopes?]
      cases p with
      | data =>
          change Matches _ (m.lookupData r.mask name s) _
          rw [Machine.lookupData, Run.get_bind, hs.1.data?]
          cases s.inScopes? r.scopes name with
          | some v =>
              have hown : Respects (r.Beside Q home) (Run.own v) := inferInstance
              exact (hown.agrees s s' hs).bind fun v t t' ht => h.mirrors.forceValue none v t t' ht
          | none =>
              have hfail : Respects (r.Beside Q home)
                  (Run.fail (.ambiguousName name) : Run Value) := inferInstance
              exact hfail.agrees s s' hs
      | env =>
          change Matches _ (m.lookup (s.mask r.mask).home name s) _
          rw [hs.1.falls]
          exact h.mirrors.lookup (h.sees (chain_eq h) name) s s' hs
  · exact .endless

omit hr in
theorem agrees_memberForm (ctx : EvaluatorId) (slots : List Slot) :
    Agrees (r.Beside Q home) (m.memberForm ctx slots r.bottom)
      (r.memberForm m' ctx home slots) := by
  have hfail : Respects (r.Beside Q home) (Run.failArity .targetAndName : Run Value) :=
    inferInstance
  match slots with
  | [] | [_] | _ :: _ :: _ :: _ => exact hfail.agrees
  | [target, name] =>
      refine .bind (h.eval ctx target.item r.bottom) fun v => ?_
      cases name.item with
      | symbol name => exact agrees_member h v name
      | const w =>
          cases w with
          | str name => exact agrees_member h v name
          | _ => exact Respects.agrees
      | _ => exact Respects.agrees

omit hr in
theorem agrees_form (ctx : EvaluatorId) (form : SpecialForm) (slots : List Slot) :
    Agrees (r.Beside Q home) (m.applyForm ctx form slots r.bottom)
      (r.form m' ctx home form slots) := by
  cases form with
  | block => exact Machine.agrees_blockForm (h.mirrors.eval_slots rfl slots) ctx
  | paren => exact Machine.agrees_parenForm (h.mirrors.eval_slots rfl slots) ctx
  | ifElse => exact Machine.agrees_ifForm (h.mirrors.eval_slots rfl slots) ctx
  | andAlso => exact Machine.agrees_andForm (h.mirrors.eval_slots rfl slots) ctx
  | orElse => exact Machine.agrees_orForm (h.mirrors.eval_slots rfl slots) ctx
  | member => exact agrees_memberForm h ctx slots
  | _ => exact .endless

end Names

/-! ## Steps -/

/-- A relation under which a reading does as evaluation does where evaluation is not read itself:
when the mask is moved, when code that was made elsewhere is evaluated, and in primitives. -/
structure Sound (r : Reading) (Q : Store → Store → Prop) : Prop where
  founded : r.Founded
  alike {s t : Store} : Q s t → s.Alike r.mask t
  alone {fn : Primitive} {args : List Value} :
    r.admits fn args = true → fn.standsAlone args = true
  primitive {fn : Primitive} {args : List Value} {named : Bindings Value} (m : Machine)
    (ctx : EvaluatorId) (env : EnvId) : r.admits fn (args ++ named.map (·.2)) = true →
    Respects Q (m.applyPrimitive ctx fn args named env)
  within {home inner : EnvId} {a b : Run Value} {s s' : Store} :
    Flow.fixed.Holds a → Agrees (r.Beside Q inner) a b → r.Beside Q home s s' →
    s.isPlain inner = true →
    Matches (r.Beside Q home) (Run.under r.mask inner (fun _ => a) s) (r.within inner b s')
  foreign {home : EnvId} (n : Nat) (ctx : EvaluatorId) (e : Expr) (env : EnvId) :
    Agrees (r.Beside Q home) ((Machine.ofLevel n).eval ctx e env) (r.foreign n ctx e env)

section Steps

variable [Flow.homes.Obeys m] [Flow.fixed.Obeys m] (hr : r.Sound Q)
  (h : ReadAs r.mask (r.Beside Q home) m m') (ctx : EvaluatorId)
include hr h

theorem agrees_apply (fn : Value) (call : Expr) (slots : List Slot) :
    Agrees (r.Beside Q home) (m.apply ctx fn call slots r.bottom)
      (r.apply m' ctx home fn call slots) := by
  cases fn with
  | builtin b env =>
      cases b with
      | special form => exact agrees_form h ctx form slots
      | primitive fn =>
          unfold apply
          cases hdots : slots.any fun slot => slot.item.isSymbol dotsName with
          | true => exact .endless
          | false =>
              refine .bind (h.mirrors.evalArgs ctx call (fun _ => Respects.agrees) hdots) fun args => ?_
              dsimp only
              split
              · rename_i hadmits
                have hprimitive := hr.primitive m ctx r.bottom hadmits
                rw [applyPrimitive_congr (standsAlone_of_append (hr.alone hadmits)) m' m ctx args.2
                  r.bottom r.bottom]
                exact (respects_beside _).agrees
              · exact .endless
  | _ => exact .endless

/-- What is embedded is evaluated as it is read, and so is what it is embedded in. -/
theorem agrees_step {enter : EnvId → Expr → Run Value}
    (henter : ∀ inner e s s', r.Beside Q home s s' → s.isPlain inner = true →
      Matches (r.Beside Q home) (Run.under r.mask inner (fun _ => m.eval ctx e r.bottom) s)
        (enter inner e s')) (e : Expr) :
    Agrees (r.Beside Q home) (m.evalStep ctx e r.bottom) (r.step m' enter ctx home e) := by
  cases e with
  | const v =>
      cases v with
      | quosure e inner =>
          intro s s' hs
          have hplain : s'.isPlain inner = s.isPlain inner :=
            (h.alike hs).isPlain hs.1.grounded inner
          change Matches _ (m.evalQuosure ctx e inner r.bottom s) _
          rw [step, Run.get_bind, hplain, Machine.evalQuosure, Run.bind_of_ok hs.1.findMask_bottom]
          split
          · exact henter inner e s s' hs ‹_›
          · exact .endless
      | _ => exact .pure _
  | symbol name => exact agrees_symbol h hr.founded ctx name
  | call head slots =>
      cases head with
      | symbol name =>
          exact .bind (agrees_function h hr.founded name) fun fn => agrees_apply hr h ctx fn _ slots
      | _ => exact .endless
  | formals items => exact .pure _
  | missing =>
      have hfail : Respects (r.Beside Q home) (Run.fail (.missingArgument none) : Run Value) :=
        inferInstance
      exact hfail.agrees

end Steps

/-- Evaluation from the bottom of a mask that stands in front of an environment comes to what is
read of the code of that environment. -/
theorem readAs (hr : r.Sound Q) (n : Nat) (home : EnvId) :
    ReadAs r.mask (r.Beside Q home) (Machine.ofLevel n) (r.machine n home) := by
  -- Embedded code is read for another environment on the level below, hence for all at once.
  induction n generalizing home with
  | zero => exact ⟨fun hs => hr.alike hs.2, fun _ _ _ => .raise _⟩
  | succ n ih =>
      refine ⟨fun hs => hr.alike hs.2, fun ctx e env => ?_⟩
      change Agrees _ _ (if env = r.bottom then _ else _)
      split
      · rename_i henv
        subst henv
        exact agrees_step hr (ih home) ctx (fun inner e s s' hs hplain =>
          hr.within inferInstance ((ih inner).eval ctx e r.bottom) hs hplain) e
      · exact hr.foreign (n + 1) ctx e env

end Reading

end Quasi
