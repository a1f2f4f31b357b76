import Quasi.Machine.Eval
import Quasi.Proofs.Flow.Modest
import Quasi.Proofs.Tidy.Shown

/-!
# Primitives that evaluate nothing

The primitives that a reading covers are modest, whatever machine they are given. They do the same
in stores that are alike but for a mask, if none of them shows an environment.
-/

namespace Quasi

open Run (Modest Respects Shows)

/-! ## Elements of values -/

section Element

variable {Q : Store → Store → Prop} {P : Value → Prop} {args : List Value} (hP : Shows Q P)

theorem failArity_bind {α β : Type} (fault : ArityFault) (f : β → Run α) :
    (Run.failArity fault >>= f) = Run.failArity fault := rfl

theorem element_pair (m : Machine) (x i : Value) : Library.element m [x, i] =
    (match i with
    | .str name => m.getMember x name
    | i => do
        let i ← Library.subscript i
        if i < 1 then Run.failType (.outOfBounds i)
        else
          match ← Library.elementAt m x (i - 1).toNat with
          | some v => pure v
          | none => Run.failType (.outOfBounds i)) := by
  cases i <;> rfl

theorem modest_elementAt (m : Machine) {v : Value} (hv : v.hasBindings = false) (n : Nat) :
    Modest Q (Library.elementAt m v n) := by
  unfold Library.elementAt
  split
  case h_6 => cases hv
  all_goals infer_instance

include hP

theorem modest_getMember (m : Machine) {v : Value} (hv : v.hasBindings = false) (name : String) :
    Modest Q (m.getMember v name) := by
  have hpart : Modest Q (do pure (Machine.partOf (← get) v name)) :=
    .read (fun s s' h => by
      unfold Machine.partOf
      simp only [hP.closure _ h, hP.incident _ h]) fun s => inferInstance
  unfold Machine.getMember
  split
  · cases hv
  · cases hv
  · cases hv
  all_goals infer_instance

theorem modest_element (m : Machine) (halone : Primitive.element.standsAlone args = true)
    (hargs : ∀ x i, args = [x, i] → P i) : Modest Q (Library.element m args) := by
  match args, halone, hargs with
  | [x, i], halone, hargs =>
      have hx : x.hasBindings = false := by
        simpa [Primitive.standsAlone, Primitive.isRegular] using halone
      have hmember (name : String) : Modest Q (m.getMember x name) := modest_getMember hP m hx name
      have hsubscript := Library.modest_subscript hP (hargs x i rfl)
      have hat (n : Nat) : Modest Q (Library.elementAt m x n) := modest_elementAt m hx n
      rw [element_pair]
      split
      · exact hmember _
      · refine .bind fun i => ?_
        split
        · infer_instance
        · refine .bind fun v => ?_
          split <;> infer_instance
  | [], _, _ | [_], _, _ | _ :: _ :: _ :: _, _, _ =>
      change Modest Q (Run.failArity _ >>= _)
      rw [failArity_bind]
      infer_instance

omit hP

/-- No machine is asked for the element of a value that has no bindings. -/
theorem element_congr (m m' : Machine) (hargs : Primitive.element.standsAlone args = true) :
    Library.element m args = Library.element m' args := by
  match args, hargs with
  | [x, i], hargs =>
      have hx : x.hasBindings = false := by
        simpa [Primitive.standsAlone, Primitive.isRegular] using hargs
      have hmember (name : String) : m.getMember x name = m'.getMember x name := by
        unfold Machine.getMember
        split
        · cases hx
        · cases hx
        · cases hx
        all_goals rfl
      have hat (n : Nat) : Library.elementAt m x n = Library.elementAt m' x n := by
        unfold Library.elementAt
        split
        case h_6 => cases hx
        all_goals rfl
      rw [element_pair, element_pair]
      simp only [hmember, hat]
  | [], _ | [_], _ | _ :: _ :: _ :: _, _ =>
      change (Run.failArity _ >>= _) = (Run.failArity _ >>= _)
      rw [failArity_bind, failArity_bind]

theorem standsAlone_of_append {fn : Primitive} {rest : List Value}
    (h : fn.standsAlone (args ++ rest) = true) : fn.standsAlone args = true := by
  cases fn with
  | element =>
      cases args with
      | nil => rfl
      | cons x args => exact h
  | _ => cases args <;> exact h

end Element

/-! ## Primitives -/

/-- The primitives that show all that their arguments hold, if only in the text of a failure. -/
def Primitive.shows : Primitive → Bool
  | .paste | .paste0 | .print | .cat | .message | .conditionMessage | .quoGetExpr | .quoGetEnv
  | .quoIsMissing | .quoIsSymbol | .quoIsCall | .sym | .syms | .asLabel => true
  | _ => false

/-- The primitives that make masks. -/
def Primitive.makesMask : Primitive → Bool
  | .newDataMask | .asDataMask => true
  | _ => false

/-- A primitive that evaluates nothing is modest where what it shows, and what it lists the names
of, is the same. -/
theorem modest_applyPrimitive {Q : Store → Store → Prop} {P : Value → Prop} (hP : Shows Q P)
    {fn : Primitive} {args : List Value} (halone : fn.standsAlone args = true)
    (hshown : fn.shows = true → ∀ x ∈ args, P x)
    (hnamed : fn = .length ∨ fn = .names →
      ∀ e, .env e ∈ args → ∀ s s', Q s s' → s.names e = s'.names e)
    (helement : fn = .element → ∀ x i, args = [x, i] → P i)
    (hmasks : fn.makesMask = true → Run.MakesMasks Q) (m : Machine) (ctx : EvaluatorId)
    (named : Bindings Value) (env : EnvId) :
    Modest Q (m.applyPrimitive ctx fn args named env) := by
  cases fn with
  | lapply | doCall | stop | warning | newEnv | environment | parentFrame | parentEnv
  | sysCall | sysFunction | assign | get | «exists» | rm | eval | evalTidy | newQuosure =>
      cases halone
  | length => exact Library.modest_length (hnamed (.inl rfl))
  | names => exact Library.modest_names hP (hnamed (.inr rfl))
  | element => exact modest_element hP m halone (helement rfl)
  | paste => exact Library.modest_paste named hP (hshown rfl)
  | paste0 => exact Library.modest_paste0 hP (hshown rfl)
  | print => exact Library.modest_print hP (hshown rfl)
  | cat => exact Library.modest_cat named hP (hshown rfl)
  | message => exact Library.modest_message hP (hshown rfl)
  | conditionMessage => exact Library.modest_conditionMessage hP (hshown rfl)
  | conditionCall => exact Library.modest_conditionCall hP
  | quoGetExpr => exact Library.modest_quoGetExpr hP (hshown rfl)
  | quoGetEnv => exact Library.modest_quoGetEnv hP (hshown rfl)
  | quoIsMissing => exact Library.modest_quosurePredicate hP (hshown rfl) _ _
  | quoIsSymbol => exact Library.modest_quosurePredicate hP (hshown rfl) _ _
  | quoIsCall => exact Library.modest_quosurePredicate hP (hshown rfl) _ _
  | sym => exact Library.modest_sym hP (hshown rfl)
  | syms => exact Library.modest_syms hP (hshown rfl)
  | asLabel => exact Library.modest_asLabel hP (hshown rfl)
  | globalEnv =>
      have htop : Modest Q (Machine.topEnv ctx) :=
        .read (fun s s' h => by rw [hP.globalEnv ctx h]) fun s => inferInstance
      unfold Machine.applyPrimitive
      infer_instance
  | newDataMask | asDataMask =>
      have hmasks := hmasks rfl
      unfold Machine.applyPrimitive
      infer_instance
  | _ => unfold Machine.applyPrimitive; infer_instance

/-- What evaluates nothing depends neither on the machine nor on where it is called. -/
theorem applyPrimitive_congr {fn : Primitive} {args : List Value} (h : fn.standsAlone args = true)
    (m m' : Machine) (ctx : EvaluatorId) (named : Bindings Value) (env env' : EnvId) :
    m.applyPrimitive ctx fn args named env = m'.applyPrimitive ctx fn args named env' := by
  cases fn with
  | element => exact element_congr m m' h
  | lapply | doCall | stop | warning | newEnv | environment | parentFrame | sysCall | sysFunction
  | assign | get | «exists» | rm | eval | evalTidy | newQuosure => cases h
  | _ => rfl

/-! ## What is shown in related stores -/

theorem hasBindings_of_isAtom {v : Value} (h : v.isAtom = true) : v.hasBindings = false := by
  cases v with
  | bool | int | num | nan | str => rfl
  | _ => cases h

/-- Of stores that agree on what is shown, all that avoids what is not shown is shown alike. -/
theorem shows_of_shown {Q : Store → Store → Prop} {bad : Value → Bool}
    (hbad : ∀ v : Value, v.isAtom = true → bad v = false)
    (hshown : ∀ {s s' : Store}, Q s s' → s'.Shown bad s)
    (hglobal : ∀ {s s' : Store} (ctx : EvaluatorId), Q s s' →
      (s.evaluator ctx).globalEnv = (s'.evaluator ctx).globalEnv) :
    Shows Q fun v => v.avoids bad = true where
  closure c h := (hshown h).closure c
  incident f h := (hshown h).incident f
  globalEnv := hglobal
  dataNames m h := (hshown h).dataNames m
  format hv := .read (fun s s' h => by rw [(hshown h).format hv]) fun s => inferInstance
  plainText hv := .read (fun s s' h => by rw [(hshown h).plainText hv]) fun s => inferInstance
  tagged h ht := avoids_part h (held_tagged ht)
  operand h hx := avoids_operand hbad h _ hx

/-- Of such stores, all that leads to no environment is shown alike, if nothing else is avoided. -/
theorem shows_of_inert {Q : Store → Store → Prop}
    (hshown : ∀ {s s' : Store}, Q s s' → s'.Shown Value.hasBindings s)
    (hglobal : ∀ {s s' : Store} (ctx : EvaluatorId), Q s s' →
      (s.evaluator ctx).globalEnv = (s'.evaluator ctx).globalEnv) :
    Shows Q fun v => v.isInert = true := by
  simp only [isInert_eq]
  exact shows_of_shown (fun _ => hasBindings_of_isAtom) hshown hglobal

/-! ## Related stores -/

/-- A modest run does the same in related stores, if writing does. -/
theorem respects_of_modest {Q : Store → Store → Prop} [Run.Fails Q]
    (hwrite : ∀ (s s' : Store) (out err : String → String), Q s s' →
      Q { s with out := out s.out, err := err s.err }
        { s' with out := out s'.out, err := err s'.err })
    {α : Type} {a : Run α} (h : Modest Q a) : Respects Q a := by
  induction h with
  | value | failure | signal | identity => infer_instance
  | mask scopes home =>
      refine ⟨fun s s' h => ?_⟩
      simp only [Run.newMask, Run.get_bind, Run.set_bind, Run.MakesMasks.size h]
      exact .value (Run.MakesMasks.addMask _ h)
  | output out err => exact .of_modify fun s s' h => hwrite s s' out err h
  | read hf _ ih => exact .get_bind hf ih
  | andThen _ _ ha hf => exact .andThen hf

theorem inertItems_of_shows {fn : Primitive} {args : List Value} (hshown : fn.shows = true)
    (h : fn.looksPast args = true) : inertItems args = true := by
  cases fn with
  | paste | paste0 | print | cat | message | conditionMessage | quoGetExpr | quoGetEnv
  | quoIsMissing | quoIsSymbol | quoIsCall | sym | syms | asLabel => exact h
  | _ => cases hshown

/-- A primitive that reads nothing but its arguments is modest, if what leads to no environment is
shown alike. -/
theorem modest_of_readsOnly {Q : Store → Store → Prop} (hP : Shows Q fun v => v.isInert = true)
    {fn : Primitive} {args : List Value} {named : Bindings Value}
    (h : fn.readsOnly (args ++ named.map (·.2)) = true)
    (hmasks : fn.makesMask = true → Run.MakesMasks Q) (m : Machine) (ctx : EvaluatorId)
    (env : EnvId) : Modest Q (m.applyPrimitive ctx fn args named env) := by
  obtain ⟨halone, hpast⟩ := Bool.and_eq_true_iff.mp h
  have hshown (hfn : fn.shows = true) : ∀ x ∈ args, x.isInert = true := fun x hx =>
    inertItems_iff.mp (inertItems_of_shows hfn hpast) x (List.mem_append_left _ hx)
  -- No environment is among the arguments whose names are listed.
  have hnamed (hfn : fn = .length ∨ fn = .names) (e : EnvId) : .env e ∉ args := fun he => by
    have hall : ((args ++ named.map (·.2)).all fun v => !v.hasBindings) = true := by
      rcases hfn with rfl | rfl <;> exact hpast
    cases List.all_eq_true.mp hall _ (List.mem_append_left _ he)
  have helement (hfn : fn = .element) (x i : Value) (hargs : args = [x, i]) :
      i.isInert = true := by
    subst hfn hargs
    exact inertItems_iff.mp hpast i (List.mem_cons_self ..)
  exact modest_applyPrimitive hP (standsAlone_of_append halone) hshown
    (fun hfn e he => absurd he (hnamed hfn e)) helement hmasks m ctx named env

/-! ## Stores that are alike -/

section Alike

variable {mask : MaskId}

theorem shows_alike : Shows (Store.Alike mask) fun v => v.isInert = true :=
  shows_of_inert (fun h => h.shown.symm) fun ctx h => by
    rw [Store.evaluator, Store.evaluator, h.evaluators]

instance : Run.MakesMasks (Store.Alike mask) where
  size h := h.size.symm
  addMask _ h := h.addMask _

theorem respects_applyPrimitive {fn : Primitive} {args : List Value} {named : Bindings Value}
    (h : fn.readsOnly (args ++ named.map (·.2)) = true) (m : Machine) (ctx : EvaluatorId)
    (env : EnvId) : Respects (Store.Alike mask) (m.applyPrimitive ctx fn args named env) :=
  respects_of_modest (fun _ _ out err h => { h with
    out := congrArg out h.out
    err := congrArg err h.err })
    (modest_of_readsOnly shows_alike h (fun _ => inferInstance) m ctx env)

end Alike

end Quasi
