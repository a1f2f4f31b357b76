import Quasi.Machine.Eval
import Quasi.Proofs.Return.Inside

/-!
# The last part of a `tryCatch`

What stands under `finally` is evaluated after everything else, whichever way that ends, provided
that the handlers could be evaluated: they are evaluated before anything is followed by the last
part.
-/

namespace Quasi

namespace Run

variable {α : Type} {a b : Run α} {last : Run Unit} {s t : Store}

theorem andFinally_congr (h : a s = b t) : andFinally a last s = andFinally b last t := by
  simp only [andFinally, bind, EStateM.bind, attempt_congr h]

end Run

namespace Machine

variable {m : Machine} {ctx : EvaluatorId} {env : EnvId} {slots : List Slot} {s t u : Store}

/-! ## Slots -/

/-- What stands in the last slot that is called `finally`. -/
def lastFinally : List Slot → Option Expr
  | [] => none
  | ⟨tag, e⟩ :: rest => lastFinally rest <|> if tag = some "finally" then some e else none

/-- The slots that are not called `finally`. -/
def withoutFinally (slots : List Slot) : List Slot := slots.filter (·.tag ≠ some "finally")

section Slots

variable {slot : Slot} {rest : List Slot}

theorem withoutFinally_of_finally (h : slot.tag = some "finally") :
    withoutFinally (slot :: rest) = withoutFinally rest :=
  List.filter_cons_of_neg (by simpa using h)

theorem withoutFinally_of_other (h : slot.tag ≠ some "finally") :
    withoutFinally (slot :: rest) = slot :: withoutFinally rest :=
  List.filter_cons_of_pos (by simpa using h)

theorem lastFinally_of_other (h : slot.tag ≠ some "finally") :
    lastFinally (slot :: rest) = lastFinally rest := by
  rw [lastFinally, if_neg h, Option.orElse_eq_orElse, Option.orElse_eq_or, Option.or_none]

theorem lastFinally_withoutFinally (slots : List Slot) :
    lastFinally (withoutFinally slots) = none := by
  induction slots with
  | nil => rfl
  | cons slot rest ih =>
      by_cases h : slot.tag = some "finally"
      · rw [withoutFinally_of_finally h, ih]
      · rw [withoutFinally_of_other h, lastFinally_of_other h, ih]

theorem withoutFinally_idem (slots : List Slot) :
    withoutFinally (withoutFinally slots) = withoutFinally slots := by
  simp only [withoutFinally, List.filter_filter, Bool.and_self]

end Slots

/-- Slots called `finally` have no say in what the other parts are. -/
theorem tryParts_eq (slots : List Slot) (parts : TryParts) (last : Option Expr) :
    tryParts slots { parts with last := last } =
      (fun p => { p with last := lastFinally slots <|> last }) <$>
        tryParts (withoutFinally slots) parts := by
  induction slots generalizing parts last with
  | nil => rfl
  | cons slot rest ih =>
      by_cases h : slot.tag = some "finally"
      · obtain ⟨tag, e⟩ := slot
        have hlast : (lastFinally (⟨tag, e⟩ :: rest) <|> last) = (lastFinally rest <|> some e) := by
          rw [lastFinally, if_pos h]
          cases lastFinally rest <;> rfl
        rw [withoutFinally_of_finally h, hlast, ← ih]
        cases h
        rfl
      · rw [withoutFinally_of_other h, lastFinally_of_other h]
        obtain ⟨_ | name, e⟩ := slot
        · by_cases hbody : parts.body.isSome
          · simp only [tryParts, hbody, if_true]
            rfl
          · simp only [tryParts, hbody]
            exact ih { parts with body := some e } last
        · have hname : name ≠ "finally" := fun hname => h (congrArg some hname)
          simp only [tryParts, if_neg hname]
          split
          · exact ih { parts with body := some e } last
          · exact ih { parts with handlers := (name, e) :: parts.handlers } last

/-! ## Handlers and what is guarded by them -/

/-- The parts of a `tryCatch` and its handlers, evaluated. -/
def tryHandlers (m : Machine) (ctx : EvaluatorId) (slots : List Slot) (env : EnvId) :
    Run (TryParts × List (String × Value)) := do
  let parts ← tryParts slots {}
  pure (parts, ← m.evalHandlers ctx env parts.handlers)

/-- The body of a `tryCatch` behind its handlers. -/
def tryBody (m : Machine) (ctx : EvaluatorId) (env : EnvId)
    (tried : TryParts × List (String × Value)) : Run Value :=
  match tried.1.body with
  | none => pure .null
  | some body => m.guarded ctx env tried.2 body

theorem tryCatchForm_eq (m : Machine) (ctx : EvaluatorId) (slots : List Slot) (env : EnvId) :
    m.tryCatchForm ctx slots env = (do
      let tried ← m.tryHandlers ctx (withoutFinally slots) env
      match lastFinally slots with
      | none => m.tryBody ctx env tried
      | some last => Run.andFinally (m.tryBody ctx env tried) (do let _ ← m.eval ctx last env)) := by
  have hparts : tryParts slots {} = (fun p => { p with last := lastFinally slots }) <$>
      tryParts (withoutFinally slots) {} := by
    simpa using tryParts_eq slots {} none
  unfold tryCatchForm tryHandlers
  rw [hparts]
  simp only [bind_assoc, pure_bind, map_eq_pure_bind]
  refine bind_congr fun parts => bind_congr fun handlers => ?_
  rfl

/-! ## The call -/

/-- What the head of a call stands for. -/
def callee (m : Machine) (ctx : EvaluatorId) (head : Expr) (env : EnvId) : Run Value :=
  match head.symbolName? with
  | some name => lookupFunction m env name
  | none => m.eval ctx head env

theorem evalCall_of_form {head : Expr} {form : SpecialForm} {e : EnvId} (slots : List Slot)
    (h : m.callee ctx head env s = .ok (.builtin (.special form) e) u) :
    m.evalCall ctx head slots env s = m.applyForm ctx form slots env u := by
  unfold callee at h
  unfold evalCall
  cases hname : head.symbolName? with
  | some name =>
      rw [hname] at h
      exact Run.bind_of_ok h
  | none =>
      rw [hname] at h
      exact Run.bind_of_ok h

/-- The last part of a `tryCatch` and the handlers. If a handler cannot be evaluated the call ends
as it would without its last part, which is not evaluated. Otherwise the last part is evaluated
once, where the call would end without it. The call ends as it would without it if the last part
has a value, and with the signal of the last part if not. Only an endless search is not followed by
the last part. -/
theorem finally_follows_handlers {n : Nat} {head : Expr} {e : EnvId} {last : Expr}
    (hhead : (ofLevel n).callee ctx head env s = .ok (.builtin (.special .tryCatch) e) u)
    (hlast : lastFinally slots = some last) :
    let whole := (ofLevel (n + 1)).eval ctx (.call head slots) env
    let without := (ofLevel (n + 1)).eval ctx (.call head (withoutFinally slots)) env
    (∀ i t, (ofLevel n).tryHandlers ctx (withoutFinally slots) env u = .error i t →
      without s = .error i t ∧ whole s = .error i t) ∧
    (∀ tried t, (ofLevel n).tryHandlers ctx (withoutFinally slots) env u = .ok tried t →
      (∀ v, without.LostIn s v → whole.LostIn s v) ∧
      ∀ outcome v, Run.attempt without s = .ok outcome v →
        (∀ x w, (ofLevel n).eval ctx last env v = .ok x w → whole s = Run.resume outcome w) ∧
        ∀ i w, (ofLevel n).eval ctx last env v = .error i w → whole s = .error i w) := by
  intro whole without
  have hwhole : whole s = (ofLevel n).tryCatchForm ctx slots env u := evalCall_of_form slots hhead
  have hwithout : without s = (ofLevel n).tryCatchForm ctx (withoutFinally slots) env u :=
    evalCall_of_form _ hhead
  rw [tryCatchForm_eq, hlast] at hwhole
  rw [tryCatchForm_eq, lastFinally_withoutFinally, withoutFinally_idem] at hwithout
  refine ⟨fun i t h => ⟨hwithout.trans (Run.bind_of_error h), hwhole.trans (Run.bind_of_error h)⟩,
    fun tried t h => ?_⟩
  rw [Run.bind_of_ok h] at hwhole hwithout
  have hfollowed : whole s = Run.andFinally without (do let _ ← (ofLevel n).eval ctx last env) s :=
    hwhole.trans (Run.andFinally_congr hwithout.symm)
  refine ⟨fun v hv => ?_, fun outcome v hv => ⟨fun x w hw => ?_, fun i w hw => ?_⟩⟩
  · rw [Run.LostIn] at hv ⊢
    rw [hfollowed]
    exact Run.bind_of_error (by simp only [Run.attempt, hv])
  · rw [hfollowed, Run.andFinally, Run.bind_of_ok hv, Run.bind_of_ok (t := w) (v := ⟨⟩)]
    exact Run.bind_of_ok hw
  · rw [hfollowed, Run.andFinally, Run.bind_of_ok hv]
    exact Run.bind_of_error (Run.bind_of_error hw)

/-- A `tryCatch` with a handler that calls what is no function. -/
def unhandled : List Slot :=
  [.bare (.const (.int 1)), ⟨some "error", .call (.const (.int 1)) []⟩,
    ⟨some "finally", .const (.int 2)⟩]

/-- It ends in the store where its handler was left. -/
theorem finally_follows_handlers_unhandled : ∃ t, (ofLevel 3).eval ⟨0⟩
    (.call (.const (.builtin (.special .tryCatch) .empty)) unhandled) .empty {} =
      .error (.failure ⟨0, .callable .notFunction⟩) t := by
  exact ⟨_, ((finally_follows_handlers (n := 2) rfl rfl).1 _ _ rfl).2⟩

end Machine

end Quasi
