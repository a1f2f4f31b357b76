import Quasi.Proofs.Footing.Calls

/-!
# Calls of closures without formals

Such a call evaluates the body in an environment that binds nothing yet. If the body has a value, so
has the call. Its frame is gone then, and what the body has done to environments, promises and
closures is all that remains of it.
-/

namespace Quasi

open Run (bind_of_ok bind_of_error)

/-! ## Chains that are known -/

namespace Store

/-- The environments from one on, down to the empty one. -/
inductive Path (s : Store) : EnvId → List EnvId → Prop where
  | empty : Path s .empty [.empty]
  | cons {e p : EnvId} {rest : List EnvId} (hparent : s.parent? e = some p) (h : Path s p rest) :
      Path s e (e :: rest)

variable {s t : Store} {e p : EnvId} {path : List EnvId} {name : String} {fn : Value}

section Scope

variable {i : Nat} {vars : Bindings Value} {label : Option String}
  (h : s.scope i = ⟨vars, p, label⟩)

include h

theorem parent?_of_scope : s.parent? (.scope i) = some p :=
  congrArg (fun scope : Scope => some scope.parent) h

theorem slot?_of_scope (name : String) : s.slot? (.scope i) name = vars.get? name :=
  congrArg (fun scope : Scope => scope.vars.get? name) h

end Scope

theorem Path.walk (h : s.Path e path) {n : Nat} (hn : path.length ≤ n) :
    s.walk n e = (path, true) := by
  induction h generalizing n with
  | empty =>
      cases n with
      | zero => cases hn
      | succ n => rfl
  | cons hparent h ih =>
      rw [List.length_cons] at hn
      obtain ⟨n, rfl⟩ : ∃ k, n = k + 1 := ⟨n - 1, by omega⟩
      rw [walk_of_some n hparent, ih (by omega)]

/-- A name that the first function on a path is bound to stands for it. -/
theorem Path.calls (h : s.Path e path) (hlength : path.length ≤ s.environmentCount + 2)
    (hname : s.Finds name fn path) : s.Calls e name fn := by
  rw [Calls, chain, h.walk hlength]
  exact hname

/-- A name that an environment does not bind is found where it hangs off. -/
theorem find_of_parent {v : Value} (hslot : s.slot? e name = none) (hparent : s.parent? e = some p)
    (hv : s.slot? p name = some v) : Run.find e name s = .ok (some p) s := by
  obtain ⟨rest, hchain⟩ : ∃ rest, (s.chain e).1 = e :: p :: rest := by
    rw [chain, walk_of_some _ hparent]
    cases hp : s.parent? p with
    | none => exact ⟨[], by rw [walk_of_none _ hp]⟩
    | some q => exact ⟨_, by rw [walk_of_some _ hp]⟩
  have hfind : (s.chain e).1.find? (fun e => (s.slot? e name).isSome) = some p := by
    rw [hchain, List.find?_cons_of_neg (by simp [hslot]), List.find?_cons_of_pos (by simp [hv])]
  rw [Run.find, Run.search, Run.get_bind, hfind]
  rfl

end Store

namespace Machine

open Footing (Bare exists_leave)
open Store (SameStack)

variable {ctx : EvaluatorId} {s t u : Store} {c : ClosureId} {call : Expr} {v : Value}

/-! ## The frame of a call -/

/-- A call is left with the value of its body. -/
theorem within_of_ok {activation : Activation} {body : Run Value} (hbare : Bare ctx s)
    (hpassed : Passed ctx [activation] s t) (hbody : body t = .ok v u)
    (hstack : SameStack ctx t u) :
    ∃ w, within ctx [activation] body t = .ok v w ∧ u.SameHeap w ∧ SameStack ctx s w := by
  have hnote : noteEnd ctx (.ok v) u = .ok ⟨⟩ u := rfl
  obtain ⟨w, hleave, hheap, hleft⟩ := exists_leave hbare hpassed hnote hstack
  have hattempt : Run.attempt body t = .ok (.ok v) u := by simp only [Run.attempt, hbody]
  exact ⟨w, (bind_of_ok hattempt).trans hleave, hheap, hleft⟩

/-- Without formals there is nothing to bind. -/
theorem bindClosure_nullary {pm : Bool} (hpm : s.settings.partialMatching = .ok pm)
    (hformals : (s.closure c).formals = []) (ctx : EvaluatorId) (call : Expr) :
    bindClosure ctx c [] call s =
      .ok ((s.closure c).body, .scope s.scopes.size) (opened s c) := by
  rw [bindClosure_eq hpm, hformals]
  cases pm <;> rfl

/-- The value of a call is the value of the body in an environment that binds nothing yet. -/
theorem applyClosure_nullary {pm : Bool} (hpm : s.settings.partialMatching = .ok pm)
    (hformals : (s.closure c).formals = [])
    (hroom : (s.evaluator ctx).depth < (s.evaluator ctx).maxDepth) (hbare : Bare ctx s)
    (m : Machine) (call : Expr) (caller : EnvId) :
    ∃ t, (opened s c).SameHeap t ∧ ∀ v u,
      m.eval ctx (s.closure c).body (.scope s.scopes.size) t = .ok v u → SameStack ctx t u →
      ∃ w, m.applyClosure ctx c [] call caller s = .ok v w ∧ u.SameHeap w ∧ SameStack ctx s w := by
  obtain ⟨id, t, heq, hentered⟩ :=
    applyClosure_entered (bindClosure_nullary hpm hformals ctx call) hroom m caller
  have hpassed : Passed ctx [⟨m, .scope s.scopes.size, id⟩] s t := {
    grows := (opened_grows s c).trans hentered.grows
    clear := hentered.clear _ _
    depth := hentered.depth
    maxDepth := hentered.maxDepth }
  refine ⟨t, ⟨hentered.scopes, hentered.masks, hentered.promises, hentered.closures,
    hentered.settings⟩, fun v u hbody hstack => ?_⟩
  rw [heq]
  exact within_of_ok hbare hpassed hbody hstack

/-- A call without formals that has a value could read its settings and had room. -/
theorem room_of_applyClosure {m : Machine} {caller : EnvId} (hformals : (s.closure c).formals = [])
    (h : m.applyClosure ctx c [] call caller s = .ok v t) :
    (∃ pm, s.settings.partialMatching = .ok pm) ∧
      (s.evaluator ctx).depth < (s.evaluator ctx).maxDepth := by
  cases hflag : s.settings.partialMatching with
  | error fault =>
      have hopened : (opened s c).settings.partialMatching = .error fault := hflag
      obtain ⟨x, u, hmatch⟩ : ∃ x u, matchFormals [] (describe (opened s c)) [] (some call)
          (opened s c) = .error x u := by
        unfold matchFormals
        have hexact : Matching.exactRound [] [] (Matching.number ([] : List (Tagged Value))) =
          .ok ⟨[], []⟩ := rfl
        rw [hexact]
        simp only [pure_bind, Run.get_bind, hopened]
        exact ⟨_, _, rfl⟩
      have hbind : bindClosure ctx c [] call s = .error x u := by
        rw [bindClosure_opened, hformals]
        exact bind_of_error hmatch
      rw [applyClosure_eq, bind_of_error hbind] at h
      cases h
  | ok pm =>
      refine ⟨⟨pm, rfl⟩, Int.not_le.mp fun hfull => ?_⟩
      obtain ⟨r, u, hfails, -⟩ :=
        applyClosure_full (bindClosure_nullary hflag hformals ctx call) hfull m caller
      cases hfails.symm.trans h

end Machine

end Quasi
