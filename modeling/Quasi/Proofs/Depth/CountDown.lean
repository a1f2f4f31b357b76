import Quasi.Proofs.Footing.Calls
import Quasi.Session.Evaluation

/-!
# How deep calls can be nested

A function that calls itself once for every number down to zero needs one frame more than the
number. Each call forces its argument in the frame that it was made for, and calls itself while the
second argument of a sum is forced; so the promises of all calls under way are being forced when
there is no room for the next frame.
-/

namespace Quasi

open Run (bind_of_ok)
open Machine (ofLevel)

/-! ## A function that counts down -/

namespace CountDown

/-- Whether the argument is zero. -/
def test : Expr := .call (.symbol "==") [.bare (.symbol "n"), .bare (.const (.int 0))]

/-- One less than the argument. -/
def less : Expr := .call (.symbol "-") [.bare (.symbol "n"), .bare (.const (.int 1))]

def callOn (arg : Expr) : Expr := .call (.symbol "count_down") [.bare arg]

def next : Expr := .call (.symbol "+") [.bare (.const (.int 1)), .bare (callOn less)]

def body : Expr :=
  .call (.symbol "if") [.bare test, .bare (.const (.int 0)), .bare next]

def formals : List (String × Expr) := [("n", .missing)]

/-- The code that binds the function to its name. -/
def definition : Expr :=
  .call (.symbol "<-") [.bare (.symbol "count_down"),
    .bare (.call (.symbol "function") [.bare (.formals formals), .bare body])]

example : definition.deparse =
    "(<- count_down (function (n) (if (== n 0) 0 (+ 1 (count_down (- n 1))))))" := by decide

/-- A call at `n` ends with `n` if there is room for more than `n` frames. -/
def Counts (n room : Nat) (outcome : Except Signal Value) : Prop :=
  if n < room then outcome = .ok (.int n)
  else ∃ f, outcome = .error (.failure f) ∧ f.cause = .recursion

theorem Counts.leaves {n room : Nat} {outcome : Except Signal Value} (h : Counts n room outcome)
    (env : EnvId) : Machine.callOutcome env outcome none = outcome := by
  unfold Counts at h
  split at h
  · rw [h]
    rfl
  · obtain ⟨f, rfl, -⟩ := h
    rfl

/-- A store in which the function was made, and in which the names that it uses stand for what they
are meant for. -/
structure Made (s : Store) (c : ClosureId) : Prop where
  whole : s.Whole
  formals : (s.closure c).formals = formals
  body : (s.closure c).body = body
  known : s.known (s.closure c).env = (s.closure c).env
  itself : s.Calls (s.closure c).env "count_down" (.closure c)
  choice : s.Offers (s.closure c).env (.special .ifElse)
  equal : s.Offers (s.closure c).env (.primitive (.binary .eq))
  add : s.Offers (s.closure c).env (.primitive (.binary .add))
  sub : s.Offers (s.closure c).env (.primitive (.binary .sub))

theorem operator_eq (i j : Int) :
    Library.operatorOrSign .eq [.int i, .int j] = pure (.bool (decide (i = j))) := by
  have hequal : Value.operate .eq (.int i) (.int j) = .ok (.bool (decide (i = j))) := by
    simp [Value.operate, Value.isVector, Value.operatePlain, Value.equal, Value.same,
      Value.atomEqual, Value.number?, Number.compare?, liftHost, Except.map]
  simp only [Library.operatorOrSign, Library.operator, Library.twoArgs, pure_bind, hequal]
  rfl

section Frame

variable {F : Footing} {ctx : EvaluatorId} {base s : Store} {c : ClosureId} {i k levels : Nat}
  {p : PromiseId} {arg : Expr} {env : EnvId} (hmade : Made base c)
  (hgrown : ∀ t, F.holds t → base.Grows t) (hi : base.scopes.size ≤ i)
  (harg : F.Yields ctx levels env arg (.int k))

include harg

theorem yields_formal :
    (F.framed i "n" p (base.closure c).env (.written arg env ctx) (.int k)).Yields ctx (levels + 1)
      (.scope i) (.symbol "n") (.int k) :=
  Footing.yields_formal (by decide) (by decide) harg

include hmade hgrown hi

/-- An operator on the argument and a number. -/
theorem yields_operator (op : Operator) {home : EnvId} {j : Int} {r : Value}
    (hname : base.Calls (base.closure c).env op.name (.builtin (.primitive (.binary op)) home))
    (hne : "n" ≠ op.name) (hvalue : Library.operatorOrSign op [.int k, .int j] = pure r) :
    (F.framed i "n" p (base.closure c).env (.written arg env ctx) (.int k)).Yields ctx (levels + 2)
      (.scope i) (.call (.symbol op.name) [.bare (.symbol "n"), .bare (.const (.int j))]) r := by
  refine Footing.yields_operator (fun t ht => Store.known_eq_scope.mpr ht.2.2.1)
    (fun t ht => Footing.framed_calls hmade.whole hmade.known hgrown ht hi hname hne)
    ⟨rfl, by decide⟩ ⟨rfl, rfl⟩ (yields_formal harg) ?_ hvalue
  exact (Footing.yields_const (fun _ _ h => by cases h) (.scope i)).mono (by omega)

end Frame

/-- What the next call ends with, one is added to. -/
theorem ends_next {F : Footing} {ctx : EvaluatorId} {s : Store} {env home : EnvId} {j room n : Nat}
    (hs : F.holds s) (henv : s.known env = env) (hn : 1 ≤ n)
    (hadd : s.Calls env "+" (.builtin (.primitive (.binary .add)) home))
    (hcall : ∀ t, F.Goes ctx s t → F.Ends ctx t ((ofLevel n).eval ctx (callOn less) env) (Counts j room)) :
    F.Ends ctx s ((ofLevel (n + 1)).eval ctx next env) (Counts (j + 1) (room + 1)) := by
  have hone : F.Yields ctx 1 env (.const (.int 1)) (.int 1) :=
    Footing.yields_const (fun _ _ h => by cases h) env
  refine Footing.ends_primitive hs henv ⟨rfl, rfl⟩ ⟨rfl, rfl⟩ hn hone hcall hadd ?_ ?_
  · intro w t hw ht
    unfold Counts at hw
    split at hw
    next hroom =>
      cases hw
      refine Footing.ends_of_ok rfl (.refl ht.holds) ?_
      rw [Counts, if_pos (by omega)]
      push_cast
      rw [Int.add_comm]
      rfl
    next => exact absurd hw (by rintro ⟨f, h, -⟩; cases h)
  · intro x hx
    unfold Counts at hx ⊢
    split at hx
    next => cases hx
    next hroom => rwa [if_neg (by omega)]

/-- The body is left with zero, or with what the next call gives and one more. -/
theorem ends_body {F : Footing} {ctx : EvaluatorId} {s : Store} {env : EnvId}
    {k room levels n : Nat} (hs : F.holds s) (henv : s.known env = env) (hn : levels ≤ n + 1)
    (hchoice : s.Offers env (.special .ifElse))
    (hadd : ∀ t, F.holds t → t.Offers env (.primitive (.binary .add)))
    (htest : F.Yields ctx levels env test (.bool (decide ((k : Int) = 0))))
    (hcall : 1 ≤ n ∧ ∀ j, k = j + 1 → ∀ t, F.Goes ctx s t →
      F.Ends ctx t ((ofLevel n).eval ctx (callOn less) env) (Counts j room)) :
    F.Ends ctx s ((ofLevel (n + 2)).eval ctx body env) (Counts k (room + 1)) := by
  obtain ⟨home, hchoice⟩ := hchoice
  have hcondition : F.Ends ctx s (Machine.conditionOf (ofLevel (n + 1)) ctx "if" test env)
      (· = .ok (decide ((k : Int) = 0))) :=
    (htest (n + 1) hn s hs).bind_value fun t ht => Footing.ends_pure ht.holds rfl
  refine .of_eq (Machine.eval_call_of_calls hchoice ctx _) (.refl hs) ?_
  refine hcondition.bind_value fun t ht => ?_
  cases k with
  | zero =>
      have hzero : F.Yields ctx 1 env (.const (.int 0)) (.int 0) :=
        Footing.yields_const (fun _ _ h => by cases h) env
      refine (hzero (n + 1) (by omega) t ht.holds).mono ?_
      rintro _ rfl
      rw [Counts, if_pos (Nat.succ_pos room)]
      rfl
  | succ j =>
      obtain ⟨hn, hcall⟩ := hcall
      obtain ⟨home, hadd⟩ := hadd t ht.holds
      have hpositive : ¬ ((j + 1 : Nat) : Int) = 0 := by omega
      rw [decide_eq_false hpositive]
      exact ends_next ht.holds (ht.adds.known henv) hn hadd fun u hu => hcall j rfl u (ht.trans hu)

/-- Counting down needs one frame more than the number that it starts from. -/
theorem ends_call {ctx : EvaluatorId} {base : Store} {c : ClosureId} {pm : Bool}
    (hmade : Made base c) (hpm : base.settings.partialMatching = .ok pm) (room : Nat) :
    ∀ {F : Footing} {s : Store} {env : EnvId} {arg : Expr} {k levels n : Nat},
      (∀ t, F.holds t → base.Grows t) → F.holds s → s.known env = env →
      s.Calls env "count_down" (.closure c) → arg.IsArgument →
      F.Yields ctx levels env arg (.int k) → Footing.Bare ctx s →
      ((s.evaluator ctx).maxDepth - (s.evaluator ctx).depth).toNat = room →
      levels + 5 * room + 1 ≤ n →
      F.Ends ctx s ((ofLevel n).eval ctx (callOn arg) env) (Counts k room) := by
  induction room with
  | zero =>
      intro F s env arg k levels n hgrown hs henv hname harg hyields hbare hroom hn
      obtain ⟨n, rfl, -⟩ := Footing.exists_level (show levels + 1 ≤ n by omega)
      refine Footing.ends_unary (v := .int k) hpm (by decide) hmade.formals hmade.known hgrown hs henv
        hname harg (fun outcome h e => h.leaves e) (fun hlt => by omega) fun _ r => ?_
      rw [Counts, if_neg (Nat.not_lt_zero k)]
      exact ⟨_, rfl, rfl⟩
  | succ room ih =>
      intro F s env arg k levels n hgrown hs henv hname harg hyields hbare hroom hn
      obtain ⟨n, rfl⟩ : ∃ l, n = l + 3 := ⟨n - 3, by omega⟩
      refine Footing.ends_unary (n := n + 2) (v := .int k) hpm (by decide) hmade.formals hmade.known
        hgrown hs henv hname harg (fun outcome h e => h.leaves e) (fun _ => ⟨hbare, ?_⟩)
        (fun hfull => by omega)
      intro i p t hi G ht hbare' hdepth hmax
      have hframe : t.known (.scope i) = .scope i := Store.known_eq_scope.mpr ht.2.2.1
      have hcalls {u : Store} {name : String} {fn : Value} (hu : G.holds u)
          (hfn : base.Calls (base.closure c).env name fn) (hne : "n" ≠ name) :
          u.Calls (.scope i) name fn :=
        Footing.framed_calls hmade.whole hmade.known hgrown hu hi hfn hne
      obtain ⟨choice, hchoice⟩ := hmade.choice
      obtain ⟨equal, hequal⟩ := hmade.equal
      obtain ⟨add, hadd⟩ := hmade.add
      obtain ⟨sub, hsub⟩ := hmade.sub
      rw [hmade.body]
      refine ends_body ht hframe (show levels + 2 ≤ _ by omega)
        ⟨choice, hcalls ht hchoice (by decide)⟩
        (fun u hu => ⟨add, hcalls hu hadd (by decide)⟩)
        (yields_operator hmade hgrown hi hyields .eq hequal (by decide) (operator_eq k 0))
        ⟨by omega, fun j hj u hu => ?_⟩
      have hless : Library.operatorOrSign .sub [.int k, .int 1] = pure (.int j) := by
        have hsub : (k : Int) - 1 = j := by omega
        rw [← hsub]
        rfl
      exact ih (fun u hu => hgrown u hu.1) hu.holds (hu.adds.known hframe)
        (hcalls hu.holds hmade.itself (by decide)) ⟨rfl, rfl⟩
        (yields_operator hmade hgrown hi hyields .sub hsub (by decide) hless) (hbare'.sameStack hu.stack)
        (by rw [hu.stack.depth, hu.stack.maxDepth]; omega) (by omega)

end CountDown

end Quasi
