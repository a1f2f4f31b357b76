import Quasi.Proofs.Depth.CountDown
import Quasi.Proofs.Reader.Lexing

/-!
# How deep calls can be nested in a session

A new session binds nothing but the built-in functions, each to its own name. Counting down in it
fails at the bound of its evaluator exactly, and leaves neither calls nor bindings behind.
-/

namespace Quasi

open Run (bind_of_ok)
open Machine (ofLevel)

/-! ## New sessions -/

theorem nodup_names_builtins : (Builtin.all.map Builtin.name).Nodup := by decide +kernel

namespace Session

variable {s : Store}

/-- The base environment binds every built-in function to its name. -/
theorem get?_builtins {b : Builtin} (hb : b ∈ Builtin.all) (home : EnvId) :
    (builtins home).get? b.name = some (.builtin b home) := by
  have hnames := nodup_names_builtins
  rw [builtins]
  revert hb hnames
  induction Builtin.all with
  | nil => simp
  | cons other rest ih =>
      intro hb hnames
      rw [List.map_cons, List.nodup_cons] at hnames
      rw [List.map_cons, Bindings.get?]
      rcases List.mem_cons.mp hb with rfl | hb
      · exact if_pos rfl
      · have hne : other.name ≠ b.name := fun h => hnames.1 (h ▸ List.mem_map_of_mem hb)
        rw [if_neg hne]
        exact ih hb hnames.2

/-- A session that was just started. -/
def fresh (settings : Settings) (verbose : Bool) (maxDepth : Int) : Store where
  settings := settings
  verbose := verbose
  scopes := #[⟨builtins baseEnv, .empty, some "base"⟩, ⟨[], baseEnv, some "global"⟩]
  evaluators := #[⟨some globalEnv, maxDepth, [], 0, []⟩]

theorem start_fresh (settings : Settings) (verbose : Bool) (maxDepth : Int) :
    start "" (some maxDepth) [] { settings := settings, verbose := verbose } =
      .ok ⟨⟩ (fresh settings verbose maxDepth) := by
  have hparse : Reader.parseAll (Reader.lex "") = ([], none) := by
    rw [Reader.lex, String.toList_empty, Reader.lexFrom_nil, Reader.parseAll]
    rfl
  have hsource : evalSource "" globalEnv (fresh settings verbose maxDepth) =
      .ok .null (fresh settings verbose maxDepth) := by
    rw [evalSource, hparse]
    rfl
  change (evalSource "" globalEnv >>= _) (fresh settings verbose maxDepth) = _
  rw [bind_of_ok hsource]
  rfl

/-- A machine nests at least as deep as the only evaluator admits. -/
theorem machine_of_single {e : Evaluator} (h : s.evaluators = #[e]) :
    machine s = .ok (ofLevel (Machine.levelsFor (max 0 e.maxDepth))) s := by
  simp only [machine, Run.get_bind, h]
  rfl

/-- A session whose user has bound some names. -/
structure Plain (s : Store) (vars : Bindings Value) : Prop where
  scopes : s.scopes = #[⟨builtins baseEnv, .empty, some "base"⟩, ⟨vars, baseEnv, some "global"⟩]
  masks : s.masks = #[]
  promises : s.promises = #[]

namespace Plain

variable {vars : Bindings Value}

theorem whole (h : Plain s vars) : s.Whole := by
  refine Store.whole_of_parents (fun scope hscope => ?_) h.masks h.promises
  rw [h.scopes, List.mem_toArray, List.mem_pair] at hscope
  rcases hscope with rfl | rfl
  · rfl
  · exact Store.known_eq_scope.mpr (by simp [h.scopes])

theorem known_globalEnv (h : Plain s vars) : s.known globalEnv = globalEnv :=
  Store.known_eq_scope.mpr (by simp [h.scopes])

theorem chain_globalEnv (h : Plain s vars) : (s.chain globalEnv).1 = [globalEnv, baseEnv, .empty] := by
  have hglobal : s.parent? globalEnv = some baseEnv := by
    simp only [Store.parent?, globalEnv, Store.scope, h.scopes]
    rfl
  have hbase : s.parent? baseEnv = some .empty := by
    simp only [Store.parent?, baseEnv, Store.scope, h.scopes]
    rfl
  have hcount : s.environmentCount = 2 := by
    simp only [Store.environmentCount, h.scopes, h.masks]
    rfl
  rw [Store.chain, hcount, Store.walk_of_some _ hglobal, Store.walk_of_some _ hbase]
  rfl

theorem slot?_globalEnv (h : Plain s vars) (name : String) : s.slot? globalEnv name = vars.get? name := by
  simp only [Store.slot?, globalEnv, Store.scope, h.scopes]
  rfl

theorem slot?_baseEnv (h : Plain s vars) (name : String) :
    s.slot? baseEnv name = (builtins baseEnv).get? name := by
  simp only [Store.slot?, baseEnv, Store.scope, h.scopes]
  rfl

/-- A function that the user has bound. -/
theorem calls_bound (h : Plain s vars) {name : String} {fn : Value}
    (hname : vars.get? name = some fn) (hready : s.ready? fn = some fn)
    (hfn : fn.isInvocable = true) : s.Calls globalEnv name fn := by
  rw [Store.Calls, h.chain_globalEnv]
  exact .here ((h.slot?_globalEnv name).trans hname) hready hfn

/-- Names that the user has not bound stand for the built-in functions. -/
theorem offers (h : Plain s vars) {b : Builtin} (hb : b ∈ Builtin.all)
    (hname : vars.get? b.name = none) : s.Offers globalEnv b := by
  refine ⟨baseEnv, ?_⟩
  rw [Store.Calls, h.chain_globalEnv]
  exact .unbound ((h.slot?_globalEnv b.name).trans hname)
    (.here ((h.slot?_baseEnv b.name).trans (get?_builtins hb baseEnv)) rfl rfl)

end Plain

/-- A session in which the function that counts down was defined. -/
def counting (settings : Settings) (verbose : Bool) (maxDepth : Int) : Store :=
  { fresh settings verbose maxDepth with
    scopes := #[⟨builtins baseEnv, .empty, some "base"⟩,
      ⟨[("count_down", .closure ⟨0⟩)], baseEnv, some "global"⟩]
    closures := #[⟨CountDown.formals, CountDown.body, globalEnv, some "count_down"⟩]
    history := [.captured (.closure ⟨0⟩) globalEnv #[]] }

variable {settings : Settings} {verbose : Bool} {maxDepth : Int}

theorem plain_counting :
    Plain (counting settings verbose maxDepth) [("count_down", .closure ⟨0⟩)] := ⟨rfl, rfl, rfl⟩

/-- Evaluating an expression from outside is a request of the session. -/
theorem evalExpr_of_single {e : Evaluator} (h : s.evaluators = #[e]) (code : Expr) :
    evalExpr (.code code) .absent s =
      Machine.evaluate (ofLevel (Machine.levelsFor (max 0 e.maxDepth))) evaluator code globalEnv s := by
  change (machine >>= fun m => Machine.evaluate m evaluator code globalEnv) s = _
  rw [bind_of_ok (machine_of_single h)]

/-- Defining the function binds its name and nothing else. -/
theorem evalExpr_definition : evalExpr (.code CountDown.definition) .absent
    (fresh settings verbose maxDepth) = .ok (.closure ⟨0⟩) (counting settings verbose maxDepth) := by
  obtain ⟨n, hn⟩ : ∃ n, Machine.levelsFor (max 0 maxDepth) = n + 3 :=
    ⟨40 * (max 0 maxDepth).toNat + 997, rfl⟩
  rw [evalExpr_of_single rfl]
  change Machine.evaluate (ofLevel (Machine.levelsFor (max 0 maxDepth))) _ _ _ _ = _
  rw [hn]
  rfl

theorem made_counting : CountDown.Made (counting settings verbose maxDepth) ⟨0⟩ where
  whole := plain_counting.whole
  formals := rfl
  body := rfl
  known := plain_counting.known_globalEnv
  itself := plain_counting.calls_bound rfl rfl rfl
  choice := plain_counting.offers (by decide) rfl
  equal := plain_counting.offers (by decide) rfl
  add := plain_counting.offers (by decide) rfl
  sub := plain_counting.offers (by decide) rfl

/-- A request ends as counting down does, and leaves the evaluator without calls. -/
theorem request_counts {F : Footing} {run : Run Value} {n room : Nat}
    (hstack : (s.evaluator evaluator).frames = [] ∧ (s.evaluator evaluator).depth = 0)
    (h : F.Ends evaluator s run (CountDown.Counts n room)) : ∃ t,
      (n < room → Machine.request evaluator run s = .ok (.int n) t) ∧
      (room ≤ n → ∃ f, Machine.request evaluator run s = .error (.failure f) t ∧
        f.cause = .recursion) ∧
      (t.evaluator evaluator).depth = 0 ∧ (t.evaluator evaluator).frames = [] ∧
      ∃ u, F.holds u ∧ t.scopes = u.scopes := by
  obtain ⟨outcome, u, hrun, hcounts, hgoes⟩ := h
  let t := Layer.restored u evaluator (s.evaluator evaluator)
  have hframes : (u.evaluator evaluator).frames = [] := hgoes.stack.frames.trans hstack.1
  have hdepth : (u.evaluator evaluator).depth = 0 := hgoes.stack.depth.trans hstack.2
  have hleft : (t.evaluator evaluator).depth = 0 ∧ (t.evaluator evaluator).frames = [] := by
    simp only [t, Layer.restored, Store.evaluator_setEvaluator]
    split
    · exact ⟨hstack.2, by rw [hframes]; exact List.drop_nil⟩
    · exact ⟨hdepth, hframes⟩
  have hends : Machine.request evaluator run s = Run.resume outcome t := by
    unfold CountDown.Counts at hcounts
    rw [Machine.request, Run.get_bind, bind_of_ok hrun]
    split at hcounts
    · cases hcounts
      rfl
    · obtain ⟨f, rfl, -⟩ := hcounts
      rfl
  refine ⟨t, fun hroom => ?_, fun hroom => ?_, hleft.1, hleft.2, u, hgoes.holds, rfl⟩
  · rw [CountDown.Counts, if_pos hroom] at hcounts
    rw [hends, hcounts]
    rfl
  · rw [CountDown.Counts, if_neg (Nat.not_lt.mpr hroom)] at hcounts
    obtain ⟨f, rfl, hcause⟩ := hcounts
    exact ⟨f, hends, hcause⟩

/-- The bound on the depth is exact. In a new session that has defined a function which counts down
by calling itself, counting down from any number gives the number if it is less than the bound of
the evaluator, and fails for want of room if it is not. Either way no call is left under way, and
the global environment binds what it bound before. -/
theorem depth_limit_exact {pm : Bool} (hpm : settings.partialMatching = .ok pm) (verbose : Bool)
    (maxDepth : Int) (n : Nat) : ∃ fn s t,
    (do
      start "" (some maxDepth) []
      evalExpr (.code CountDown.definition) .absent) { settings := settings, verbose := verbose } =
        .ok fn s ∧
    ((n : Int) < maxDepth →
      evalExpr (.code (CountDown.callOn (.const (.int n)))) .absent s = .ok (.int n) t) ∧
    (maxDepth ≤ n → ∃ f,
      evalExpr (.code (CountDown.callOn (.const (.int n)))) .absent s = .error (.failure f) t ∧
        f.cause = .recursion) ∧
    (t.evaluator evaluator).depth = 0 ∧ (t.evaluator evaluator).frames = [] ∧
    t.vars globalEnv = s.vars globalEnv := by
  let s := counting settings verbose maxDepth
  have hyields : (Footing.grown s).Yields evaluator 1 globalEnv (.const (.int n)) (.int n) :=
    Footing.yields_const (fun _ _ h => by cases h) globalEnv
  have hroom : ((s.evaluator evaluator).maxDepth - (s.evaluator evaluator).depth).toNat =
      maxDepth.toNat := by
    change (maxDepth - 0).toNat = _
    rw [Int.sub_zero]
  have hcall := CountDown.ends_call (n := Machine.levelsFor (max 0 maxDepth)) made_counting hpm
    maxDepth.toNat (fun _ h => h) (Store.Grows.refl s) plain_counting.known_globalEnv
    made_counting.itself ⟨rfl, rfl⟩ hyields nofun hroom (by unfold Machine.levelsFor; omega)
  obtain ⟨t, hcounts, hfails, hdepth, hframes, u, hu, hscopes⟩ := request_counts ⟨rfl, rfl⟩ hcall
  have hevaluate (code : Expr) : evalExpr (.code code) .absent s = Machine.evaluate
      (ofLevel (Machine.levelsFor (max 0 maxDepth))) evaluator code globalEnv s :=
    evalExpr_of_single (e := ⟨some globalEnv, maxDepth, [], 0, []⟩) rfl code
  refine ⟨.closure ⟨0⟩, s, t, (bind_of_ok (start_fresh ..)).trans evalExpr_definition,
    fun hn => ?_, fun hn => ?_, hdepth, hframes, ?_⟩
  · exact (hevaluate _).trans (hcounts (by omega))
  · obtain ⟨f, hf, hcause⟩ := hfails (by omega)
    exact ⟨f, (hevaluate _).trans hf, hcause⟩
  · have hglobal : t.scope 1 = s.scope 1 := by
      rw [Store.scope, hscopes]
      exact hu.scope 1 (Nat.lt_succ_self 1)
    exact congrArg Scope.vars hglobal

/-- A new session that has room for three calls and has defined the function. -/
def roomForThree : Run Value := do
  start "" (some 3) []
  evalExpr (.code CountDown.definition) .absent

/-- It counts down from two, and not from three. -/
theorem depth_limit_exact_three : Settings.partialMatching [] = .ok true ∧
    (∃ fn s t, roomForThree {} = .ok fn s ∧
      evalExpr (.code (CountDown.callOn (.const (.int 2)))) .absent s = .ok (.int 2) t ∧
      t.vars globalEnv = s.vars globalEnv) ∧
    ∃ fn s t f, roomForThree {} = .ok fn s ∧
      evalExpr (.code (CountDown.callOn (.const (.int 3)))) .absent s = .error (.failure f) t ∧
      f.cause = .recursion ∧ (t.evaluator evaluator).frames = [] := by
  have hflag : Settings.partialMatching [] = .ok true := rfl
  obtain ⟨fn, s, t, hs, hvalue, -, -, -, hvars⟩ := depth_limit_exact hflag false 3 2
  obtain ⟨fn', s', t', hs', -, hfails, -, hframes, -⟩ := depth_limit_exact hflag false 3 3
  obtain ⟨f, hf, hcause⟩ := hfails (by decide)
  exact ⟨hflag, ⟨fn, s, t, hs, hvalue (by decide), hvars⟩, fn', s', t', f, hs', hf, hcause, hframes⟩

end Session

end Quasi
