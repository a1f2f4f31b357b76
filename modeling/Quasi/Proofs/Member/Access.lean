import Quasi.Proofs.Member.Rewriting
import Quasi.Proofs.Member.Trailing

/-!
# Accesses by name and by text

An access by a bare name evaluates its target as it comes by it. Once it is rewritten it is a call
of a primitive, which makes promises of the target and of the text and forces them. Both come to the
same, over chains of accesses of any length: the evaluation of the rewritten chain trails behind the
other one by the promises that it is yet to make.
-/

namespace Quasi

variable {hidden : PromiseId → Prop} {ctx : EvaluatorId} {env : EnvId} {s t u : Store}

/-- A name as it may stand in an access. -/
inductive BareName where
  | symbol (name : String)
  | text (name : String)

namespace BareName

def code : BareName → Expr
  | symbol name => .symbol name
  | text name => .const (.str name)

def label : BareName → String
  | symbol name => name
  | text name => name

@[simp] theorem bareName?_code (name : BareName) : name.code.bareName? = some name.label := by
  cases name <;> rfl

end BareName

namespace Expr

/-- An access to a member of a member of a target, and so on, by names from the last one to the
first. -/
def accesses (target : Expr) : List BareName → Expr
  | [] => target
  | name :: names => .call (.symbol "$") [.bare (target.accesses names), .bare name.code]

/-- The arguments of the calls that rewritten accesses are, from the last access to the first. -/
def elementSlots (target : Expr) : List BareName → List Slot
  | [] => []
  | name :: names =>
      .bare (target.accesses names).rewriteMembers :: .bare (.const (.str name.label)) ::
        target.elementSlots names

variable {target : Expr}

theorem length_elementSlots (target : Expr) (names : List BareName) :
    (target.elementSlots names).length = 2 * names.length := by
  induction names with
  | nil => rfl
  | cons name names ih => rw [elementSlots, List.length_cons, List.length_cons, ih]; rfl

theorem rewriteMembers_accesses (target : Expr) (name : BareName) (names : List BareName) :
    (target.accesses (name :: names)).rewriteMembers =
      .call (.symbol "[[") [.bare (target.accesses names).rewriteMembers,
        .bare (.const (.str name.label))] :=
  rewriteMembers_access name.bareName?_code

/-- What is rewritten is an argument if the target is one. -/
theorem isArgument_accesses (h : target.rewriteMembers.IsArgument) (names : List BareName) :
    (target.accesses names).rewriteMembers.IsArgument := by
  cases names with
  | nil => exact h
  | cons name names =>
      rw [rewriteMembers_accesses]
      exact ⟨rfl, rfl⟩

end Expr

open Quasi.Expr (accesses elementSlots)

section Conceals

variable {target : Expr}

instance conceals_accesses [h : Conceals hidden target.rewriteMembers] (names : List BareName) :
    Conceals hidden (target.accesses names).rewriteMembers := by
  induction names with
  | nil => exact h
  | cons name names ih =>
      rw [Expr.rewriteMembers_accesses]
      infer_instance

instance conceals_elementSlots [Conceals hidden target.rewriteMembers] (names : List BareName) :
    Conceals hidden (target.elementSlots names) := by
  induction names with
  | nil => exact inferInstanceAs (Conceals hidden [])
  | cons name names ih =>
      unfold elementSlots
      infer_instance

end Conceals

namespace Machine

variable {m : Machine} {home : EnvId} {n : Nat} {a : Expr} {name : BareName}

/-! ## One access -/

/-- An access by a bare name evaluates its target. -/
theorem eval_member (h : s.Calls env "$" (.builtin (.special .member) home)) :
    (ofLevel (n + 1)).eval ctx (.call (.symbol "$") [.bare a, .bare name.code]) env s = (do
      let v ← (ofLevel n).eval ctx a env
      getMember (ofLevel n) v name.label) s := by
  rw [eval_call_of_calls h]
  cases name <;> rfl

/-- An access by a text makes promises of the target and of the text, and forces both. -/
theorem eval_element (h : s.Calls env "[[" (.builtin (.primitive .element) home))
    (ha : a.IsArgument) (label : String) :
    (ofLevel (n + 1)).eval ctx
        (.call (.symbol "[[") [.bare a, .bare (.const (.str label))]) env s = (do
      let v ← (ofLevel n).force (some ctx) ⟨s.promises.size⟩
      let w ← (ofLevel n).force (some ctx) ⟨s.promises.size + 1⟩
      Library.element (ofLevel n) [v, w])
        (promisedIn ctx env s [.bare a, .bare (.const (.str label))]) := by
  have hslots : ∀ slot ∈ [Tagged.bare a, Tagged.bare (.const (.str label))],
      slot.item.isMissing = false ∧ slot.item.isSymbol dotsName = false := by
    simp only [List.forall_mem_cons]
    exact ⟨ha, ⟨rfl, rfl⟩, nofun⟩
  have hargs : evalArgs (ofLevel n) ctx [.bare a, .bare (.const (.str label))] env
      (.call (.symbol "[[") [.bare a, .bare (.const (.str label))]) s = (do
        let v ← (ofLevel n).force (some ctx) ⟨s.promises.size⟩
        let w ← (ofLevel n).force (some ctx) ⟨s.promises.size + 1⟩
        pure ([v, w], []))
          (promisedIn ctx env s [.bare a, .bare (.const (.str label))]) := by
    rw [evalArgs, Run.bind_of_ok (promiseArgs_apply ctx env hslots s)]
    rfl
  have happly : (ofLevel n).apply ctx (.builtin (.primitive .element) home)
      (.call (.symbol "[[") [.bare a, .bare (.const (.str label))])
      [.bare a, .bare (.const (.str label))] env = (do
        let given ← evalArgs (ofLevel n) ctx [.bare a, .bare (.const (.str label))] env
          (.call (.symbol "[[") [.bare a, .bare (.const (.str label))])
        Library.element (ofLevel n) given.1) := rfl
  rw [eval_call_of_calls h, happly, Run.bind_of_eq hargs]
  simp only [bind_assoc, pure_bind]

/-! ## Chains of accesses -/

/-- Two evaluations come to the same: the second one began in the given store, behind the first one
by promises. If they end with a value all those promises are made, and the hidden ones that were
there before are as they were. -/
inductive EndsBehind (hidden : PromiseId → Prop) (ctx : EvaluatorId) (env : EnvId) (before : Store) :
    EStateM.Result Interrupt Store Value → EStateM.Result Interrupt Store Value → Prop where
  | value {v : Value} {s t : Store} (hv : Conceals hidden v) (h : s.Veiled hidden t.promise t)
      (hkept : ∀ p, hidden p → p.index < before.promises.size → t.promise p = before.promise p) :
      EndsBehind hidden ctx env before (.ok v s) (.ok v t)
  | interrupt {i : Interrupt} {s t : Store} (slots : List Slot)
      (h : s.HiddenApart hidden (promisedIn ctx env t slots)) :
      EndsBehind hidden ctx env before (.error i s) (.error i t)

/-- Code that mentions nothing hidden comes to the same in veiled stores. -/
theorem EndsBehind.of_alike {x y : EStateM.Result Interrupt Store Value}
    (h : Run.EndsAlike hidden t.promise x y)
    (hkept : ∀ p, hidden p → p.index < u.promises.size → t.promise p = u.promise p) :
    EndsBehind hidden ctx env u x y := by
  cases h with
  | value hv h =>
      exact .value hv { h with held := fun _ _ => rfl } fun p hp hlt =>
        (h.held p hp).trans (hkept p hp hlt)
  | interrupt hi h => exact .interrupt [] h.toHiddenApart

/-- Forcing a promise of a text gives the text. -/
theorem force_text {q : PromiseId} {label : String}
    (h : s.promise q = .written (.const (.str label)) env ctx) :
    ∃ t, (ofLevel (n + 1)).force (some ctx) q s = .ok (.str label) t ∧ s.HiddenApart (· = q) t := by
  obtain ⟨u, hu, hvalue, -⟩ := exists_force (m := ofLevel (n + 1)) h
  obtain ⟨t, hforce, ht⟩ := hvalue (.str label) u rfl
  exact ⟨t, hforce, hu.trans ht⟩

/-- The two promises that an access by a text makes are hidden, and the others are yet to be made. -/
theorem Trails.pair {a b : Expr} {rest : List Slot}
    (h : Trails hidden ctx env (.bare a :: .bare b :: rest) s t) (henv : t.known env = env) :
    Trails hidden ctx env rest s (promisedIn ctx env t [.bare a, .bare b]) ∧
      (hidden ⟨t.promises.size⟩ ∧ hidden ⟨t.promises.size + 1⟩) ∧
      (promisedIn ctx env t [.bare a, .bare b]).promise ⟨t.promises.size⟩ = .written a env ctx ∧
      (promisedIn ctx env t [.bare a, .bare b]).promise ⟨t.promises.size + 1⟩ =
        .written b env ctx := by
  have hsecond := h.promise.next
  rw [Store.size_addPromise] at hsecond
  have hcode (j : Nat) (slot : Slot) (hslot : [Tagged.bare a, .bare b][j]? = some slot) :
      (promisedIn ctx env t [.bare a, .bare b]).promise ⟨t.promises.size + j⟩ =
        .written slot.item env ctx := promise_promisedIn ctx henv hslot
  exact ⟨h.promise.promise, ⟨h.next, hsecond⟩, hcode 0 _ rfl, hcode 1 _ rfl⟩

/-- If the targets come to the same, so do the accesses. -/
theorem EndsBehind.access {a' : Expr} {rest : List Slot} {home' : EnvId}
    (h : Trails hidden ctx env (.bare a' :: .bare (.const (.str name.label)) :: rest) s t)
    (hmember : s.Calls env "$" (.builtin (.special .member) home))
    (helement : s.Calls env "[[" (.builtin (.primitive .element) home')) (ha : a'.IsArgument)
    (htarget : ∀ u, Trails hidden ctx env rest s u →
      EndsBehind hidden ctx env u ((ofLevel n).eval ctx a env s) ((ofLevel n).eval ctx a' env u)) :
    EndsBehind hidden ctx env t
      ((ofLevel (n + 1)).eval ctx (.call (.symbol "$") [.bare a, .bare name.code]) env s)
      ((ofLevel (n + 1)).eval ctx
        (.call (.symbol "[[") [.bare a', .bare (.const (.str name.label))]) env t) := by
  have helement := h.calls helement
  rw [eval_member hmember, eval_element helement ha]
  obtain ⟨hmade, ⟨hp, hq⟩, hpcode, hqcode⟩ := h.pair helement.known
  let slots : List Slot := [.bare a', .bare (.const (.str name.label))]
  let p : PromiseId := ⟨t.promises.size⟩
  let q : PromiseId := ⟨t.promises.size + 1⟩
  have hqp : q ≠ p := by simp [p, q]
  have hsize : (promisedIn ctx env t slots).promises.size = t.promises.size + 2 :=
    size_promisedIn ctx env t slots
  -- the target is evaluated where the first promise is forced
  obtain ⟨u, hu, hvalue, herror⟩ := exists_force (m := ofLevel n) hpcode
  have hends := htarget u (hmade.step (hu.mono fun _ hr => hr ▸ hp))
  generalize hx : (ofLevel n).eval ctx a env s = x, hy : (ofLevel n).eval ctx a' env u = y at hends
  cases hends with
  | @interrupt i s' w slots hend =>
      obtain ⟨w', hforce, hw⟩ := herror i w hy
      rw [Run.bind_of_error hx, Run.bind_of_error hforce]
      exact .interrupt slots (hend.trans (hiddenApart_promisedIn (hw.mono fun _ hr => hr ▸ hp) slots))
  | @value v s' w hv hend hkept =>
      obtain ⟨w', hforce, hw⟩ := hvalue v w hy
      have hlabel : w'.promise q = .written (.const (.str name.label)) env ctx := by
        rw [hw.promise q hqp, hkept q hq (by rw [hu.size, hsize]; exact Nat.lt_succ_self _),
          hu.promise q hqp, hqcode]
      cases n with
      | zero => cases hx
      | succ k =>
          -- then the text is, and the member is looked up in stores that are veiled
          obtain ⟨z, hforced, hz⟩ := force_text (n := k) hlabel
          rw [Run.bind_of_ok hx, Run.bind_of_ok hforce, Run.bind_of_ok hforced]
          have hapart : w.HiddenApart hidden z :=
            (hw.mono fun _ hr => hr ▸ hp).trans (hz.mono fun _ hr => hr ▸ hq)
          have hveiled : s'.Veiled hidden z.promise z :=
            { hend.toHiddenApart.trans hapart with
              made := hend.made, held := fun _ _ => rfl, conceals := hend.conceals }
          have hdiscreet : Run.Discreet hidden (getMember (ofLevel (k + 1)) v name.label) :=
            inferInstance
          refine .of_alike (hdiscreet.ends hveiled) fun r hr hlt => ?_
          have hrp : r ≠ p := fun heq => Nat.lt_irrefl _ (heq ▸ hlt)
          have hrq : r ≠ q := fun heq => Nat.not_succ_lt_self (heq ▸ hlt)
          rw [hz.promise r hrq, hw.promise r hrp, hkept r hr (by rw [hu.size, hsize]; omega),
            hu.promise r hrp]
          exact (promisedIn_grows ctx env t slots).promise r hlt

/-- Chains of accesses come to the same, whatever the target comes to. -/
theorem EndsBehind.accesses {target : Expr} {names : List BareName} {home' : EnvId}
    [Conceals hidden target]
    (h : Trails hidden ctx env (elementSlots target names) s t)
    (hmember : s.Calls env "$" (.builtin (.special .member) home))
    (helement : s.Calls env "[[" (.builtin (.primitive .element) home')) (ha : target.IsArgument)
    (htarget : target.rewriteMembers = target) (n : Nat) :
    EndsBehind hidden ctx env t ((ofLevel n).eval ctx (target.accesses names) env s)
      ((ofLevel n).eval ctx (target.accesses names).rewriteMembers env t) := by
  induction names generalizing t n with
  | nil =>
      have hdiscreet : Run.Discreet hidden ((ofLevel n).eval ctx target env) := inferInstance
      change EndsBehind hidden ctx env t ((ofLevel n).eval ctx target env s)
        ((ofLevel n).eval ctx target.rewriteMembers env t)
      rw [htarget]
      exact .of_alike (hdiscreet.ends h.veiled) fun _ _ _ => rfl
  | cons name names ih =>
      cases n with
      | zero => exact .interrupt _ h.apart
      | succ n =>
          rw [Expr.rewriteMembers_accesses]
          exact .access h hmember helement (Expr.isArgument_accesses (htarget.symm ▸ ha) names)
            fun u hu => ih hu n

end Machine

namespace Store

/-- The promises that a store is to make next, as many as given. -/
def Upcoming (s : Store) (count : Nat) (p : PromiseId) : Prop :=
  s.promises.size ≤ p.index ∧ p.index < s.promises.size + count

end Store

namespace Machine

/-- Promises of code that mentions nothing hidden may be made. -/
theorem conceals_promisedIn {slots : List Slot} (hslots : Conceals hidden slots)
    (hs : Conceals hidden s) : Conceals hidden (promisedIn ctx env s slots) := by
  induction slots generalizing s with
  | nil => exact hs
  | cons slot rest ih =>
      obtain ⟨hslot, hrest⟩ := conceals_cons.mp hslots
      exact ih hrest (Store.conceals_addPromise (conceals_item.mpr hslot) ⟨trivial⟩)

/-- Making promises is of no difference to what names stand for. -/
theorem calls_promisedIn {e : EnvId} {name : String} {fn : Value} (h : s.Calls e name fn)
    (slots : List Slot) : (promisedIn ctx env s slots).Calls e name fn := by
  have hplaces := samePlaces_promisedIn ctx env s slots
  have hgrows := promisedIn_grows ctx env s slots
  have hready (x : EnvId) (v w : Value) (_ : s.slot? x name = some v)
      (hw : s.ready? v = some w) : (promisedIn ctx env s slots).ready? v = some w := by
    cases v with
    | promise p =>
        obtain ⟨hp, hprogress⟩ := Option.ite_none_right_eq_some.mp hw
        rw [Store.ready?, if_pos (Nat.lt_of_lt_of_le hp hgrows.promises), hgrows.promise p hp,
          hprogress]
    | _ => exact hw
  rw [Store.Calls, hplaces.chain]
  exact Store.Finds.of_ready hplaces.slot? hready h

/-- A store trails behind what it is once promises are made. -/
theorem trails_promisedIn {slots : List Slot} (hslots : Conceals (s.Upcoming slots.length) slots)
    (hs : Conceals (s.Upcoming slots.length) s) :
    Trails (s.Upcoming slots.length) ctx env slots (promisedIn ctx env s slots) s where
  apart := .refl _
  coming p hle hlt := ⟨hle, by rwa [size_promisedIn] at hlt⟩
  made p hp := by
    rw [size_promisedIn]
    exact hp.2
  conceals := conceals_promisedIn hslots hs

/-- A chain of accesses and the rewritten one come to the same, if the promises that the second one
makes are there from the start for the first one, and nothing mentions them. -/
theorem endsBehind_accesses {target : Expr} {names : List BareName} {home' : EnvId}
    [hs : Conceals (s.Upcoming (2 * names.length)) s]
    [Conceals (s.Upcoming (2 * names.length)) target]
    (hmember : s.Calls env "$" (.builtin (.special .member) home))
    (helement : s.Calls env "[[" (.builtin (.primitive .element) home')) (ha : target.IsArgument)
    (hplain : target.rewriteMembers = target) (n : Nat) :
    EndsBehind (s.Upcoming (2 * names.length)) ctx env s
      ((ofLevel n).eval ctx (target.accesses names) env
        (promisedIn ctx env s (elementSlots target names)))
      ((ofLevel n).eval ctx (target.accesses names).rewriteMembers env s) := by
  have hcode : Conceals (s.Upcoming (2 * names.length)) target.rewriteMembers :=
    hplain.symm ▸ inferInstance
  have hslots : Conceals (s.Upcoming (2 * names.length)) (elementSlots target names) :=
    inferInstance
  have htrails : Trails (s.Upcoming (2 * names.length)) ctx env (elementSlots target names)
      (promisedIn ctx env s (elementSlots target names)) s := by
    rw [← Expr.length_elementSlots target names] at hslots hs ⊢
    exact trails_promisedIn hslots hs
  exact .accesses htrails (calls_promisedIn hmember _) (calls_promisedIn helement _) ha hplain n

end Machine

/-- Rewriting accesses by bare names keeps what evaluation comes to. Beside a chain of accesses the
rewritten one makes two promises for each access. Where these are there from the start and nothing
mentions them, both come to the same value or the same failure, with the same effects but for
details in the log. In any tree no access is left, rewriting again changes nothing, and all else
keeps its place and its names. -/
theorem rewriting_preserves_meaning {target : Expr} (names : List BareName) {home home' : EnvId}
    (hs : Conceals (s.Upcoming (2 * names.length)) s)
    (hcode : Conceals (s.Upcoming (2 * names.length)) target)
    (hmember : s.Calls env "$" (.builtin (.special .member) home))
    (helement : s.Calls env "[[" (.builtin (.primitive .element) home')) (ha : target.IsArgument)
    (htarget : ∀ path x, target.at? path = some x → x.isAccess = false) :
    (∀ n, Machine.EndsBehind (s.Upcoming (2 * names.length)) ctx env s
      ((Machine.ofLevel n).eval ctx (target.accesses names) env
        (Machine.promisedIn ctx env s (elementSlots target names)))
      ((Machine.ofLevel n).eval ctx (target.accesses names).rewriteMembers env s)) ∧
    ∀ e : Expr, e.rewriteMembers.rewriteMembers = e.rewriteMembers ∧
      (∀ path x, e.rewriteMembers.at? path = some x → x.isAccess = false) ∧
      (∀ path x, e.at? path = some x → e.Keeps path →
        e.rewriteMembers.at? path = some x.rewriteMembers) ∧
      (e.isAccess = false → e.rewriteMembers.outline = e.outline ∧
        e.rewriteMembers.children = e.children.map Expr.rewriteMembers) ∧
      ∀ slot name label, e = .call (.symbol "$") [slot, name] →
        name.item.bareName? = some label →
        e.rewriteMembers = .call (.symbol "[[") [slot.map Expr.rewriteMembers,
          .bare (.const (.str label))] := by
  have hplain := Expr.rewriteMembers_of_no_access htarget
  refine ⟨Machine.endsBehind_accesses hmember helement ha hplain, fun e =>
    ⟨e.rewriteMembers_idem, fun path x => Expr.isAccess_at?_rewriteMembers,
      fun path x => Expr.at?_rewriteMembers, Expr.outline_rewriteMembers, ?_⟩⟩
  rintro slot name label rfl hname
  exact Expr.rewriteMembers_access hname

/-- A store of one environment mentions what its bindings mention. -/
theorem conceals_single {vars : Bindings Value} (hvars : Conceals hidden vars) :
    Conceals hidden ({ scopes := #[⟨vars, .empty, none⟩] } : Store) := by
  constructor
  constructor
  case vars =>
    intro i
    match i with
    | 0 => exact hvars
    | _ + 1 => exact inferInstanceAs (Conceals hidden [])
  case promise => exact fun _ _ => ⟨.missing, .plain rfl⟩
  case closure => exact fun _ => ⟨fun _ h => (List.not_mem_nil h).elim, .missing⟩
  case incident => exact fun _ => ⟨fun _ h => by cases h⟩
  all_goals exact fun _ => ⟨fun _ h => (List.not_mem_nil h).elim⟩

/-- An access by a text and one by a name, where `x` is a list in a list. -/
theorem rewriting_preserves_meaning_nested :
    let s : Store := { scopes := #[⟨[("$", .builtin (.special .member) .empty),
      ("[[", .builtin (.primitive .element) .empty),
      ("x", .list [⟨some "a", .list [⟨some "b", .int 1⟩]⟩])], .empty, none⟩] }
    let chain : Expr := Expr.accesses (.symbol "x") [.text "b", .symbol "a"]
    s.Calls (.scope 0) "$" (.builtin (.special .member) .empty) ∧
      s.Calls (.scope 0) "[[" (.builtin (.primitive .element) .empty) ∧
      ∃ t, (Machine.ofLevel 3).eval ⟨0⟩ chain.rewriteMembers (.scope 0) s = .ok (.int 1) t := by
  intro s chain
  have hmember : s.Calls (.scope 0) "$" (.builtin (.special .member) .empty) := .here rfl rfl rfl
  have helement : s.Calls (.scope 0) "[[" (.builtin (.primitive .element) .empty) :=
    .here rfl rfl rfl
  have hs : Conceals (s.Upcoming (2 * 2)) s := conceals_single inferInstance
  have hplain : ∀ path x, (Expr.symbol "x").at? path = some x → x.isAccess = false := by
    intro path x hx
    cases path with
    | nil => cases hx; rfl
    | cons i path => cases hx
  have hends : Machine.EndsBehind (s.Upcoming (2 * 2)) ⟨0⟩ (.scope 0) s
      ((Machine.ofLevel 3).eval ⟨0⟩ chain (.scope 0) (Machine.promisedIn ⟨0⟩ (.scope 0) s
        (elementSlots (.symbol "x") [.text "b", .symbol "a"])))
      ((Machine.ofLevel 3).eval ⟨0⟩ chain.rewriteMembers (.scope 0) s) :=
    (rewriting_preserves_meaning [.text "b", .symbol "a"] hs inferInstance hmember helement
      ⟨rfl, rfl⟩ hplain).1 3
  obtain ⟨u, hvalue⟩ : ∃ u, (Machine.ofLevel 3).eval ⟨0⟩ chain (.scope 0)
      (Machine.promisedIn ⟨0⟩ (.scope 0) s
        (elementSlots (.symbol "x") [.text "b", .symbol "a"])) = .ok (.int 1) u := ⟨_, rfl⟩
  rw [hvalue] at hends
  refine ⟨hmember, helement, ?_⟩
  generalize (Machine.ofLevel 3).eval ⟨0⟩ chain.rewriteMembers (.scope 0) s = y at hends ⊢
  cases hends with
  | value => exact ⟨_, rfl⟩

end Quasi
