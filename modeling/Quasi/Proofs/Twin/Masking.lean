import Quasi.Proofs.Tidy.Reference
import Quasi.Proofs.Twin.Primitive

/-!
# Masking by a mask and by a child environment

Evaluation with data in a child environment agrees with evaluation with the same data in a mask.
Both start in a store that has the child and the mask, so that all that is made afterwards has the
same identity in both.
-/

namespace Quasi

open Run (Agrees Matches Respects)
open Reading (outside)

/-- Nothing in a store leads to an environment that does not exist. -/
structure Store.Whole (s : Store) : Prop where
  parent (i : Nat) : s.known (s.scope i).parent = (s.scope i).parent
  home (m : MaskId) : s.known (s.mask m).home = (s.mask m).home
  source (m : MaskId) (e : EnvId) : DataScope.env e ∈ (s.mask m).scopes → s.known e = e
  promise (p : PromiseId) (e : EnvId) : (s.promise p).env = some e → s.known e = e

/-- Environments that hang off others, and neither masks nor promises. -/
theorem Store.whole_of_parents {s : Store}
    (hparents : ∀ scope ∈ s.scopes, s.known scope.parent = scope.parent) (hmasks : s.masks = #[])
    (hpromises : s.promises = #[]) : s.Whole where
  parent i := by
    by_cases hi : i < s.scopes.size
    · simpa [Store.scope, Array.getD, hi] using hparents _ (Array.getElem_mem hi)
    · simp [Store.scope, Array.getD, hi, Inhabited.default, Store.known]
  home m := by
    simp [Store.mask, hmasks, Array.getD, Inhabited.default, Store.known]
  source m e h := by
    simp [Store.mask, hmasks, Array.getD, Inhabited.default] at h
  promise p e h := by
    simp [Store.promise, hpromises, Array.getD, Inhabited.default] at h

/-- One environment without a parent, and neither masks nor promises. -/
theorem Store.whole_of_single {s : Store} {scope : Scope} (hscopes : s.scopes = #[scope])
    (hparent : scope.parent = .empty) (hmasks : s.masks = #[]) (hpromises : s.promises = #[]) :
    s.Whole := by
  refine whole_of_parents (fun other hother => ?_) hmasks hpromises
  rw [hscopes, List.mem_toArray, List.mem_singleton] at hother
  rw [hother, hparent]
  rfl

/-- The bindings that a list or a mapping gives to code. -/
def Value.entries? : Value → Option (Bindings Value)
  | .list items => some (Tagged.toBindings items)
  | .mapping entries => some entries
  | _ => none

/-- What a name is bound to in an environment or, where that does not bind it, in one on the chain
of another environment. -/
def Store.readable? (s : Store) (front home : EnvId) (name : String) : Option Value :=
  (front :: (s.chain home).1).findSome? fun e => s.slot? e name

namespace Twin

/-- The twins that are made next. -/
def next (s : Store) (data : Bindings Value) (home : EnvId) : Twin :=
  ⟨s.scopes.size, ⟨s.masks.size⟩, data, home⟩

variable (tw : Twin)

/-- The mask as it is made. -/
def freshMask : Mask :=
  ⟨[(Pronoun.data.name, .pronoun .data tw.mask), (Pronoun.env.name, .pronoun .env tw.mask)],
    [.mapping tw.data], .empty⟩

/-- The store in which both twins were made. -/
def made (s : Store) : Store := (s.addScope ⟨tw.data, tw.home, none⟩).addMask tw.freshMask

variable {tw} {s t : Store} {home back e : EnvId} {data : Bindings Value}

theorem apart_of_known (he : s.known e = e) : (next s data home).Apart e where
  child h := Nat.lt_irrefl _ (Store.known_eq_scope.mp (h ▸ he))
  bottom h := Nat.lt_irrefl _ (Store.known_eq_bottom.mp (h ▸ he))

section Made

variable (s data home)

theorem scope_made (i : Nat) : ((next s data home).made s).scope i =
    if i = s.scopes.size then ⟨data, s.known home, none⟩ else s.scope i :=
  s.scope_addScope ⟨data, home, none⟩ i

theorem mask_made (m : MaskId) : ((next s data home).made s).mask m =
    if m.index = s.masks.size then (next s data home).freshMask else s.mask m :=
  Store.mask_addMask ..

theorem known_made (he : s.known e = e) : ((next s data home).made s).known e = e := by
  refine Store.known_mono ?_ ?_ he <;> simp [made, Store.addScope, Store.addMask]

end Made

/-- When they are made, the twins do not differ. -/
theorem related_made (hs : s.Whole) (hhome : s.known home = home) :
    (next s data home).Related .empty ((next s data home).made s)
      ((next s data home).made s) := by
  have hmask : ((next s data home).made s).mask ⟨s.masks.size⟩ = (next s data home).freshMask := by
    rw [mask_made, if_pos rfl]
  have hscope : ((next s data home).made s).scope s.scopes.size = ⟨data, home, none⟩ := by
    rw [scope_made, if_pos rfl, hhome]
  have hold (m : MaskId) (hm : m ≠ ⟨s.masks.size⟩) :
      ((next s data home).made s).mask m = s.mask m := by
    rw [mask_made, if_neg fun h => hm (congrArg MaskId.mk h)]
  exact {
    scopeCount := rfl
    scope := fun _ _ => rfl
    scopeName := rfl
    maskCount := rfl
    mask := fun _ _ => rfl
    sources := congrArg Mask.scopes hmask
    sources_eq := congrArg Mask.scopes hmask
    bound := fun name hname => by
      simp only [isPronoun, Bool.or_eq_false_iff, decide_eq_false_iff_not] at hname
      have hvars : (((next s data home).made s).mask ⟨s.masks.size⟩).vars.get? name = none := by
        rw [hmask]
        simp [freshMask, Bindings.get?, Ne.symm hname.1, Ne.symm hname.2]
      change Option.or (Bindings.get? (((next s data home).made s).mask ⟨s.masks.size⟩).vars name)
        (data.get? name) = (((next s data home).made s).scope s.scopes.size).vars.get? name
      rw [hvars, hscope, Option.none_or]
    exists_child := by simp [next, made, Store.addScope, Store.addMask]
    parent := congrArg Scope.parent hscope
    exists_mask := by simp [next, made, Store.addScope, Store.addMask]
    falls := congrArg Mask.home hmask
    home := apart_of_known hhome
    parents := fun i hi => by
      rw [scope_made, if_neg (show i ≠ s.scopes.size from hi)]
      exact apart_of_known (hs.parent i)
    homes := fun m hm => by
      rw [hold m hm]
      exact apart_of_known (hs.home m)
    shown := fun m e hmem => by
      by_cases hm : m = ⟨s.masks.size⟩
      · rw [hm, hmask] at hmem
        simp [freshMask] at hmem
      · rw [hold m hm] at hmem
        exact apart_of_known (hs.source m e hmem)
    promiseCount := rfl
    promise := fun p => by
      have hkept (e : EnvId) (he : (s.promise p).env = some e) : (next s data home).Apart e :=
        apart_of_known (hs.promise p e he)
      change (s.promise p).Pairs (next s data home).Pairs (s.promise p)
      refine ⟨rfl, ?_, rfl, rfl, rfl⟩
      cases henv : (s.promise p).env with
      | none => exact .none
      | some e => exact .some (.same (hkept e henv))
    closures := rfl
    failures := rfl
    evaluatorCount := rfl
    evaluator := fun _ => rfl
    targets := fun _ => List.forall₂_same.mpr fun _ _ => .inl rfl
    nextId := rfl
    settings := rfl
    verbose := rfl
    out := rfl
    err := rfl
    recorded := rfl
    notes := rfl
    ticks := rfl }

/-- The mask is made to fall back to another environment. -/
theorem Related.rechain (h : tw.Related back t s) (he : t.known e = e) (log : Array LogRecord) :
    tw.Related e { t.rechain tw.mask e with log := log } s := by
  have hmask (m : MaskId) : (t.rechain tw.mask e).mask m =
      if m = tw.mask then { t.mask m with home := e } else t.mask m := by
    rw [Store.mask_rechain, he]
    refine if_congr ⟨fun hm => congrArg MaskId.mk hm.1, fun hm => ⟨congrArg _ hm, ?_⟩⟩ rfl rfl
    exact h.maskCount ▸ h.exists_mask
  have hrechained : tw.Related e (t.rechain tw.mask e) s := {
    h with
    maskCount := by rw [Store.size_masks_rechain, h.maskCount]
    mask := fun m hm => by rw [hmask, if_neg hm]; exact h.mask m hm
    sources := by rw [hmask, if_pos rfl]; exact h.sources
    bound := fun name hname => by rw [hmask, if_pos rfl]; exact h.bound name hname
    falls := by rw [hmask, if_pos rfl] }
  exact hrechained.log log s.log

/-! ## Evaluation in the twins -/

/-- Whether an environment is one of the twins. -/
def isTwin (tw : Twin) (e : EnvId) : Bool := e = tw.child || e = tw.bottom

theorem apart_of_isTwin (h : tw.isTwin e = false) : tw.Apart e := by
  rw [isTwin, Bool.or_eq_false_iff, decide_eq_false_iff_not, decide_eq_false_iff_not] at h
  exact ⟨h.1, h.2⟩

/-- Whether code of another environment is evaluated as it stands, whatever it is made of: if it
cannot tell whether the mask is in use or the child. -/
def foreign (tw : Twin) (n : Nat) (ctx : EvaluatorId) (e : Expr) (env : EnvId) (s : Store) : Prop :=
  ∀ t, tw.Related tw.home t s → Matches (tw.Related tw.home)
    ((Machine.ofLevel n).eval ctx e env t) ((Machine.ofLevel n).eval ctx e env s)

/-- The machine for code of the child. -/
noncomputable def machine (tw : Twin) (n : Nat) : Machine := Confined.machine tw.isTwin tw.foreign n

/-- A run in the child, which no `return` ends. -/
def within (tw : Twin) (ctx : EvaluatorId) (body : Run Value) : Run Value := do
  modify fun s => s.setEvaluator ctx fun e => { e with targets := tw.child :: e.targets }
  let outcome ← Run.attempt body
  modify fun s => s.setEvaluator ctx fun e => { e with targets := e.targets.drop 1 }
  match outcome with
  | .error (.returning v target) =>
      if target = tw.child ∨ target = tw.bottom then outside else Run.raise (.returning v target)
  | outcome => Run.resume outcome

/-- The evaluation of confined code in the child. -/
noncomputable def confined (tw : Twin) (n : Nat) (ctx : EvaluatorId) (e : Expr) : Run Value :=
  tw.within ctx ((tw.machine n).eval ctx e tw.child)

theorem agrees_within {Q : Store → Store → Prop} {ctx : EvaluatorId} {x : EnvId}
    (hx : x = tw.child ∨ x = tw.bottom) {a b : Run Value}
    (hpush : ∀ t s, Q t s → Q
      (t.setEvaluator ctx fun e => { e with targets := x :: e.targets })
      (s.setEvaluator ctx fun e => { e with targets := tw.child :: e.targets }))
    (hpop : Respects Q (modify fun s => s.setEvaluator ctx fun e =>
      { e with targets := e.targets.drop 1 } : Run PUnit))
    (hab : Agrees Q a b) : Agrees Q (Machine.inTarget ctx x a) (tw.within ctx b) := by
  have hopen : Agrees Q
      (modify fun s => s.setEvaluator ctx fun e => { e with targets := x :: e.targets } : Run PUnit)
      (modify fun s => s.setEvaluator ctx fun e => { e with targets := tw.child :: e.targets }) :=
    fun t s h => .value (hpush t s h)
  unfold Machine.inTarget within
  refine .bind hopen fun _ => .bind hab.attempt fun outcome => .bind hpop.agrees fun _ => ?_
  match outcome with
  | .ok v => exact .resume _
  | .error (.failure f) => exact .resume _
  | .error .overflow => exact .resume _
  | .error (.returning v target) =>
      dsimp only
      split
      next htarget =>
          rw [htarget, if_pos hx]
          exact .endless
      next =>
          split
          · exact .endless
          · exact .raise _

theorem agrees_child (n : Nat) (ctx : EvaluatorId) (e : Expr) :
    Agrees Eq ((Machine.ofLevel n).evalIn ctx e tw.child) (tw.confined n ctx e) := by
  have hmirrors : Machine.Mirrors Eq Eq (Machine.ofLevel n) (tw.machine n) :=
    pairing_eq.mirrors (fun hxy hst _ _ => hxy ▸ hst ▸ (Run.respects_eq _).agrees _ _ rfl) n
  exact agrees_within (.inl rfl) (fun _ _ h => h ▸ rfl) (Run.respects_eq _)
    (hmirrors.eval ctx e rfl)

theorem agrees_bottom (n : Nat) (ctx : EvaluatorId) (e : Expr) :
    Agrees (tw.Related tw.home) ((Machine.ofLevel n).evalIn ctx e tw.bottom)
      (tw.confined n ctx e) := by
  have hmirrors : Machine.Mirrors tw.Pairs (tw.Related tw.home) (Machine.ofLevel n)
      (tw.machine n) :=
    tw.pairing.mirrors (fun hxy hst htwin hforeign => by
      cases hxy with
      | twins => exact ((apart_of_isTwin htwin).child rfl).elim
      | same => exact hforeign _ hst) n
  have hpop : Respects (tw.Related tw.home) (modify fun s => s.setEvaluator ctx fun e =>
      { e with targets := e.targets.drop 1 } : Run PUnit) :=
    .of_modify fun t s h => h.setTargets ctx fun xs ys hxy => by
      cases hxy with
      | nil => exact .nil
      | cons _ hrest => exact hrest
  exact agrees_within (.inr rfl)
    (fun t s h => h.setTargets ctx fun xs ys hxy => .cons (.inr ⟨rfl, rfl⟩) hxy) hpop
    (hmirrors.eval ctx e .twins)

/-- Evaluation under the mask, which is put in front of the environment of the twins meanwhile. -/
theorem matches_under (h : tw.Related .empty t s) (hhome : t.known tw.home = tw.home) (n : Nat)
    (ctx : EvaluatorId) (e : Expr) :
    Matches (tw.Related .empty) (Run.under tw.mask tw.home ((Machine.ofLevel n).evalIn ctx e) t)
      (tw.confined n ctx e s) := by
  obtain ⟨log, hopen⟩ := Flow.rechain_eq_log tw.mask tw.home t
  rw [h.falls] at hopen
  rw [Run.under, Run.bind_of_ok hopen, ← Reading.andFinally_pure (tw.confined n ctx e)]
  refine (agrees_bottom n ctx e _ _ (h.rechain hhome log)).andFinally fun t' s' h' => ?_
  obtain ⟨log', hclose⟩ := Flow.rechain_eq_log tw.mask .empty t'
  rw [Run.bind_of_ok hclose]
  exact .value (h'.rechain rfl log')

/-! ## Evaluation with data -/

/-- Evaluation with data in a child environment. The mask is made before, though it is not used. -/
def byChild (n : Nat) (ctx : EvaluatorId) (code data : Value) (home env : EnvId) : Run Value := do
  let _ ← Machine.asMask data none
  Library.evalCode (Machine.ofLevel n) ctx [code, data, .env home] [] env

/-- Evaluation with data in a mask. The child environment is made before, though it is not used. -/
def byMask (n : Nat) (ctx : EvaluatorId) (code data : Value) (entries : Bindings Value)
    (home env : EnvId) : Run Value := do
  let _ ← Run.newScope home entries none
  Library.evalTidy (Machine.ofLevel n) ctx [code, data, .env home] [] env

section Runs

variable {d : Value} {entries : Bindings Value}

theorem asMask_eq (hd : d.entries? = some entries) (s : Store) (home : EnvId) :
    Machine.asMask d none s =
      .ok ⟨s.masks.size⟩ (s.addMask (next s entries home).freshMask) := by
  cases d with
  | list items => cases hd; rfl
  | mapping items => cases hd; rfl
  | _ => cases hd

/-- It does not matter which of the twins is made first. -/
theorem made_eq (hhome : s.known home = home) (entries : Bindings Value) :
    (s.addMask (next s entries home).freshMask).addScope ⟨entries, home, none⟩ =
      (next s entries home).made s := by
  have hknown (mask : Mask) : (s.addMask mask).known home = home := by
    refine Store.known_mono ?_ ?_ hhome <;> simp [Store.addMask]
  simp only [made, Store.addScope, hknown, next, hhome]
  rfl

theorem byChild_eq (hd : d.entries? = some entries) (hhome : s.known home = home) (n : Nat)
    (ctx : EvaluatorId) (code : Value) (env : EnvId) : byChild n ctx code d home env s =
      (Machine.ofLevel n).evalIn ctx code.toExpr (next s entries home).child
        ((next s entries home).made s) := by
  have heval : Library.evalCode (Machine.ofLevel n) ctx [code, d, .env home] [] env = (do
      let child ← Run.newScope home entries none
      (Machine.ofLevel n).evalIn ctx code.toExpr child) := by
    cases d with
    | list items => cases hd; rfl
    | mapping items => cases hd; rfl
    | _ => cases hd
  rw [byChild, Run.bind_of_ok (asMask_eq hd s home), heval, ← made_eq hhome]
  rfl

theorem byMask_eq (hd : d.entries? = some entries) (n : Nat)
    (ctx : EvaluatorId) {code : Value} (hcode : ∀ e inner, code ≠ .quosure e inner) (env : EnvId) :
    byMask n ctx code d entries home env s = Run.under (next s entries home).mask home
      ((Machine.ofLevel n).evalIn ctx code.toExpr) ((next s entries home).made s) := by
  have heval : Library.evalTidy (Machine.ofLevel n) ctx [code, d, .env home] [] env = (do
      let mask ← Machine.asMask d none
      (Machine.ofLevel n).evalUnder ctx code mask (some home)) := by
    cases d with
    | list items => rfl
    | mapping items => rfl
    | _ => cases hd
  have hread : tidyCode code home = (code.toExpr, home) := by
    cases code with
    | quosure e inner => exact (hcode e inner rfl).elim
    | _ => rfl
  have hnew : Run.newScope home entries none s =
      .ok (next s entries home).child (s.addScope ⟨entries, home, none⟩) := rfl
  rw [byMask, Run.bind_of_ok hnew, heval, Run.bind_of_ok (asMask_eq hd _ home), evalUnder_eq, hread]
  rfl

/-- All names but those of the pronouns are bound the same in the twins and behind them. -/
theorem Related.readable? (h : tw.Related back t s) {name : String}
    (hname : isPronoun name = false) :
    t.readable? tw.bottom tw.home name = s.readable? tw.child tw.home name := by
  obtain ⟨hchain, hapart⟩ := h.chain_apart h.home
  have hbehind : (s.chain tw.home).1.findSome? (t.slot? · name) =
      (s.chain tw.home).1.findSome? (s.slot? · name) :=
    findSome?_congr fun e he => h.slot?_apart (hapart e he) name
  rw [Store.readable?, Store.readable?, List.findSome?_cons, List.findSome?_cons, hchain,
    h.slot? .twins hname, hbehind]

/-- Evaluation with data in a child environment and evaluation with the same data in a mask have the
same value, or end by the same signal, which is a failure with its class and message. They leave all
names but those of the pronouns bound the same, in the child and in the mask as well as in every
environment behind them. This is so of all confined code: its confined evaluation has an outcome. -/
theorem masking_agrees (hs : s.Whole) (hhome : s.known home = home)
    (hd : d.entries? = some entries) (n : Nat) (ctx : EvaluatorId) {code : Value}
    (hcode : ∀ e inner, code ≠ .quosure e inner) (env : EnvId) {outcome : Except Signal Value}
    {t : Store} (hconfined : Run.attempt ((next s entries home).confined n ctx code.toExpr)
      ((next s entries home).made s) = .ok outcome t) :
    let tw := next s entries home
    Run.attempt (byChild n ctx code d home env) s = .ok outcome t ∧
    ∃ t', Run.attempt (byMask n ctx code d entries home env) s = .ok outcome t' ∧
      tw.Related .empty t' t ∧
      ∀ name, isPronoun name = false →
        t'.readable? tw.bottom home name = t.readable? tw.child home name := by
  intro tw
  have hchild : Matches Eq (byChild n ctx code d home env s)
      (tw.confined n ctx code.toExpr (tw.made s)) := by
    rw [byChild_eq hd hhome]
    exact agrees_child n ctx code.toExpr _ _ rfl
  have hmask : Matches (tw.Related .empty) (byMask n ctx code d entries home env s)
      (tw.confined n ctx code.toExpr (tw.made s)) := by
    rw [byMask_eq hd n ctx hcode]
    exact matches_under (related_made hs hhome) (known_made s home entries hhome) n ctx code.toExpr
  obtain ⟨u, hu, rfl⟩ := (hconfined ▸ hchild.attempt).of_value
  obtain ⟨t', ht', hrelated⟩ := (hconfined ▸ hmask.attempt).of_value
  exact ⟨hu, t', ht', hrelated, fun name hname => hrelated.readable? hname⟩

end Runs

/-- An environment with functions and numbers bound in it. -/
def columnStore : Store where
  scopes := #[
    ⟨[("<-", .builtin (.special .assign) .empty), ("\x7b", .builtin (.special .block) .empty),
      ("list", .builtin (.primitive .list) .empty), ("x", .int 1), ("y", .int 2)], .empty, none⟩]

/-- Data with a column that is no function though it has the name of one. -/
def columns : Value := .mapping [("x", .int 10), ("list", .int 3)]

/-- Code that binds the name of a column anew. -/
def shadowingCode : Expr :=
  .apply "\x7b" [
    .apply "<-" [.symbol "x", .apply "list" [.symbol "x", .symbol "y"]],
    .apply "list" [.symbol "x", .symbol "y"]]

theorem whole_columnStore : columnStore.Whole := Store.whole_of_single rfl rfl rfl rfl

/-- The new binding is read afterwards, in the child as well as in the mask. -/
theorem masking_agrees_shadowing : ∃ outcome t t',
    outcome = .ok (.list [
      .bare (.list [.bare (.int 10), .bare (.int 2)]), .bare (.int 2)]) ∧
    Run.attempt (byChild 9 ⟨0⟩ (.code shadowingCode) columns (.scope 0) (.scope 0)) columnStore =
      .ok outcome t ∧
    Run.attempt (byMask 9 ⟨0⟩ (.code shadowingCode) columns [("x", .int 10), ("list", .int 3)]
      (.scope 0) (.scope 0)) columnStore = .ok outcome t' ∧
    t'.readable? (.bottom ⟨0⟩) (.scope 0) "x" = t.readable? (.scope 1) (.scope 0) "x" := by
  have hhome : columnStore.known (.scope 0) = .scope 0 := rfl
  have hdata : columns.entries? = some [("x", .int 10), ("list", .int 3)] := rfl
  have hcode : ∀ e inner, Value.code shadowingCode ≠ .quosure e inner := nofun
  have hagree := masking_agrees whole_columnStore hhome hdata 9 ⟨0⟩ hcode (.scope 0) rfl
  obtain ⟨hchild, t', hmask, -, hbound⟩ := hagree
  exact ⟨_, _, t', rfl, hchild, hmask, hbound "x" rfl⟩

/-- The name of a pronoun is bound in the mask only. -/
theorem pronoun_bound_in_mask : ∃ t t',
    Library.evalCode (Machine.ofLevel 1) ⟨0⟩ [.int 1, columns, .env (.scope 0)] [] (.scope 0)
      columnStore = .ok (.int 1) t ∧
    Library.evalTidy (Machine.ofLevel 1) ⟨0⟩ [.int 1, columns, .env (.scope 0)] [] (.scope 0)
      columnStore = .ok (.int 1) t' ∧
    t.readable? (.scope 1) (.scope 0) Pronoun.data.name = none ∧
    t'.readable? (.bottom ⟨0⟩) (.scope 0) Pronoun.data.name = some (.pronoun .data ⟨0⟩) := by
  refine ⟨_, _, rfl, rfl, rfl, ?_⟩
  rw [Store.readable?, List.findSome?_cons, Store.slot?, Store.maskSlot?]
  rfl

end Twin

end Quasi
