import Quasi.Proofs.Call.Growth
import Quasi.Proofs.Enclosed.Reached
import Quasi.Proofs.Twin.Primitive

/-!
# Assignments under a mask stay in the mask

Whatever enclosed code binds under a fresh mask, in its own environment or in those of the quosures
that it is made of, is bound in the mask or in a local scope below it. No environment that was there
before binds anything else than it did, whether the code has a value or fails.
-/

namespace Quasi

open Run (Lasting Modest Preserves)

/-- The second store has all scopes and masks of the first one as they were. -/
structure Store.Spares (s t : Store) : Prop where
  scope (i : Nat) : i < s.scopes.size → t.scope i = s.scope i
  masks : s.masks.size ≤ t.masks.size
  mask (m : MaskId) : m.index < s.masks.size → t.mask m = s.mask m

namespace Store.Spares

variable {s t : Store} {e : EnvId}

theorem refl (s : Store) : s.Spares s := ⟨fun _ _ => rfl, Nat.le_refl _, fun _ _ => rfl⟩

theorem vars (h : s.Spares t) (he : s.known e = e) : t.vars e = s.vars e := by
  cases e with
  | empty => rfl
  | scope i => exact congrArg Scope.vars (h.scope i (known_eq_scope.mp he))
  | bottom m => exact congrArg Mask.vars (h.mask m (known_eq_bottom.mp he))

theorem slot? (h : s.Spares t) (hs : s.Whole) (he : s.known e = e) (name : String) :
    t.slot? e name = s.slot? e name := hs.slot? h.scope h.mask he name

instance : Lasting s.Spares where
  of_eq {t u} hscopes hmasks _ h := by
    refine ⟨fun i hi => ?_, hmasks ▸ h.masks, fun m hm => ?_⟩
    · simpa only [Store.scope, hscopes] using h.scope i hi
    · simpa only [Store.mask, hmasks] using h.mask m hm
  addMask {t} mask h := by
    refine ⟨h.scope, Nat.le_trans h.masks (by simp [addMask]), fun m hm => ?_⟩
    rw [mask_addMask, if_neg (Nat.ne_of_lt (Nat.lt_of_lt_of_le hm h.masks))]
    exact h.mask m hm

end Store.Spares

namespace Enclosed

variable {s t u : Store} {data : Value} {mask : MaskId}

theorem Reached.spares {sources : List DataScope} {n : Nat} (h : Reached s sources n t) :
    s.Spares t := ⟨h.scope, Nat.le_of_lt h.masks, h.mask⟩

/-- The store in which a mask was just made over some sources of data. -/
theorem reached_addMask (s : Store) {made : Mask} :
    Reached s made.scopes s.scopes.size (s.addMask made) where
  room := Nat.le_refl _
  scopes := Nat.le_refl _
  scope _ _ := rfl
  hangs i hold hi := absurd hi (Nat.not_lt_of_le hold)
  masks := by simp [Store.addMask]
  mask m hm := by rw [Store.mask_addMask, if_neg (Nat.ne_of_lt hm)]
  data := by rw [Store.mask_addMask, if_pos rfl]
  promises := Nat.le_refl _
  held _ _ hheld := hheld
  env p e hp he := by
    have hdefault : (s.promise p).env = none := by
      simp [Store.promise, Array.getD, Nat.not_lt_of_le hp, Inhabited.default]
    rw [show ((s.addMask made).promise p).env = (s.promise p).env from rfl, hdefault] at he
    cases he

/-- A mask over data that is no mask is a fresh one. -/
theorem reached_asMask (hdata : ∀ m, data ≠ .mask m)
    (h : Machine.asMask data none s = .ok mask u) :
    mask = ⟨s.masks.size⟩ ∧ Reached s (u.mask mask).scopes s.scopes.size u := by
  have hover : ∃ sources, Machine.maskOver sources .empty s = .ok mask u := by
    cases data with
    | mask m => exact (hdata m rfl).elim
    | _ => exact ⟨_, h⟩
  obtain ⟨sources, hover⟩ := hover
  rw [Machine.maskOver, Twin.mapM_orFail] at hover
  cases hscopes : sources.mapM Value.asScope with
  | error fault =>
      rw [hscopes] at hover
      cases hover
  | ok scopes =>
      rw [hscopes] at hover
      cases hover
      refine ⟨rfl, ?_⟩
      rw [Store.mask_addMask, if_pos rfl]
      exact reached_addMask s

/-- However evaluation with data ends, it has spared all that was there, and it has not replaced the
sources of its mask. -/
theorem spares_evalTidy (n : Nat) (ctx : EvaluatorId) (code : Value) (hdata : ∀ m, data ≠ .mask m)
    (env : Option EnvId) (h : ((machine s n).evalTidy ctx code data env).EndsIn s t) :
    s.Spares t ∧ ∀ mask u, Machine.asMask data none s = .ok mask u →
      (t.mask mask).scopes = (u.mask mask).scopes := by
  have hspares : Preserves s.Spares (Machine.asMask data none) := .of_modest (Q := Eq) inferInstance
  rcases h.of_bind with ⟨mask, u, hmask, h⟩ | ⟨x, hfailed⟩
  · obtain ⟨rfl, hreached⟩ := reached_asMask hdata hmask
    have heval : Preserves (Reached s (u.mask ⟨s.masks.size⟩).scopes s.scopes.size)
        ((machine s n).evalUnder ctx code ⟨s.masks.size⟩ env) :=
      (stays_machine s n).evalUnder ctx code env
    have ht := heval.ends hreached h
    refine ⟨ht.spares, fun mask' u' hmask' => ?_⟩
    rw [hmask] at hmask'
    cases hmask'
    exact ht.data
  · refine ⟨hspares.ends (.refl s) (.signal x hfailed), fun mask u hmask => ?_⟩
    rw [hfailed] at hmask
    cases hmask

/-- Assignments under a mask stay in the mask. Where code is evaluated with data that is no mask
already, followed to its value or to the signal by which it ends, no environment that was there
before binds anything else than it did: not the environment behind the mask, nor that of a quosure,
nor any behind those, nor any that is among the data. The mask shows the same data as at first. Code
is followed that looks names up and binds them, goes through the control forms and fresh local
scopes, calls primitives that stand alone, and descends into quosures, if it forces no promise that
was there unevaluated. -/
theorem assignments_stay_in_mask (hs : s.Whole) (n : Nat) (ctx : EvaluatorId) (code : Value)
    (hdata : ∀ m, data ≠ .mask m) (env : Option EnvId) {outcome : Except Signal Value}
    (hfollowed : Run.attempt ((machine s n).evalTidy ctx code data env) s = .ok outcome t) :
    Run.attempt ((Machine.ofLevel n).evalTidy ctx code data env) s = .ok outcome t ∧
    (∀ e, s.known e = e → t.vars e = s.vars e ∧ ∀ name, t.slot? e name = s.slot? e name) ∧
    ∀ mask u, Machine.asMask data none s = .ok mask u →
      (t.mask mask).scopes = (u.mask mask).scopes := by
  have hagrees := agrees_evalTidy ctx s n code data env s s rfl
  obtain ⟨u, hrun, rfl⟩ := (hfollowed ▸ hagrees.attempt).of_value
  have hends := Run.endsIn_of_attempt hfollowed
  obtain ⟨hspares, hsources⟩ := spares_evalTidy n ctx code hdata env hends
  exact ⟨hrun, fun e he => ⟨hspares.vars he, hspares.slot? hs he⟩, hsources⟩

/-- An environment with functions and numbers bound in it, one below it for code and one for data. -/
def homeStore : Store where
  scopes := #[
    ⟨[("<-", .builtin (.special .assign) .empty), ("\x7b", .builtin (.special .block) .empty),
      ("local", .builtin (.special .localScope) .empty),
      ("list", .builtin (.primitive .list) .empty), ("x", .int 1)], .empty, none⟩,
    ⟨[("x", .int 2)], .scope 0, none⟩,
    ⟨[("y", .int 3)], .empty, none⟩]

/-- Code that binds names in the mask, from a quosure and in a local scope, and fails in the end. -/
def bindingCode : Expr :=
  .apply "\x7b" [
    .apply "<-" [.symbol "y", .symbol "x"],
    .const (.quosure (.apply "<-" [.symbol "x", .symbol "x"]) (.scope 1)),
    .apply "local" [.apply "<-" [.symbol "list", .const (.int 5)]],
    .symbol "z"]

theorem whole_homeStore : homeStore.Whole := by
  refine Store.whole_of_parents (fun scope hscope => ?_) rfl rfl
  simp only [homeStore, List.mem_toArray, List.mem_cons, List.not_mem_nil, or_false] at hscope
  rcases hscope with rfl | rfl | rfl
  · rfl
  · rfl
  · rfl

attribute [local semireducible] Store.maskSlot? in
/-- The names are bound nowhere but in the mask, also if an environment is among the data. -/
theorem assignments_stay_in_mask_failing : ∃ f t,
    Run.attempt ((Machine.ofLevel 9).evalTidy ⟨0⟩ (.code bindingCode) (.env (.scope 2))
      (some (.scope 0))) homeStore = .ok (.error (.failure f)) t ∧
    t.slot? (.bottom ⟨0⟩) "x" = some (.int 2) ∧ t.slot? (.bottom ⟨0⟩) "y" = some (.int 1) ∧
    (∀ name, t.slot? (.scope 0) name = homeStore.slot? (.scope 0) name) ∧
    (∀ name, t.slot? (.scope 1) name = homeStore.slot? (.scope 1) name) ∧
    ∀ name, t.slot? (.scope 2) name = homeStore.slot? (.scope 2) name := by
  have hdata : ∀ m, Value.env (.scope 2) ≠ .mask m := by
    intro m h
    cases h
  obtain ⟨hrun, hkept, -⟩ := assignments_stay_in_mask whole_homeStore 9 ⟨0⟩ (.code bindingCode)
    hdata (some (.scope 0)) rfl
  exact ⟨_, _, hrun, rfl, rfl, (hkept (.scope 0) rfl).2, (hkept (.scope 1) rfl).2,
    (hkept (.scope 2) rfl).2⟩

end Enclosed

end Quasi
