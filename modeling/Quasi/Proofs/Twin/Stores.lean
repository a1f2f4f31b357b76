import Quasi.Proofs.Chain.Leads
import Quasi.Proofs.Twin.Confined

/-!
# Twins

A child environment and a mask are twins if they were made over the same data, the one below and the
other in front of the same environment. Of two stores that have both, the mask is in use in the
first one and the child in the second one. The stores are related as long as they differ in nothing
else than what the twins themselves hold, and all names but the pronouns are bound the same in the
bottom environment of the mask and in the child.
-/

namespace Quasi

/-- A child environment and a mask over the same data, of the same environment. -/
structure Twin where
  scope : Nat
  mask : MaskId
  data : Bindings Value
  home : EnvId

namespace Twin

variable (tw : Twin)

def child : EnvId := .scope tw.scope

def bottom : EnvId := .bottom tw.mask

/-- An environment that is neither of the twins. -/
structure Apart (e : EnvId) : Prop where
  child : e ≠ tw.child
  bottom : e ≠ tw.bottom

/-- Environments that stand for each other: the twins, and every other one for itself. -/
inductive Pairs : EnvId → EnvId → Prop where
  | twins : Pairs tw.bottom tw.child
  | same {e : EnvId} (h : tw.Apart e) : Pairs e e

/-- What a `return` can end stands for the same. -/
def Targets (x y : EnvId) : Prop := x = y ∨ x = tw.bottom ∧ y = tw.child

/-- In the first store the mask is in use and falls back to `back`, in the second one the child. -/
structure Related (back : EnvId) (t s : Store) : Prop where
  scopeCount : t.scopes.size = s.scopes.size
  scope (i : Nat) : i ≠ tw.scope → t.scope i = s.scope i
  scopeName : (t.scope tw.scope).name = (s.scope tw.scope).name
  maskCount : t.masks.size = s.masks.size
  mask (m : MaskId) : m ≠ tw.mask → t.mask m = s.mask m
  sources : (t.mask tw.mask).scopes = [.mapping tw.data]
  sources_eq : (s.mask tw.mask).scopes = [.mapping tw.data]
  bound (name : String) : isPronoun name = false →
    ((t.mask tw.mask).vars.get? name).or (tw.data.get? name) = (s.scope tw.scope).vars.get? name
  exists_child : tw.scope < s.scopes.size
  parent : (s.scope tw.scope).parent = tw.home
  exists_mask : tw.mask.index < s.masks.size
  falls : (t.mask tw.mask).home = back
  home : tw.Apart tw.home
  parents (i : Nat) : i ≠ tw.scope → tw.Apart (s.scope i).parent
  homes (m : MaskId) : m ≠ tw.mask → tw.Apart (s.mask m).home
  shown (m : MaskId) (e : EnvId) : DataScope.env e ∈ (s.mask m).scopes → tw.Apart e
  promiseCount : t.promises.size = s.promises.size
  promise (p : PromiseId) : (t.promise p).Pairs tw.Pairs (s.promise p)
  closures : t.closures = s.closures
  failures : t.failures = s.failures
  evaluatorCount : t.evaluators.size = s.evaluators.size
  evaluator (ctx : EvaluatorId) :
    t.evaluator ctx = { s.evaluator ctx with targets := (t.evaluator ctx).targets }
  targets (ctx : EvaluatorId) :
    List.Forall₂ tw.Targets (t.evaluator ctx).targets (s.evaluator ctx).targets
  nextId : t.nextId = s.nextId
  settings : t.settings = s.settings
  verbose : t.verbose = s.verbose
  out : t.out = s.out
  err : t.err = s.err
  recorded : t.recorded = s.recorded
  notes : t.notes = s.notes
  ticks : t.ticks = s.ticks

variable {tw} {back x y e : EnvId} {s t : Store} {name : String}

theorem apart_scope {i : Nat} (h : tw.Apart (.scope i)) : i ≠ tw.scope :=
  fun hi => h.child (congrArg EnvId.scope hi)

theorem apart_empty : tw.Apart .empty := ⟨by simp [child], by simp [bottom]⟩

theorem apart_bottom {m : MaskId} (h : tw.Apart (.bottom m)) : m ≠ tw.mask :=
  fun hm => h.bottom (congrArg EnvId.bottom hm)

namespace Related

/-! ## Bindings -/

theorem maskSlot? (h : tw.Related back t s) {n : Nat} (hn : n ≠ tw.mask.index) :
    t.maskSlot? n name = s.maskSlot? n name := by
  -- Masks see only masks made before them, and none of them sees the twins.
  induction n using Nat.strongRecOn with
  | ind n ih =>
      have hmask : (⟨n⟩ : MaskId) ≠ tw.mask := fun h => hn (congrArg MaskId.index h)
      have hsource (source : DataScope) (hmem : source ∈ (s.mask ⟨n⟩).scopes) :
          ∀ e, source = .env e → tw.Apart e := fun e he => h.shown ⟨n⟩ e (he ▸ hmem)
      unfold Store.maskSlot?
      rw [h.mask _ hmask]
      congr 1
      funext _
      refine findSome?_congr fun source hmem => ?_
      have hapart := hsource source hmem
      split
      case h_3 i => rw [h.scope i (apart_scope (hapart _ rfl))]
      case h_4 m =>
        split
        case isTrue hm =>
          exact ih m.index hm fun hm => apart_bottom (hapart _ rfl) (congrArg MaskId.mk hm)
        case isFalse => rfl
      all_goals rfl

/-- All names are bound the same in an environment apart from the twins. -/
theorem slot?_apart (h : tw.Related back t s) (he : tw.Apart e) (name : String) :
    t.slot? e name = s.slot? e name := by
  cases e with
  | empty => rfl
  | scope i => simp only [Store.slot?, h.scope i (apart_scope he)]
  | bottom m => exact h.maskSlot? fun hm => apart_bottom he (congrArg MaskId.mk hm)

theorem slot?_bottom (h : tw.Related back t s) (name : String) : t.slot? tw.bottom name =
    ((t.mask tw.mask).vars.get? name).or (tw.data.get? name) := by
  have hmask : (⟨tw.mask.index⟩ : MaskId) = tw.mask := rfl
  change t.maskSlot? tw.mask.index name = _
  rw [Store.maskSlot?, hmask, h.sources]
  cases (t.mask tw.mask).vars.get? name with
  | some v => rfl
  | none =>
      rw [List.findSome?_singleton]
      rfl

/-- All names but the pronouns are bound the same in environments that stand for each other. -/
theorem slot? (h : tw.Related back t s) (hxy : tw.Pairs x y) (hname : isPronoun name = false) :
    t.slot? x name = s.slot? y name := by
  cases hxy with
  | twins => exact (h.slot?_bottom name).trans (h.bound name hname)
  | same he => exact h.slot?_apart he name

/-! ## Chains -/

theorem parent?_apart (h : tw.Related back t s) (he : tw.Apart e) :
    t.parent? e = s.parent? e ∧ ∀ p, s.parent? e = some p → tw.Apart p := by
  cases e with
  | empty => exact ⟨rfl, nofun⟩
  | scope i =>
      have hi := apart_scope he
      refine ⟨by simp only [Store.parent?, h.scope i hi], fun p hp => ?_⟩
      cases hp
      exact h.parents i hi
  | bottom m =>
      have hm := apart_bottom he
      refine ⟨by simp only [Store.parent?, h.mask m hm], fun p hp => ?_⟩
      cases hp
      exact h.homes m hm

/-- A walk that starts apart from the twins stays apart from them. -/
theorem walk_apart (h : tw.Related back t s) (he : tw.Apart e) (n : Nat) :
    t.walk n e = s.walk n e ∧ ∀ x ∈ (s.walk n e).1, tw.Apart x := by
  induction n generalizing e with
  | zero => exact ⟨rfl, nofun⟩
  | succ n ih =>
      obtain ⟨hparent, hapart⟩ := h.parent?_apart he
      cases hp : s.parent? e with
      | none =>
          rw [hp] at hparent
          rw [Store.walk_of_none n hp, Store.walk_of_none n hparent]
          exact ⟨rfl, by simpa using he⟩
      | some p =>
          rw [hp] at hparent
          obtain ⟨hrest, hmem⟩ := ih (hapart p hp)
          rw [Store.walk_of_some n hp, Store.walk_of_some n hparent, hrest]
          exact ⟨rfl, List.forall_mem_cons.mpr ⟨he, hmem⟩⟩

theorem environmentCount (h : tw.Related back t s) : t.environmentCount = s.environmentCount := by
  simp only [Store.environmentCount, h.scopeCount, h.maskCount]

/-- Chains that start apart from the twins are the same. -/
theorem chain_apart (h : tw.Related back t s) (he : tw.Apart e) :
    t.chain e = s.chain e ∧ ∀ x ∈ (s.chain e).1, tw.Apart x := by
  rw [Store.chain, h.environmentCount]
  exact h.walk_apart he _

/-- While the mask falls back to the environment of the twins, chains from environments that stand
for each other are made of environments that do. -/
theorem chain (h : tw.Related tw.home t s) (hxy : tw.Pairs x y) :
    List.Forall₂ tw.Pairs (t.chain x).1 (s.chain y).1 ∧ (t.chain x).2 = (s.chain y).2 := by
  have hsame {xs : List EnvId} (hxs : ∀ x ∈ xs, tw.Apart x) : List.Forall₂ tw.Pairs xs xs :=
    List.forall₂_same.mpr fun x hx => .same (hxs x hx)
  cases hxy with
  | same he =>
      obtain ⟨hchain, hmem⟩ := h.chain_apart he
      rw [hchain]
      exact ⟨hsame hmem, rfl⟩
  | twins =>
      have hmasked : t.parent? tw.bottom = some tw.home := congrArg some h.falls
      have hchild : s.parent? tw.child = some tw.home := congrArg some h.parent
      obtain ⟨hwalk, hmem⟩ := h.walk_apart h.home (s.environmentCount + 1)
      rw [Store.chain, Store.chain, h.environmentCount, Store.walk_of_some _ hmasked,
        Store.walk_of_some _ hchild, hwalk]
      exact ⟨.cons .twins (hsame hmem), rfl⟩

theorem known_apart (h : tw.Related back t s) (he : tw.Apart e) :
    t.known e = s.known e ∧ tw.Apart (s.known e) := by
  refine ⟨by cases e <;> simp only [Store.known, h.scopeCount, h.maskCount], ?_⟩
  cases e with
  | empty => exact he
  | scope i =>
      simp only [Store.known]
      split
      · exact he
      · exact apart_empty
  | bottom m =>
      simp only [Store.known]
      split
      · exact he
      · exact apart_empty

theorem known_pairs (h : tw.Related back t s) (hxy : tw.Pairs x y) :
    tw.Pairs (t.known x) (s.known y) := by
  cases hxy with
  | twins =>
      have hbottom : t.known tw.bottom = tw.bottom :=
        Store.known_eq_bottom.mpr (h.maskCount ▸ h.exists_mask)
      have hchild : s.known tw.child = tw.child := Store.known_eq_scope.mpr h.exists_child
      rw [hbottom, hchild]
      exact .twins
  | same he =>
      obtain ⟨hknown, hapart⟩ := h.known_apart he
      rw [hknown]
      exact .same hapart

/-! ## Changes -/

theorem failure (h : tw.Related back t s) (incident : Incident) :
    tw.Related back { t with failures := t.failures.push incident }
      { s with failures := s.failures.push incident } :=
  { h with failures := congrArg (·.push incident) h.failures }

theorem log (h : tw.Related back t s) (a b : Array LogRecord) :
    tw.Related back { t with log := a } { s with log := b } := { h with }

theorem history (h : tw.Related back t s) (a b : List Event) :
    tw.Related back { t with history := a } { s with history := b } := { h with }

theorem write (h : tw.Related back t s) (out err : String → String) :
    tw.Related back { t with out := out t.out, err := err t.err }
      { s with out := out s.out, err := err s.err } :=
  { h with
    out := congrArg out h.out
    err := congrArg err h.err }

theorem freshId (h : tw.Related back t s) :
    tw.Related back { t with nextId := t.nextId + 1 } { s with nextId := s.nextId + 1 } :=
  { h with nextId := congrArg (· + 1) h.nextId }

theorem setPromise (h : tw.Related back t s) (p : PromiseId) {f : Promise → Promise}
    (hf : ∀ p q : Promise, p.Pairs tw.Pairs q → (f p).Pairs tw.Pairs (f q)) :
    tw.Related back (t.setPromise p f) (s.setPromise p f) := {
  h with
  promiseCount := by simp only [Store.setPromise, Array.size_modify, h.promiseCount]
  promise := fun q => by
    rw [Store.promise_setPromise, Store.promise_setPromise, h.promiseCount]
    split
    · exact hf _ _ (h.promise q)
    · exact h.promise q }

theorem addPromise (h : tw.Related back t s) (hxy : tw.Pairs x y) (promise : Promise) :
    tw.Related back (t.addPromise { promise with env := some x })
      (s.addPromise { promise with env := some y }) := by
  have hpushed : tw.Related back
      { t with promises := t.promises.push { promise with env := some (t.known x) } }
      { s with promises := s.promises.push { promise with env := some (s.known y) } } := {
    h with
    promiseCount := by simp only [Array.size_push, h.promiseCount]
    promise := fun q => by
      simp only [Store.promise, getD_push, h.promiseCount]
      split
      · exact ⟨rfl, .some (h.known_pairs hxy), rfl, rfl, rfl⟩
      · exact h.promise q }
  exact hpushed.history _ _

theorem setClosure (h : tw.Related back t s) (c : ClosureId) (f : Closure → Closure) :
    tw.Related back (t.setClosure c f) (s.setClosure c f) :=
  { h with closures := congrArg (·.modify c.index f) h.closures }

/-- Scopes and masks that are apart from the twins are changed alike. -/
theorem setVars_apart (h : tw.Related back t s) (he : tw.Apart e)
    (f : Bindings Value → Bindings Value) :
    tw.Related back (t.setVars e f) (s.setVars e f) := by
  cases e with
  | empty => exact h
  | scope i =>
      have hi := apart_scope he
      have hchild (u : Store) : (u.setVars (.scope i) f).scope tw.scope = u.scope tw.scope := by
        rw [Store.setVars, Store.scope_setScope, if_neg fun hij => hi hij.1.symm]
      exact {
        h with
        scopeCount := by simp only [Store.setVars, Store.setScope, Array.size_modify, h.scopeCount]
        scope := fun j hj => by
          simp only [Store.setVars, Store.scope_setScope, h.scopeCount, h.scope j hj]
        scopeName := by rw [hchild, hchild, h.scopeName]
        bound := fun name hname => by rw [hchild]; exact h.bound name hname
        exists_child := by
          simpa only [Store.setVars, Store.setScope, Array.size_modify] using h.exists_child
        parent := by rw [hchild, h.parent]
        parents := fun j hj => by
          simp only [Store.setVars, Store.scope_setScope]
          split <;> exact h.parents j hj }
  | bottom m =>
      have hm := apart_bottom he
      have hmask (u : Store) : (u.setVars (.bottom m) f).mask tw.mask = u.mask tw.mask := by
        rw [Store.setVars, Store.mask_setMask,
          if_neg fun hij => hm (congrArg MaskId.mk hij.1.symm)]
      exact {
        h with
        maskCount := by simp only [Store.setVars, Store.setMask, Array.size_modify, h.maskCount]
        mask := fun k hk => by
          simp only [Store.setVars, Store.mask_setMask, h.maskCount, h.mask k hk]
        sources := by rw [hmask, h.sources]
        sources_eq := by rw [hmask, h.sources_eq]
        bound := fun name hname => by rw [hmask]; exact h.bound name hname
        exists_mask := by
          simpa only [Store.setVars, Store.setMask, Array.size_modify] using h.exists_mask
        falls := by rw [hmask, h.falls]
        homes := fun k hk => by
          simp only [Store.setVars, Store.mask_setMask]
          split <;> exact h.homes k hk
        shown := fun k e hmem => by
          simp only [Store.setVars, Store.mask_setMask] at hmem
          split at hmem <;> exact h.shown k e hmem }

/-- A name is bound under the mask and in the child. -/
theorem setVars_twins (h : tw.Related back t s) (name : String) (v : Value) :
    tw.Related back (t.setVars tw.bottom (·.set name v)) (s.setVars tw.child (·.set name v)) := by
  have hmask (m : MaskId) : (t.setVars tw.bottom (·.set name v)).mask m =
      if m = tw.mask then { t.mask m with vars := (t.mask m).vars.set name v } else t.mask m := by
    rw [bottom, Store.setVars, Store.mask_setMask]
    refine if_congr ⟨fun hm => congrArg MaskId.mk hm.1, fun hm => ⟨congrArg _ hm, ?_⟩⟩ rfl rfl
    exact h.maskCount ▸ h.exists_mask
  have hscope (i : Nat) : (s.setVars tw.child (·.set name v)).scope i =
      if i = tw.scope then { s.scope i with vars := (s.scope i).vars.set name v }
      else s.scope i := by
    rw [child, Store.setVars, Store.scope_setScope]
    exact if_congr (and_iff_left h.exists_child) rfl rfl
  exact {
    h with
    scopeCount := by
      simpa only [child, bottom, Store.setVars, Store.setScope, Store.setMask, Array.size_modify]
        using h.scopeCount
    scope := fun i hi => by rw [hscope, if_neg hi]; exact h.scope i hi
    scopeName := by rw [hscope, if_pos rfl]; exact h.scopeName
    maskCount := by
      simpa only [child, bottom, Store.setVars, Store.setScope, Store.setMask, Array.size_modify]
        using h.maskCount
    mask := fun m hm => by rw [hmask, if_neg hm]; exact h.mask m hm
    sources := by rw [hmask, if_pos rfl]; exact h.sources
    bound := fun other hother => by
      rw [hmask, hscope, if_pos rfl, if_pos rfl]
      by_cases hname : other = name
      · subst hname
        simp only [Bindings.get?_set_self, Option.some_or]
      · simp only [Bindings.get?_set_of_ne _ _ hname]
        exact h.bound other hother
    exists_child := by
      simpa only [child, Store.setVars, Store.setScope, Array.size_modify] using h.exists_child
    parent := by rw [hscope, if_pos rfl]; exact h.parent
    falls := by rw [hmask, if_pos rfl]; exact h.falls
    parents := fun i hi => by rw [hscope, if_neg hi]; exact h.parents i hi }

theorem setVars (h : tw.Related back t s) (hxy : tw.Pairs x y) (name : String) (v : Value) :
    tw.Related back (t.setVars x (·.set name v)) (s.setVars y (·.set name v)) := by
  cases hxy with
  | twins => exact h.setVars_twins name v
  | same he => exact h.setVars_apart he _

/-- A mask is made over data, but over no environment. -/
theorem addMask (h : tw.Related back t s) {mask : Mask} (hhome : tw.Apart mask.home)
    (hsources : ∀ e, DataScope.env e ∉ mask.scopes) :
    tw.Related back (t.addMask mask) (s.addMask mask) := by
  have htwin : tw.mask.index ≠ s.masks.size := Nat.ne_of_lt h.exists_mask
  have hold (u : Store) (hu : u.masks.size = s.masks.size) :
      (u.addMask mask).mask tw.mask = u.mask tw.mask := by
    rw [Store.mask_addMask, hu, if_neg htwin]
  obtain ⟨hknown, hapart⟩ := h.known_apart hhome
  exact {
    h with
    maskCount := by simp only [Store.addMask, Array.size_push, h.maskCount]
    mask := fun m hm => by
      simp only [Store.mask_addMask, h.maskCount, hknown, h.mask m hm]
    sources := by rw [hold t h.maskCount, h.sources]
    sources_eq := by rw [hold s rfl, h.sources_eq]
    bound := fun name hname => by rw [hold t h.maskCount]; exact h.bound name hname
    exists_mask := by
      simp only [Store.addMask, Array.size_push]
      exact Nat.lt_succ_of_lt h.exists_mask
    falls := by rw [hold t h.maskCount, h.falls]
    homes := fun m hm => by
      rw [Store.mask_addMask]
      split
      · exact hapart
      · exact h.homes m hm
    shown := fun m e hmem => by
      rw [Store.mask_addMask] at hmem
      split at hmem
      · exact absurd hmem (hsources e)
      · exact h.shown m e hmem }

/-- Targets are pushed and popped alike. -/
theorem setTargets (h : tw.Related back t s) (ctx : EvaluatorId)
    {f g : List EnvId → List EnvId}
    (hfg : ∀ xs ys, List.Forall₂ tw.Targets xs ys → List.Forall₂ tw.Targets (f xs) (g ys)) :
    tw.Related back (t.setEvaluator ctx fun e => { e with targets := f e.targets })
      (s.setEvaluator ctx fun e => { e with targets := g e.targets }) := by
  exact {
    h with
    evaluatorCount := by simp only [Store.setEvaluator, Array.size_modify, h.evaluatorCount]
    evaluator := fun c => by
      simp only [Store.evaluator_setEvaluator, h.evaluatorCount]
      split
      · rw [h.evaluator ctx]
      · exact h.evaluator c
    targets := fun c => by
      simp only [Store.evaluator_setEvaluator, h.evaluatorCount]
      split
      · exact hfg _ _ (h.targets ctx)
      · exact h.targets c }

end Related

end Twin

end Quasi
