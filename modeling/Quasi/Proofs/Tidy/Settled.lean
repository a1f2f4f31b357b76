import Quasi.Proofs.Tidy.Primitive
import Quasi.Proofs.Tidy.Stands

/-!
# Runs that settle

A run settles if it comes to an end, whether with a value or by a signal, and leaves all bindings as
they are. It may make promises and masks, and force promises among some that are named.
-/

namespace Quasi

namespace Store

/-- Two stores with the same bindings. Of the promises of the first one only some have changed. -/
structure Calm (A : PromiseId → Prop) (s t : Store) : Prop where
  scopes : t.scopes = s.scopes
  masks : s.masks.size ≤ t.masks.size
  vars (m : MaskId) : m.index < s.masks.size → (t.mask m).vars = (s.mask m).vars
  sources (m : MaskId) : m.index < s.masks.size → (t.mask m).scopes = (s.mask m).scopes
  promises : s.promises.size ≤ t.promises.size
  promise (p : PromiseId) : p.index < s.promises.size → ¬A p → t.promise p = s.promise p

namespace Calm

variable {A B : PromiseId → Prop} {s t u : Store}

theorem refl (s : Store) : s.Calm A s :=
  ⟨rfl, Nat.le_refl _, fun _ _ => rfl, fun _ _ => rfl, Nat.le_refl _, fun _ _ _ => rfl⟩

theorem trans (h : s.Calm A t) (h' : t.Calm A u) : s.Calm A u where
  scopes := h'.scopes.trans h.scopes
  masks := Nat.le_trans h.masks h'.masks
  vars m hm := (h'.vars m (Nat.lt_of_lt_of_le hm h.masks)).trans (h.vars m hm)
  sources m hm := (h'.sources m (Nat.lt_of_lt_of_le hm h.masks)).trans (h.sources m hm)
  promises := Nat.le_trans h.promises h'.promises
  promise p hp hA :=
    (h'.promise p (Nat.lt_of_lt_of_le hp h.promises) hA).trans (h.promise p hp hA)

theorem mono (h : s.Calm A t) (hAB : ∀ p : PromiseId, p.index < s.promises.size → A p → B p) :
    s.Calm B t where
  scopes := h.scopes
  masks := h.masks
  vars := h.vars
  sources := h.sources
  promises := h.promises
  promise p hp hB := h.promise p hp fun hA => hB (hAB p hp hA)

theorem of_eq (hscopes : t.scopes = s.scopes) (hmasks : t.masks = s.masks)
    (hpromises : t.promises = s.promises) : s.Calm A t where
  scopes := hscopes
  masks := Nat.le_of_eq (congrArg Array.size hmasks.symm)
  vars _ _ := by simp only [Store.mask, hmasks]
  sources _ _ := by simp only [Store.mask, hmasks]
  promises := Nat.le_of_eq (congrArg Array.size hpromises.symm)
  promise _ _ _ := by simp only [Store.promise, hpromises]

theorem rechain (s : Store) (m : MaskId) (home : EnvId) : s.Calm A (s.rechain m home) where
  scopes := rfl
  masks := Nat.le_of_eq (Store.size_masks_rechain s m home).symm
  vars k _ := by
    rw [Store.mask_rechain]
    split <;> rfl
  sources k _ := by
    rw [Store.mask_rechain]
    split <;> rfl
  promises := Nat.le_refl _
  promise _ _ _ := rfl

theorem fixed (h : s.Calm A t) : FixedStep s t where
  scopes := Nat.le_of_eq (congrArg Array.size h.scopes.symm)
  masks := h.masks
  parent i _ := by simp only [Store.scope, h.scopes]
  sources := h.sources

theorem slot?_scope (h : s.Calm A t) (i : Nat) (name : String) :
    t.slot? (.scope i) name = s.slot? (.scope i) name := by
  simp only [Store.slot?, Store.scope, h.scopes]

theorem maskSlot? (h : s.Calm A t) (k : Nat) (hk : k < s.masks.size) (name : String) :
    t.maskSlot? k name = s.maskSlot? k name := by
  have hscope : t.scope = s.scope := by
    funext i
    simp only [Store.scope, h.scopes]
  exact maskSlot?_congr hscope (fun m hm => h.vars m (Nat.lt_of_le_of_lt hm hk))
    (fun m hm => h.sources m (Nat.lt_of_le_of_lt hm hk)) name

end Calm

end Store

namespace Run

variable {α β : Type} {A : PromiseId → Prop} {P : α → Prop} {R : β → Prop} {s : Store}

/-- A run comes to an end in a store with the same bindings, and what value it has satisfies `P`. -/
def Settles (A : PromiseId → Prop) (P : α → Prop) (s : Store) (a : Run α) : Prop :=
  ∃ t, s.Calm A t ∧ ((∃ v, a s = .ok v t ∧ P v) ∨ ∃ x : Signal, a s = .error x.interrupt t)

namespace Settles

variable {a : Run α} {f : α → Run β}

theorem of_ok {v : α} {t : Store} (h : a s = .ok v t) (ht : s.Calm A t) (hv : P v) :
    Settles A P s a := ⟨t, ht, .inl ⟨v, h, hv⟩⟩

theorem pure {v : α} (hv : P v) : Settles A P s (Pure.pure v) := .of_ok rfl (.refl s) hv

theorem raise (x : Signal) : Settles A P s (Run.raise x : Run α) := ⟨s, .refl s, .inr ⟨x, rfl⟩⟩

theorem endsIn (h : Settles A P s a) : ∃ t, a.EndsIn s t := by
  obtain ⟨t, -, ⟨v, hv, -⟩ | ⟨x, hx⟩⟩ := h
  · exact ⟨t, .value v hv⟩
  · exact ⟨t, .signal x hx⟩

theorem mono {B : PromiseId → Prop} {Q : α → Prop} (h : Settles A P s a)
    (hAB : ∀ p : PromiseId, p.index < s.promises.size → A p → B p) (hPQ : ∀ v, P v → Q v) :
    Settles B Q s a := by
  obtain ⟨t, ht, ⟨v, hv, hP⟩ | ⟨x, hx⟩⟩ := h
  · exact .of_ok hv (ht.mono hAB) (hPQ v hP)
  · exact ⟨t, ht.mono hAB, .inr ⟨x, hx⟩⟩

theorem bind_ok {v : α} {t : Store} (h : a s = .ok v t) (ht : s.Calm A t)
    (hf : Settles A R t (f v)) : Settles A R s (a >>= f) := by
  obtain ⟨u, hu, hend⟩ := hf
  exact ⟨u, ht.trans hu, by rw [Run.bind_of_ok h]; exact hend⟩

theorem bind_mono {B : PromiseId → Prop} (h : Settles B P s a)
    (hBA : ∀ p : PromiseId, p.index < s.promises.size → B p → A p)
    (hf : ∀ v t, P v → s.Calm B t → Settles A R t (f v)) : Settles A R s (a >>= f) := by
  obtain ⟨t, ht, ⟨v, hv, hP⟩ | ⟨x, hx⟩⟩ := h
  · exact bind_ok hv (ht.mono hBA) (hf v t hP ht)
  · exact ⟨t, ht.mono hBA, .inr ⟨x, Run.bind_of_error hx⟩⟩

theorem bind (h : Settles A P s a) (hf : ∀ v t, P v → s.Calm A t → Settles A R t (f v)) :
    Settles A R s (a >>= f) := h.bind_mono (fun _ _ hA => hA) hf

theorem get {f : Store → Run β} (h : Settles A R s (f s)) :
    Settles A R s (MonadState.get >>= f) := h

/-- Both a value and a signal are handed on. -/
theorem attempt (h : Settles A P s a) :
    Settles A (fun r : Except Signal α => ∀ v, r = .ok v → P v) s (Run.attempt a) := by
  obtain ⟨t, ht, ⟨v, hv, hP⟩ | ⟨x, hx⟩⟩ := h
  · refine .of_ok (v := .ok v) ?_ ht fun w hw => by cases hw; exact hP
    simp only [Run.attempt, hv]
  · refine .of_ok (v := .error x) ?_ ht fun w hw => by cases hw
    cases x <;> simp only [Run.attempt, hx, Signal.interrupt]

theorem resume {r : Except Signal α} (h : ∀ v, r = .ok v → P v) :
    Settles A P s (Run.resume r) := by
  cases r with
  | ok v => exact .pure (h v rfl)
  | error x => exact .raise x

end Settles

/-- A run that settles and changes no promise. -/
abbrev Finishes (s : Store) (a : Run α) : Prop := Settles (fun _ => False) (fun _ => True) s a

theorem Settles.of_finishes {a : Run α} (h : Finishes s a) : Settles A (fun _ => True) s a :=
  h.mono (fun _ _ hp => hp.elim) fun _ _ => trivial

/-- A run that finishes in every store. -/
class Steady (a : Run α) : Prop where
  finishes (s : Store) : Finishes s a

namespace Steady

theorem settles (a : Run α) [h : Steady a] (s : Store) : Settles A (fun _ => True) s a :=
  .of_finishes (h.finishes s)

theorem of_ok {a : Run α} {v : Store → α} {g : Store → Store} (h : ∀ s, a s = .ok (v s) (g s))
    (hg : ∀ s : Store, s.Calm (fun _ => False) (g s)) : Steady a :=
  ⟨fun s => .of_ok (h s) (hg s) trivial⟩

theorem andThen {a : Run α} {f : α → Run β} [ha : Steady a] (hf : ∀ v, Steady (f v)) :
    Steady (a >>= f) := ⟨fun s => (ha.finishes s).bind fun v t _ _ => (hf v).finishes t⟩

instance (v : α) : Steady (pure v : Run α) := ⟨fun _ => .pure trivial⟩

instance : Steady (get : Run Store) := .of_ok (fun _ => rfl) .refl

instance (x : Signal) : Steady (raise x : Run α) := ⟨fun _ => .raise x⟩

instance (a : Run α) (f : α → Run β) [Steady a] [∀ v, Steady (f v)] : Steady (a >>= f) :=
  andThen inferInstance

/-! ## Steps -/

instance (cause : Cause) (call : Option Expr) : Steady (failWith cause call : Run α) :=
  ⟨fun s => ⟨{ s with failures := s.failures.push ⟨call, none⟩ }, .of_eq rfl rfl rfl,
    .inr ⟨.failure ⟨s.failures.size, cause⟩, rfl⟩⟩⟩

instance (cause : Cause) : Steady (fail cause : Run α) := by unfold fail; infer_instance

instance (fault : ArityFault) : Steady (failArity fault : Run α) := by
  unfold failArity; infer_instance

instance {ε : Type} (toCause : ε → Cause) (r : Except ε α) : Steady (orFail toCause r) := by
  unfold orFail
  split <;> infer_instance

instance (message : Unit → String) : Steady (trace message) where
  finishes s := by
    obtain ⟨log, hlog⟩ := Flow.trace_eq_log message s
    exact .of_ok hlog (.of_eq rfl rfl rfl) trivial

instance : Steady freshId := .of_ok (fun _ => rfl) fun _ => .of_eq rfl rfl rfl

instance (m : MaskId) (home : EnvId) : Steady (rechain m home) where
  finishes s := by
    obtain ⟨log, hlog⟩ := Flow.rechain_eq_log m home s
    exact .of_ok hlog ((Store.Calm.rechain s m home).trans (.of_eq rfl rfl rfl)) trivial

instance (scopes : List DataScope) (home : EnvId) : Steady (newMask scopes home) := by
  refine .of_ok (fun s => rfl) fun s => ?_
  have hmask {m : MaskId} (hm : m.index < s.masks.size) (mask : Mask) :
      (s.addMask mask).mask m = s.mask m := by
    rw [Store.mask_addMask, if_neg (Nat.ne_of_lt hm)]
  exact {
    scopes := rfl
    masks := by simp [Store.addMask]
    vars := fun m hm => congrArg Mask.vars (hmask hm _)
    sources := fun m hm => congrArg Mask.scopes (hmask hm _)
    promises := Nat.le_refl _
    promise := fun _ _ _ => rfl }

end Steady

end Run

/-! ## Primitives -/

open Run (Modest Steady)

/-- A modest run comes to an end, and binds nothing. -/
theorem steady_of_modest {Q : Store → Store → Prop} {α : Type} {a : Run α} (h : Modest Q a) :
    Steady a := by
  induction h with
  | value | failure | signal | identity | mask => infer_instance
  | output => exact .of_ok (fun _ => rfl) fun _ => .of_eq rfl rfl rfl
  | read _ _ ih => exact .andThen ih
  | andThen _ _ ha hf => exact .andThen hf

/-- What evaluates nothing settles. -/
theorem steady_applyPrimitive {fn : Primitive} {args : List Value}
    (h : fn.standsAlone args = true) (m : Machine) (ctx : EvaluatorId) (named : Bindings Value)
    (env : EnvId) : Steady (m.applyPrimitive ctx fn args named env) :=
  steady_of_modest (modest_applyPrimitive Run.shows_eq h (fun _ _ _ => trivial)
    (fun _ _ _ _ _ hs => hs ▸ rfl) (fun _ _ _ _ => trivial) (fun _ => inferInstance) m ctx named
    env)

end Quasi
