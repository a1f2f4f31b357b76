import Quasi.Proofs.Flow.Basic

/-!
# Runs that agree

One run agrees with another if, from stores that are related, it ends in the same way in stores that
are related again, wherever the other run ends. Of a run that is lost in a search nothing is said,
so that such a run can stand for what a specification does not cover.
-/

namespace Quasi

namespace Run

variable {α β : Type} {Q : Store → Store → Prop}

/-- How a run ends as another one does. -/
inductive Matches (Q : Store → Store → Prop) :
    EStateM.Result Interrupt Store α → EStateM.Result Interrupt Store α → Prop where
  | value {v : α} {t t' : Store} (h : Q t t') : Matches Q (.ok v t) (.ok v t')
  | signal {x : Signal} {t t' : Store} (h : Q t t') :
      Matches Q (.error x.interrupt t) (.error x.interrupt t')
  | endless {result : EStateM.Result Interrupt Store α} {t' : Store} :
      Matches Q result (.error .endless t')

/-- From related stores, the first run ends as the second one does. -/
def Agrees (Q : Store → Store → Prop) (a b : Run α) : Prop :=
  ∀ s s', Q s s' → Matches Q (a s) (b s')

/-- A run that does the same in related stores. -/
class Respects (Q : Store → Store → Prop) (a : Run α) : Prop where
  agrees : Agrees Q a a

namespace Matches

variable {x y : EStateM.Result Interrupt Store α} {v : α} {t' : Store}

theorem mono {P : Store → Store → Prop} (h : Matches Q x y) (hP : ∀ t t', Q t t' → P t t') :
    Matches P x y := by
  cases h with
  | value h => exact .value (hP _ _ h)
  | signal h => exact .signal (hP _ _ h)
  | endless => exact .endless

theorem of_value (h : Matches Q x (.ok v t')) : ∃ t, x = .ok v t ∧ Q t t' := by
  generalize hy : EStateM.Result.ok v t' = y at h
  cases h with
  | value h => cases hy; exact ⟨_, rfl, h⟩
  | signal h => cases hy
  | endless => cases hy

theorem bind {a b : Run α} {f g : α → Run β} {s s' : Store} (h : Matches Q (a s) (b s'))
    (hf : ∀ v t t', Q t t' → Matches Q (f v t) (g v t')) :
    Matches Q ((a >>= f) s) ((b >>= g) s') := by
  simp only [Bind.bind, EStateM.bind]
  generalize a s = x, b s' = y at h
  cases h with
  | value h => exact hf _ _ _ h
  | signal h => exact .signal h
  | endless => exact .endless

theorem attempt {a b : Run α} {s s' : Store} (h : Matches Q (a s) (b s')) :
    Matches Q (Run.attempt a s) (Run.attempt b s') := by
  unfold Run.attempt
  generalize a s = x, b s' = y at h
  cases h with
  | value h => exact .value h
  | @signal signal _ _ h => cases signal <;> exact .value h
  | endless => exact .endless

end Matches

namespace Agrees

variable {a b : Run α} {f g : α → Run β}

theorem pure (v : α) : Agrees Q (Pure.pure v) (Pure.pure v : Run α) := fun _ _ h => .value h

theorem raise (x : Signal) : Agrees Q (Run.raise x) (Run.raise x : Run α) := fun _ _ h => .signal h

theorem endless : Agrees Q a (throw .endless) := fun _ _ _ => .endless

theorem bind (h : Agrees Q a b) (hf : ∀ v, Agrees Q (f v) (g v)) :
    Agrees Q (a >>= f) (b >>= g) :=
  fun s s' hs => (h s s' hs).bind fun v t t' ht => hf v t t' ht

/-- What follows may depend on what the first run came to. -/
theorem bind_of (h : Agrees Q a b) (hf : ∀ v s t s' t', Q s s' → a s = .ok v t → b s' = .ok v t' →
    Q t t' → Matches Q (f v t) (g v t')) : Agrees Q (a >>= f) (b >>= g) := by
  intro s s' hs
  have hmatch := h s s' hs
  simp only [Bind.bind, EStateM.bind]
  generalize hx : a s = x, hy : b s' = y at hmatch
  cases hmatch with
  | value ht => exact hf _ s _ s' _ hs hx hy ht
  | signal ht => exact .signal ht
  | endless => exact .endless

/-- Both runs read their stores first. -/
theorem get_bind {f g : Store → Run β} (h : ∀ s s', Q s s' → Agrees Q (f s) (g s')) :
    Agrees Q (get >>= f) (get >>= g) :=
  fun s s' hs => h s s' hs s s' hs

theorem attempt (h : Agrees Q a b) : Agrees Q (Run.attempt a) (Run.attempt b) :=
  fun s s' hs => (h s s' hs).attempt

theorem resume (outcome : Except Signal α) :
    Agrees Q (Run.resume outcome) (Run.resume outcome) := by
  cases outcome with
  | ok v => exact .pure v
  | error x => exact .raise x

end Agrees

/-- Runs that are followed by others may end in stores that are related in another way. -/
theorem Matches.andFinally {P : Store → Store → Prop} {a b : Run α} {last last' : Run Unit}
    {s s' : Store} (h : Matches P (a s) (b s'))
    (hlast : ∀ t t', P t t' → Matches Q (last t) (last' t')) :
    Matches Q (Run.andFinally a last s) (Run.andFinally b last' s') := by
  have hattempt := h.attempt
  unfold Run.andFinally
  generalize hx : Run.attempt a s = x, hy : Run.attempt b s' = y at hattempt
  cases hattempt with
  | value h =>
      rw [bind_of_ok hx, bind_of_ok hy]
      exact (hlast _ _ h).bind fun _ => Agrees.resume _
  | @signal signal _ _ _ => exact (interrupt_ne_endless signal (attempt_eq_error hx).1).elim
  | endless =>
      simp only [Bind.bind, EStateM.bind, hy]
      exact .endless

/-! ## Runs that respect a relation -/

namespace Respects

variable {a : Run α}

/-- A run that has a value in every store. -/
theorem of_value {g : Store → Store} {v : Store → α} (ha : ∀ s, a s = .ok (v s) (g s))
    (hv : ∀ s s', Q s s' → v s = v s') (hg : ∀ s s', Q s s' → Q (g s) (g s')) : Respects Q a where
  agrees s s' hs := by
    rw [ha s, ha s', hv s s' hs]
    exact .value (hg s s' hs)

theorem of_modify {g : Store → Store} (hg : ∀ s s', Q s s' → Q (g s) (g s')) :
    Respects Q (modify g : Run PUnit) :=
  of_value (v := fun _ => ⟨⟩) (g := g) (fun _ => rfl) (fun _ _ _ => rfl) hg

/-- A run that reads the store in a way that related stores do not tell apart. -/
theorem get_bind {f : Store → Run α} (hf : ∀ s s', Q s s' → f s = f s')
    (h : ∀ s, Respects Q (f s)) : Respects Q (get >>= f) where
  agrees := .get_bind fun s s' hs => hf s s' hs ▸ (h s).agrees

theorem andThen {f : α → Run β} [ha : Respects Q a] (hf : ∀ v, Respects Q (f v)) :
    Respects Q (a >>= f) := ⟨ha.agrees.bind fun v => (hf v).agrees⟩

instance (v : α) : Respects Q (pure v : Run α) := ⟨.pure v⟩

instance (x : Signal) : Respects Q (raise x : Run α) := ⟨.raise x⟩

instance (a : Run α) (f : α → Run β) [Respects Q a] [∀ v, Respects Q (f v)] :
    Respects Q (a >>= f) := andThen inferInstance

instance (c : Prop) [Decidable c] (a b : Run α) [Respects Q a] [Respects Q b] :
    Respects Q (if c then a else b) := by
  split <;> infer_instance

end Respects

end Run

end Quasi
