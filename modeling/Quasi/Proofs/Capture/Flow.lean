import Quasi.Proofs.Capture.Faithful
import Quasi.Proofs.Flow.Bracket

/-!
# The flow of captured code

Whatever a run does, code is taken up with the environment it was kept with. Only what is made anew
is captured, and only what is settled gives its environment up.
-/

namespace Quasi

namespace Store

variable {s : Store}

/-! ## New promises -/

theorem retains_addPromise (s : Store) (p : Promise) : s.Retains (s.addPromise p) where
  has holder h := by
    cases holder with
    | promise q => exact Nat.lt_of_lt_of_le h (by rw [size_addPromise]; omega)
    | closure c => simpa [Has, addPromise, capture_eq] using h
  env holder h e he := by
    cases holder with
    | promise q =>
        have hne : q.index ≠ s.promises.size := Nat.ne_of_lt h
        simp only [envOf?, promise_addPromise, if_neg hne] at he
        exact he
    | closure c => simpa [envOf?, closure, addPromise, capture_eq] using he
  elder := by
    simp only [addPromise, capture_eq]
    exact .refl _

theorem has_addPromise {p : Promise} {holder : Holder} (h : (s.addPromise p).Has holder) :
    holder = .promise ⟨s.promises.size⟩ ∨ s.Has holder := by
  cases holder with
  | promise q =>
      simp only [Has, size_addPromise] at h
      rcases Nat.lt_succ_iff_lt_or_eq.mp h with h | h
      · exact .inr h
      · exact .inl (congrArg (fun i => Holder.promise ⟨i⟩) h)
  | closure c => exact .inr (by simpa [Has, addPromise, capture_eq] using h)

theorem Faithful.addPromise (hs : s.Faithful) (p : Promise) : (s.addPromise p).Faithful := by
  have hretains := retains_addPromise s p
  have hnew : (s.addPromise p).envOf? (.promise ⟨s.promises.size⟩) = p.env.map s.known := by
    simp only [envOf?, promise_addPromise, if_pos]
  cases henv : p.env with
  | none =>
      refine hs.of_retains hretains ?_ (by simp [Store.addPromise, henv]; rfl)
      intro holder e h he
      rcases has_addPromise h with rfl | h
      · simp [hnew, henv] at he
      · exact h
  | some e =>
      rw [henv] at hnew
      refine hs.of_captured hretains ?_ hnew (fun other e' h _ => has_addPromise h)
        (by simp [Store.addPromise, henv]; rfl)
      simp [Has, size_addPromise]

/-! ## New closures -/

theorem retains_addClosure (s : Store) (c : Closure) : s.Retains (s.addClosure c) where
  has holder h := by
    cases holder with
    | promise p => exact h
    | closure d => exact Nat.lt_of_lt_of_le h (by simp [addClosure, capture, record])
  env holder h e he := by
    cases holder with
    | promise p => exact he
    | closure d =>
        have hne : d.index ≠ s.closures.size := Nat.ne_of_lt h
        simp only [envOf?, closure_addClosure, if_neg hne] at he
        exact he
  elder := .refl _

theorem has_addClosure {c : Closure} {holder : Holder} (h : (s.addClosure c).Has holder) :
    holder = .closure ⟨s.closures.size⟩ ∨ s.Has holder := by
  cases holder with
  | promise p => exact .inr h
  | closure d =>
      simp only [Has, addClosure, capture, record, Array.size_push] at h
      rcases Nat.lt_succ_iff_lt_or_eq.mp h with h | h
      · exact .inr h
      · exact .inl (congrArg (fun i => Holder.closure ⟨i⟩) h)

theorem Faithful.addClosure (hs : s.Faithful) (c : Closure) : (s.addClosure c).Faithful := by
  refine hs.of_captured (retains_addClosure s c) ?_ ?_ (fun other e' h _ => has_addClosure h) rfl
  · simp [Has, Store.addClosure, capture, record]
  · simp only [envOf?, closure_addClosure, if_pos]

/-! ## Changes of promises, closures and masks -/

/-- A promise changes that gets no environment it did not have. -/
theorem Faithful.setPromise (hs : s.Faithful) (p : PromiseId) {f : Promise → Promise}
    (hf : ∀ promise e, (f promise).env = some e → promise.env = some e) :
    (s.setPromise p f).Faithful := by
  have hhas (holder : Holder) : (s.setPromise p f).Has holder ↔ s.Has holder := by
    cases holder <;> simp [Has, Store.setPromise]
  refine hs.of_retains ⟨fun h => (hhas h).mpr, ?_, .refl _⟩
    (fun h e hh _ => (hhas h).mp hh) rfl
  intro holder _ e he
  cases holder with
  | promise q =>
      simp only [envOf?, promise_setPromise] at he
      split at he
      · exact hf _ e he
      · exact he
  | closure c => exact he

theorem Faithful.setClosure (hs : s.Faithful) (c : ClosureId) {f : Closure → Closure}
    (hf : ∀ closure, (f closure).env = closure.env) : (s.setClosure c f).Faithful := by
  have hhas (holder : Holder) : (s.setClosure c f).Has holder ↔ s.Has holder := by
    cases holder <;> simp [Has, Store.setClosure]
  refine hs.of_retains ⟨fun h => (hhas h).mpr, ?_, .refl _⟩
    (fun h e hh _ => (hhas h).mp hh) rfl
  intro holder _ e he
  cases holder with
  | promise q => exact he
  | closure d =>
      simp only [envOf?, closure_setClosure] at he ⊢
      split at he
      · rwa [hf] at he
      · exact he

theorem Faithful.setMask (hs : s.Faithful) (m : MaskId) {f : Mask → Mask}
    (hf : ∀ mask, (f mask).scopes = mask.scopes) : (s.setMask m f).Faithful :=
  hs.of_elder rfl rfl (.modify s.masks m.index hf) rfl

theorem Faithful.record (hs : s.Faithful) (event : Event) (h : event.isOfCode = false) :
    (s.record event).Faithful :=
  hs.of_elder rfl rfl (.refl _) (by simp [codeEvents, Store.record, h])

end Store

/-- Code is used with the environment it was captured with, in runs that are lost as well. -/
def Flow.captures : Flow where
  Keeps s t := s.Faithful → t.Faithful
  Lost s t := s.Faithful → t.Faithful
  refl _ := id
  trans h h' hs := h' (h hs)
  lost_trans h h' hs := h' (h hs)
  astray _ := id
  aside h hs := hs.of_elder h.promises h.closures (h.masks ▸ .refl _)
    (by simp only [Store.codeEvents, h.history])
  failure _ _ hs := hs.of_elder rfl rfl (.refl _) rfl
  noted _ _ _ _ _ hs := hs.of_elder rfl rfl (.refl _) rfl
  scope _ _ hs := hs.of_elder rfl rfl (.refl _) rfl
  mask s _ hs := hs.of_elder rfl rfl (.push s.masks _) rfl
  promise _ p _ hs := hs.addPromise p
  closure _ c hs := hs.addClosure c
  used _ _ hs := hs.use fun _ => rfl
  evaluator _ _ _ hs := hs.of_elder rfl rfl (.refl _) rfl
  vars _ e _ hs := by
    cases e with
    | empty => exact hs
    | scope i => exact hs.of_elder rfl rfl (.refl _) rfl
    | bottom m => exact hs.setMask m fun _ => rfl
  closureName _ c _ hs := hs.setClosure c fun _ => rfl
  registered _ _ _ _ hs := hs.of_elder rfl rfl (.refl _) rfl

namespace Flow

instance : Flow.captures.Rechains where
  rechain s m home hs :=
    (hs.setMask m (f := fun mask => { mask with home := s.known home }) fun _ => rfl).record _ rfl

instance : Flow.captures.Forces where
  begin s p hs := by
    have hbegun := (hs.setPromise p (f := fun promise => { promise with progress := .forcing })
      fun _ _ h => h).record (.begun p) rfl
    cases henv : (s.promise p).env with
    | none => simpa only [Store.begin, henv, Store.use] using hbegun
    | some e =>
        simp only [Store.begin, henv]
        apply hbegun.use
        intro _
        apply (congrArg Promise.env (s.promise_setPromise p _ p)).trans
        split <;> exact henv
  abandon _ p _ hs := (hs.setPromise p (f := fun promise =>
    { promise with progress := .interrupted }) fun _ _ h => h).record _ rfl
  settle _ p progress hs := (hs.setPromise p (f := fun promise =>
    { promise with progress := progress, env := none }) fun _ _ h => by cases h).record _ rfl

instance : Flow.captures.Stacks where
  evaluator _ _ _ hs := hs.of_elder rfl rfl (.refl _) rfl
  event _ event h hs := hs.record event (by
    cases event <;> first | rfl | simp [ofStack] at h)

instance : Flow.captures.Closed := .of_changes

end Flow

end Quasi
