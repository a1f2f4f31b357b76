import Quasi.Proofs.Footing.Calls
import Quasi.Proofs.Hidden.Evaluation
import Quasi.Proofs.Unused.Binding

/-!
# Stores in which promises are yet to be made

One evaluation makes promises of arguments and forces them where another one evaluates the arguments
as it comes by them. Set beside a store that has all those promises from the start, the store of the
first evaluation trails behind. It goes on with the promises, and they are hidden: nothing mentions
them.
-/

namespace Quasi

variable {hidden : PromiseId → Prop} {ctx : EvaluatorId} {env : EnvId} {s t u : Store}

namespace Store

/-- What differs in some promises differs in more. -/
theorem HiddenApart.mono {hidden' : PromiseId → Prop} (h : s.HiddenApart hidden t)
    (himp : ∀ p, hidden p → hidden' p) : s.HiddenApart hidden' t :=
  { h with promise := fun p hp => h.promise p fun hp' => hp (himp p hp') }

theorem HiddenApart.traced (h : s.HiddenApart hidden t) (text : String) :
    s.HiddenApart hidden (t.traced text) := by
  unfold Store.traced
  split
  · exact h.detailed text
  · exact h

/-- An environment from which a name stands for a function exists. -/
theorem Calls.known {name : String} {fn : Value} (h : s.Calls env name fn) : s.known env = env := by
  refine Decidable.byContradiction fun hnone => ?_
  have hempty : s.slot? env name = none ∧ s.parent? env = some .empty := by
    cases env with
    | empty => exact absurd rfl hnone
    | scope i =>
        have hscope : s.scope i = default := by
          simp [scope, Array.getD, mt known_eq_scope.mpr hnone]
        exact ⟨by rw [slot?, hscope]; rfl, by rw [parent?, hscope]; rfl⟩
    | bottom m =>
        have hmask : s.mask m = default := by
          simp [mask, Array.getD, mt known_eq_bottom.mpr hnone]
        refine ⟨?_, by rw [parent?, hmask]; rfl⟩
        rw [slot?, maskSlot?, hmask]
        rfl
  rw [Calls, chain, walk_of_some _ hempty.2, walk_of_none _ rfl] at h
  cases h with
  | here hslot | other hslot => rw [hempty.1] at hslot; cases hslot
  | unbound _ h =>
      cases h with
      | here hslot | other hslot => cases hslot
      | unbound _ h => cases h

/-- A name goes on standing for a function if what it is bound to on the way is as it was. -/
theorem Finds.of_ready {name : String} {fn : Value} {envs : List EnvId}
    (hslot : t.slot? = s.slot?)
    (hready : ∀ e v w, s.slot? e name = some v → s.ready? v = some w → t.ready? v = some w)
    (h : s.Finds name fn envs) : t.Finds name fn envs := by
  induction h with
  | here hbound hfound hfn => exact .here (hslot ▸ hbound) (hready _ _ _ hbound hfound) hfn
  | other hbound hfound hother _ ih =>
      exact .other (hslot ▸ hbound) (hready _ _ _ hbound hfound) hother ih
  | unbound hbound _ ih => exact .unbound (hslot ▸ hbound) ih

end Store

namespace Machine

theorem samePlaces_promisedIn (ctx : EvaluatorId) (env : EnvId) (s : Store) (slots : List Slot) :
    s.SamePlaces (promisedIn ctx env s slots) :=
  ⟨scopes_promisedIn ctx env s slots, (promisedIn_grows ctx env s slots).masks⟩

/-- The same promises may be made in both stores. -/
theorem hiddenApart_promisedIn (h : s.HiddenApart hidden t) (slots : List Slot) :
    (promisedIn ctx env s slots).HiddenApart hidden (promisedIn ctx env t slots) := by
  induction slots generalizing s t with
  | nil => exact h
  | cons slot rest ih => exact ih (h.addPromise _)

/-! ## Forcing a promise -/

section Force

variable {p : PromiseId} {e : Expr} {m : Machine} {i : Interrupt} {v : Value}

theorem force_written (h : s.promise p = .written e env ctx) :
    m.force (some ctx) p s = (do
      let outcome ← Run.attempt (m.eval ctx e env)
      conclude p outcome
      Run.resume outcome) ((s.begin p).traced ("forcing promise " ++ e.plain)) := by
  have hbegin : begin p s = .ok ⟨⟩ (s.begin p) := rfl
  have hforce : m.force (some ctx) p s = m.runPromise ctx p s := by
    rw [force, Run.get_bind, h]
    rfl
  rw [hforce, runPromise, Run.get_bind, h, Run.bind_of_ok hbegin,
    Run.bind_of_ok (trace_apply _ _)]
  rfl

/-- Setting a promise on changes that promise only, whatever is noted of it. -/
theorem hiddenApart_setPromise (s : Store) (p : PromiseId) (f : Promise → Promise)
    (hf : ∀ q, (f q).code = q.code) (history : List Event) :
    s.HiddenApart (· = p) { s.setPromise p f with history := history } :=
  have hsame : s.HiddenApart (· = p) s := .refl s
  { hsame.setHidden rfl hf with }

theorem hiddenApart_begin (s : Store) (p : PromiseId) : s.HiddenApart (· = p) (s.begin p) := by
  rw [Store.begin, Store.use_eq]
  exact hiddenApart_setPromise s p (fun promise => { promise with progress := .forcing })
    (fun _ => rfl) _

theorem hiddenApart_conclude (s : Store) (p : PromiseId) (outcome : Except Signal Value) :
    ∃ t, conclude p outcome s = .ok ⟨⟩ t ∧ s.HiddenApart (· = p) t := by
  have hsettle (progress : Progress) : s.HiddenApart (· = p) (s.settle p progress) :=
    hiddenApart_setPromise s p (fun promise => { promise with progress := progress, env := none })
      (fun _ => rfl) _
  have habandon (signal : Signal) : s.HiddenApart (· = p) (s.abandon p signal) :=
    hiddenApart_setPromise s p (fun promise => { promise with progress := .interrupted })
      (fun _ => rfl) _
  rcases outcome with (f | _ | _) | v
  · exact ⟨_, rfl, hsettle _⟩
  · exact ⟨_, rfl, habandon _⟩
  · exact ⟨_, rfl, habandon _⟩
  · exact ⟨_, rfl, hsettle _⟩

/-- Forcing a promise of an expression evaluates the expression, and ends as that does. Of the store
only the promise goes on. -/
theorem exists_force (h : s.promise p = .written e env ctx) : ∃ t, s.HiddenApart (· = p) t ∧
    (∀ v u, m.eval ctx e env t = .ok v u →
      ∃ u', m.force (some ctx) p s = .ok v u' ∧ u.HiddenApart (· = p) u') ∧
    ∀ i u, m.eval ctx e env t = .error i u →
      ∃ u', m.force (some ctx) p s = .error i u' ∧ u.HiddenApart (· = p) u' := by
  let text := "forcing promise " ++ e.plain
  have hruns (r : Except Signal Value) (u : Store)
      (hu : Run.attempt (m.eval ctx e env) ((s.begin p).traced text) = .ok r u) :
      ∃ u', m.force (some ctx) p s = Run.resume r u' ∧ u.HiddenApart (· = p) u' := by
    obtain ⟨u', hu', happart⟩ := hiddenApart_conclude u p r
    exact ⟨u', by rw [force_written h, Run.bind_of_ok hu, Run.bind_of_ok hu'], happart⟩
  refine ⟨_, (hiddenApart_begin s p).traced text, fun v u hu => ?_, fun i u hu => ?_⟩
  · exact hruns (.ok v) u (by rw [Run.attempt, hu])
  · cases i with
    | failure f => exact hruns (.error (.failure f)) u (by rw [Run.attempt, hu])
    | returning v target => exact hruns (.error (.returning v target)) u (by rw [Run.attempt, hu])
    | overflow => exact hruns (.error .overflow) u (by rw [Run.attempt, hu])
    | endless =>
        refine ⟨u, ?_, .refl u⟩
        rw [force_written h]
        exact Run.bind_of_error (by rw [Run.attempt, hu])

end Force

/-! ## Trailing behind -/

/-- A store that trails behind another one: the promises of some slots are yet to be made in it.
They are hidden. -/
structure Trails (hidden : PromiseId → Prop) (ctx : EvaluatorId) (env : EnvId) (slots : List Slot)
    (s t : Store) : Prop where
  apart : s.HiddenApart hidden (promisedIn ctx env t slots)
  coming (p : PromiseId) : t.promises.size ≤ p.index → p.index < s.promises.size → hidden p
  made (p : PromiseId) : hidden p → p.index < s.promises.size
  conceals : Conceals hidden s

namespace Trails

variable {slots rest : List Slot} {slot : Slot} {name : String} {fn : Value}

theorem size (h : Trails hidden ctx env slots s t) :
    s.promises.size = t.promises.size + slots.length := by
  rw [← h.apart.size, size_promisedIn]

/-- What trails behind may go on by itself with what is hidden. -/
theorem step (h : Trails hidden ctx env slots s t) (htu : t.HiddenApart hidden u) :
    Trails hidden ctx env slots s u where
  apart := h.apart.trans (hiddenApart_promisedIn htu slots)
  coming p hp := h.coming p (htu.size ▸ hp)
  made := h.made
  conceals := h.conceals

/-- A promise is made. -/
theorem promise (h : Trails hidden ctx env (slot :: rest) s t) :
    Trails hidden ctx env rest s (t.addPromise (.written slot.item env ctx)) where
  apart := h.apart
  coming p hp := h.coming p (by rw [Store.size_addPromise] at hp; omega)
  made := h.made
  conceals := h.conceals

/-- The next promise is hidden. -/
theorem next (h : Trails hidden ctx env (slot :: rest) s t) : hidden ⟨t.promises.size⟩ :=
  h.coming _ (Nat.le_refl _) (by rw [h.size, List.length_cons]; exact Nat.lt_add_of_pos_right (by omega))

/-- Nothing is yet to be made. -/
theorem veiled (h : Trails hidden ctx env [] s t) : s.Veiled hidden t.promise t :=
  { h.apart with made := h.made, held := fun _ _ => rfl, conceals := h.conceals }

/-- Names stand for the same functions. -/
theorem calls (h : Trails hidden ctx env slots s t) {e : EnvId} (hcalls : s.Calls e name fn) :
    t.Calls e name fn := by
  have hs := h.conceals
  have hplaces := samePlaces_promisedIn ctx env t slots
  have hslot : t.slot? = s.slot? := hplaces.slot?.symm.trans h.apart.slot?
  have hchain : t.chain = s.chain := hplaces.chain.symm.trans h.apart.chain
  have hready (x : EnvId) (v w : Value) (hbound : s.slot? x name = some v)
      (hw : s.ready? v = some w) : t.ready? v = some w := by
    cases v with
    | promise p =>
        obtain ⟨hp, hprogress⟩ := Option.ite_none_right_eq_some.mp hw
        have hv : Conceals hidden (Value.promise p) := .of_some hbound
        have hout := conceals_promiseId.mp (conceals_promise.mp hv)
        have hpt : p.index < t.promises.size :=
          Nat.lt_of_not_le fun hle => hout (h.coming p hle hp)
        have hsame : t.promise p = s.promise p :=
          ((promisedIn_grows ctx env t slots).promise p hpt).symm.trans (h.apart.promise p hout)
        rw [Store.ready?, if_pos hpt, hsame, hprogress]
    | _ => exact hw
  rw [Store.Calls, hchain]
  exact hcalls.of_ready hslot hready

end Trails

end Machine

end Quasi
