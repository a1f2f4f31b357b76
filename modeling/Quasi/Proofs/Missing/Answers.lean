import Quasi.Proofs.Call.Binding
import Quasi.Proofs.Missing.Circle

/-!
# When `missing` answers

`missing` answers unless it is asked about what relays itself. Calls bring nothing of that kind
about, neither by their arguments nor by defaults. A name that is bound to a promise does, if the
promise stands for the name itself or for what relays it.
-/

namespace Quasi

open Run (bind_of_ok bind_eq_ok)

namespace Store

variable {s t u : Store} {v : Value} {e : EnvId} {name : String}

theorem straight_blank {settings : Settings} {verbose : Bool} :
    Straight { settings := settings, verbose := verbose } := by
  intro v hv
  obtain ⟨w, hw, -⟩ := circles_iff.mp hv
  obtain ⟨p, rfl⟩ := exists_promise_of_relayed hw
  exact Nat.not_lt_zero _ (index_lt_of_relayed hw)

/-! ## Bindings -/

theorem get?_vars_setVars (s : Store) (e : EnvId) (name : String) (v : Value) (e' : EnvId)
    (name' : String) : ((s.setVars e fun vars => vars.set name v).vars e').get? name' =
      (s.vars e').get? name' ∨
    ((s.setVars e fun vars => vars.set name v).vars e').get? name' = some v := by
  have hset (vars : Bindings Value) : (vars.set name v).get? name' = vars.get? name' ∨
      (vars.set name v).get? name' = some v := by
    by_cases hname : name' = name
    · rw [hname]
      exact .inr (Bindings.get?_set_self vars name v)
    · exact .inl (Bindings.get?_set_of_ne vars v hname)
  cases e with
  | empty => exact .inl rfl
  | scope i =>
      cases e' with
      | empty | bottom m => exact .inl rfl
      | scope j =>
          simp only [vars, setVars, scope_setScope]
          split
          · exact hset _
          · exact .inl rfl
  | bottom n =>
      cases e' with
      | empty | scope j => exact .inl rfl
      | bottom m =>
          simp only [vars, setVars, mask_setMask]
          split
          · exact hset _
          · exact .inl rfl

/-- After a binding every environment shows what it showed before, or the value that was bound. -/
theorem slot?_setVars (s : Store) (e : EnvId) (name : String) (v : Value) (e' : EnvId)
    (name' : String) : (s.setVars e fun vars => vars.set name v).slot? e' name' = s.slot? e' name' ∨
      (s.setVars e fun vars => vars.set name v).slot? e' name' = some v := by
  have hvars := get?_vars_setVars s e name v
  have hmask (n : Nat) : (s.setVars e fun vars => vars.set name v).maskSlot? n name' =
        s.maskSlot? n name' ∨
      (s.setVars e fun vars => vars.set name v).maskSlot? n name' = some v := by
    induction n using Nat.strongRecOn with
    | ind n ih =>
        have hsources : ((s.setVars e fun vars => vars.set name v).mask ⟨n⟩).scopes =
            (s.mask ⟨n⟩).scopes := by
          cases e with
          | empty | scope i => rfl
          | bottom m =>
              simp only [setVars, mask_setMask]
              split <;> rfl
        have hown := hvars (.bottom ⟨n⟩) name'
        simp only [vars] at hown
        unfold maskSlot?
        rw [hsources]
        rcases hown with hown | hown <;> rw [hown]
        · cases ((s.mask ⟨n⟩).vars).get? name' with
          | some w => exact .inl rfl
          | none =>
              refine findSome?_cases fun source hsource => ?_
              cases source with
              | mapping | table | row => exact .inl rfl
              | env e =>
                  cases e with
                  | empty => exact .inl rfl
                  | scope i => exact hvars (.scope i) name'
                  | bottom m =>
                      dsimp only
                      split
                      · exact ih m.index ‹_›
                      · exact .inl rfl
        · exact .inr rfl
  cases e' with
  | empty => exact .inl rfl
  | scope i => exact hvars (.scope i) name'
  | bottom m => exact hmask m.index

/-- A binding closes a circle exactly if the value that it binds relays itself from then on, also if
the value is a promise that was just made. -/
theorem Straight.set_iff (hs : s.Straight)
    (hpromise : ∀ q, u.promise q = s.promise q ∨ .promise q = v)
    (hslot : ∀ e name, u.slot? e name = s.slot? e name) (e : EnvId) (name : String) :
    (u.setVars e fun vars => vars.set name v).Straight ↔
      ¬ (u.setVars e fun vars => vars.set name v).Circles v := by
  refine hs.iff_not_circles fun x w hx => ?_
  obtain ⟨q, rfl⟩ := exists_promise_of_relayed hx
  obtain ⟨e', name', hplace, hshows⟩ := passes_iff.mp hx
  have hsame : (u.setVars e fun vars => vars.set name v).promise q = u.promise q := by
    cases e <;> rfl
  rcases hpromise q with hq | hq
  · rcases slot?_setVars u e name v e' name' with hold | hnew
    · rw [hsame, hq] at hplace
      exact .inl (passes_iff.mpr ⟨e', name', hplace,
        (hslot e' name').symm.trans (hold.symm.trans hshows)⟩)
    · exact .inr (.inr (Option.some.inj (hshows.symm.trans hnew)))
  · exact .inr (.inl hq)

theorem eq_of_define (h : Run.define e name v s = .ok ⟨⟩ t) :
    t = s.setVars e fun vars => vars.set name v := by
  cases e with
  | empty => cases h
  | scope i | bottom m =>
      cases h
      rfl

theorem Straight.define_iff (hs : s.Straight) (h : Run.define e name v s = .ok ⟨⟩ t) :
    t.Straight ↔ ¬ t.Circles v := by
  rw [eq_of_define h]
  exact hs.set_iff (fun _ => .inl rfl) (fun _ _ => rfl) e name

/-- A name is bound to a promise of some code, as by `delayedAssign`. -/
theorem Straight.delay_iff {promise : Promise} (hs : s.Straight) (h : (do
      let p ← Run.newPromise promise
      Run.define e name (.promise p)) s = .ok ⟨⟩ t) :
    t.Straight ↔ ¬ t.Circles (.promise ⟨s.promises.size⟩) := by
  obtain ⟨p, u, hp, h⟩ := bind_eq_ok h
  cases hp
  rw [eq_of_define h]
  refine hs.set_iff (fun q => ?_) (slot?_of_eq (s := s) (t := s.addPromise promise)
    (scopes_addPromise ..) (masks_addPromise ..)) e name
  rw [promise_addPromise]
  split
  next hq =>
    obtain ⟨i⟩ := q
    cases hq
    exact .inr rfl
  next => exact .inl rfl

/-! ## Calls -/

/-- What is beside the promises of the first store relays nothing. -/
structure Defaults (s t : Store) : Prop where
  grows : s.Grows t
  added (p : PromiseId) : s.promises.size ≤ p.index → (t.promise p).place? = none

theorem Defaults.straight (h : s.Defaults t) (hs : s.Whole) (hstraight : s.Straight) :
    t.Straight := by
  refine hstraight.of_passes fun v w _ hv => ?_
  obtain ⟨p, rfl⟩ := exists_promise_of_relayed hv
  obtain ⟨e, name, hplace, hshows⟩ := passes_iff.mp hv
  have hp : p.index < s.promises.size := by
    refine Nat.lt_of_not_le fun hp => ?_
    rw [h.added p hp] at hplace
    cases hplace
  rw [h.grows.promise p hp] at hplace
  have hknown := hs.promise p e (Promise.env_of_place hplace)
  exact passes_iff.mpr ⟨e, name, hplace, (h.grows.slot? hs hknown name).symm.trans hshows⟩

theorem Defaults.setVars (h : s.Defaults t) {i : Nat} (hi : s.scopes.size ≤ i)
    (f : Bindings Value → Bindings Value) : s.Defaults (t.setVars (.scope i) f) :=
  ⟨h.grows.setVars hi f, h.added⟩

theorem Defaults.addPromise (h : s.Defaults t) {promise : Promise} (hp : promise.isDefault = true) :
    s.Defaults (t.addPromise promise) := by
  refine ⟨h.grows.trans (.addPromise t promise), fun q hq => ?_⟩
  rw [promise_addPromise]
  split
  · simp only [Promise.place?, hp]
  · exact h.added q hq

end Store

namespace Machine

variable {s t : Store} {ctx : EvaluatorId}

theorem defaults_bindFormals {matched : Matched Value} {formals : List (String × Expr)} {i : Nat}
    {u : Store} (h : s.Defaults t) (hi : s.scopes.size ≤ i)
    (hbind : bindFormals ctx (.scope i) matched formals t = .ok ⟨⟩ u) : s.Defaults u := by
  induction formals generalizing t with
  | nil =>
      cases hbind
      exact h
  | cons formal rest ih =>
      obtain ⟨name, default⟩ := formal
      rw [bindFormals_cons] at hbind
      cases hbound : boundTo? matched name default with
      | some v =>
          rw [hbound] at hbind
          exact ih (h.setVars hi _) ((bind_of_ok (define_scope i name v t)).symm.trans hbind)
      | none =>
          rw [hbound] at hbind
          have hdefault : bindFormals.bindDefault ctx (.scope i) name default t = .ok ⟨⟩ _ := rfl
          exact ih ((h.addPromise rfl).setVars hi _) ((bind_of_ok hdefault).symm.trans hbind)

theorem store_of_matchFormals {α : Type} {formals : List String} {describe : α → String}
    {supplied : List (Tagged α)} {call : Option Expr} {matched : Matched α}
    (h : matchFormals formals describe supplied call s = .ok matched t) : t = s := by
  cases hflag : s.settings.partialMatching with
  | ok pm =>
      rw [matchFormals_eq hflag] at h
      cases hmatched : matchArguments formals describe pm supplied with
      | ok matched' =>
          rw [hmatched] at h
          cases h
          rfl
      | error fault =>
          rw [hmatched] at h
          cases h
  | error fault =>
      unfold matchFormals at h
      obtain ⟨state, u, hstate, h⟩ := bind_eq_ok h
      cases hexact : Matching.exactRound formals [] (Matching.number supplied) with
      | error fault' =>
          rw [hexact] at hstate
          cases hstate
      | ok state' =>
          rw [hexact] at hstate
          cases hstate
          rw [Run.get_bind, hflag] at h
          cases h

/-- A call makes an environment and binds its arguments and defaults there, and no circle. -/
theorem straight_bindClosure {c : ClosureId} {supplied : List (Tagged Value)} {call : Expr}
    {r : Expr × EnvId} (hs : s.Whole) (hstraight : s.Straight)
    (h : bindClosure ctx c supplied call s = .ok r t) : t.Straight := by
  rw [bindClosure_opened] at h
  obtain ⟨matched, u, hmatched, h⟩ := bind_eq_ok h
  obtain rfl := store_of_matchFormals hmatched
  obtain ⟨⟨⟩, w, hbind, h⟩ := bind_eq_ok h
  cases h
  have hopened : s.Defaults (opened s c) :=
    ⟨opened_grows s c, fun p hp => (Store.place?_of_size_le hp : (s.promise p).place? = none)⟩
  exact (defaults_bindFormals hopened (Nat.le_refl _) hbind).straight hs hstraight

/-- `missing` answers at every moment of a session, of every name that has a local binding, unless
what the binding relays comes by a circle; then it is left as nested too deeply. A circle is closed
by a change that binds names, as long as all that is referred to exists: by binding a name to a
value that relays itself from then on, also to a promise that is made for the name. A call that
binds its arguments and defaults closes none. -/
theorem missing_answers_iff (hs : s.Moment) :
    (∀ (env : EnvId) (name : String) (v : Value) (tag : Option String),
      s.slot? env name = some v →
      (∀ b, missingForm [⟨tag, .symbol name⟩] env s = .ok (.bool b) s ↔ s.Resolves v b) ∧
      ((∃ b, missingForm [⟨tag, .symbol name⟩] env s = .ok (.bool b) s) ↔
        ¬ ∃ w, s.Relays v w ∧ s.Circles w) ∧
      ((∃ w, s.Relays v w ∧ s.Circles w) →
        missingForm [⟨tag, .symbol name⟩] env s = .error .overflow s)) ∧
    (¬ s.Straight → ∃ u w : Store, u.Moment ∧ u.Closes w ∧ w.Later s ∧
      (u.Complete → ∃ e f, w = u.setVars e f)) ∧
    (∀ (e : EnvId) (name : String) (v : Value) (t : Store), s.Straight →
      Run.define e name v s = .ok ⟨⟩ t → (t.Straight ↔ ¬ t.Circles v)) ∧
    (∀ (promise : Promise) (e : EnvId) (name : String) (t : Store), s.Straight →
      (do
        let p ← Run.newPromise promise
        Run.define e name (.promise p)) s = .ok ⟨⟩ t →
      (t.Straight ↔ ¬ t.Circles (.promise ⟨s.promises.size⟩))) ∧
    (∀ (ctx : EvaluatorId) (c : ClosureId) (supplied : List (Tagged Value)) (call : Expr)
      (r : Expr × EnvId) (t : Store), s.Whole → s.Straight →
      bindClosure ctx c supplied call s = .ok r t → t.Straight) ∧
    (∀ (n : Nat) (ctx : EvaluatorId) (e : Expr) (env : EnvId) (t : Store),
      ((ofLevel n).eval ctx e env).EndsIn s t ∨ ((ofLevel n).eval ctx e env).LostIn s t →
      t.Moment) ∧
    (∀ (r : Session.Request) (t : Store), r.run.EndsIn s t ∨ r.run.LostIn s t → t.Moment) := by
  obtain ⟨settings, verbose, hlater⟩ := hs
  have hmoment {t : Store} (h : s.Later t) : t.Moment := ⟨settings, verbose, hlater.trans h⟩
  refine ⟨fun env name v tag h => ⟨fun b => missingForm_eq_ok_iff h, ?_,
    (missingForm_eq_overflow_iff h).mpr⟩, fun hcircles => ?_,
    fun e name v t => Store.Straight.define_iff, fun promise e name t => Store.Straight.delay_iff,
    fun ctx c supplied call r t => straight_bindClosure,
    fun n ctx e env t h => hmoment (later_eval h), fun r t h => hmoment (Session.later_request r h)⟩
  · simp only [missingForm_eq_ok_iff h]
    exact exists_resolves_iff
  · obtain ⟨u, w, hu, hcloses, hw⟩ := Store.exists_closes hlater Store.straight_blank hcircles
    exact ⟨u, w, ⟨settings, verbose, hu⟩, hcloses, hw, hcloses.binds⟩

/-- After `(delayedAssign "x" x)` in an environment, the promise of `x` relays itself. -/
theorem missing_answers_iff_itself : ∃ s : Store, s.Moment ∧
    s.slot? (.scope 0) "x" = some (.promise ⟨0⟩) ∧
    missingForm [.bare (.symbol "x")] (.scope 0) s = .error .overflow s := by
  have hs : Session.Reachable _ := .request
    (.request (.blank [] false) (.namedEnvironment .absent none) (.value _ rfl))
    (.delayedAssign (.code (.symbol "x")) (.env (.scope 0)) (.env (.scope 0)) "x" (some ⟨0⟩))
    (.value _ rfl)
  obtain ⟨hanswers, -⟩ := missing_answers_iff hs.moment
  obtain ⟨-, -, hoverflow⟩ := hanswers (.scope 0) "x" (.promise ⟨0⟩) none rfl
  exact ⟨_, hs.moment, rfl, hoverflow ⟨.promise ⟨0⟩, .refl, .single rfl⟩⟩

end Machine

end Quasi
