import Quasi.Proofs.Hidden.Veiled

/-!
# Runs to which hidden promises do not matter

A run is discreet if, from stores that are veiled, it ends in the same way in stores that are veiled
again, and mentions nothing hidden in what it ends with. A run that is made of discreet runs is
discreet, so that only the steps are to be looked at: failing, logging, making new objects, showing
values, binding names and looking them up.
-/

namespace Quasi

variable {hidden : PromiseId → Prop} {held : PromiseId → Promise} {α β : Type} [Mention α]
  [Mention β]

namespace Run

/-- Two runs end in the same way, with a value or an interrupt that mentions nothing hidden, in
stores that are veiled. -/
inductive EndsAlike (hidden : PromiseId → Prop) (held : PromiseId → Promise) :
    EStateM.Result Interrupt Store α → EStateM.Result Interrupt Store α → Prop where
  | value {v : α} {s t : Store} (hv : Conceals hidden v) (h : s.Veiled hidden held t) :
      EndsAlike hidden held (.ok v s) (.ok v t)
  | interrupt {i : Interrupt} {s t : Store} (hi : Conceals hidden i) (h : s.Veiled hidden held t) :
      EndsAlike hidden held (.error i s) (.error i t)

/-- A run to which hidden promises do not matter. -/
class Discreet (hidden : PromiseId → Prop) (a : Run α) : Prop where
  ends {held : PromiseId → Promise} {s t : Store} :
    s.Veiled hidden held t → EndsAlike hidden held (a s) (a t)

namespace EndsAlike

variable {x y : EStateM.Result Interrupt Store α} {a b : Run α} {f g : α → Run β} {s t : Store}

theorem bind (h : EndsAlike hidden held (a s) (b t))
    (hf : ∀ v, Conceals hidden v → ∀ {s t : Store}, s.Veiled hidden held t →
      EndsAlike hidden held (f v s) (g v t)) :
    EndsAlike hidden held ((a >>= f) s) ((b >>= g) t) := by
  simp only [Bind.bind, EStateM.bind]
  generalize a s = x, b t = y at h
  cases h with
  | value hv h => exact hf _ hv h
  | interrupt hi h => exact .interrupt hi h

theorem attempt (h : EndsAlike hidden held (a s) (b t)) :
    EndsAlike hidden held (Run.attempt a s) (Run.attempt b t) := by
  unfold Run.attempt
  generalize a s = x, b t = y at h
  cases h with
  | value hv h => exact .value (conceals_ok.mpr hv) h
  | @interrupt i _ _ hi h =>
      cases i with
      | failure f => exact .value inferInstance h
      | returning v target => exact .value (conceals_error.mpr ⟨hi.out⟩) h
      | overflow => exact .value inferInstance h
      | endless => exact .interrupt hi h

end EndsAlike

namespace Discreet

variable {a : Run α} {f : α → Run β}

/-! ## Composing runs -/

instance (v : α) [hv : Conceals hidden v] : Discreet hidden (pure v : Run α) := ⟨.value hv⟩

instance (x : Signal) [hx : Conceals hidden x] : Discreet hidden (raise x : Run α) :=
  ⟨.interrupt (conceals_interrupt.mpr hx)⟩

/-- A run that goes on with what another one came to. -/
theorem bind (ha : Discreet hidden a) (hf : ∀ v, Conceals hidden v → Discreet hidden (f v)) :
    Discreet hidden (a >>= f) := ⟨fun h => (ha.ends h).bind fun v hv {_ _} h => (hf v hv).ends h⟩

theorem andThen [ha : Discreet hidden a]
    (hf : ∀ v, Conceals hidden v → Discreet hidden (f v)) : Discreet hidden (a >>= f) :=
  ha.bind hf

/-- A run that goes on with what mentions nothing, whatever it is. -/
instance {γ : Type} [Mute γ] (a : Run γ) (f : γ → Run β) [Discreet hidden a]
    [∀ v, Discreet hidden (f v)] : Discreet hidden (a >>= f) := andThen fun _ _ => inferInstance

theorem map [Discreet hidden a] {f : α → β} (hf : ∀ v, Conceals hidden v → Conceals hidden (f v)) :
    Discreet hidden (f <$> a) := by
  rw [map_eq_pure_bind]
  exact andThen fun v hv =>
    have hresult := hf v hv
    inferInstance

/-- A run that reads from the store what is the same in veiled stores. -/
theorem read {f : Store → Run α} (hf : ∀ {held : PromiseId → Promise} {s t : Store}, s.Veiled hidden held t → f t = f s)
    (h : ∀ s, Conceals hidden s → Discreet hidden (f s)) : Discreet hidden (get >>= f) where
  ends {_ s t} hst := by
    rw [get_bind, get_bind, hf hst]
    exact (h s hst.conceals).ends hst

/-- A run that changes the store that it reads and goes on from there. -/
theorem update {f : Store → Store} {rest : Store → Run α}
    (hf : ∀ {held : PromiseId → Promise} {s t : Store},
      s.Veiled hidden held t → (f s).Veiled hidden held (f t))
    (hrest : ∀ {held : PromiseId → Promise} {s t : Store},
      s.Veiled hidden held t → rest t = rest s)
    (h : ∀ s, Conceals hidden s → Discreet hidden (rest s)) : Discreet hidden (do
      let s ← get
      set (f s)
      rest s) where
  ends {_ s t} hst := by
    rw [get_bind, get_bind, set_bind, set_bind, hrest hst]
    exact (h s hst.conceals).ends (hf hst)

/-- A run that reads the store, changes it and has a value. -/
theorem of_value {a : Run α} {v : Store → α} {f : Store → Store}
    (ha : ∀ s, a s = .ok (v s) (f s)) 
    (hv : ∀ {held : PromiseId → Promise} {s t : Store}, s.Veiled hidden held t → v t = v s)
    (hconceals : ∀ {held : PromiseId → Promise} {s t : Store},
      s.Veiled hidden held t → Conceals hidden (v s))
    (hf : ∀ {held : PromiseId → Promise} {s t : Store},
      s.Veiled hidden held t → (f s).Veiled hidden held (f t)) : Discreet hidden a where
  ends {_ s t} h := by
    rw [ha, ha, hv h]
    exact .value (hconceals h) (hf h)

theorem of_modify {f : Store → Store}
    (hf : ∀ {held : PromiseId → Promise} {s t : Store},
      s.Veiled hidden held t → (f s).Veiled hidden held (f t)) :
    Discreet hidden (modify f : Run PUnit) :=
  of_value (fun _ => rfl) (fun _ => rfl) (fun _ => inferInstance) hf

instance (c : Prop) [Decidable c] (a b : Run α) [Discreet hidden a] [Discreet hidden b] :
    Discreet hidden (if c then a else b) := by
  split <;> infer_instance

instance (a : Run α) [ha : Discreet hidden a] : Discreet hidden (Run.attempt a) :=
  ⟨fun h => (ha.ends h).attempt⟩

instance (r : Except Signal α) [hr : Conceals hidden r] : Discreet hidden (Run.resume r) := by
  cases r with
  | ok v =>
      have hv := conceals_ok.mp hr
      unfold Run.resume
      infer_instance
  | error x =>
      have hx := conceals_error.mp hr
      unfold Run.resume
      infer_instance

instance (a : Run α) (last : Run Unit) [Discreet hidden a] [Discreet hidden last] :
    Discreet hidden (Run.andFinally a last) := by
  unfold Run.andFinally
  exact andThen fun r _ => inferInstance

instance (a : Run α) (handler : FailureRef → Run α) [Discreet hidden a]
    [∀ f, Discreet hidden (handler f)] : Discreet hidden (Run.orElse a handler) := by
  unfold Run.orElse
  refine andThen fun r hr => ?_
  split <;> infer_instance

theorem mapM {f : α → Run β} {xs : List α} [h : Conceals hidden xs]
    (hf : ∀ x, Conceals hidden x → Discreet hidden (f x)) : Discreet hidden (xs.mapM f) := by
  revert h
  induction xs with
  | nil => intro h; rw [List.mapM_nil]; infer_instance
  | cons x xs ih =>
      intro h
      obtain ⟨hx, hxs⟩ := conceals_cons.mp h
      have hfirst := hf x hx
      rw [List.mapM_cons]
      exact andThen fun y _ => andThen fun ys _ => inferInstance

theorem forM {f : α → Run PUnit} {xs : List α} [h : Conceals hidden xs]
    (hf : ∀ x, Conceals hidden x → Discreet hidden (f x)) : Discreet hidden (xs.forM f) := by
  revert h
  induction xs with
  | nil => intro h; exact inferInstanceAs (Discreet hidden (pure PUnit.unit))
  | cons x xs ih =>
      intro h
      obtain ⟨hx, hxs⟩ := conceals_cons.mp h
      have hfirst := hf x hx
      exact inferInstanceAs (Discreet hidden (f x >>= fun _ => xs.forM f))

theorem optionMapM {f : α → Run β} {o : Option α} [h : Conceals hidden o]
    (hf : ∀ x, Conceals hidden x → Discreet hidden (f x)) : Discreet hidden (o.mapM f) := by
  cases o with
  | none => exact inferInstanceAs (Discreet hidden (pure none))
  | some x =>
      have hx := hf x (conceals_some.mp h)
      exact map fun y _ => inferInstance

end Discreet

end Run

namespace Store

/-- What changes alike in both stores leaves them veiled if it mentions nothing hidden. -/
theorem Veiled.of_apart {s t s' t' : Store} (h : s.Veiled hidden held t)
    (hsize : s.promises.size ≤ s'.promises.size) (hapart : s'.HiddenApart hidden t')
    (hheld : ∀ p, hidden p → t'.promise p = t.promise p) (hconceals : Conceals hidden s') :
    s'.Veiled hidden held t' :=
  { hapart with
    made := fun p hp => Nat.lt_of_lt_of_le (h.made p hp) hsize
    held := fun p hp => (hheld p hp).trans (h.held p hp)
    conceals := hconceals }

/-- The stores may note what happened. -/
theorem Veiled.history {s t : Store} (h : s.Veiled hidden held t) (a b : List Event) :
    { s with history := a }.Veiled hidden held { t with history := b } :=
  h.of_apart (Nat.le_refl _) (h.toHiddenApart.history a b) (fun _ _ => rfl)
    ⟨{ h.conceals.out with }⟩

/-- A promise that is not hidden goes on in both stores. -/
theorem Veiled.setPromise {s t : Store} (h : s.Veiled hidden held t) {p : PromiseId}
    (hp : Conceals hidden p) {f : Promise → Promise} (hcode : ∀ q, (f q).code = q.code)
    (hf : ∀ q, Conceals hidden q → Conceals hidden (f q)) :
    (s.setPromise p f).Veiled hidden held (t.setPromise p f) :=
  have hs := h.conceals
  have hheld (q : PromiseId) (hq : hidden q) : (t.setPromise p f).promise q = t.promise q := by
    have hne : q.index ≠ p.index := fun hsame =>
      have hqp : q = p := congrArg PromiseId.mk hsame
      conceals_promiseId.mp hp (hqp ▸ hq)
    rw [promise_setPromise, if_neg fun hsame => hne hsame.1]
  h.of_apart (Nat.le_of_eq (by simp [Store.setPromise])) (h.toHiddenApart.setPromise p hcode)
    hheld (conceals_setPromise p fun q _ => hf q)

theorem Veiled.setEvaluator {s t : Store} (h : s.Veiled hidden held t) (ctx : EvaluatorId)
    {f : Evaluator → Evaluator} (hf : ∀ e, Conceals hidden e.frames → Conceals hidden (f e).frames) :
    (s.setEvaluator ctx f).Veiled hidden held (t.setEvaluator ctx f) :=
  have := h.conceals
  h.of_apart (Nat.le_refl _) (h.toHiddenApart.setEvaluator ctx f) (fun _ _ => rfl) (conceals_setEvaluator ctx hf)

theorem promises_setVars (s : Store) (e : EnvId) (f : Bindings Value → Bindings Value) :
    (s.setVars e f).promises = s.promises := by
  cases e <;> rfl

end Store

namespace Run.Discreet

/-! ## Failing and logging -/

instance (cause : Cause) (call : Option Expr) [hcall : Conceals hidden call] :
    Discreet hidden (failWith cause call : Run α) where
  ends {_ s t} h := by
    have hsize : t.failures.size = s.failures.size := by rw [h.failures]
    have hs := h.conceals
    simp only [failWith, get_bind, set_bind, raise_apply, hsize]
    exact .interrupt (conceals_interrupt.mpr inferInstance)
      (h.of_apart (Nat.le_refl _) (h.toHiddenApart.addFailure _) (fun _ _ => rfl)
        (Store.conceals_addFailure hcall))

instance (cause : Cause) : Discreet hidden (fail cause : Run α) := by
  unfold fail; infer_instance

instance (fault : HostFault) : Discreet hidden (failHost fault : Run α) := by
  unfold failHost; infer_instance

instance (fault : TypeFault) : Discreet hidden (failType fault : Run α) := by
  unfold failType; infer_instance

instance (fault : ArityFault) : Discreet hidden (failArity fault : Run α) := by
  unfold failArity; infer_instance

instance {ε : Type} [Mention ε] (toCause : ε → Cause) (r : Except ε α) [hr : Conceals hidden r] :
    Discreet hidden (orFail toCause r) := by
  cases r with
  | ok v =>
      have hv := conceals_ok.mp hr
      unfold orFail
      infer_instance
  | error fault => unfold orFail; infer_instance

instance (r : Except HostFault α) [Conceals hidden r] : Discreet hidden (orFailHost r) := by
  unfold orFailHost; infer_instance

instance (level : LogLevel) (message : String) : Discreet hidden (logRecord level message) :=
  of_modify fun h => h.of_apart (Nat.le_refl _) (h.toHiddenApart.logged _)
    (fun _ _ => rfl) ⟨{ h.conceals.out with }⟩

instance (message : String) : Discreet hidden (warn message) := by unfold warn; infer_instance

instance (message : Unit → String) : Discreet hidden (trace message) := by
  unfold trace
  exact read (fun h => by rw [h.verbose]) fun s _ => inferInstance

/-! ## New objects -/

instance : Discreet hidden freshId :=
  of_value (v := Store.nextId) (f := fun s => { s with nextId := s.nextId + 1 }) (fun _ => rfl)
    (fun h => h.nextId) (fun _ => inferInstance) fun h =>
      h.of_apart (Nat.le_refl _) { h.toHiddenApart with nextId := congrArg (· + 1) h.nextId }
        (fun _ _ => rfl) ⟨{ h.conceals.out with }⟩

instance (parent : EnvId) (vars : Bindings Value) (name : Option String)
    [hvars : Conceals hidden vars] : Discreet hidden (newScope parent vars name) :=
  of_value (v := fun s => .scope s.scopes.size) (f := fun s => s.addScope ⟨vars, parent, name⟩)
    (fun _ => rfl) (fun h => by rw [h.scopes]) (fun _ => inferInstance) fun h =>
      have hs := h.conceals
      h.of_apart (Nat.le_refl _) (h.toHiddenApart.addScope _) (fun _ _ => rfl)
        (Store.conceals_addScope hvars)

/-- A new promise is not hidden, since all hidden ones exist. -/
instance (p : Promise) [hcode : Conceals hidden p.code] [hprogress : Conceals hidden p.progress] :
    Discreet hidden (newPromise p) :=
  of_value (v := fun s => ⟨s.promises.size⟩) (f := fun s => s.addPromise p) (fun _ => rfl)
    (fun h => by rw [h.size])
    (fun h => conceals_promiseId.mpr fun hp => Nat.lt_irrefl _ (h.made _ hp)) fun {_ s t} h =>
      have hs := h.conceals
      have hheld (q : PromiseId) (hq : hidden q) : (t.addPromise p).promise q = t.promise q := by
        rw [Store.promise_addPromise, h.size, if_neg (Nat.ne_of_lt (h.made q hq))]
      h.of_apart (Nat.le_of_lt (s.lt_size_addPromise p)) (h.toHiddenApart.addPromise p) hheld
        (Store.conceals_addPromise hcode hprogress)

instance : Conceals hidden Progress.unforced := ⟨trivial⟩

instance {v : Value} [hv : Conceals hidden v] : Conceals hidden (Progress.given v) :=
  conceals_given.mpr hv

instance (c : Closure) [hc : Conceals hidden c] : Discreet hidden (newClosure c) :=
  of_value (v := fun s => ⟨s.closures.size⟩) (f := fun s => s.addClosure c) (fun _ => rfl)
    (fun h => by rw [h.closures]) (fun _ => inferInstance) fun h =>
      have hs := h.conceals
      h.of_apart (Nat.le_refl _) (h.toHiddenApart.addClosure c) (fun _ _ => rfl)
        (Store.conceals_addClosure hc)

instance (scopes : List DataScope) (home : EnvId) [hscopes : Conceals hidden scopes] :
    Discreet hidden (newMask scopes home) := by
  have hpronouns (m : MaskId) : Conceals hidden
      [(Pronoun.data.name, Value.pronoun .data m), (Pronoun.env.name, .pronoun .env m)] :=
    inferInstance
  refine of_value (v := fun s => ⟨s.masks.size⟩)
    (f := fun s => s.addMask ⟨[(Pronoun.data.name, .pronoun .data ⟨s.masks.size⟩),
      (Pronoun.env.name, .pronoun .env ⟨s.masks.size⟩)], scopes, home⟩) (fun _ => rfl)
    (fun h => by rw [h.masks]) (fun _ => inferInstance) fun {_ s t} h => ?_
  have hs := h.conceals
  rw [h.masks]
  exact h.of_apart (Nat.le_refl _) (h.toHiddenApart.addMask _)
    (fun _ _ => rfl) (Store.conceals_addMask (hpronouns _) hscopes)

instance (v : Value) [Conceals hidden v] : Discreet hidden (own v) := by
  unfold own
  split
  · infer_instance
  next elements hvec =>
    have helements := conceals_vector.mp (conceals_vec.mp hvec)
    infer_instance
  · infer_instance

/-! ## Texts -/

instance (x : Option α) [hx : Conceals hidden x] : Discreet hidden (orOverflow x) := by
  cases x with
  | none => unfold orOverflow; infer_instance
  | some v =>
      have hv := conceals_some.mp hx
      unfold orOverflow
      infer_instance

variable (v : Value) [hv : Conceals hidden v]

instance : Discreet hidden (inspect v) := by
  unfold inspect
  exact read (fun h => by rw [h.inspect hv]) fun s _ => inferInstance

instance : Discreet hidden (plainText v) := by
  unfold plainText
  exact read (fun h => by rw [h.plainText hv]) fun s _ => inferInstance

instance : Discreet hidden (format v) := by
  unfold format
  exact read (fun h => by rw [h.format hv]) fun s _ => inferInstance

instance : Discreet hidden (label v) := by
  unfold label
  split <;> infer_instance

omit hv in
instance (signal : Signal) : Discreet hidden (signalText signal) := by
  unfold signalText
  split
  · exact read (fun h => by rw [h.showFailure]) fun s _ => inferInstance
  · infer_instance
  · infer_instance

/-! ## Environments -/

instance (e : EnvId) : Discreet hidden (reachEnd e) where
  ends {_ s t} h := by
    rw [Flow.reachEnd_apply, Flow.reachEnd_apply, h.chain]
    cases (s.chain e).2 with
    | true => exact .value inferInstance h
    | false => exact .interrupt inferInstance h

theorem search (e : EnvId) {test : Store → EnvId → Bool}
    (htest : ∀ {held : PromiseId → Promise} {s t : Store},
      s.Veiled hidden held t → test t = test s) :
    Discreet hidden (Run.search e test) := by
  unfold Run.search
  refine read (fun h => by rw [h.chain, htest h]) fun s _ => ?_
  split <;> infer_instance

instance (e : EnvId) : Discreet hidden (parents e) := by
  unfold parents
  have hread : Discreet hidden (do pure ((← get).chain e).1 : Run (List EnvId)) :=
    read (fun h => by rw [h.chain]) fun s _ => inferInstance
  infer_instance

instance (e : EnvId) (name : String) : Discreet hidden (find e name) :=
  search e fun h => by rw [h.slot?]

instance (e : EnvId) (name : String) : Discreet hidden (binding e name) := by
  unfold binding
  refine andThen fun found _ => ?_
  split
  · infer_instance
  next env =>
    refine read (fun h => by rw [h.slot?]) fun s hs => ?_
    split
    next v hslot =>
      have hv : Conceals hidden v := .of_some hslot
      infer_instance
    · infer_instance

instance (e : EnvId) (name : String) : Discreet hidden (define e name v) := by
  unfold define
  split
  · infer_instance
  · refine of_modify fun {_ s t} h => ?_
    have hs := h.conceals
    exact h.of_apart (Nat.le_of_eq (by rw [Store.promises_setVars])) (h.toHiddenApart.setVars ..)
      (fun _ _ => by rw [Store.promise, Store.promises_setVars]; rfl)
      (Store.conceals_setVars _ fun vars _ => inferInstance)

omit hv in
instance (e : EnvId) (name : String) : Discreet hidden (unbind e name) := by
  unfold unbind
  have herase : Discreet hidden (modify fun s => s.setVars e fun vars => vars.erase name :
      Run PUnit) := of_modify fun {_ s t} h => by
    have hs := h.conceals
    exact h.of_apart (Nat.le_of_eq (by rw [Store.promises_setVars])) (h.toHiddenApart.setVars ..)
      (fun _ _ => by rw [Store.promise, Store.promises_setVars]; rfl)
      (Store.conceals_setVars _ fun vars _ => inferInstance)
  exact read (fun h => by rw [h.vars]) fun s _ => inferInstance

instance (e : EnvId) (name : String) : Discreet hidden (rebind e name v) := by
  unfold rebind
  refine andThen fun found _ => ?_
  split <;> infer_instance

omit hv in
instance (e : EnvId) : Discreet hidden (findMask e) := by
  unfold findMask
  have hsearch : Discreet hidden (Run.search e fun _ env =>
      match env with | .bottom _ => true | _ => false) := search e fun _ => rfl
  refine andThen fun found _ => ?_
  split <;> infer_instance

omit hv in
instance (m : MaskId) (home : EnvId) : Discreet hidden (rechain m home) := by
  unfold rechain
  refine update (f := fun s => s.rechain m home) (fun h => ?_) (fun h => ?_) fun s _ => inferInstance
  · have hs := h.conceals
    exact h.of_apart (Nat.le_refl _) (h.toHiddenApart.rechain m home) (fun _ _ => rfl) inferInstance
  · rw [h.mask, h.showEnv]

omit hv in
instance (m : MaskId) (home : EnvId) (body : EnvId → Run α) [∀ e, Discreet hidden (body e)] :
    Discreet hidden (under m home body) := by
  unfold under
  infer_instance

end Run.Discreet

end Quasi
