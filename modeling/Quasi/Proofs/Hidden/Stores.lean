import Quasi.Proofs.Hidden.Code
import Quasi.Proofs.Store

/-!
# Stores that mention no hidden promise

A store conceals promises if nothing in it mentions one of them, apart from what these promises hold
themselves. What is read from such a store mentions none of them either, and what is made of values
that mention none may be put into it.
-/

namespace Quasi

variable {hidden : PromiseId → Prop}

/-! ## What stores hold -/

section Types

instance : Mention DataScope where
  conceals hidden
    | .mapping entries => Mention.conceals hidden entries
    | .env _ => True
    | .table t => Mention.conceals hidden t
    | .row t _ => Mention.conceals hidden t

instance : Mention Progress where
  conceals hidden
    | .value v => v.Conceals hidden
    | .given v => v.Conceals hidden
    | _ => True

instance : Mention Promise where
  conceals hidden p := p.code.Conceals hidden ∧ Mention.conceals hidden p.progress

instance : Mention Closure where
  conceals hidden c := Mention.conceals hidden c.formals ∧ c.body.Conceals hidden

instance : Mention Incident := ⟨fun hidden i => Mention.conceals hidden i.call⟩

instance : Mention ExitAction where
  conceals hidden
    | .evaluate e _ => e.Conceals hidden
    | .note _ => True

instance : Mention Registration where
  conceals hidden
    | .clear => True
    | .exit action _ _ => Mention.conceals hidden action

instance : Mention Frame where
  conceals hidden f := f.call.Conceals hidden ∧ Mention.conceals hidden f.handlers

instance : Mention Evaluator := ⟨fun hidden e => Mention.conceals hidden e.frames⟩

instance : Mention Signal where
  conceals hidden
    | .returning v _ => v.Conceals hidden
    | _ => True

instance : Mention Interrupt where
  conceals hidden
    | .returning v _ => v.Conceals hidden
    | _ => True

variable {c : Closure} {p : Promise} {f : Frame}

instance [h : Conceals hidden c] : Conceals hidden c.formals := ⟨h.out.1⟩

instance [h : Conceals hidden c] : Conceals hidden c.body := ⟨h.out.2⟩

instance [h : Conceals hidden p] : Conceals hidden p.code := ⟨h.out.1⟩

instance [h : Conceals hidden f] : Conceals hidden f.call := ⟨h.out.1⟩

instance [h : Conceals hidden f] : Conceals hidden f.handlers := ⟨h.out.2⟩

theorem conceals_frame {id : Nat} {call : Expr} {env : EnvId} {function : Option ClosureId}
    {caller : Option EnvId} {handlers : List ExitAction} :
    Conceals hidden (⟨id, call, env, function, caller, handlers⟩ : Frame) ↔
      Conceals hidden call ∧ Conceals hidden handlers :=
  ⟨fun h => ⟨⟨h.out.1⟩, ⟨h.out.2⟩⟩, fun h => ⟨⟨h.1.out, h.2.out⟩⟩⟩

theorem conceals_promised {code : Expr} {env : Option EnvId} {ctx : Option EvaluatorId}
    {isDefault : Bool} {progress : Progress} :
    Conceals hidden (⟨code, env, ctx, isDefault, progress⟩ : Promise) ↔
      Conceals hidden code ∧ Conceals hidden progress :=
  ⟨fun h => ⟨⟨h.out.1⟩, ⟨h.out.2⟩⟩, fun h => ⟨⟨h.1.out, h.2.out⟩⟩⟩

theorem conceals_value {v : Value} : Conceals hidden (Progress.value v) ↔ Conceals hidden v :=
  ⟨fun h => ⟨h.out⟩, fun h => ⟨h.out⟩⟩

theorem conceals_given {v : Value} : Conceals hidden (Progress.given v) ↔ Conceals hidden v :=
  ⟨fun h => ⟨h.out⟩, fun h => ⟨h.out⟩⟩

theorem conceals_returning {v : Value} {target : EnvId} :
    Conceals hidden (Signal.returning v target) ↔ Conceals hidden v :=
  ⟨fun h => ⟨h.out⟩, fun h => ⟨h.out⟩⟩

theorem conceals_interrupt {x : Signal} : Conceals hidden x.interrupt ↔ Conceals hidden x := by
  cases x <;> exact ⟨fun h => ⟨h.out⟩, fun h => ⟨h.out⟩⟩

theorem conceals_evaluate {e : Expr} {env : EnvId} :
    Conceals hidden (ExitAction.evaluate e env) ↔ Conceals hidden e :=
  ⟨fun h => ⟨h.out⟩, fun h => ⟨h.out⟩⟩

theorem conceals_incident {call : Option Expr} {trace : Option (List String)} :
    Conceals hidden (⟨call, trace⟩ : Incident) ↔ Conceals hidden call :=
  ⟨fun h => ⟨h.out⟩, fun h => ⟨h.out⟩⟩

instance (f : FailureRef) : Conceals hidden (Signal.failure f) := ⟨trivial⟩

instance : Conceals hidden Signal.overflow := ⟨trivial⟩

instance : Conceals hidden Interrupt.endless := ⟨trivial⟩

instance {v : Value} [h : Conceals hidden v] (target : EnvId) :
    Conceals hidden (Signal.returning v target) := conceals_returning.mpr h

end Types

namespace Store

/-- Nothing in a store mentions a hidden promise. What a hidden promise holds is left open. -/
structure Concealing (hidden : PromiseId → Prop) (s : Store) : Prop where
  vars (i : Nat) : Conceals hidden (s.scope i).vars
  maskVars (m : MaskId) : Conceals hidden (s.mask m).vars
  sources (m : MaskId) : Conceals hidden (s.mask m).scopes
  promise (p : PromiseId) : ¬ hidden p → Conceals hidden (s.promise p)
  closure (c : ClosureId) : Conceals hidden (s.closure c)
  incident (f : FailureRef) : Conceals hidden (s.incident f)
  evaluator (ctx : EvaluatorId) : Conceals hidden (s.evaluator ctx)

instance : Mention Store := ⟨Concealing⟩

/-! ## What is read from a store -/

section Reads

variable {s : Store} [h : Conceals hidden s]

instance (i : Nat) : Conceals hidden (s.scope i).vars := h.out.vars i

instance (m : MaskId) : Conceals hidden (s.mask m).vars := h.out.maskVars m

instance (m : MaskId) : Conceals hidden (s.mask m).scopes := h.out.sources m

instance (c : ClosureId) : Conceals hidden (s.closure c) := h.out.closure c

instance (f : FailureRef) : Conceals hidden (s.incident f).call := ⟨(h.out.incident f).out⟩

instance (ctx : EvaluatorId) : Conceals hidden (s.evaluator ctx).frames :=
  ⟨(h.out.evaluator ctx).out⟩

instance (e : EnvId) : Conceals hidden (s.vars e) := by
  cases e <;> (unfold Store.vars; infer_instance)

omit h in
theorem conceals_column {t : Table Value} {name : String} [ht : Conceals hidden t] :
    Conceals hidden (column? t name) := by
  have hcolumns : Conceals hidden t.columns := ⟨ht.out⟩
  unfold column?
  infer_instance

omit h in
theorem conceals_tableSlot {t : Table Value} (ht : Conceals hidden t) (name : String) :
    Conceals hidden ((column? t name).map Value.vec) := by
  have hcolumn : Conceals hidden (column? t name) := conceals_column
  refine conceals_option fun v hv => ?_
  obtain ⟨column, hfound, rfl⟩ := Option.map_eq_some_iff.mp hv
  exact conceals_vec.mpr (.of_some hfound)

omit h in
theorem conceals_rowSlot {t : Table Value} (ht : Conceals hidden t) (name : String) (i : Nat) :
    Conceals hidden ((column? t name).bind fun column => column.elements.item? i) := by
  have hcolumn : Conceals hidden (column? t name) := conceals_column
  refine conceals_option fun v hv => ?_
  obtain ⟨column, hfound, hv⟩ := Option.bind_eq_some_iff.mp hv
  have hitems := conceals_elements.mp (conceals_vector.mp (conceals_some.mp (hfound ▸ hcolumn)))
  exact hitems.mem (List.mem_of_getElem? hv)

/-- What a mask binds a name to mentions nothing hidden. -/
theorem conceals_maskSlot (n : Nat) (name : String) : Conceals hidden (s.maskSlot? n name) := by
  induction n using Nat.strongRecOn with
  | ind n ih =>
      unfold Store.maskSlot?
      split
      next v hv => exact hv ▸ (inferInstance : Conceals hidden ((s.mask ⟨n⟩).vars.get? name))
      next =>
        refine conceals_option fun v hv => ?_
        obtain ⟨source, hmem, hv⟩ := List.exists_of_findSome?_eq_some hv
        have hsource : Conceals hidden source := (h.out.sources ⟨n⟩).mem hmem
        rcases source with entries | (_ | i | m) | t | ⟨t, i⟩
        · have hentries : Conceals hidden entries := ⟨hsource.out⟩
          exact .of_some hv
        · cases hv
        · have hslot : Conceals hidden ((s.scope i).vars.get? name) := inferInstance
          exact .of_some hv
        · dsimp only at hv
          split at hv
          next hm =>
            have hbelow := ih m.index hm
            exact .of_some hv
          next => cases hv
        · have ht : Conceals hidden t := ⟨hsource.out⟩
          have hcell := conceals_tableSlot ht name
          exact .of_some hv
        · have ht : Conceals hidden t := ⟨hsource.out⟩
          have hcell := conceals_rowSlot ht name i
          exact .of_some hv

instance (e : EnvId) (name : String) : Conceals hidden (s.slot? e name) := by
  cases e with
  | empty => exact inferInstanceAs (Conceals hidden none)
  | scope i => unfold Store.slot?; infer_instance
  | bottom m => exact conceals_maskSlot m.index name

theorem conceals_dataSlot {source : DataScope} (hsource : Conceals hidden source)
    (name : String) : Conceals hidden (s.dataSlot? source name) := by
  cases source with
  | mapping entries =>
      have hentries : Conceals hidden entries := ⟨hsource.out⟩
      unfold Store.dataSlot?
      infer_instance
  | env e => unfold Store.dataSlot?; infer_instance
  | table t => exact conceals_tableSlot ⟨hsource.out⟩ name
  | row t i => exact conceals_rowSlot ⟨hsource.out⟩ name i

instance (m : MaskId) (name : String) : Conceals hidden (s.data? m name) := by
  refine conceals_option fun v hv => ?_
  obtain ⟨source, hmem, hv⟩ := List.exists_of_findSome?_eq_some hv
  have hsource : Conceals hidden source := (h.out.sources m).mem hmem
  have hslot : Conceals hidden (s.dataSlot? source name) := conceals_dataSlot hsource name
  exact .of_some hv

/-! ### Parts of values and substitution -/

omit h in
instance (text : Option String) : Conceals hidden (Machine.textOrAbsent text) := by
  cases text <;> (unfold Machine.textOrAbsent; infer_instance)

instance {v : Value} [hv : Conceals hidden v] (name : String) :
    Conceals hidden (Machine.partOf s v name) := by
  unfold Machine.partOf
  split
  case h_1 => exact conceals_code.mpr (conceals_quosure.mp hv)
  case h_9 => exact conceals_const.mp (conceals_code.mp hv)
  case h_10 => exact conceals_code.mpr (conceals_call.mp (conceals_code.mp hv)).1
  case h_11 =>
    have hslots := (conceals_call.mp (conceals_code.mp hv)).2
    exact conceals_tuple.mpr (conceals_map fun _ hslot => conceals_slot.mpr hslot)
  case h_14 => exact conceals_code.mpr (conceals_item.mpr (conceals_slot.mp hv))
  case h_16 f =>
    split
    · infer_instance
    · split
      next call hcall =>
        have hcall : Conceals hidden call := .of_some hcall
        infer_instance
      next => infer_instance
  case h_17 =>
    split
    · infer_instance
    · split
      · exact conceals_sequence.mpr (conceals_map fun _ _ => inferInstance)
      · infer_instance
  all_goals infer_instance

section Substitution

variable {bound : String → Option Value} (hbound : ∀ name, Conceals hidden (bound name))

instance {v : Value} [hv : Conceals hidden v] : Conceals hidden (Substitution.codeOf s v) := by
  unfold Substitution.codeOf
  split
  next p =>
    have hp := h.out.promise p (conceals_promiseId.mp (conceals_promise.mp hv))
    infer_instance
  next => infer_instance

include hbound

theorem conceals_symbolValue (name : String) :
    Conceals hidden (Substitution.symbolValue s bound name) := by
  have hname := hbound name
  unfold Substitution.symbolValue
  split
  · infer_instance
  · infer_instance
  · infer_instance
  next v _ _ hv =>
    have hv : Conceals hidden v := .of_some hv
    infer_instance

omit h in
theorem conceals_entries (e : Expr) : Conceals hidden (Substitution.entries? bound e) := by
  have hdots := hbound dotsName
  unfold Substitution.entries?
  split
  · split
    next entries hv => exact conceals_some.mpr (conceals_dots.mp (.of_some hv))
    next => infer_instance
  · infer_instance

end Substitution

variable {bound : String → Option Value}

omit h in
mutual

theorem conceals_substitute [h : Conceals hidden s] (hbound : ∀ name, Conceals hidden (bound name))
    {e : Expr} (he : Conceals hidden e) :
    Conceals hidden (Substitution.substitute s bound e) := by
  match e with
  | .symbol name =>
      unfold Substitution.substitute
      exact conceals_symbolValue hbound name
  | .call head slots =>
      obtain ⟨hhead, hslots⟩ := conceals_call.mp he
      unfold Substitution.substitute
      exact conceals_call.mpr
        ⟨conceals_substitute hbound hhead, conceals_substituteSlots hbound hslots⟩
  | .formals items =>
      unfold Substitution.substitute
      exact conceals_formals.mpr (conceals_substituteFormals hbound (conceals_formals.mp he))
  | .const _ | .missing =>
      unfold Substitution.substitute
      exact he
termination_by structural e

theorem conceals_substituteSlots [h : Conceals hidden s]
    (hbound : ∀ name, Conceals hidden (bound name)) {slots : List (Tagged Expr)}
    (hslots : Conceals hidden slots) :
    Conceals hidden (Substitution.substituteSlots s bound slots) := by
  match slots with
  | [] =>
      unfold Substitution.substituteSlots
      infer_instance
  | ⟨tag, e⟩ :: rest =>
      obtain ⟨hitem, hrest⟩ := conceals_cons.mp hslots
      have hrest := conceals_substituteSlots hbound hrest
      have hitem := conceals_substitute hbound (conceals_tagged.mp hitem)
      unfold Substitution.substituteSlots
      split
      next entries hentries =>
        have hfound := conceals_entries hbound e
        have hentries : Conceals hidden entries := .of_some hentries
        have hmapped : Conceals hidden (entries.map (Tagged.map (Substitution.codeOf s))) :=
          conceals_map fun t ht =>
            have hitem := conceals_item.mpr ht
            conceals_tagged.mpr inferInstance
        infer_instance
      next => infer_instance
termination_by structural slots

theorem conceals_substituteFormals [h : Conceals hidden s]
    (hbound : ∀ name, Conceals hidden (bound name)) {items : List (String × Expr)}
    (hitems : Conceals hidden items) :
    Conceals hidden (Substitution.substituteFormals s bound items) := by
  match items with
  | [] =>
      unfold Substitution.substituteFormals
      infer_instance
  | (name, e) :: rest =>
      obtain ⟨hitem, hrest⟩ := conceals_cons.mp hitems
      unfold Substitution.substituteFormals
      exact conceals_cons.mpr
        ⟨conceals_pair.mpr ⟨inferInstance, conceals_substitute hbound (conceals_pair.mp hitem).2⟩,
          conceals_substituteFormals hbound hrest⟩
termination_by structural items

end

end Reads

/-! ## What is put into a store -/

section Changes

variable {s : Store} [h : Conceals hidden s]

theorem conceals_setVars (e : EnvId) {f : Bindings Value → Bindings Value}
    (hf : ∀ vars, Conceals hidden vars → Conceals hidden (f vars)) :
    Conceals hidden (s.setVars e f) := by
  cases e with
  | empty => exact h
  | scope i =>
      refine ⟨{ h.out with vars := fun j => ?_ }⟩
      change Conceals hidden ((s.setScope i _).scope j).vars
      rw [scope_setScope]
      split
      · exact hf _ inferInstance
      · infer_instance
  | bottom m =>
      refine ⟨{ h.out with maskVars := fun k => ?_, sources := fun k => ?_ }⟩
      · change Conceals hidden ((s.setMask m _).mask k).vars
        rw [mask_setMask]
        split
        · exact hf _ inferInstance
        · infer_instance
      · change Conceals hidden ((s.setMask m _).mask k).scopes
        rw [mask_setMask]
        split <;> infer_instance

instance (m : MaskId) (home : EnvId) : Conceals hidden (s.rechain m home) := by
  refine ⟨{ h.out with maskVars := fun k => ?_, sources := fun k => ?_ }⟩
  · change Conceals hidden ((s.setMask m _).mask k).vars
    rw [mask_setMask]
    split <;> infer_instance
  · change Conceals hidden ((s.setMask m _).mask k).scopes
    rw [mask_setMask]
    split <;> infer_instance

theorem conceals_addScope {scope : Scope} (hvars : Conceals hidden scope.vars) :
    Conceals hidden (s.addScope scope) := by
  refine ⟨{ h.out with vars := fun i => ?_ }⟩
  rw [scope_addScope]
  split
  · exact hvars
  · infer_instance

theorem conceals_addMask {mask : Mask} (hvars : Conceals hidden mask.vars)
    (hscopes : Conceals hidden mask.scopes) : Conceals hidden (s.addMask mask) := by
  refine ⟨{ h.out with maskVars := fun m => ?_, sources := fun m => ?_ }⟩
  · rw [mask_addMask]
    split
    · exact hvars
    · infer_instance
  · rw [mask_addMask]
    split
    · exact hscopes
    · infer_instance

theorem conceals_addPromise {q : Promise} (hcode : Conceals hidden q.code)
    (hprogress : Conceals hidden q.progress) : Conceals hidden (s.addPromise q) := by
  have hpromise (p : PromiseId) (hp : ¬ hidden p) :
      Conceals hidden ((s.addPromise q).promise p) := by
    rw [promise_addPromise]
    split
    · exact conceals_promised.mpr ⟨hcode, hprogress⟩
    · exact h.out.promise p hp
  simp only [addPromise, capture_eq] at hpromise ⊢
  exact ⟨{ h.out with promise := hpromise }⟩

theorem conceals_setPromise (p : PromiseId) {f : Promise → Promise}
    (hf : ∀ q, ¬ hidden p → Conceals hidden q → Conceals hidden (f q)) :
    Conceals hidden (s.setPromise p f) := by
  refine ⟨{ h.out with promise := fun q hq => ?_ }⟩
  rw [promise_setPromise]
  split
  next hsame =>
    have hpq : q = p := congrArg PromiseId.mk hsame.1
    exact hf _ (hpq ▸ hq) (h.out.promise q hq)
  next => exact h.out.promise q hq

theorem conceals_addClosure {c : Closure} (hc : Conceals hidden c) :
    Conceals hidden (s.addClosure c) := by
  refine ⟨{ h.out with closure := fun d => ?_ }⟩
  rw [closure_addClosure]
  split
  · exact ⟨hc.out⟩
  · exact h.out.closure d

theorem conceals_setClosure (c : ClosureId) (name : Closure → Option String) :
    Conceals hidden (s.setClosure c fun closure => { closure with name := name closure }) := by
  refine ⟨{ h.out with closure := fun d => ?_ }⟩
  rw [closure_setClosure]
  split
  · exact ⟨(h.out.closure d).out⟩
  · exact h.out.closure d

theorem conceals_addFailure {call : Option Expr} (hcall : Conceals hidden call) :
    Conceals hidden { s with failures := s.failures.push ⟨call, none⟩ } := by
  refine ⟨{ h.out with incident := fun f => ?_ }⟩
  change Conceals hidden ((s.failures.push _).getD f.index default)
  rw [getD_push]
  split
  · exact conceals_incident.mpr hcall
  · exact h.out.incident f

theorem conceals_setIncident (f : FailureRef) {g : Incident → Incident}
    (hg : ∀ i, Conceals hidden i → Conceals hidden (g i)) :
    Conceals hidden (s.setIncident f g) := by
  refine ⟨{ h.out with incident := fun f' => ?_ }⟩
  change Conceals hidden ((s.failures.modify f.index g).getD f'.index default)
  rw [getD_modify]
  split
  · exact hg _ (h.out.incident f')
  · exact h.out.incident f'

theorem conceals_setEvaluator (ctx : EvaluatorId) {f : Evaluator → Evaluator}
    (hf : ∀ e, Conceals hidden e.frames → Conceals hidden (f e).frames) :
    Conceals hidden (s.setEvaluator ctx f) := by
  refine ⟨{ h.out with evaluator := fun ctx' => ?_ }⟩
  rw [evaluator_setEvaluator]
  split
  · exact ⟨(hf _ inferInstance).out⟩
  · exact h.out.evaluator ctx'

end Changes

end Store

end Quasi
