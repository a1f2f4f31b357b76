import Quasi.Proofs.Hidden.Stores
import Quasi.Proofs.Unused.Stores

/-!
# Stores that differ in hidden promises

Two stores differ in hidden promises only if all else in them is the same, apart from details that
were logged and from what happened. They are veiled if all hidden promises exist and nothing
mentions them, so that all that is read from them is the same. Whatever is changed alike in both
leaves them veiled.
-/

namespace Quasi

variable {hidden : PromiseId → Prop}

/-- A log without what it says about details. -/
def notices (log : Array LogRecord) : List LogRecord :=
  log.toList.filter fun record => decide (record.level ≠ .debug)

theorem notices_push (log : Array LogRecord) (record : LogRecord) :
    notices (log.push record) = notices log ++ notices #[record] := by
  simp only [notices, Array.toList_push, List.filter_append]

namespace Store

/-- Two stores that differ in nothing but how far hidden promises have come, what was logged about
details and what happened. -/
structure HiddenApart (hidden : PromiseId → Prop) (s t : Store) : Prop extends s.SamePlaces t where
  size : t.promises.size = s.promises.size
  promise (p : PromiseId) : ¬ hidden p → t.promise p = s.promise p
  code (p : PromiseId) : (t.promise p).code = (s.promise p).code
  closures : t.closures = s.closures
  failures : t.failures = s.failures
  evaluators : t.evaluators = s.evaluators
  nextId : t.nextId = s.nextId
  settings : t.settings = s.settings
  verbose : t.verbose = s.verbose
  out : t.out = s.out
  err : t.err = s.err
  log : notices t.log = notices s.log
  recorded : t.recorded = s.recorded
  notes : t.notes = s.notes
  ticks : t.ticks = s.ticks

/-- Two stores that differ in hidden promises, which exist and are not mentioned. In the second one
they are what they are held to be. -/
structure Veiled (hidden : PromiseId → Prop) (held : PromiseId → Promise) (s t : Store) : Prop
    extends s.HiddenApart hidden t where
  made (p : PromiseId) : hidden p → p.index < s.promises.size
  held (p : PromiseId) : hidden p → t.promise p = held p
  conceals : Conceals hidden s

namespace HiddenApart

variable {s t u : Store}

theorem refl (s : Store) : s.HiddenApart hidden s :=
  ⟨⟨rfl, rfl⟩, rfl, fun _ _ => rfl, fun _ => rfl, rfl, rfl, rfl, rfl, rfl, rfl, rfl, rfl, rfl, rfl,
    rfl, rfl⟩

theorem trans (h : s.HiddenApart hidden t) (h' : t.HiddenApart hidden u) :
    s.HiddenApart hidden u where
  scopes := h'.scopes.trans h.scopes
  masks := h'.masks.trans h.masks
  size := h'.size.trans h.size
  promise p hp := (h'.promise p hp).trans (h.promise p hp)
  code p := (h'.code p).trans (h.code p)
  closures := h'.closures.trans h.closures
  failures := h'.failures.trans h.failures
  evaluators := h'.evaluators.trans h.evaluators
  nextId := h'.nextId.trans h.nextId
  settings := h'.settings.trans h.settings
  verbose := h'.verbose.trans h.verbose
  out := h'.out.trans h.out
  err := h'.err.trans h.err
  log := h'.log.trans h.log
  recorded := h'.recorded.trans h.recorded
  notes := h'.notes.trans h.notes
  ticks := h'.ticks.trans h.ticks

/-! ## What is read is the same -/

variable (h : s.HiddenApart hidden t)
include h

theorem closure : t.closure = s.closure := funext fun c => by
  simp only [Store.closure, h.closures]

theorem incident : t.incident = s.incident := funext fun f => by
  simp only [Store.incident, h.failures]

theorem evaluator : t.evaluator = s.evaluator := funext fun ctx => by
  simp only [Store.evaluator, h.evaluators]

theorem vars : t.vars = s.vars := funext fun e => by
  cases e <;> simp only [Store.vars, h.scope, h.mask]

theorem data? : t.data? = s.data? := by
  have hsource : t.dataSlot? = s.dataSlot? := by
    funext source name
    cases source <;> simp only [Store.dataSlot?, h.slot?]
  funext m name
  simp only [Store.data?, h.mask, hsource]

theorem envName? : t.envName? = s.envName? := funext fun e => by
  cases e <;> simp only [Store.envName?, h.scope]

theorem showEnv : t.showEnv = s.showEnv := funext fun e => by
  simp only [Store.showEnv, Store.label, h.envName?]

theorem showFailure : t.showFailure = s.showFailure := funext fun f => by
  simp only [Store.showFailure, h.incident]

theorem partOf : Machine.partOf t = Machine.partOf s := by
  funext v name
  simp only [Machine.partOf, h.closure, h.incident]

theorem callOf : Machine.callOf t = Machine.callOf s := by
  have hlabel : Machine.functionLabel t = Machine.functionLabel s := funext fun fn => by
    simp only [Machine.functionLabel, h.closure, h.envName?]
  funext fn args named
  simp only [Machine.callOf, hlabel]

theorem codeOf : Substitution.codeOf t = Substitution.codeOf s := funext fun v => by
  cases v <;> simp only [Substitution.codeOf, h.code]

end HiddenApart

/-! ## Substitution -/

section Substitution

variable {s t : Store} {bound : String → Option Value}

mutual

/-- What is substituted depends on the code of promises, however far they have come. -/
theorem substitute_congr (h : s.HiddenApart hidden t) (e : Expr) :
    Substitution.substitute t bound e = Substitution.substitute s bound e := by
  match e with
  | .symbol name =>
      unfold Substitution.substitute Substitution.symbolValue
      rw [h.codeOf]
  | .call head slots =>
      unfold Substitution.substitute
      rw [substitute_congr h head, substituteSlots_congr h slots]
  | .formals items =>
      unfold Substitution.substitute
      rw [substituteFormals_congr h items]
  | .const _ | .missing => unfold Substitution.substitute; rfl
termination_by structural e

theorem substituteSlots_congr (h : s.HiddenApart hidden t) (slots : List (Tagged Expr)) :
    Substitution.substituteSlots t bound slots = Substitution.substituteSlots s bound slots := by
  match slots with
  | [] => unfold Substitution.substituteSlots; rfl
  | ⟨tag, e⟩ :: rest =>
      unfold Substitution.substituteSlots
      rw [substitute_congr h e, substituteSlots_congr h rest, h.codeOf]
termination_by structural slots

theorem substituteFormals_congr (h : s.HiddenApart hidden t) (items : List (String × Expr)) :
    Substitution.substituteFormals t bound items = Substitution.substituteFormals s bound items := by
  match items with
  | [] => unfold Substitution.substituteFormals; rfl
  | (name, e) :: rest =>
      unfold Substitution.substituteFormals
      rw [substitute_congr h e, substituteFormals_congr h rest]
termination_by structural items

end

end Substitution

/-! ## Texts -/

namespace Veiled

variable {held : PromiseId → Promise} {s t : Store} (h : s.Veiled hidden held t)
include h

theorem inspect {v : Value} (hv : Conceals hidden v) (fuel : Nat) :
    t.inspect fuel v = s.inspect fuel v := by
  have hs := h.conceals
  induction fuel generalizing v with
  | zero => rfl
  | succ fuel ih =>
      have hslots {slots : List Slot} (hslots : Conceals hidden slots) (slot : Slot)
          (hmem : slot ∈ slots) : t.inspect fuel (.slot slot) = s.inspect fuel (.slot slot) :=
        ih (conceals_slot.mpr (hslots.mem hmem))
      have hitems {items : List Value} (hitems : Conceals hidden items) (x : Value)
          (hmem : x ∈ items) : t.inspect fuel x = s.inspect fuel x := ih (hitems.mem hmem)
      match v with
      | .code (.const v) =>
          simp only [Store.inspect, ih (conceals_const.mp (conceals_code.mp hv))]
      | .code (.call head slots) =>
          have hparts := conceals_call.mp (conceals_code.mp hv)
          simp only [Store.inspect, ih (conceals_code.mpr hparts.1)]
          exact mapM_bind_congr (hslots hparts.2) _
      | .code (.formals items) =>
          have hformals := conceals_formals.mp (conceals_code.mp hv)
          simp only [Store.inspect]
          refine mapM_bind_congr (fun item hmem => ?_) _
          rw [ih (conceals_code.mpr (conceals_pair.mp (hformals.mem hmem)).2)]
      | .slot slot =>
          simp only [Store.inspect, ih (conceals_code.mpr (conceals_item.mpr (conceals_slot.mp hv)))]
      | .list items =>
          have hlist := conceals_items.mp hv
          simp only [Store.inspect]
          split
          · refine mapM_bind_congr (fun x hmem => ?_) _
            rw [ih (conceals_item.mpr (hlist.mem hmem))]
          · exact mapM_bind_congr (fun x hmem => ih (conceals_item.mpr (hlist.mem hmem))) _
      | .sequence items => exact mapM_bind_congr (hitems (conceals_sequence.mp hv)) _
      | .tuple items => exact mapM_bind_congr (hitems (conceals_tuple.mp hv)) _
      | .mapping entries =>
          have hentries := conceals_mapping.mp hv
          simp only [Store.inspect]
          refine mapM_bind_congr (fun entry hmem => ?_) _
          rw [ih (conceals_pair.mp (hentries.mem hmem)).2]
      | .vec ⟨_, .objects xs⟩ =>
          have hxs : Conceals hidden xs := ⟨(conceals_vec.mp hv).out⟩
          simp only [Store.inspect]
          refine mapM_bind_congr (fun x hx => ?_) _
          rw [hitems hxs x hx]
      | .env e =>
          simp only [Store.inspect, h.chain, h.vars]
          refine mapM_bind_congr (fun env _ => ?_) _
          split
          · rfl
          · refine mapM_bind_congr (fun binding hmem => ?_) _
            have hvars : Conceals hidden (s.vars env) := inferInstance
            have hbinding := (conceals_pair.mp (hvars.mem hmem)).2
            rw [h.showEnv]
            split
            · rfl
            · rw [ih hbinding]
      | .quosure e env => simp only [Store.inspect, Store.showQuosure, h.showEnv]
      | .closure c => simp only [Store.inspect, h.closure]
      | .promise p =>
          have hp := conceals_promiseId.mp (conceals_promise.mp hv)
          simp only [Store.inspect, h.promise p hp]
      | .mask m => simp only [Store.inspect, h.dataNames]
      | .pronoun _ _ | .dots _
      | .code (.symbol _) | .code .missing | .vec ⟨_, .bools _⟩ | .vec ⟨_, .ints _⟩
      | .vec ⟨_, .words _⟩ | .vec ⟨_, .floats _⟩ | .vec ⟨_, .texts _ _⟩ | .null | .absent | .bool _
      | .int _ | .num _ | .nan _ | .str _ | .table _ | .builtin _ _ | .host _ | .failure _ => rfl

theorem displayVector {elements : Elements Value} (hv : Conceals hidden elements) (fuel : Nat) :
    t.displayVector fuel elements = s.displayVector fuel elements := by
  cases elements with
  | objects xs =>
      have hxs : Conceals hidden xs := ⟨hv.out⟩
      simp only [Store.displayVector]
      refine mapM_bind_congr (fun x hx => ?_) _
      rw [h.inspect (hxs.mem hx)]
  | _ => rfl

theorem plainText {v : Value} (hv : Conceals hidden v) (fuel : Nat) :
    t.plainText fuel v = s.plainText fuel v := by
  have hinspect := h.inspect hv fuel
  cases v with
  | vec v => exact h.displayVector (conceals_vector.mp (conceals_vec.mp hv)) fuel
  | closure c => simp only [Store.plainText, h.closure]
  | failure f => simp only [Store.plainText, h.showFailure]
  | env e => simp only [Store.plainText, h.showEnv]
  | code e => rfl
  | str text => rfl
  | _ => exact hinspect

theorem format {v : Value} (hv : Conceals hidden v) (fuel : Nat) :
    t.format fuel v = s.format fuel v := by
  induction fuel generalizing v with
  | zero => rfl
  | succ fuel ih =>
      have hplain := h.plainText hv fuel
      cases v with
      | list items =>
          have hlist := conceals_items.mp hv
          simp only [Store.format]
          refine mapM_bind_congr (fun x hmem => ?_) _
          rw [ih (conceals_item.mpr (hlist.mem hmem))]
      | vec v => exact h.displayVector (conceals_vector.mp (conceals_vec.mp hv)) fuel
      | failure f => simp only [Store.format, h.showFailure]
      | code e => cases e <;> rfl
      | null | absent | bool _ | int _ | num _ | nan _ | str _ => rfl
      | _ => exact hplain

theorem describe {v : Value} (hv : Conceals hidden v) :
    Machine.describe t v = Machine.describe s v := by
  have hinspect := h.inspect hv Run.showDepth
  cases v with
  | promise p => simp only [Machine.describe, h.code]
  | code e => rfl
  | _ => simp only [Machine.describe, hinspect]

end Veiled

/-! ## Changes that are made in both -/

namespace HiddenApart

variable {s t : Store} (h : s.HiddenApart hidden t)
include h

theorem history (a b : List Event) :
    { s with history := a }.HiddenApart hidden { t with history := b } := { h with }

theorem logged (record : LogRecord) :
    { s with log := s.log.push record }.HiddenApart hidden { t with log := t.log.push record } :=
  { h with log := by simp only [notices_push _ record, h.log] }

/-- Details may be logged in one of the stores only. -/
theorem detailed (message : String) :
    s.HiddenApart hidden { t with log := t.log.push ⟨.debug, message⟩ } :=
  { h with log := by rw [notices_push]; simpa [notices] using h.log }

theorem setVars (e : EnvId) (f : Bindings Value → Bindings Value) :
    (s.setVars e f).HiddenApart hidden (t.setVars e f) := by
  cases e with
  | empty => exact h
  | scope i => exact { h with scopes := by simp only [Store.setVars, setScope, h.scopes] }
  | bottom m => exact { h with masks := by simp only [Store.setVars, setMask, h.masks] }

theorem rechain (m : MaskId) (home : EnvId) :
    (s.rechain m home).HiddenApart hidden (t.rechain m home) :=
  { h with masks := by simp only [Store.rechain, Store.record, setMask, h.masks, h.known] }

theorem addScope (scope : Scope) : (s.addScope scope).HiddenApart hidden (t.addScope scope) :=
  { h with scopes := by simp only [Store.addScope, h.scopes, h.known] }

theorem addMask (mask : Mask) : (s.addMask mask).HiddenApart hidden (t.addMask mask) :=
  { h with masks := by simp only [Store.addMask, h.masks, h.known] }

theorem addPromise (q : Promise) : (s.addPromise q).HiddenApart hidden (t.addPromise q) := by
  have hread (p : PromiseId) : (t.addPromise q).promise p =
      if p.index = s.promises.size then { q with env := q.env.map s.known } else t.promise p := by
    rw [promise_addPromise, h.size, h.known]
  have hpromise (p : PromiseId) (hp : ¬ hidden p) :
      (t.addPromise q).promise p = (s.addPromise q).promise p := by
    rw [hread, promise_addPromise, h.promise p hp]
  have hcode (p : PromiseId) :
      ((t.addPromise q).promise p).code = ((s.addPromise q).promise p).code := by
    rw [hread, promise_addPromise]
    split
    · rfl
    · exact h.code p
  have hsize : (t.addPromise q).promises.size = (s.addPromise q).promises.size := by
    rw [size_addPromise, size_addPromise, h.size]
  simp only [Store.addPromise, capture_eq] at hpromise hcode hsize ⊢
  exact { h with promise := hpromise, code := hcode, size := hsize }

/-- A promise goes on in both stores. -/
theorem setPromise (p : PromiseId) {f : Promise → Promise} (hf : ∀ q, (f q).code = q.code) :
    (s.setPromise p f).HiddenApart hidden (t.setPromise p f) := by
  have hpromise (q : PromiseId) (hq : ¬ hidden q) :
      (t.setPromise p f).promise q = (s.setPromise p f).promise q := by
    rw [promise_setPromise, promise_setPromise, h.promise q hq, h.size]
  have hcode (q : PromiseId) :
      ((t.setPromise p f).promise q).code = ((s.setPromise p f).promise q).code := by
    rw [promise_setPromise, promise_setPromise, h.size]
    split
    · rw [hf, hf, h.code]
    · exact h.code q
  have hsize : (t.setPromise p f).promises.size = (s.setPromise p f).promises.size := by
    simpa only [Store.setPromise, Array.size_modify] using h.size
  exact { h with promise := hpromise, code := hcode, size := hsize }

/-- A hidden promise may go on in one of the stores only. -/
theorem setHidden {p : PromiseId} (hp : hidden p) {f : Promise → Promise}
    (hf : ∀ q, (f q).code = q.code) : s.HiddenApart hidden (t.setPromise p f) := by
  have hpromise (q : PromiseId) (hq : ¬ hidden q) :
      (t.setPromise p f).promise q = s.promise q := by
    have hne : ¬ (q.index = p.index ∧ p.index < t.promises.size) := fun hsame =>
      have hqp : q = p := congrArg PromiseId.mk hsame.1
      hq (hqp ▸ hp)
    rw [promise_setPromise, if_neg hne, h.promise q hq]
  have hcode (q : PromiseId) : ((t.setPromise p f).promise q).code = (s.promise q).code := by
    rw [promise_setPromise]
    split
    · rw [hf, h.code]
    · exact h.code q
  have hsize : (t.setPromise p f).promises.size = s.promises.size := by
    simpa only [Store.setPromise, Array.size_modify] using h.size
  exact { h with promise := hpromise, code := hcode, size := hsize }

theorem addClosure (c : Closure) : (s.addClosure c).HiddenApart hidden (t.addClosure c) :=
  { h with
    closures := by simp only [Store.addClosure, Store.capture, Store.record, h.closures, h.known] }

theorem setClosure (c : ClosureId) (f : Closure → Closure) :
    (s.setClosure c f).HiddenApart hidden (t.setClosure c f) :=
  { h with closures := congrArg (·.modify c.index f) h.closures }

theorem addFailure (incident : Incident) :
    { s with failures := s.failures.push incident }.HiddenApart hidden
      { t with failures := t.failures.push incident } :=
  { h with failures := congrArg (·.push incident) h.failures }

theorem setIncident (f : FailureRef) (g : Incident → Incident) :
    (s.setIncident f g).HiddenApart hidden (t.setIncident f g) :=
  { h with failures := congrArg (·.modify f.index g) h.failures }

theorem setEvaluator (ctx : EvaluatorId) (f : Evaluator → Evaluator) :
    (s.setEvaluator ctx f).HiddenApart hidden (t.setEvaluator ctx f) :=
  { h with evaluators := congrArg (·.modify ctx.index f) h.evaluators }

end HiddenApart

end Store

end Quasi
