import Quasi.Form.Assign
import Quasi.Form.Condition
import Quasi.Form.Lazy
import Quasi.Form.Member
import Quasi.Form.Quote
import Quasi.Proofs.Hidden.Calls

/-!
# Special forms to which hidden promises do not matter

Every special form, over a discreet machine. What a form tells about a promise, such as whether it
was supplied, it tells of promises that were mentioned.
-/

namespace Quasi

open Run (Discreet)
open Run.Discreet (andThen read of_modify mapM)

variable {hidden : PromiseId → Prop}

namespace Machine

variable {m : Machine} [m.IsDiscreet hidden] (ctx : EvaluatorId) (slots : List Slot)
  [hslots : Conceals hidden slots] (env : EnvId)

/-! ## Quoting forms -/

instance (e : Expr) [he : Conceals hidden e] : Discreet hidden (m.expandTemplate ctx env e) :=
  discreet_expandTemplate ctx env he

instance : Discreet hidden (m.expandList ctx env slots) := discreet_expandSlots ctx env hslots

instance (form : String) : Discreet hidden (single form slots) := by
  unfold single
  split
  next slot =>
    have hslot := (conceals_cons.mp hslots).1
    infer_instance
  · infer_instance

instance : Discreet hidden (quoteForm slots) := by
  unfold quoteForm
  exact andThen fun e _ => inferInstance

instance : Discreet hidden (m.templateForm ctx slots env) := by
  unfold templateForm
  exact andThen fun e _ => andThen fun e' _ => inferInstance

instance : Discreet hidden (m.quosureForm ctx slots env) := by
  unfold quosureForm
  exact andThen fun e _ => andThen fun e' _ => inferInstance

instance : Discreet hidden (m.templateSlots ctx slots env) := by
  unfold templateSlots
  infer_instance

instance : Discreet hidden (m.templatesForm ctx slots env) := by
  unfold templatesForm
  refine andThen fun items _ => ?_
  have hitems : Conceals hidden (items.map (Tagged.map Value.code)) :=
    conceals_map fun t _ => conceals_tagged.mpr inferInstance
  infer_instance

instance : Discreet hidden (m.quosuresForm ctx slots env) := by
  unfold quosuresForm
  refine andThen fun items _ => ?_
  have hitems : Conceals hidden (items.map (Tagged.map (quosureAround env))) :=
    conceals_map fun t _ => conceals_tagged.mpr inferInstance
  infer_instance

instance : Discreet hidden (m.capturedForm ctx slots env) := by
  unfold capturedForm
  exact andThen fun arg _ => andThen fun e _ => inferInstance

instance : Discreet hidden (m.capturedQuosureForm ctx slots env) := by
  unfold capturedQuosureForm
  exact andThen fun arg _ => inferInstance

omit hslots in
instance (form : String) : Discreet hidden (onlyDots form slots) := by
  unfold onlyDots
  split
  · split <;> infer_instance
  · infer_instance

omit hslots in
instance : Discreet hidden (m.capturedDotsForm ctx slots env) := by
  unfold capturedDotsForm
  refine andThen fun _ _ => andThen fun entries hentries => ?_
  have hcaptured : Discreet hidden
      (captureDots (fun v => do pure (.code (← m.codeOf ctx v))) entries) :=
    discreet_captureDots (fun v _ => andThen fun e _ => inferInstance) hentries
  exact andThen fun items _ => inferInstance

omit hslots in
instance : Discreet hidden (m.capturedQuosuresForm ctx slots env) := by
  unfold capturedQuosuresForm
  refine andThen fun _ _ => andThen fun entries hentries => ?_
  have hcaptured : Discreet hidden (captureDots (m.quosureOf ctx) entries) :=
    discreet_captureDots (fun v _ => inferInstance) hentries
  exact andThen fun items _ => inferInstance

instance : Discreet hidden (m.substituteForm ctx slots env) := by
  unfold substituteForm
  refine andThen fun matched _ => ?_
  have hexpr : Conceals hidden ((matched.get? "expr").getD .missing) := inferInstance
  have hsource : Conceals hidden ((matched.get? "env").getD .missing) := inferInstance
  split
  · infer_instance
  · exact andThen fun e _ => inferInstance
  · exact andThen fun source _ => andThen fun e _ => inferInstance

omit hslots in
instance (name : String) : Discreet hidden (outsideTemplate name) := by
  unfold outsideTemplate
  infer_instance

/-! ## Assignment forms -/

instance (target : Expr) : Discreet hidden (assignmentTarget target) := by
  unfold assignmentTarget
  split <;> infer_instance

instance (v : Value) (name : String) : Discreet hidden (nameClosure v name) := by
  unfold nameClosure
  split
  · exact of_modify fun h =>
      have hs := h.conceals
      h.of_apart (Nat.le_refl _) (h.toHiddenApart.setClosure ..) (fun _ _ => rfl)
        (Store.conceals_setClosure ..)
  · infer_instance

instance : Discreet hidden (m.assignment ctx slots env) := by
  unfold assignment
  split
  next target value =>
    have hvalue := (conceals_cons.mp (conceals_cons.mp hslots).2).1
    exact andThen fun name _ => andThen fun v _ => inferInstance
  · infer_instance

instance : Discreet hidden (m.assignForm ctx slots env) := by
  unfold assignForm
  refine andThen fun assigned hassigned => ?_
  have hv := (conceals_pair.mp hassigned).2
  infer_instance

instance : Discreet hidden (m.superAssignForm ctx slots env) := by
  unfold superAssignForm
  refine andThen fun assigned hassigned => ?_
  have hv := (conceals_pair.mp hassigned).2
  have hlast (above : Option EnvId) : Discreet hidden (do
      match above, ((← get).evaluator ctx).globalEnv with
      | some place, _ => Run.define place assigned.1 assigned.2
      | none, some global => Run.define global assigned.1 assigned.2
      | none, none => Run.fail (.binding (.noGlobal assigned.1))
      pure assigned.2 : Run Value) := by
    refine read (fun h => by rw [h.evaluator]) fun s _ => ?_
    split <;> infer_instance
  refine read (fun h => by rw [h.parent?]) fun s _ => ?_
  split <;> infer_instance

/-! ## Control forms -/

instance : Discreet hidden (m.blockForm ctx env slots) := by
  revert hslots
  induction slots with
  | nil =>
      intro _
      unfold blockForm
      infer_instance
  | cons slot rest ih =>
      intro hslots
      obtain ⟨hslot, hrest⟩ := conceals_cons.mp hslots
      cases rest with
      | nil => unfold blockForm; infer_instance
      | cons next rest =>
          unfold blockForm
          exact andThen fun _ _ => inferInstance

instance : Discreet hidden (m.parenForm ctx slots env) := by
  unfold parenForm
  split
  next slot =>
    have hslot := (conceals_cons.mp hslots).1
    infer_instance
  · infer_instance

instance (form : String) (e : Expr) [Conceals hidden e] :
    Discreet hidden (m.conditionOf ctx form e env) := by
  unfold conditionOf
  exact andThen fun v _ => inferInstance

instance : Discreet hidden (m.ifForm ctx slots env) := by
  unfold ifForm
  split
  next test yes =>
    obtain ⟨htest, hrest⟩ := conceals_cons.mp hslots
    have hyes := (conceals_cons.mp hrest).1
    infer_instance
  next test yes no =>
    obtain ⟨htest, hrest⟩ := conceals_cons.mp hslots
    obtain ⟨hyes, hrest⟩ := conceals_cons.mp hrest
    have hno := (conceals_cons.mp hrest).1
    infer_instance
  · infer_instance

instance : Discreet hidden (m.andForm ctx slots env) := by
  unfold andForm
  split
  next a b =>
    obtain ⟨ha, hrest⟩ := conceals_cons.mp hslots
    have hb := (conceals_cons.mp hrest).1
    infer_instance
  · infer_instance

instance : Discreet hidden (m.orForm ctx slots env) := by
  unfold orForm
  split
  next a b =>
    obtain ⟨ha, hrest⟩ := conceals_cons.mp hslots
    have hb := (conceals_cons.mp hrest).1
    infer_instance
  · infer_instance

instance : Discreet hidden (m.returnForm ctx slots env) := by
  unfold returnForm
  extract_lets last
  have hlast (v : Value) (hv : Conceals hidden v) : Discreet hidden (last v) := by
    unfold last
    refine andThen fun target _ => ?_
    split <;> infer_instance
  clear_value last
  split
  · infer_instance
  · split
    next slot _ =>
      have hslot := (conceals_cons.mp hslots).1
      exact andThen hlast
    · exact andThen hlast

instance : Discreet hidden (functionForm slots env) := by
  unfold functionForm
  split
  · infer_instance
  next first body =>
    obtain ⟨hfirst, hbody⟩ := conceals_cons.mp hslots
    have hitem : Conceals hidden first.item := inferInstance
    extract_lets last
    have hlast (formals : List (String × Expr)) (hformals : Conceals hidden formals) :
        Discreet hidden (last formals) := by
      have hclosure : Conceals hidden (⟨formals, bodyOf body, env, none⟩ : Closure) :=
        ⟨hformals.out, (inferInstance : Conceals hidden (bodyOf body)).out⟩
      unfold last
      infer_instance
    clear_value last
    split
    next items hitems =>
      have hitems := conceals_formals.mp (hitems ▸ hitem)
      exact andThen hlast
    · exact andThen hlast
    · exact andThen fun formals hformals => hlast formals hformals

instance : Discreet hidden (m.localForm ctx slots env) := by
  unfold localForm
  refine andThen fun matched _ => ?_
  split
  · infer_instance
  next expr hexpr =>
    have hexpr : Conceals hidden expr := .of_some hexpr
    split
    next e he =>
      have he : Conceals hidden e := .of_some he
      refine andThen fun place _ => ?_
      split <;> infer_instance
    · infer_instance

/-! ## Condition forms -/

instance (e : Option Expr) (default : Bool) [he : Conceals hidden e] :
    Discreet hidden (m.exitFlag ctx e env default) := by
  unfold exitFlag
  split
  · infer_instance
  · infer_instance
  next e _ =>
    have he := conceals_some.mp he
    infer_instance

omit hslots in
instance (e : Expr) (add after : Bool) [he : Conceals hidden e] :
    Conceals hidden (exitRegistration? e env add after) := by
  unfold exitRegistration?
  split
  · split
    · infer_instance
    · exact conceals_some.mpr ⟨trivial⟩
  · exact conceals_some.mpr ⟨he.out⟩

instance : Discreet hidden (m.onExitForm ctx slots env) := by
  unfold onExitForm
  refine andThen fun matched _ => andThen fun add _ => andThen fun after _ =>
    andThen fun frame _ => ?_
  split
  · infer_instance
  · have hregistration : Conceals hidden
        (exitRegistration? ((matched.get? "expr").getD .missing) env add after) := inferInstance
    split
    · infer_instance
    next r hr =>
      have hr : Conceals hidden r := .of_some hr
      infer_instance

instance : Mention TryParts where
  conceals hidden parts := Mention.conceals hidden parts.body ∧ Mention.conceals hidden parts.last ∧
    Mention.conceals hidden parts.handlers

theorem conceals_tryParts {body last : Option Expr} {handlers : List (String × Expr)} :
    Conceals hidden (⟨body, last, handlers⟩ : TryParts) ↔
      Conceals hidden body ∧ Conceals hidden last ∧ Conceals hidden handlers :=
  ⟨fun h => ⟨⟨h.out.1⟩, ⟨h.out.2.1⟩, ⟨h.out.2.2⟩⟩, fun h => ⟨⟨h.1.out, h.2.1.out, h.2.2.out⟩⟩⟩

instance (parts : TryParts) [hparts : Conceals hidden parts] :
    Discreet hidden (tryParts slots parts) := by
  revert hslots hparts
  induction slots generalizing parts with
  | nil =>
      intro _ hparts
      obtain ⟨hbody, hlast, hhandlers⟩ := conceals_tryParts.mp hparts
      have hreversed : Conceals hidden { parts with handlers := parts.handlers.reverse } :=
        conceals_tryParts.mpr ⟨hbody, hlast, inferInstance⟩
      unfold tryParts
      infer_instance
  | cons slot rest ih =>
      intro hslots hparts
      obtain ⟨hbody, hlast, hhandlers⟩ := conceals_tryParts.mp hparts
      obtain ⟨hslot, hrest⟩ := conceals_cons.mp hslots
      have he : Conceals hidden slot.item := inferInstance
      have hnext (parts : TryParts) (hparts : Conceals hidden parts) := ih parts
      have hwithBody := hnext { parts with body := some slot.item }
        (conceals_tryParts.mpr ⟨inferInstance, hlast, hhandlers⟩)
      have hwithLast := hnext { parts with last := some slot.item }
        (conceals_tryParts.mpr ⟨hbody, inferInstance, hhandlers⟩)
      have hwithHandler (name : String) := hnext
        { parts with handlers := (name, slot.item) :: parts.handlers }
        (conceals_tryParts.mpr ⟨hbody, hlast, inferInstance⟩)
      unfold tryParts
      split
      · split
        · infer_instance
        · exact hwithBody
      · split
        · exact hwithLast
        · split
          · exact hwithBody
          · exact hwithHandler _

omit hslots in
instance (handlers : List (String × Expr)) [hhandlers : Conceals hidden handlers] :
    Discreet hidden (m.evalHandlers ctx env handlers) := by
  revert hhandlers
  induction handlers with
  | nil =>
      intro _
      unfold evalHandlers
      infer_instance
  | cons handler rest ih =>
      intro hhandlers
      obtain ⟨hhandler, hrest⟩ := conceals_cons.mp hhandlers
      have he : Conceals hidden handler.2 := (conceals_pair.mp hhandler).2
      unfold evalHandlers
      exact andThen fun v _ => andThen fun others _ => inferInstance

omit hslots in
instance (handlers : List (String × Value)) (body : Expr) [hhandlers : Conceals hidden handlers]
    [Conceals hidden body] : Discreet hidden (m.guarded ctx env handlers body) := by
  have hhandler (f : FailureRef) : Discreet hidden (match handlers.find? fun handler =>
      f.cause.classes.contains handler.1 with
      | none => Run.raise (.failure f)
      | some (name, handler) => do
          Run.trace fun _ => s!"tryCatch handler `{name}` caught " ++ f.cause.typeName
          m.call ctx handler [.failure f] [] env) := by
    split
    · infer_instance
    next name handler hfound =>
      have hpair := hhandlers.mem (List.mem_of_find?_eq_some hfound)
      have hhandler := (conceals_pair.mp hpair).2
      infer_instance
  unfold guarded
  infer_instance

instance : Discreet hidden (m.tryCatchForm ctx slots env) := by
  have hempty : Conceals hidden ({} : TryParts) :=
    conceals_tryParts.mpr ⟨inferInstance, inferInstance, inferInstance⟩
  unfold tryCatchForm
  refine andThen fun parts hparts => ?_
  obtain ⟨hbody, hlast, hhandlers⟩ := conceals_tryParts.mp hparts
  refine andThen fun handlers _ => ?_
  have hguarded : Discreet hidden (match parts.body with
      | none => pure .null
      | some body => m.guarded ctx env handlers body : Run Value) := by
    split
    · infer_instance
    next body hfound =>
      have hbody : Conceals hidden body := .of_some hfound
      infer_instance
  dsimp only
  split
  · exact hguarded
  next last hfound =>
    have hlast : Conceals hidden last := .of_some hfound
    have hrun : Discreet hidden (do let _ ← m.eval ctx last env : Run Unit) :=
      andThen fun _ _ => inferInstance
    infer_instance

/-! ## Laziness forms -/

/-- Whether a binding was supplied is seen from promises that it mentions. -/
theorem isMissing?_congr {held : PromiseId → Promise} {s t : Store}
    (h : s.Veiled hidden held t) (steps : Nat) {v : Value}
    (hv : Conceals hidden v) : isMissing? t steps v = isMissing? s steps v := by
  have hs := h.conceals
  induction steps generalizing v with
  | zero => rfl
  | succ steps ih =>
      cases v with
      | promise p =>
          have hp := conceals_promiseId.mp (conceals_promise.mp hv)
          simp only [isMissing?, h.promise p hp, h.slot?]
          split
          · rfl
          · split
            · rfl
            · rfl
            · rfl
            next name env _ _ _ =>
              split
              next v hslot =>
                have hv : Conceals hidden v := .of_some hslot
                exact ih hv
              · rfl
            · rfl
      | code e => cases e <;> rfl
      | _ => rfl

omit hslots in
instance (v : Value) [hv : Conceals hidden v] : Discreet hidden (isMissing v) := by
  unfold isMissing
  refine read (fun h => by simp only [h.size, isMissing?_congr h _ hv]) fun s _ => ?_
  split <;> infer_instance

omit hslots in
instance : Discreet hidden (missingForm slots env) := by
  unfold missingForm
  split
  · refine read (fun h => by rw [h.slot?]) fun s hs => ?_
    split
    next v hslot =>
      have hv : Conceals hidden v := .of_some hslot
      infer_instance
    · infer_instance
  · infer_instance

omit hslots in
instance (e : Option Expr) [he : Conceals hidden e] :
    Discreet hidden (m.environmentSlot ctx e env) := by
  unfold environmentSlot
  split
  next e _ =>
    have he := conceals_some.mp he
    infer_instance
  · infer_instance

instance : Discreet hidden (m.delayedAssignForm ctx slots env) := by
  unfold delayedAssignForm
  refine andThen fun matched _ => ?_
  split
  next x code hx hcode =>
    have hx : Conceals hidden x := .of_some hx
    have hcode : Conceals hidden code := .of_some hcode
    refine andThen fun v _ => ?_
    extract_lets last
    have hlast (name : String) : Discreet hidden (last name) := by
      unfold last
      refine andThen fun evalEnv _ => andThen fun assignEnv _ => ?_
      split
      · exact andThen fun p _ => inferInstance
      · infer_instance
    clear_value last
    split <;> infer_instance
  · infer_instance

/-! ## Member access -/

omit hslots in
instance (target : Value) (name : String) [htarget : Conceals hidden target] :
    Discreet hidden (m.getMember target name) := by
  unfold getMember
  split
  case h_2 mask => exact read (fun h => by rw [h.mask]) fun s _ => inferInstance
  case h_3 env =>
    refine read (fun h => by rw [h.slot?]) fun s hs => ?_
    split
    · infer_instance
    next v hslot =>
      have hv : Conceals hidden v := .of_some hslot
      exact andThen fun v _ => inferInstance
  case h_4 items =>
    have hitems := conceals_items.mp htarget
    infer_instance
  case h_5 entries =>
    have hentries := conceals_mapping.mp htarget
    infer_instance
  case h_13 => exact read (fun h => by rw [h.partOf]) fun s _ => inferInstance
  all_goals infer_instance

instance : Discreet hidden (m.memberForm ctx slots env) := by
  unfold memberForm
  split
  next target name =>
    obtain ⟨htarget, hrest⟩ := conceals_cons.mp hslots
    refine andThen fun v _ => ?_
    split <;> infer_instance
  · infer_instance

end Machine

end Quasi
