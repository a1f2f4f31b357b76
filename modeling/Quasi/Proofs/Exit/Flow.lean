import Mathlib.Data.List.Forall2
import Quasi.Proofs.Exit.Order
import Quasi.Proofs.Flow.Evaluation
import Quasi.Proofs.Return.Inside

/-!
# The flow of exit actions

The exit actions of a frame are what the registrations on it lead to, whatever is evaluated in
between: numbers of frames are never used again, and a call takes the exit actions of its own frame
only, right before the frame is popped.
-/

namespace Quasi

/-- What was registered on a frame. -/
def Event.registration? (ctx : EvaluatorId) (id : Nat) : Event → Option Registration
  | .registered c i r => if c = ctx ∧ i = id then some r else none
  | _ => none

namespace Store

/-- All that was registered on a frame, in order. -/
def registrations (s : Store) (ctx : EvaluatorId) (id : Nat) : List Registration :=
  (s.history.filterMap (Event.registration? ctx id)).reverse

variable (s : Store) (ctx : EvaluatorId) (id : Nat)

theorem registrations_record {event : Event} (h : event.registration? ctx id = none) :
    (s.record event).registrations ctx id = s.registrations ctx id := by
  simp only [registrations, record, List.filterMap_cons, h]

theorem registrations_register (c : EvaluatorId) (i : Nat) (r : Registration) :
    (s.register c i r).registrations ctx id =
      s.registrations ctx id ++ if c = ctx ∧ i = id then [r] else [] := by
  by_cases h : c = ctx ∧ i = id
  · have hevent : Event.registration? ctx id (.registered c i r) = some r := if_pos h
    simp only [registrations, register, record, List.filterMap_cons, hevent, if_pos h,
      List.reverse_cons]
    rfl
  · have hevent : Event.registration? ctx id (.registered c i r) = none := if_neg h
    rw [register, registrations_record _ _ _ hevent, if_neg h, List.append_nil]
    rfl

end Store

/-- A frame after some registrations. The exit actions are told by what was registered on it in
between, provided that its number was given to it in the beginning already. -/
structure Registered (s t : Store) (ctx : EvaluatorId) (f f' : Frame) : Prop where
  bare : f'.bare = f.bare
  exits : ∃ rs, t.registrations ctx f.id = s.registrations ctx f.id ++ rs ∧
    (f.id < s.nextId → f'.handlers = Registration.applyAll rs f.handlers)

namespace Registered

variable {s t u : Store} {ctx : EvaluatorId} {f f' f'' : Frame}

theorem id_eq (h : Registered s t ctx f f') : f'.id = f.id :=
  show f'.bare.id = f.bare.id from congrArg Frame.id h.bare

theorem of_same (h : t.registrations ctx f.id = s.registrations ctx f.id) :
    Registered s t ctx f f := ⟨rfl, [], by rw [h, List.append_nil], fun _ => rfl⟩

theorem trans (hnext : s.nextId ≤ t.nextId) (h : Registered s t ctx f f')
    (h' : Registered t u ctx f' f'') : Registered s u ctx f f'' := by
  obtain ⟨rs, hrs, hexits⟩ := h.exits
  obtain ⟨later, hlater, hexits'⟩ := h'.exits
  rw [h.id_eq, hrs, List.append_assoc] at hlater
  refine ⟨h'.bare.trans h.bare, rs ++ later, hlater, fun hf => ?_⟩
  have hf' : f'.id < t.nextId := by
    have hid := h.id_eq
    omega
  rw [hexits' hf', hexits hf, Registration.applyAll_append]

/-- Registrations up to some moment tell no more and no less if none are made afterwards. -/
theorem mono (h : Registered s t ctx f f')
    (hsame : u.registrations ctx f.id = t.registrations ctx f.id) : Registered s u ctx f f' :=
  ⟨h.bare, h.exits.imp fun _ hrs => ⟨hsame.trans hrs.1, hrs.2⟩⟩

end Registered

/-- The frames of an evaluator, which are those that there were. -/
abbrev SameFrames (s t : Store) (ctx : EvaluatorId) (before after : List Frame) : Prop :=
  List.Forall₂ (Registered s t ctx) before after

namespace SameFrames

variable {s t u : Store} {ctx : EvaluatorId} {before between after : List Frame}

theorem of_same (frames : List Frame)
    (h : ∀ id, t.registrations ctx id = s.registrations ctx id) :
    SameFrames s t ctx frames frames := List.forall₂_same.mpr fun f _ => .of_same (h f.id)

theorem trans (hnext : s.nextId ≤ t.nextId) (h : SameFrames s t ctx before between)
    (h' : SameFrames t u ctx between after) : SameFrames s u ctx before after := by
  induction h generalizing after with
  | nil => cases h'; exact .nil
  | cons hf _ ih =>
      cases h' with
      | cons hf' hrest => exact .cons (hf.trans hnext hf') (ih hrest)

theorem mono (h : SameFrames s t ctx before after)
    (hsame : ∀ id, u.registrations ctx id = t.registrations ctx id) :
    SameFrames s u ctx before after := h.imp fun f _ hf => hf.mono (hsame f.id)

/-- A change of the exit actions of a frame is none of those that have other numbers. -/
theorem setHandlers {id : Nat} (h : SameFrames s t ctx before after) (hid : s.nextId ≤ id)
    (g : List ExitAction → List ExitAction) : SameFrames s t ctx before
      (after.map fun f => if f.id = id then { f with handlers := g f.handlers } else f) := by
  rw [SameFrames, List.forall₂_map_right_iff]
  refine h.imp fun f f' hf => ?_
  have hfid := hf.id_eq
  split
  next hid' => exact ⟨hf.bare, hf.exits.imp fun _ hrs => ⟨hrs.1, fun hlt => by omega⟩⟩
  next => exact hf

end SameFrames

/-- What a run does to frames: those that were there stay, and their exit actions are told by what
was registered on them. -/
structure ExitStep (s t : Store) : Prop where
  nextId : s.nextId ≤ t.nextId
  frames : ∀ ctx, SameFrames s t ctx (s.evaluator ctx).frames (t.evaluator ctx).frames

namespace ExitStep

variable {s t u : Store} {ctx : EvaluatorId}

theorem trans (h : ExitStep s t) (h' : ExitStep t u) : ExitStep s u where
  nextId := Nat.le_trans h.nextId h'.nextId
  frames ctx := (h.frames ctx).trans h.nextId (h'.frames ctx)

theorem of_frames (hnext : s.nextId ≤ t.nextId)
    (hframes : ∀ ctx, (t.evaluator ctx).frames = (s.evaluator ctx).frames)
    (hsame : ∀ ctx id, t.registrations ctx id = s.registrations ctx id) : ExitStep s t :=
  ⟨hnext, fun ctx => hframes ctx ▸ .of_same _ (hsame ctx)⟩

theorem of_evaluators (hnext : s.nextId ≤ t.nextId) (hevaluators : t.evaluators = s.evaluators)
    (hsame : ∀ ctx id, t.registrations ctx id = s.registrations ctx id) : ExitStep s t :=
  of_frames hnext (fun ctx => by simp only [Store.evaluator, hevaluators]) hsame

theorem of_aside (h : s.Aside t) : ExitStep s t :=
  of_evaluators h.nextId h.evaluators fun _ _ => by simp only [Store.registrations, h.history]

theorem of_newEvaluator (s : Store) (globalEnv : Option EnvId) (maxDepth : Int) :
    ExitStep s { s with evaluators := s.evaluators.push ⟨globalEnv, maxDepth, [], 0, []⟩ } := by
  refine of_frames (Nat.le_refl _) (fun ctx => ?_) fun _ _ => rfl
  rw [Store.evaluator_push]
  split
  next h => simp [Store.evaluator, Array.getD, h, Inhabited.default]
  next => rfl

theorem of_setEvaluator {f : Evaluator → Evaluator}
    (h : (f (s.evaluator ctx)).frames = (s.evaluator ctx).frames) :
    ExitStep s (s.setEvaluator ctx f) := by
  refine of_frames (Nat.le_refl _) (fun c => ?_) fun _ _ => rfl
  rw [Store.evaluator_setEvaluator]
  split
  next hc => rw [h, hc.1]
  next => rfl

theorem register (s : Store) (ctx : EvaluatorId) (id : Nat) (r : Registration) :
    ExitStep s (s.register ctx id r) := by
  refine ⟨Nat.le_refl _, fun c => ?_⟩
  have hframes : ((s.register ctx id r).evaluator c).frames =
      (if c = ctx ∧ ctx.index < s.evaluators.size then (s.evaluator ctx).setHandlers id r.apply
        else s.evaluator c).frames :=
    congrArg Evaluator.frames (s.evaluator_setEvaluator ctx _ c)
  rw [hframes]
  split
  next hc =>
      rw [hc.1, Evaluator.setHandlers, SameFrames, List.forall₂_map_right_iff, List.forall₂_same]
      intro f _
      have hregistered := s.registrations_register ctx f.id ctx id r
      split
      next hf =>
          rw [if_pos ⟨rfl, hf.symm⟩] at hregistered
          exact ⟨rfl, [r], hregistered, fun _ => rfl⟩
      next hf =>
          rw [if_neg fun h => hf h.2.symm] at hregistered
          exact ⟨rfl, [], hregistered, fun _ => rfl⟩
  next hc =>
      -- an evaluator that does not exist has no frames
      refine List.forall₂_same.mpr fun f hf => .of_same ?_
      have hother : c ≠ ctx := by
        rintro rfl
        have hnone : ¬ c.index < s.evaluators.size := fun h => hc ⟨rfl, h⟩
        simp [Store.evaluator, Array.getD, hnone, Inhabited.default] at hf
      rw [s.registrations_register, if_neg fun h => hother h.1.symm, List.append_nil]

end ExitStep

/-- Runs change exit actions by registrations only. -/
def Flow.exits : Flow where
  Keeps := ExitStep
  Lost _ _ := True
  refl _ := .of_evaluators (Nat.le_refl _) rfl fun _ _ => rfl
  trans := .trans
  lost_trans _ _ := trivial
  astray _ := trivial
  aside := .of_aside
  failure _ _ := .of_evaluators (Nat.le_refl _) rfl fun _ _ => rfl
  noted _ _ _ _ _ := .of_evaluators (Nat.le_refl _) rfl fun _ _ => rfl
  scope _ _ := .of_evaluators (Nat.le_refl _) rfl fun _ _ => rfl
  mask _ _ := .of_evaluators (Nat.le_refl _) rfl fun _ _ => rfl
  promise s p _ := by
    cases h : p.env <;> simp only [Store.addPromise, h, Option.map] <;>
      exact .of_evaluators (Nat.le_refl _) rfl fun _ _ => rfl
  closure _ _ := .of_evaluators (Nat.le_refl _) rfl fun _ _ => rfl
  used _ _ := .of_evaluators (Nat.le_refl _) rfl fun _ _ => rfl
  evaluator := .of_newEvaluator
  vars _ e _ := by cases e <;> exact .of_evaluators (Nat.le_refl _) rfl fun _ _ => rfl
  closureName _ _ _ := .of_evaluators (Nat.le_refl _) rfl fun _ _ => rfl
  registered := .register

/-! ## Calls -/

/-- The store in the course of a call: on top of the frames that there were is the frame of the
call, which has a number of its own. -/
structure InCall (s u : Store) (ctx : EvaluatorId) (id : Nat) : Prop where
  fresh : s.nextId ≤ id
  given : id < u.nextId
  top : ∃ frame rest, frame.id = id ∧ (u.evaluator ctx).frames = frame :: rest ∧
    SameFrames s u ctx (s.evaluator ctx).frames rest
  others : ∀ c, c ≠ ctx → SameFrames s u c (s.evaluator c).frames (u.evaluator c).frames

namespace InCall

variable {s u v : Store} {ctx : EvaluatorId} {id : Nat}

theorem nextId_le (h : InCall s u ctx id) : s.nextId ≤ u.nextId := by
  have hfresh := h.fresh
  have hgiven := h.given
  omega

theorem step (h : InCall s u ctx id) (hu : ExitStep u v) : InCall s v ctx id where
  fresh := h.fresh
  given := Nat.lt_of_lt_of_le h.given hu.nextId
  top := by
    obtain ⟨frame, rest, hid, hframes, hrest⟩ := h.top
    have hstep := hu.frames ctx
    rw [hframes] at hstep
    obtain ⟨frame', rest', hframe, hrest', heq⟩ := List.forall₂_cons_left_iff.mp hstep
    exact ⟨frame', rest', hframe.id_eq.trans hid, heq, hrest.trans h.nextId_le hrest'⟩
  others c hc := (h.others c hc).trans h.nextId_le (hu.frames c)

/-- Only the frame of the call loses its exit actions when they are taken. -/
theorem take (h : InCall s u ctx id) :
    InCall s (u.setEvaluator ctx fun e => e.setHandlers id fun _ => []) ctx id := by
  obtain ⟨frame, rest, hid, hframes, hrest⟩ := h.top
  have hctx : ctx.index < u.evaluators.size := by
    refine Decidable.byContradiction fun hnone => ?_
    simp [Store.evaluator, Array.getD, hnone, Inhabited.default] at hframes
  refine ⟨h.fresh, h.given, ⟨{ frame with handlers := [] }, _, hid, ?_,
    (hrest.setHandlers h.fresh fun _ => []).mono fun _ => rfl⟩, fun c hc => ?_⟩
  · rw [Store.evaluator_setEvaluator, if_pos ⟨rfl, hctx⟩, Evaluator.setHandlers, hframes,
      List.map_cons, if_pos hid]
  · rw [Store.evaluator_setEvaluator, if_neg fun h => hc h.1]
    exact (h.others c hc).mono fun _ => rfl

/-- Pushing a frame enters a call. -/
theorem of_pushFrame {call : Expr} {env : EnvId} {function : Option ClosureId}
    {caller : Option EnvId} {handlers : List ExitAction}
    (h : ¬ (s.evaluator ctx).maxDepth ≤ (s.evaluator ctx).depth)
    (hu : (Pushed.store { s with nextId := s.nextId + 1 } ctx
      ⟨s.nextId, call, env, function, caller, handlers⟩).Aside u) : InCall s u ctx s.nextId := by
  have hctx : ctx.index < s.evaluators.size := Pushed.index_lt_of_depth_lt h
  let numbered : Store := { s with nextId := s.nextId + 1 }
  let frame : Frame := ⟨s.nextId, call, env, function, caller, handlers⟩
  have hevaluator (c : EvaluatorId) :
      (Pushed.store numbered ctx frame).evaluator c = if c = ctx then
        { s.evaluator ctx with
          frames := frame :: (s.evaluator ctx).frames, depth := (s.evaluator ctx).depth + 1 }
      else s.evaluator c := Pushed.evaluator_store numbered frame hctx c
  have hpushed : InCall s (Pushed.store numbered ctx frame) ctx s.nextId := by
    refine ⟨Nat.le_refl _, Nat.lt_succ_self _, ⟨frame, (s.evaluator ctx).frames, rfl, ?_, ?_⟩, ?_⟩
    · rw [hevaluator, if_pos rfl]
    · exact .of_same _ fun _ => rfl
    · intro c hc
      rw [hevaluator, if_neg hc]
      exact .of_same _ fun _ => rfl
  exact hpushed.step (.of_aside hu)

/-- Popping the frame leaves the frames that there were. -/
theorem popFrame (h : InCall s u ctx id) :
    ∃ v, Machine.popFrame ctx id u = .ok ⟨⟩ v ∧ ExitStep s v := by
  obtain ⟨frame, rest, rfl, hframes, hrest⟩ := h.top
  obtain ⟨v, hv, haside⟩ := popFrame_eq_ok hframes
  have hctx : ctx.index < u.evaluators.size := by
    refine Decidable.byContradiction fun hnone => ?_
    simp [Store.evaluator, Array.getD, hnone, Inhabited.default] at hframes
  have hpopped : ExitStep s (Popped.store u ctx rest) := by
    refine ⟨h.nextId_le, fun c => ?_⟩
    rw [Popped.evaluator_store u rest hctx]
    split
    next hc =>
        subst hc
        exact hrest.mono fun _ => rfl
    next hc => exact (h.others c hc).mono fun _ => rfl
  exact ⟨v, hv, hpopped.trans (.of_aside haside)⟩

end InCall

namespace Flow

instance : Flow.exits.Rechains where
  rechain _ _ _ := .of_evaluators (Nat.le_refl _) rfl fun _ _ => rfl

instance : Flow.exits.Forces where
  begin s p := by
    cases h : (s.promise p).env <;> simp only [Store.begin, h] <;>
      exact .of_evaluators (Nat.le_refl _) rfl fun _ _ => rfl
  abandon _ _ _ := .of_evaluators (Nat.le_refl _) rfl fun _ _ => rfl
  settle _ _ _ := .of_evaluators (Nat.le_refl _) rfl fun _ _ => rfl

section Calls

variable {m : Machine} [∀ ctx e env, Flow.exits.Holds (m.eval ctx e env)] {s u v : Store}
  {ctx : EvaluatorId} {id : Nat}

theorem takeExits_inCall (h : InCall s u ctx id) {actions : List ExitAction}
    (ht : Machine.takeExits ctx id u = .ok actions v) : InCall s v ctx id := by
  obtain ⟨_, w, hw, ht⟩ := Run.bind_eq_ok ht
  cases hw
  cases hframe : (u.evaluator ctx).frame? id with
  | none =>
      rw [hframe] at ht
      cases ht
      exact h
  | some frame =>
      rw [hframe] at ht
      cases ht
      exact h.take

omit [∀ ctx e env, Flow.exits.Holds (m.eval ctx e env)] in
theorem holds_raised (first : Option Signal) : Flow.exits.Holds (match first with
    | some signal => Run.raise signal
    | none => pure () : Run Unit) := by
  split <;> infer_instance

theorem exits_unwind (h : InCall s u ctx id) (pending : Bool)
    (hv : (m.unwind ctx id pending).EndsIn u v) : ExitStep s v := by
  obtain ⟨actions, w, hw, hv⟩ := hv.of_quiet
  have htaken := takeExits_inCall h hw
  obtain ⟨first, w', hw', hv⟩ := hv.of_quiet
  have hruns : Flow.exits.Holds (m.runExits ctx pending actions none) := inferInstance
  obtain ⟨w'', hpop, hstep⟩ := (htaken.step (hruns.of_ok hw')).popFrame
  exact hstep.trans ((holds_raised first).ends (hv.of_eq (Run.bind_of_ok hpop)))

theorem exits_leave (h : InCall s u ctx id) {env : EnvId} {outcome : Except Signal Value}
    (hv : (m.leave ctx env id outcome).EndsIn u v) : ExitStep s v := by
  have hend {pending : Bool} {last : Run Value} (hlast : Flow.exits.Holds last) {w : Store}
      (h : InCall s w ctx id) (hv : (m.unwind ctx id pending >>= fun _ => last).EndsIn w v) :
      ExitStep s v := by
    rcases hv.of_bind with ⟨_, w', hw', hv⟩ | ⟨x, hx⟩
    · exact (exits_unwind h pending (.value _ hw')).trans (hlast.ends hv)
    · exact exits_unwind h pending (.signal x hx)
  unfold Machine.leave at hv
  split at hv
  · exact hend inferInstance h hv
  · split at hv <;> exact hend inferInstance h hv
  · have hnote (f : FailureRef) : Flow.exits.Holds (Machine.noteFailure ctx f) := inferInstance
    obtain ⟨_, w, hw, hv⟩ := hv.of_quiet
    exact hend inferInstance (h.step ((hnote _).of_ok hw)) hv
  · exact hend inferInstance h hv

theorem exits_inFrame (ctx : EvaluatorId) (call : Expr) (env : EnvId)
    (function : Option ClosureId) (caller : Option EnvId) (handlers : List ExitAction)
    (body : Run Value) (hbody : Flow.exits.Holds body) :
    Flow.exits.Holds (m.inFrame ctx call env function caller handlers body) where
  ends {s v} hv := by
    rw [Machine.inFrame_eq] at hv
    by_cases h : (s.evaluator ctx).maxDepth ≤ (s.evaluator ctx).depth
    · have hfull : Machine.pushFrame ctx call env function caller handlers s =
          Run.failWith .recursion (some call) s := by
        simp only [Machine.pushFrame, Run.get_bind, if_pos h]
      have hfail : Flow.exits.Holds (Run.failWith .recursion (some call) : Run Nat) := inferInstance
      rcases hv.of_bind with ⟨id, w, hw, -⟩ | ⟨x, hx⟩
      · rw [hfull] at hw
        cases hw
      · exact hfail.ends (.signal x (hfull ▸ hx))
    · obtain ⟨t, ht, haside⟩ := pushFrame_eq_ok h call env function caller handlers
      have hcall := InCall.of_pushFrame h haside
      have hattempt : Flow.exits.Holds (Run.attempt body) := inferInstance
      obtain ⟨outcome, u, hu, hv⟩ := (hv.of_eq (Run.bind_of_ok ht)).of_quiet
      exact exits_leave (hcall.step (hattempt.of_ok hu)) hv
  lost _ := trivial

end Calls

theorem exits_inTarget (ctx : EvaluatorId) (env : EnvId) (body : Run Value)
    (hbody : Flow.exits.Holds body) : Flow.exits.Holds (Machine.inTarget ctx env body) := by
  have htarget : Flow.exits.Holds (modify fun s => s.setEvaluator ctx fun e =>
      { e with targets := env :: e.targets } : Run PUnit) := .of_modify fun _ => .of_setEvaluator rfl
  have huntarget : Flow.exits.Holds (modify fun s => s.setEvaluator ctx fun e =>
      { e with targets := e.targets.drop 1 } : Run PUnit) := .of_modify fun _ => .of_setEvaluator rfl
  unfold Machine.inTarget
  refine .andThen fun _ => .andThen fun outcome => .andThen fun _ => ?_
  split <;> infer_instance

theorem exits_request {α : Type} (ctx : EvaluatorId) (action : Run α)
    (haction : Flow.exits.Holds action) : Flow.exits.Holds (Machine.request ctx action) := by
  unfold Machine.request
  refine .of_open fun s => .inl ⟨s, s, rfl, .after inferInstance id fun outcome => ?_⟩
  refine .before (.of_value fun u hu => ⟨⟨⟩, _, rfl, hu.trans (.of_setEvaluator ?_)⟩) fun _ => ?_
  · -- there are as many frames as before, so that none is dropped
    have hlength : (s.evaluator ctx).frames.length = (u.evaluator ctx).frames.length :=
      (hu.frames ctx).length_eq
    simp only [Machine.restore, hlength, Nat.sub_self, List.drop_zero]
  · split <;> infer_instance

instance : Flow.exits.Closed where
  under := holds_under
  force _ := holds_force
  inFrame _ ctx call env function caller handlers body _ :=
    exits_inFrame ctx call env function caller handlers body
  inTarget := exits_inTarget
  request := exits_request

end Flow

end Quasi
