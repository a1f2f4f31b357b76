import Quasi.Proofs.Chain.Home
import Quasi.Proofs.Chain.Session

/-!
# Rechainings that undo each other

A mask that is made to fall back to another environment while something is evaluated is put back
when that has ended, and what is evaluated meanwhile does the same. The rechainings of a run come in
pairs that are nested like brackets, whichever way the run ends, so that all masks fall back in the
end to where they did in the beginning.
-/

namespace Quasi

/-- Where a mask falls back to. -/
def homeIn (masks : Array Mask) (m : MaskId) : EnvId := (masks.getD m.index default).home

/-- Masks fall back to where they did; there may be new ones. -/
structure SameHomes (before after : Array Mask) : Prop where
  size : before.size ≤ after.size
  home : ∀ m : MaskId, m.index < before.size → homeIn after m = homeIn before m

/-- All masks but one fall back to where they did. -/
structure SameApart (m : MaskId) (before after : Array Mask) : Prop where
  size : after.size = before.size
  home : ∀ n, n ≠ m → homeIn after n = homeIn before n

/-- Rechainings, latest first, that lead from the first masks to the second ones in pairs: a mask is
rechained, other pairs follow, and it is put back. -/
inductive Nested : Array Mask → List (MaskId × Array Mask) → Array Mask → Prop where
  | none {before after : Array Mask} (h : SameHomes before after) : Nested before [] after
  | pair {m : MaskId} {before found opened reached closed after : Array Mask}
      {earlier inner : List (MaskId × Array Mask)} (outer : Nested before earlier found)
      (hopen : SameApart m found opened) (between : Nested opened inner reached)
      (hclose : SameApart m reached closed)
      (hback : m.index < found.size → homeIn closed m = homeIn found m)
      (hafter : SameHomes closed after) :
      Nested before ((m, closed) :: (inner ++ (m, opened) :: earlier)) after

namespace SameHomes

variable {a b c : Array Mask}

theorem refl (a : Array Mask) : SameHomes a a := ⟨Nat.le_refl _, fun _ _ => rfl⟩

theorem trans (h : SameHomes a b) (h' : SameHomes b c) : SameHomes a c where
  size := Nat.le_trans h.size h'.size
  home m hm := (h'.home m (Nat.lt_of_lt_of_le hm h.size)).trans (h.home m hm)

/-- What was rechained and put back falls back to where it did, and all else as well. -/
theorem of_pair {m : MaskId} {found opened reached closed : Array Mask}
    (hopen : SameApart m found opened) (hbetween : SameHomes opened reached)
    (hclose : SameApart m reached closed)
    (hback : m.index < found.size → homeIn closed m = homeIn found m) : SameHomes found closed where
  size := by
    have hsize := hbetween.size
    rw [hopen.size] at hsize
    rw [hclose.size]
    exact hsize
  home n hn := by
    by_cases hnm : n = m
    · subst hnm
      exact hback hn
    · rw [hclose.home n hnm, hbetween.home n (hopen.size ▸ hn), hopen.home n hnm]

end SameHomes

namespace Nested

variable {a b c : Array Mask} {events later : List (MaskId × Array Mask)}

theorem mono (h : Nested a events b) (hb : SameHomes b c) : Nested a events c := by
  cases h with
  | none h => exact .none (h.trans hb)
  | pair outer hopen between hclose hback hafter =>
      exact .pair outer hopen between hclose hback (hafter.trans hb)

theorem trans (h : Nested a events b) (h' : Nested b later c) : Nested a (later ++ events) c := by
  induction h' with
  | none h' => exact h.mono h'
  | pair outer hopen between hclose hback hafter ih =>
      rw [List.cons_append, List.append_assoc, List.cons_append]
      exact .pair (ih h) hopen between hclose hback hafter

/-- Rechainings that undo each other leave all masks as they were. -/
theorem sameHomes (h : Nested a events b) : SameHomes a b := by
  induction h with
  | none h => exact h
  | pair outer hopen between hclose hback hafter ihouter ihbetween =>
      exact (ihouter.trans (.of_pair hopen ihbetween hclose hback)).trans hafter

end Nested

/-- What a run does to masks: it rechains them in nested pairs. -/
structure NestStep (s t : Store) : Prop where
  scopes : s.scopes.size ≤ t.scopes.size
  grounded : s.Grounded → t.Grounded
  nested : s.Grounded → ∃ events, t.rechainings = events ++ s.rechainings ∧
    Nested s.masks events t.masks

namespace NestStep

variable {s t u : Store}

theorem trans (h : NestStep s t) (h' : NestStep t u) : NestStep s u where
  scopes := Nat.le_trans h.scopes h'.scopes
  grounded hs := h'.grounded (h.grounded hs)
  nested hs := by
    obtain ⟨events, hevents, hst⟩ := h.nested hs
    obtain ⟨later, hlater, htu⟩ := h'.nested (h.grounded hs)
    exact ⟨later ++ events, by rw [hlater, hevents, List.append_assoc], hst.trans htu⟩

theorem of_homes (hscopes : s.scopes.size ≤ t.scopes.size) (hgrounded : s.Grounded → t.Grounded)
    (hrechainings : t.rechainings = s.rechainings) (h : SameHomes s.masks t.masks) :
    NestStep s t :=
  ⟨hscopes, hgrounded, fun _ => ⟨[], hrechainings, .none h⟩⟩

theorem of_same (h : s.SameChains t) : NestStep s t :=
  of_homes (Nat.le_of_eq h.scopes.symm) h.grounded h.rechainings
    ⟨Nat.le_of_eq h.masks.symm, fun m _ => h.home m⟩

theorem sameApart_rechain (s : Store) (m : MaskId) (home : EnvId) :
    SameApart m s.masks (s.rechain m home).masks where
  size := Store.size_masks_rechain s m home
  home n hn := by
    refine congrArg Mask.home ((s.mask_rechain m home n).trans (if_neg ?_))
    exact fun h => hn (congrArg MaskId.mk h.1)

/-- A rechaining and the one that undoes it are a pair around what happened in between. -/
theorem of_rechain {m : MaskId} {home : EnvId} (h : NestStep (s.rechain m home) u) :
    NestStep s (u.rechain m (s.mask m).home) where
  scopes := h.scopes
  grounded hs := Store.grounded_rechain (h.grounded (Store.grounded_rechain hs m home)) ..
  nested hs := by
    obtain ⟨inner, hinner, hnested⟩ := h.nested (Store.grounded_rechain hs m home)
    refine ⟨(m, (u.rechain m (s.mask m).home).masks) :: (inner ++ [(m, (s.rechain m home).masks)]),
      ?_, ?_⟩
    · rw [Store.rechainings_rechain, hinner, Store.rechainings_rechain]
      simp
    · refine .pair (.none (.refl _)) (sameApart_rechain s m home) hnested
        (sameApart_rechain u m _) (fun hm => ?_) (.refl _)
      have hsize := hnested.sameHomes.size
      rw [Store.size_masks_rechain] at hsize
      refine (congrArg Mask.home (u.mask_rechain m _ m)).trans ?_
      rw [if_pos ⟨rfl, Nat.lt_of_lt_of_le hm hsize⟩]
      exact Store.known_mono (s := s) h.scopes hsize (hs.home m)

end NestStep

/-- Runs rechain masks in nested pairs. -/
def Flow.nesting : Flow := ChainFlow.flow {
  Keeps := NestStep
  Lost _ _ := True
  trans := .trans
  lost_trans _ _ := trivial
  astray _ := trivial
  same := .of_same
  scope _ scope := .of_homes (Store.steady_addScope scope).scopes
    (fun hs => Store.grounded_addScope hs scope) rfl (.refl _)
  mask _ mask := .of_homes (Nat.le_refl _) (fun hs => Store.grounded_addMask hs mask) rfl
    ⟨(Store.steady_addMask mask).masks, (Store.steady_addMask mask).home rfl⟩ }

namespace Flow

instance : Flow.nesting.Forces := inferInstanceAs (ChainFlow.flow _).Forces

instance : Flow.nesting.Stacks := inferInstanceAs (ChainFlow.flow _).Stacks

instance : Flow.nesting.Closed where
  under := holds_under_of_rechain (fun _ _ => trivial) NestStep.of_rechain
  force _ := holds_force
  inFrame _ := holds_inFrame
  inTarget := holds_inTarget
  request := holds_stackRequest

end Flow

namespace Session

/-- Whether a request makes a mask fall back to another environment for good. -/
def Request.rechains : Request → Bool
  | .asDataMask _ _ => true
  | _ => false

/-- Masks are put back. Whatever is evaluated, and whichever way it ends, every mask that existed
falls back to the same environment in the end as in the beginning. In between masks are rechained in
pairs that undo each other and are nested like the evaluations under them. This holds of every
request that does not give a mask another environment itself, and of every evaluation in the course
of one, which starts where all environments that are referred to exist. -/
theorem masks_put_back {s : Store} (hs : Reachable s) :
    s.Grounded ∧
    (∀ (r : Request) (t : Store), r.rechains = false → r.run.EndsIn s t →
      (∀ m : MaskId, m.index < s.masks.size → (t.mask m).home = (s.mask m).home) ∧
      ∃ events, t.rechainings = events ++ s.rechainings ∧ Nested s.masks events t.masks) ∧
    (∀ (n : Nat) (ctx : EvaluatorId) (u v : Store), u.Grounded →
      (∃ e env, ((Machine.ofLevel n).eval ctx e env).EndsIn u v) ∨
      (∃ code data env, ((Machine.ofLevel n).evalTidy ctx code data env).EndsIn u v) ∨
      (∃ code table env, ((Machine.ofLevel n).evalRows ctx code table env).EndsIn u v) ∨
      (∃ args named env, (Library.evalCode (Machine.ofLevel n) ctx args named env).EndsIn u v) →
      v.Grounded ∧ ∀ m : MaskId, m.index < u.masks.size → (v.mask m).home = (u.mask m).home) := by
  have hgrounded := hs.anchored.grounded
  refine ⟨hgrounded, fun r t hr h => ?_, fun n ctx u v hu h => ?_⟩
  · have hholds : Flow.nesting.Holds r.run := Flow.holds_request_of r (fun _ => inferInstance)
      fun data env hmask => by subst hmask; cases hr
    obtain ⟨events, hevents, hnested⟩ := (hholds.ends h).nested hgrounded
    exact ⟨hnested.sameHomes.home, events, hevents, hnested⟩
  · have hstep : NestStep u v := by
      rcases h with ⟨_, _, h⟩ | ⟨_, _, _, h⟩ | ⟨_, _, _, h⟩ | ⟨_, _, _, h⟩
      all_goals exact Flow.Holds.ends (F := Flow.nesting) h
    obtain ⟨events, -, hnested⟩ := hstep.nested hu
    exact ⟨hstep.grounded hu, hnested.sameHomes.home⟩

/-- An evaluation under a mask within another one under the same mask, which calls what is no
function. -/
def failingTidy : Request :=
  .evalTidy (.code (.call (.const (.builtin (.primitive .evalTidy) .empty))
    [.bare (.const (.code (.call (.const (.int 1)) []))), .bare (.const (.mask ⟨0⟩)),
      .bare (.const (.env .empty))])) (.mask ⟨0⟩) (.env .empty) (some ⟨0⟩)

/-- The mask falls back to its environment again though both evaluations fail. -/
theorem masks_put_back_failingTidy : ∃ s t : Store, Reachable s ∧ failingTidy.rechains = false ∧
    failingTidy.run.EndsIn s t ∧ (s.mask ⟨0⟩).home = .scope 0 ∧ (t.mask ⟨0⟩).home = .scope 0 := by
  have hs : Reachable _ := .request
    (.request (.blank [] false) (.namedEnvironment .absent none) (.value _ rfl))
    (.newDataMask [] (.env (.scope 0))) (.value _ rfl)
  refine ⟨_, _, hs, rfl, .signal (.failure ⟨0, .callable .notFunction⟩) rfl, rfl, ?_⟩
  exact ((masks_put_back hs).2.1 failingTidy _ rfl
    (.signal (.failure ⟨0, .callable .notFunction⟩) rfl)).1 ⟨0⟩ (by decide)

end Session

end Quasi
