import Quasi.Proofs.Capture.Flow
import Quasi.Proofs.Chain.Home
import Quasi.Proofs.Chain.Session

/-!
# Captured code in a session

Code is used with the environment it was captured with, for as long as a session goes on. What is
searched from there is the same as when it was captured exactly if the masks on the chain fall back
to the same environments again. A mask does so while an expression is evaluated that was captured in
the same environment, and not after that evaluation was left for another one.
-/

namespace Quasi

namespace Store

variable {t : Store} {masks later : Array Mask} {e : EnvId}

/-- Later masks make no difference to a chain exactly if those on it fall back to where they did. -/
theorem walk_withMasks_iff :
    (∀ n, (t.withMasks later).walk n e = (t.withMasks masks).walk n e) ↔
      ∀ m, (t.withMasks masks).Leads e (.bottom m) →
        ((t.withMasks later).mask m).home = ((t.withMasks masks).mask m).home := by
  refine walk_eq_iff.trans ⟨fun h m hm => Option.some.inj (h _ hm), ?_⟩
  intro h x hx
  cases x with
  | empty => rfl
  | scope i => rfl
  | bottom m => exact congrArg some (h m hx)

end Store

namespace Session

variable {s t : Store}

theorem faithful_blank (settings : Settings) (verbose : Bool) :
    Store.Faithful { settings := settings, verbose := verbose } where
  kept holder h := by cases holder <;> cases h
  captured _ _ _ h := by cases h
  used _ _ _ _ _ h := by cases h

theorem faithful_request (hs : s.Faithful) (r : Request)
    (h : r.run.EndsIn s t ∨ r.run.LostIn s t) : t.Faithful := by
  have hholds : Flow.captures.Holds r.run := Flow.holds_request r fun _ => inferInstance
  rcases h with h | h
  · exact hholds.ends h hs
  · exact hholds.lost h hs

theorem Reachable.faithful (hs : Reachable s) : s.Faithful := by
  induction hs with
  | blank settings verbose => exact faithful_blank settings verbose
  | request hs r h ih => exact faithful_request ih r (.inl h)

/-- An expression that is evaluated under a mask finds the mask falling back to the environment it
is evaluated with, and leaves all masks as it found them; then they are put back. -/
theorem homes_evalUnder {n : Nat} {ctx : EvaluatorId} {e : Expr} {m : MaskId} {home : EnvId}
    (hs : s.Grounded)
    (h : (Run.under m home fun bottom => (Machine.ofLevel n).eval ctx e bottom).EndsIn s t) :
    ∃ u v, ((Machine.ofLevel n).eval ctx e (.bottom m)).EndsIn u v ∧
      (m.index < s.masks.size → (u.mask m).home = s.known home) ∧
      (∀ o : MaskId, o.index < u.masks.size → (v.mask o).home = (u.mask o).home) ∧
      ∀ o : MaskId, o.index < s.masks.size → (t.mask o).home = (s.mask o).home := by
  have hunder : Flow.homes.Holds (Run.under m home fun bottom =>
      (Machine.ofLevel n).eval ctx e bottom) := inferInstance
  have hbody : Flow.homes.Holds ((Machine.ofLevel n).eval ctx e (.bottom m)) := inferInstance
  obtain ⟨u, v, hopen, heval, -⟩ := Flow.under_cases h
  have hu : u.Grounded := (HomeStep.of_aside hopen).grounded (Store.grounded_rechain hs m home)
  refine ⟨u, v, heval, ?_, (hbody.ends heval).home hu, (hunder.ends h).home hs⟩
  intro hm
  simp only [Store.mask, hopen.masks]
  exact congrArg Mask.home ((s.mask_rechain m home m).trans (if_pos ⟨rfl, hm⟩))

/-- Code keeps the environment it was captured in, and masks keep their data. All code that can be
taken up was captured, and whenever it is taken up later, in this request or in an earlier one, it
is evaluated with that environment. From there the same is searched as at the time of the capture
exactly if every mask on the chain falls back to where it did. An evaluation under a mask begins
with the mask falling back to its own environment, leaves all masks as it found them, and puts back
the environment that the mask fell back to before. Parents do not change in another way. -/
theorem captured_search_iff (hs : Reachable s) (r : Request)
    (h : r.run.EndsIn s t ∨ r.run.LostIn s t) :
    (∀ holder, t.Has holder → ∀ e, t.envOf? holder = some e →
      ∃ masks, .captured holder e masks ∈ t.history) ∧
    (∀ holder e masks e' later,
      [.used holder e' later, .captured holder e masks].Sublist t.history →
      e' = e ∧ Elder masks later ∧
      ((∀ n, (t.withMasks later).walk n e' = (t.withMasks masks).walk n e) ↔
        ∀ m, (t.withMasks masks).Leads e (.bottom m) →
          ((t.withMasks later).mask m).home = ((t.withMasks masks).mask m).home)) ∧
    (∀ (n : Nat) (ctx : EvaluatorId) (e : Expr) (m : MaskId) (home : EnvId) (u v : Store),
      u.Grounded →
      (Run.under m home fun bottom => (Machine.ofLevel n).eval ctx e bottom).EndsIn u v →
      ∃ u' v', ((Machine.ofLevel n).eval ctx e (.bottom m)).EndsIn u' v' ∧
        (m.index < u.masks.size → (u'.mask m).home = u.known home) ∧
        (∀ o : MaskId, o.index < u'.masks.size → (v'.mask o).home = (u'.mask o).home) ∧
        ∀ o : MaskId, o.index < u.masks.size → (v.mask o).home = (u.mask o).home) ∧
    t.Grounded ∧ s.Steady t := by
  have hfaithful := faithful_request hs.faithful r h
  have hstep := chainStep_request r h
  refine ⟨?_, ?_, fun n ctx e m home u v hu h => homes_evalUnder hu h,
    (hstep.anchored hs.anchored).grounded, hstep.steady⟩
  · intro holder hholder e he
    obtain ⟨masks, hmem⟩ := hfaithful.kept holder hholder e he
    exact ⟨masks, (List.mem_filter.mp hmem).1⟩
  · intro holder e masks e' later hsub
    obtain ⟨rfl, helder⟩ := hfaithful.used holder e masks e' later (hsub.filter Event.isOfCode)
    exact ⟨rfl, helder, Store.walk_withMasks_iff⟩

/-- A function that is made under a mask, in code of the first scope. -/
def makeUnderMask : Request :=
  .evalTidy (.quosure (.call (.const (.builtin (.special .function) .empty))
    [.bare (.const .null), .bare (.const (.int 1))]) (.scope 0)) (.mask ⟨0⟩) .absent none

/-- The call of that function once the mask was left. -/
def callAfterMask : Request := .callFunction (.closure ⟨0⟩) (.sequence []) .absent

/-- It searches what the mask falls back to by then, which is not where it was made. -/
theorem captured_search_iff_callAfterMask : ∃ s t : Store, Reachable s ∧
    callAfterMask.run.EndsIn s t ∧ ∃ masks later,
    [.used (.closure ⟨0⟩) (.bottom ⟨0⟩) later, .captured (.closure ⟨0⟩) (.bottom ⟨0⟩) masks].Sublist
      t.history ∧
    ¬ ∀ n, (t.withMasks later).walk n (.bottom ⟨0⟩) = (t.withMasks masks).walk n (.bottom ⟨0⟩) := by
  have hs : Reachable _ := .request (.request (.request (.blank [] false)
    (.namedEnvironment .absent none) (.value _ rfl)) (.newDataMask [] .absent) (.value _ rfl))
    makeUnderMask (.value _ rfl)
  refine ⟨_, _, hs, .value _ rfl, _, _, .cons _ (.cons _ (.cons_cons _ (.cons _ (.cons_cons _
    (List.nil_sublist _))))), ?_⟩
  intro hsame
  obtain ⟨-, hused, -⟩ := captured_search_iff hs callAfterMask (.inl (.value _ rfl))
  obtain ⟨-, -, hiff⟩ := hused _ _ _ _ _ (.cons _ (.cons _ (.cons_cons _ (.cons _ (.cons_cons _
    (List.nil_sublist _))))))
  have hhome := hiff.mp hsame ⟨0⟩ (.refl _)
  cases hhome

end Session

end Quasi
