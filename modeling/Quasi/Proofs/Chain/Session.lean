import Quasi.Proofs.Chain.Flow
import Quasi.Proofs.Flow.Session

/-!
# Chains in a session

No request leaves a chain without an end unless it makes a mask fall back to an environment below
that mask, and no search is endless for another reason. Evaluating under a mask does so when the
environment of the expression lies below the mask already.
-/

namespace Quasi

/-- What a run does to chains. -/
structure ChainStep (s t : Store) : Prop where
  anchored : s.Anchored → t.Anchored
  steady : s.Steady t

namespace ChainStep

variable {s t u : Store}

theorem trans (h : ChainStep s t) (h' : ChainStep t u) : ChainStep s u :=
  ⟨fun hs => h'.anchored (h.anchored hs), h.steady.trans h'.steady⟩

theorem of_same (h : s.SameChains t) : ChainStep s t := ⟨h.anchored, h.steady⟩

end ChainStep

/-- Runs keep track of chains, and are lost on chains without an end only. -/
def Flow.chains : Flow := ChainFlow.flow {
  Keeps := ChainStep
  Lost s t := ChainStep s t ∧ ∃ e, ¬ t.Leads e .empty
  trans := .trans
  lost_trans h h' := ⟨h.trans h'.1, h'.2⟩
  astray {s e} h := ⟨.of_same (.of_eq rfl rfl rfl), e, by simp [← Store.chain_ends_iff, h]⟩
  same := .of_same
  scope _ scope := ⟨fun hs => Store.anchored_addScope hs scope, Store.steady_addScope scope⟩
  mask _ mask := ⟨fun hs => Store.anchored_addMask hs mask, Store.steady_addMask mask⟩ }

namespace Flow

instance : Flow.chains.Rechains where
  rechain s m home := ⟨fun hs => Store.anchored_rechain hs m home, Store.steady_rechain s m home⟩

instance : Flow.chains.Forces := inferInstanceAs (ChainFlow.flow _).Forces

instance : Flow.chains.Stacks := inferInstanceAs (ChainFlow.flow _).Stacks

instance : Flow.chains.Closed := .of_changes

end Flow

namespace Session

theorem anchored_blank (settings : Settings) (verbose : Bool) :
    Store.Anchored { settings := settings, verbose := verbose } where
  grounded := ⟨fun _ => rfl, fun _ => rfl, fun _ hx => by cases hx⟩
  ends _ t ht e := by
    rcases List.mem_cons.mp ht with rfl | ht
    · cases e with
      | empty => exact .refl _
      | scope i => exact .step rfl (.refl _)
      | bottom m => exact .step rfl (.refl _)
    · cases ht

theorem Reachable.anchored {s : Store} (hs : Reachable s) : s.Anchored := by
  induction hs with
  | blank settings verbose => exact anchored_blank settings verbose
  | request hs r h ih =>
      have hholds : Flow.chains.Holds r.run := Flow.holds_request r fun _ => inferInstance
      exact (hholds.ends h).anchored ih

theorem chainStep_request {s t : Store} (r : Request) (h : r.run.EndsIn s t ∨ r.run.LostIn s t) :
    ChainStep s t := by
  have hholds : Flow.chains.Holds r.run := Flow.holds_request r fun _ => inferInstance
  rcases h with h | h
  · exact hholds.ends h
  · exact (hholds.lost h).1

theorem leads_empty_iff_of_anchored {s : Store} (hs : s.Anchored) :
    (∀ t ∈ s.moments, ∀ e, t.Leads e .empty) ↔
      ∀ x ∈ s.rechainings, ¬ (s.withMasks x.2).Circular x.1 := by
  refine ⟨?_, hs.ends⟩
  intro h x hx hc
  have hmoment : s.withMasks x.2 ∈ s.moments :=
    List.mem_cons_of_mem _ (List.mem_map.mpr ⟨x, hx, rfl⟩)
  exact Store.not_leads_empty_of_circular hc (h _ hmoment _)

/-- Whether a request comes to an end or not, all chains end throughout exactly if no mask was made
to fall back to an environment below itself, up to the request or in the course of it. A request
that is lost in a search was lost for that reason, and no parent changes in another way. -/
theorem chains_end_iff {s t : Store} (hs : Reachable s) (r : Request)
    (h : r.run.EndsIn s t ∨ r.run.LostIn s t) :
    ((∀ u ∈ t.moments, ∀ e, u.Leads e .empty) ↔
      ∀ x ∈ t.rechainings, ¬ (t.withMasks x.2).Circular x.1) ∧
    (r.run.LostIn s t → ∃ x ∈ t.rechainings, (t.withMasks x.2).Circular x.1) ∧
    s.Steady t := by
  have hstep := chainStep_request r h
  have hiff := leads_empty_iff_of_anchored (hstep.anchored hs.anchored)
  refine ⟨hiff, ?_, hstep.steady⟩
  intro hlost
  have hholds : Flow.chains.Holds r.run := Flow.holds_request r fun _ => inferInstance
  obtain ⟨-, e, he⟩ := hholds.lost hlost
  refine Classical.byContradiction fun hnone => he ?_
  exact hiff.mpr (fun x hx hc => hnone ⟨x, hx, hc⟩) t (List.mem_cons_self ..) e

/-- An evaluation under a mask within another one under the same mask. -/
def nestedTidy : Request :=
  .evalTidy (.code (.call (.const (.builtin (.primitive .evalTidy) .empty))
    [.bare (.const (.int 1)), .bare (.const (.mask ⟨0⟩))])) (.mask ⟨0⟩) (.env .empty) (some ⟨0⟩)

/-- The inner one makes the mask fall back to its own bottom environment. -/
theorem chains_end_iff_nestedTidy : ∃ s t : Store, Reachable s ∧ nestedTidy.run.EndsIn s t ∧
    ¬ ∀ u ∈ t.moments, ∀ e, u.Leads e .empty := by
  have hs : Reachable _ := .request (.blank [] false) (.newDataMask [] .absent) (.value _ rfl)
  refine ⟨_, _, hs, .value _ rfl, ?_⟩
  intro hends
  have hcirc := (chains_end_iff hs nestedTidy (.inl (.value _ rfl))).1.mp hends
  -- the two rechainings after it put the mask back
  exact hcirc _ (.tail _ (.tail _ (.head _))) (.refl _)

end Session

end Quasi
