import Quasi.Proofs.Chain.Flow
import Quasi.Proofs.Flow.Evaluation

/-!
# Masks that are put back

A mask falls back to another environment for as long as an expression is evaluated under it. However
that evaluation ends, and whatever was evaluated under the same mask in between, the mask falls
back to where it did before.
-/

namespace Quasi

/-- What a run does to the environments that masks fall back to: it leaves them as they were. -/
structure HomeStep (s t : Store) : Prop where
  scopes : s.scopes.size ≤ t.scopes.size
  masks : s.masks.size ≤ t.masks.size
  grounded : s.Grounded → t.Grounded
  home : s.Grounded → ∀ m : MaskId, m.index < s.masks.size → (t.mask m).home = (s.mask m).home

namespace HomeStep

variable {s t u : Store}

theorem trans (h : HomeStep s t) (h' : HomeStep t u) : HomeStep s u where
  scopes := Nat.le_trans h.scopes h'.scopes
  masks := Nat.le_trans h.masks h'.masks
  grounded hs := h'.grounded (h.grounded hs)
  home hs m hm :=
    (h'.home (h.grounded hs) m (Nat.lt_of_lt_of_le hm h.masks)).trans (h.home hs m hm)

theorem of_steady (h : s.Steady t) (hgrounded : s.Grounded → t.Grounded)
    (hrechainings : t.rechainings = s.rechainings) : HomeStep s t :=
  ⟨h.scopes, h.masks, hgrounded, fun _ => h.home hrechainings⟩

theorem of_same (h : s.SameChains t) : HomeStep s t :=
  of_steady h.steady h.grounded h.rechainings

theorem of_aside (h : s.Aside t) : HomeStep s t :=
  of_same (.of_eq h.scopes h.masks (by simp only [Store.rechainings, h.history]))

/-- Falling back to the former environment again undoes a rechaining. -/
theorem of_rechain {m : MaskId} {home : EnvId} (h : HomeStep (s.rechain m home) u) :
    HomeStep s (u.rechain m (s.mask m).home) where
  scopes := h.scopes
  masks := by
    have hsize := h.masks
    rw [Store.size_masks_rechain] at hsize ⊢
    exact hsize
  grounded hs := Store.grounded_rechain (h.grounded (Store.grounded_rechain hs m home)) ..
  home hs n hn := by
    have hsize := h.masks
    rw [Store.size_masks_rechain] at hsize
    have hsame := h.home (Store.grounded_rechain hs m home) n
      (by rw [Store.size_masks_rechain]; exact hn)
    rw [Store.mask_rechain] at hsame ⊢
    by_cases hnm : n.index = m.index
    · have hn' : n = m := congrArg MaskId.mk hnm
      subst hn'
      rw [if_pos ⟨rfl, Nat.lt_of_lt_of_le hn hsize⟩]
      exact Store.known_mono (s := s) h.scopes hsize (hs.home n)
    · rw [if_neg fun h => hnm h.1] at hsame ⊢
      exact hsame

end HomeStep

/-- Runs put masks back. -/
def Flow.homes : Flow := ChainFlow.flow {
  Keeps := HomeStep
  Lost _ _ := True
  trans := .trans
  lost_trans _ _ := trivial
  astray _ := trivial
  same := .of_same
  scope _ scope := .of_steady (Store.steady_addScope scope)
    (fun hs => Store.grounded_addScope hs scope) rfl
  mask _ mask := .of_steady (Store.steady_addMask mask)
    (fun hs => Store.grounded_addMask hs mask) rfl }

namespace Flow

theorem rechain_eq_log (m : MaskId) (home : EnvId) (s : Store) :
    ∃ log, Run.rechain m home s = .ok (s.mask m).home { s.rechain m home with log := log } := by
  obtain ⟨log, hlog⟩ := trace_eq_log
    (fun _ => "data mask rechained onto " ++ s.showEnv home) (s.rechain m home)
  by_cases h : (s.mask m).home ≠ home
  · refine ⟨log, ?_⟩
    simp only [Run.rechain, Run.get_bind, Run.set_bind, if_pos h, Run.bind_of_ok hlog]
    rfl
  · refine ⟨s.log, ?_⟩
    simp only [Run.rechain, Run.get_bind, Run.set_bind, if_neg h]
    rfl

theorem rechain_eq_ok (m : MaskId) (home : EnvId) (s : Store) :
    ∃ t, Run.rechain m home s = .ok (s.mask m).home t ∧ (s.rechain m home).Aside t := by
  obtain ⟨log, hlog⟩ := rechain_eq_log m home s
  exact ⟨_, hlog, (s.rechain m home).aside_log log⟩

/-- A run under a mask starts where the mask falls back to the given environment, and once it has
ended the mask is put back. -/
theorem under_cases {α : Type} {m : MaskId} {home : EnvId} {body : EnvId → Run α} {s t : Store}
    (h : (Run.under m home body).EndsIn s t) :
    ∃ u v, (s.rechain m home).Aside u ∧ (body (.bottom m)).EndsIn u v ∧
      (v.rechain m (s.mask m).home).Aside t := by
  obtain ⟨u, hu, haside⟩ := rechain_eq_ok m home s
  rcases h.of_bind with ⟨previous, w, hw, h⟩ | ⟨x, h⟩
  · rw [hu] at hw
    cases hw
    rcases h.of_bind with ⟨outcome, v, hv, h⟩ | ⟨x, h⟩
    · have hbody : (body (.bottom m)).EndsIn u v := by
        rcases Run.attempt_eq_ok hv with ⟨v, -, h⟩ | ⟨x, -, h⟩
        · exact .value v h
        · exact .signal x h
      obtain ⟨w, hw, hback⟩ := rechain_eq_ok m (s.mask m).home v
      refine ⟨u, v, haside, hbody, ?_⟩
      have hclose : (do let _ ← Run.rechain m (s.mask m).home : Run Unit) v = .ok () w :=
        Run.bind_of_ok hw
      have hlast : (Run.resume outcome).EndsIn w t := h.of_eq (Run.bind_of_ok hclose)
      cases outcome with
      | ok a => rcases hlast with ⟨v, hlast⟩ | ⟨x, hlast⟩ <;> cases hlast; exact hback
      | error y =>
          rcases hlast with ⟨v, hlast⟩ | ⟨x, hlast⟩
          · cases hlast
          · rw [Run.resume, Run.raise_apply, EStateM.Result.error.injEq] at hlast
            exact hlast.2 ▸ hback
    · exact (Run.interrupt_ne_endless x (Run.attempt_eq_error h).1).elim
  · rw [hu] at h
    cases h

/-- A run under a mask follows a flow in which a rechaining and the one that undoes it cancel, if the
flow says nothing of runs that are lost. -/
theorem holds_under_of_rechain {F : Flow} (hlost : ∀ s t, F.Lost s t)
    (hF : ∀ {s u : Store} {m : MaskId} {home : EnvId}, F.Keeps (s.rechain m home) u →
      F.Keeps s (u.rechain m (s.mask m).home))
    {α : Type} (m : MaskId) (home : EnvId) (body : EnvId → Run α)
    (hbody : ∀ e, F.Holds (body e)) : F.Holds (Run.under m home body) := by
  unfold Run.under Run.andFinally
  refine .of_open fun s => .inl ?_
  obtain ⟨t, ht, haside⟩ := rechain_eq_ok m home s
  refine ⟨_, t, ht, .after inferInstance (fun _ => hlost _ _) fun outcome =>
    .before (.before ?_ fun _ => inferInstance) fun _ => inferInstance⟩
  apply Closes.of_value
  intro u hu
  obtain ⟨v, hv, hback⟩ := rechain_eq_ok m (s.mask m).home u
  have hstep : F.Keeps (s.rechain m home) u := F.trans (F.aside haside) hu
  exact ⟨_, v, hv, F.trans (hF hstep) (F.aside hback)⟩

instance : Flow.homes.Forces := inferInstanceAs (ChainFlow.flow _).Forces

instance : Flow.homes.Stacks := inferInstanceAs (ChainFlow.flow _).Stacks

instance : Flow.homes.Closed where
  under := holds_under_of_rechain (fun _ _ => trivial) HomeStep.of_rechain
  force _ := holds_force
  inFrame _ := holds_inFrame
  inTarget := holds_inTarget
  request := holds_stackRequest

end Flow

end Quasi
