import Quasi.Proofs.Chain.Rechaining
import Quasi.Proofs.Flow.Bracket

/-!
# Flows of chains

A flow about chains is given by what it says of new scopes and new masks. All else that a run does
between rechainings leaves chains alone.
-/

namespace Quasi

namespace Store

variable {s t : Store}

theorem SameChains.of_eq (hscopes : t.scopes = s.scopes) (hmasks : t.masks = s.masks)
    (hrechainings : t.rechainings = s.rechainings) : s.SameChains t where
  scopes := congrArg Array.size hscopes
  masks := congrArg Array.size hmasks
  parent i := by simp only [scope, hscopes]
  home m := by simp only [mask, hmasks]
  rechainings := hrechainings

theorem rechainings_capture (s : Store) (holder : Holder) (env : Option EnvId) :
    (s.capture holder env).rechainings = s.rechainings := by
  cases env <;> rfl

theorem rechainings_use (s : Store) (holder : Holder) (env : Option EnvId) :
    (s.use holder env).rechainings = s.rechainings := by
  cases env <;> rfl

theorem sameChains_setVars (s : Store) (e : EnvId) (f : Bindings Value → Bindings Value) :
    s.SameChains (s.setVars e f) := by
  cases e with
  | empty => exact .of_eq rfl rfl rfl
  | scope i =>
      refine ⟨Array.size_modify, rfl, ?_, fun _ => rfl, rfl⟩
      intro j
      simp only [setVars, scope_setScope]
      split <;> rfl
  | bottom m =>
      refine ⟨rfl, Array.size_modify, fun _ => rfl, ?_, rfl⟩
      intro n
      simp only [setVars, mask_setMask]
      split <;> rfl

end Store

/-- What a run may do to chains. -/
structure ChainFlow where
  Keeps : Store → Store → Prop
  Lost : Store → Store → Prop
  trans {s t u : Store} : Keeps s t → Keeps t u → Keeps s u
  lost_trans {s t u : Store} : Keeps s t → Lost t u → Lost s u
  astray {s : Store} {e : EnvId} : (s.chain e).2 = false → Lost s s
  same {s t : Store} : s.SameChains t → Keeps s t
  scope (s : Store) (scope : Scope) : Keeps s (s.addScope scope)
  mask (s : Store) (mask : Mask) : Keeps s (s.addMask mask)

namespace ChainFlow

def flow (C : ChainFlow) : Flow where
  Keeps := C.Keeps
  Lost := C.Lost
  refl _ := C.same (.of_eq rfl rfl rfl)
  trans := C.trans
  lost_trans := C.lost_trans
  astray := C.astray
  aside h := C.same (.of_eq h.scopes h.masks (by simp only [Store.rechainings, h.history]))
  failure _ _ := C.same (.of_eq rfl rfl rfl)
  noted _ _ _ _ _ := C.same (.of_eq rfl rfl rfl)
  scope := C.scope
  mask := C.mask
  promise _ _ _ := C.same (.of_eq (Store.scopes_addPromise ..) (Store.masks_addPromise ..)
    (Store.rechainings_capture ..))
  closure _ _ := C.same (.of_eq rfl rfl (Store.rechainings_capture ..))
  used _ _ := C.same (.of_eq rfl rfl (Store.rechainings_use ..))
  evaluator _ _ _ := C.same (.of_eq rfl rfl rfl)
  vars s e f := C.same (Store.sameChains_setVars s e f)
  closureName _ _ _ := C.same (.of_eq rfl rfl rfl)
  registered _ _ _ _ := C.same (.of_eq rfl rfl rfl)

variable (C : ChainFlow)

instance : C.flow.Forces where
  begin s p := C.same (.of_eq (by simp [Store.begin, Store.use_eq, Store.record, Store.setPromise])
    (by simp [Store.begin, Store.use_eq, Store.record, Store.setPromise])
    (Store.rechainings_use ..))
  abandon _ _ _ := C.same (.of_eq rfl rfl rfl)
  settle _ _ _ := C.same (.of_eq rfl rfl rfl)

instance : C.flow.Stacks where
  evaluator _ _ _ := C.same (.of_eq rfl rfl rfl)
  event _ event h := C.same (.of_eq rfl rfl (by
    cases event <;> first | rfl | simp [Flow.ofStack] at h))

end ChainFlow

end Quasi
