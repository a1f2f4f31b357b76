import Quasi.Proofs.Chain.Rechaining
import Quasi.Proofs.Flow.Bracket
import Quasi.Proofs.Flow.Evaluation
import Quasi.Proofs.Tidy.Alike

/-!
# What is fixed when it is made

A scope never gets another parent and a mask never gets other sources of data, whatever runs. A
chain without a mask on it is therefore the same from the moment on in which its first environment
is made.
-/

namespace Quasi

/-- What a run does to the parents of scopes and the sources of masks, which it leaves alone. -/
structure FixedStep (s t : Store) : Prop where
  scopes : s.scopes.size ≤ t.scopes.size
  masks : s.masks.size ≤ t.masks.size
  parent : ∀ i < s.scopes.size, (t.scope i).parent = (s.scope i).parent
  sources : ∀ m : MaskId, m.index < s.masks.size → (t.mask m).scopes = (s.mask m).scopes

namespace FixedStep

variable {s t u : Store}

theorem trans (h : FixedStep s t) (h' : FixedStep t u) : FixedStep s u where
  scopes := Nat.le_trans h.scopes h'.scopes
  masks := Nat.le_trans h.masks h'.masks
  parent i hi := (h'.parent i (Nat.lt_of_lt_of_le hi h.scopes)).trans (h.parent i hi)
  sources m hm := (h'.sources m (Nat.lt_of_lt_of_le hm h.masks)).trans (h.sources m hm)

theorem of_eq (hscopes : t.scopes = s.scopes) (hmasks : t.masks = s.masks) : FixedStep s t where
  scopes := Nat.le_of_eq (congrArg Array.size hscopes).symm
  masks := Nat.le_of_eq (congrArg Array.size hmasks).symm
  parent i _ := by simp only [Store.scope, hscopes]
  sources m _ := by simp only [Store.mask, hmasks]

theorem of_alike {m : MaskId} (h : s.Alike m t) : FixedStep s t where
  scopes := Nat.le_of_eq (congrArg Array.size h.scopes).symm
  masks := Nat.le_of_eq h.size.symm
  parent i _ := by rw [h.scope]
  sources k _ := h.sources k

theorem addScope (s : Store) (scope : Scope) : FixedStep s (s.addScope scope) where
  scopes := by simp [Store.addScope]
  masks := Nat.le_refl _
  parent i hi := by rw [Store.scope_addScope, if_neg (Nat.ne_of_lt hi)]
  sources _ _ := rfl

theorem addMask (s : Store) (mask : Mask) : FixedStep s (s.addMask mask) where
  scopes := Nat.le_refl _
  masks := by simp [Store.addMask]
  parent _ _ := rfl
  sources m hm := by rw [Store.mask_addMask, if_neg (Nat.ne_of_lt hm)]

theorem setVars (s : Store) (e : EnvId) (f : Bindings Value → Bindings Value) :
    FixedStep s (s.setVars e f) := by
  cases e with
  | empty => exact of_eq rfl rfl
  | scope i =>
      refine ⟨Nat.le_of_eq Array.size_modify.symm, Nat.le_refl _, fun j _ => ?_, fun _ _ => rfl⟩
      simp only [Store.setVars, Store.scope_setScope]
      split <;> rfl
  | bottom m =>
      refine ⟨Nat.le_refl _, Nat.le_of_eq Array.size_modify.symm, fun _ _ => rfl, fun k _ => ?_⟩
      simp only [Store.setVars, Store.mask_setMask]
      split <;> rfl

theorem rechain (s : Store) (m : MaskId) (home : EnvId) : FixedStep s (s.rechain m home) where
  scopes := Nat.le_refl _
  masks := Nat.le_of_eq (Store.size_masks_rechain s m home).symm
  parent _ _ := rfl
  sources k _ := by
    rw [Store.mask_rechain]
    split <;> rfl

end FixedStep

/-- Parents of scopes and sources of masks stay. -/
def Flow.fixed : Flow where
  Keeps := FixedStep
  Lost _ _ := True
  refl _ := .of_eq rfl rfl
  trans := .trans
  lost_trans _ _ := trivial
  astray _ := trivial
  aside h := .of_eq h.scopes h.masks
  failure _ _ := .of_eq rfl rfl
  noted _ _ _ _ _ := .of_eq rfl rfl
  scope := .addScope
  mask := .addMask
  promise _ _ _ := .of_eq (Store.scopes_addPromise ..) (Store.masks_addPromise ..)
  closure _ _ := .of_eq rfl rfl
  used _ _ := .of_eq rfl rfl
  evaluator _ _ _ := .of_eq rfl rfl
  vars := .setVars
  closureName _ _ _ := .of_eq rfl rfl
  registered _ _ _ _ := .of_eq rfl rfl

instance : Flow.fixed.Rechains := ⟨FixedStep.rechain⟩

instance : Flow.fixed.Forces where
  begin s p := .of_eq (by simp [Store.begin, Store.use_eq, Store.record, Store.setPromise])
    (by simp [Store.begin, Store.use_eq, Store.record, Store.setPromise])
  abandon _ _ _ := .of_eq rfl rfl
  settle _ _ _ := .of_eq rfl rfl

instance : Flow.fixed.Stacks where
  evaluator _ _ _ := .of_eq rfl rfl
  event _ _ _ := .of_eq rfl rfl

instance : Flow.fixed.Closed := .of_changes

/-! ## Chains without a mask -/

namespace Store

variable {s t : Store} {e : EnvId}

theorem mem_walk_succ (n : Nat) (e : EnvId) : e ∈ (s.walk (n + 1) e).1 := by
  cases hp : s.parent? e with
  | none => simp [walk_of_none n hp]
  | some p => simp [walk_of_some n hp]

theorem isPlain_iff : s.isPlain e = true ↔
    s.known e = e ∧ (s.chain e).2 = true ∧ ∀ x ∈ (s.chain e).1, ∀ m, x ≠ .bottom m := by
  have hbottom (x : EnvId) : x.isBottom = false ↔ ∀ m, x ≠ .bottom m := by
    cases x <;> simp [EnvId.isBottom]
  simp only [isPlain, Bool.and_eq_true, decide_eq_true_eq, List.all_eq_true, Bool.not_eq_true',
    hbottom, and_assoc]

theorem isPlain_empty (s : Store) : s.isPlain .empty = true := by
  have hchain : s.chain .empty = ([.empty], true) := walk_of_none _ (parent?_empty s)
  rw [isPlain_iff, hchain]
  simp [known]

/-- A walk that comes by scopes only stays the same. -/
theorem walk_fixed (hs : ∀ i, s.known (s.scope i).parent = (s.scope i).parent)
    (h : FixedStep s t) {n : Nat} (he : s.known e = e)
    (hplain : ∀ x ∈ (s.walk n e).1, ∀ m, x ≠ .bottom m) : t.walk n e = s.walk n e := by
  induction n generalizing e with
  | zero => rfl
  | succ n ih =>
      cases e with
      | empty => rw [walk_of_none n (parent?_empty s), walk_of_none n (parent?_empty t)]
      | bottom m => exact (hplain _ (mem_walk_succ n _) m rfl).elim
      | scope i =>
          have hp : s.parent? (.scope i) = some (s.scope i).parent := rfl
          have hp' : t.parent? (.scope i) = some (s.scope i).parent :=
            congrArg some (h.parent i (known_eq_scope.mp he))
          rw [walk_of_some n hp] at hplain ⊢
          rw [walk_of_some n hp', ih (hs i) fun x hx => hplain x (List.mem_cons_of_mem _ hx)]

theorem chain_fixed (hs : ∀ i, s.known (s.scope i).parent = (s.scope i).parent)
    (h : FixedStep s t) (he : s.isPlain e = true) : t.chain e = s.chain e := by
  obtain ⟨hknown, hends, hplain⟩ := isPlain_iff.mp he
  have hcount : s.environmentCount ≤ t.environmentCount := Nat.add_le_add h.scopes h.masks
  have hwalk := walk_fixed hs h hknown hplain
  have hends' : (t.walk (s.environmentCount + 2) e).2 = true := by rw [hwalk]; exact hends
  exact (walk_eq_of_le hends' (by omega)).trans hwalk

theorem isPlain_fixed (hs : ∀ i, s.known (s.scope i).parent = (s.scope i).parent)
    (h : FixedStep s t) (he : s.isPlain e = true) : t.isPlain e = true := by
  obtain ⟨hknown, hends, hplain⟩ := isPlain_iff.mp he
  rw [isPlain_iff, chain_fixed hs h he]
  exact ⟨known_mono h.scopes h.masks hknown, hends, hplain⟩

/-- Stores that are alike have the same chains without a mask. -/
theorem Alike.isPlain {m : MaskId} (h : s.Alike m t) (hs : s.Grounded) (e : EnvId) :
    t.isPlain e = s.isPlain e := by
  have hback : FixedStep t s := {
    scopes := Nat.le_of_eq (congrArg Array.size h.scopes)
    masks := Nat.le_of_eq h.size
    parent := fun i _ => by rw [h.scope]
    sources := fun k _ => (h.sources k).symm }
  have ht (i : Nat) : t.known (t.scope i).parent = (t.scope i).parent := by
    rw [h.scope, h.known]
    exact hs.parent i
  rw [Bool.eq_iff_iff]
  exact ⟨isPlain_fixed ht hback, isPlain_fixed hs.parent (.of_alike h)⟩

theorem Alike.chain {m : MaskId} (h : s.Alike m t) (hs : s.Grounded) (he : s.isPlain e = true) :
    t.chain e = s.chain e := chain_fixed hs.parent (.of_alike h) he

end Store

end Quasi
