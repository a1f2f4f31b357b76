import Quasi.Proofs.Chain.Home
import Quasi.Proofs.Tidy.Fixed

/-!
# Where a mask stands

While code of an environment is evaluated under a mask, the mask stands in front of it: it falls
back to the environment and has the sources of data that it was made with. Looking up a name from
the bottom of the mask then comes to the same as looking it up in the sources first and in the
environment of the code after that.
-/

namespace Quasi

namespace Reading

/-- The sources of data that are masks themselves were made before the mask. -/
def Founded (r : Reading) : Prop :=
  ∀ m, DataScope.env (.bottom m) ∈ r.scopes → m.index < r.mask.index

/-- The mask stands in front of an environment whose chain passes no mask. -/
structure Stands (r : Reading) (home : EnvId) (s : Store) : Prop where
  grounded : s.Grounded
  made : r.mask.index < s.masks.size
  falls : (s.mask r.mask).home = home
  sources : (s.mask r.mask).scopes = r.scopes
  plain : s.isPlain home = true

/-- Two stores in a relation, in the first of which the mask stands in front of an environment. -/
def Beside (r : Reading) (Q : Store → Store → Prop) (home : EnvId) (s t : Store) : Prop :=
  r.Stands home s ∧ Q s t

/-- A search along a chain that ends. -/
theorem search_of_ends {s : Store} {e : EnvId} {test : Store → EnvId → Bool}
    (h : (s.chain e).2 = true) : Run.search e test s = .ok ((s.chain e).1.find? (test s)) s := by
  have hend : Run.reachEnd e s = .ok () s := by rw [Flow.reachEnd_apply, h]
  simp only [Run.search, Run.get_bind]
  cases (s.chain e).1.find? (test s) with
  | some found => rfl
  | none => exact Run.bind_of_ok hend

namespace Stands

variable {r : Reading} {home : EnvId} {s t : Store} {name : String}

theorem mono (h : r.Stands home s) (hhome : HomeStep s t) (hfixed : FixedStep s t) :
    r.Stands home t where
  grounded := hhome.grounded h.grounded
  made := Nat.lt_of_lt_of_le h.made hhome.masks
  falls := (hhome.home h.grounded r.mask h.made).trans h.falls
  sources := (hfixed.sources r.mask h.made).trans h.sources
  plain := Store.isPlain_fixed h.grounded.parent hfixed h.plain

/-- The chain of the mask goes on with the chain of the environment. -/
theorem chain_bottom (h : r.Stands home s) :
    s.chain r.bottom = (r.bottom :: (s.chain home).1, true) := by
  have hparent : s.parent? r.bottom = some home := congrArg some h.falls
  have hhome : (s.chain home).2 = true := (Store.isPlain_iff.mp h.plain).2.1
  have hends : (s.chain r.bottom).2 = true :=
    Store.chain_ends_iff.mpr (.step hparent (Store.chain_ends_iff.mp hhome))
  rw [Store.chain, Store.walk_of_some _ hparent] at hends ⊢
  have hwalk : s.chain home = s.walk (s.environmentCount + 1) home :=
    Store.walk_eq_of_le hends (Nat.le_succ _)
  rw [hwalk]
  exact Prod.ext rfl hends

theorem slot?_bottom (h : r.Stands home s) (hr : r.Founded) :
    s.slot? r.bottom name = match (s.mask r.mask).vars.get? name with
      | some v => some v
      | none => s.inScopes? r.scopes name := by
  have hmask : (⟨r.mask.index⟩ : MaskId) = r.mask := rfl
  change s.maskSlot? r.mask.index name = _
  rw [Store.maskSlot?, hmask, h.sources]
  cases (s.mask r.mask).vars.get? name with
  | some v => rfl
  | none =>
      refine findSome?_congr fun source hmem => ?_
      match source with
      | .mapping _ | .table _ | .row _ _ | .env .empty | .env (.scope _) => rfl
      | .env (.bottom m) => exact dif_pos (hr m hmem)

theorem data? (h : r.Stands home s) : s.data? r.mask name = s.inScopes? r.scopes name := by
  rw [Store.data?, h.sources, Store.inScopes?]

/-! ## Looking names up -/

theorem search_bottom (h : r.Stands home s) (test : Store → EnvId → Bool) :
    Run.search r.bottom test s =
      .ok (if test s r.bottom then some r.bottom else (s.chain home).1.find? (test s)) s := by
  rw [search_of_ends (by rw [h.chain_bottom]), h.chain_bottom]
  cases htest : test s r.bottom <;> simp [htest]

theorem search (h : r.Stands home s) (test : Store → EnvId → Bool) :
    Run.search home test s = .ok ((s.chain home).1.find? (test s)) s :=
  search_of_ends (Store.isPlain_iff.mp h.plain).2.1

theorem reachEnd_bottom (h : r.Stands home s) : Run.reachEnd r.bottom s = .ok () s := by
  rw [Flow.reachEnd_apply, h.chain_bottom]

theorem findMask_bottom (h : r.Stands home s) : Run.findMask r.bottom s = .ok (some r.mask) s := by
  rw [Run.findMask, Run.bind_of_ok (h.search_bottom _)]
  rfl

/-- What the nearest binding from the bottom of the mask holds. -/
theorem binding_bottom (h : r.Stands home s) : Run.binding r.bottom name s =
    match s.slot? r.bottom name with
    | some v => Run.own v s
    | none => Run.binding home name s := by
  cases hslot : s.slot? r.bottom name with
  | some v =>
      have hfind : Run.find r.bottom name s = .ok (some r.bottom) s := by
        simp [Run.find, h.search_bottom, hslot]
      simp only [Run.binding, Run.bind_of_ok hfind, Run.get_bind, hslot]
  | none =>
      have hfind : Run.find r.bottom name s = Run.find home name s := by
        simp [Run.find, h.search_bottom, h.search, hslot]
      simp only [Run.binding, Bind.bind, EStateM.bind, hfind]

theorem firstFunction_bottom (h : r.Stands home s) (m : Machine) :
    m.firstFunction name (s.chain r.bottom).1 s =
      match s.slot? r.bottom name with
      | none => m.firstFunction name (s.chain home).1 s
      | some v => (do
          let v ← m.forceValue none v
          if v.isInvocable then pure (some v) else m.firstFunction name (s.chain home).1) s := by
  rw [h.chain_bottom]
  simp only [Machine.firstFunction, Run.get_bind]
  cases s.slot? r.bottom name <;> rfl

end Stands

/-! ## Steps beside a mask that stands -/

open Run (Respects)

variable {r : Reading} {Q : Store → Store → Prop} {home : EnvId} {α : Type}

/-- What leaves masks and fixed things alone keeps the mask where it stands. -/
theorem matches_beside {a : Run α} [hhomes : Flow.homes.Holds a] [hfixed : Flow.fixed.Holds a]
    {s : Store} {y : EStateM.Result Interrupt Store α} (hs : r.Stands home s)
    (h : Run.Matches Q (a s) y) : Run.Matches (r.Beside Q home) (a s) y := by
  have hstands {t : Store} (ht : a.EndsIn s t) : r.Stands home t :=
    hs.mono (hhomes.ends ht) (hfixed.ends ht)
  generalize hx : a s = x at h
  cases h with
  | value h => exact .value ⟨hstands (.value _ hx), h⟩
  | signal h => exact .signal ⟨hstands (.signal _ hx), h⟩
  | endless => exact .endless

theorem respects_beside (a : Run α) [Flow.homes.Holds a] [Flow.fixed.Holds a] [h : Respects Q a] :
    Respects (r.Beside Q home) a := ⟨fun s s' hs => matches_beside hs.1 (h.agrees s s' hs.2)⟩

instance [Run.Steps Q] : Run.Steps (r.Beside Q home) where
  failWith _ _ := respects_beside _
  trace _ := respects_beside _
  warn _ := respects_beside _
  freshId := respects_beside _
  newPromise _ _ _ _ := respects_beside _
  begin _ := respects_beside _
  conclude _ _ := respects_beside _
  evaluator _ _ := respects_beside _

end Reading

end Quasi
