import Quasi.Proofs.Chain.Leads
import Quasi.Proofs.Store

/-!
# Rechaining

Parents are fixed when an environment is made, up to the masks that are made to fall back to
another environment. The history keeps all masks as they were right after each rechaining; as long
as none of these leads a mask back to itself, all chains end at each of these moments.
-/

namespace Quasi

/-- The mask that an event rechained and all masks from then on. -/
def Event.rechaining? : Event → Option (MaskId × Array Mask)
  | .rechained m masks => some (m, masks)
  | _ => none

namespace Store

/-- All rechainings so far, latest first. -/
def rechainings (s : Store) : List (MaskId × Array Mask) := s.history.filterMap Event.rechaining?

def withMasks (s : Store) (masks : Array Mask) : Store := { s with masks := masks }

/-- The store as it is and as it was right after each rechaining, as far as chains show it. Parents
change at no other moments. -/
def moments (s : Store) : List Store := s :: s.rechainings.map fun x => s.withMasks x.2

/-- A mask that falls back to an environment below itself. -/
def Circular (s : Store) (m : MaskId) : Prop := s.Leads (s.mask m).home (.bottom m)

/-- All environments that are referred to exist. -/
structure Grounded (s : Store) : Prop where
  parent (i : Nat) : s.known (s.scope i).parent = (s.scope i).parent
  home (m : MaskId) : s.known (s.mask m).home = (s.mask m).home
  earlier : ∀ x ∈ s.rechainings, ∀ m i,
    ((s.withMasks x.2).mask m).home = .scope i → i < s.scopes.size

/-- A store with no chain that is endless for another reason than a circular rechaining. -/
structure Anchored (s : Store) : Prop where
  grounded : s.Grounded
  ends : (∀ x ∈ s.rechainings, ¬ (s.withMasks x.2).Circular x.1) →
    ∀ t ∈ s.moments, ∀ e, t.Leads e .empty

/-- What becomes of the parents in a run: those of scopes stay, and those of masks change by
rechaining only. -/
structure Steady (s t : Store) : Prop where
  scopes : s.scopes.size ≤ t.scopes.size
  masks : s.masks.size ≤ t.masks.size
  parent : ∀ i < s.scopes.size, (t.scope i).parent = (s.scope i).parent
  rechainings : s.rechainings <:+ t.rechainings
  home : t.rechainings = s.rechainings → ∀ m : MaskId, m.index < s.masks.size →
    (t.mask m).home = (s.mask m).home

variable {s t u : Store} {e f g : EnvId}

theorem Steady.trans (h : s.Steady t) (h' : t.Steady u) : s.Steady u where
  scopes := Nat.le_trans h.scopes h'.scopes
  masks := Nat.le_trans h.masks h'.masks
  parent i hi := (h'.parent i (Nat.lt_of_lt_of_le hi h.scopes)).trans (h.parent i hi)
  rechainings := h.rechainings.trans h'.rechainings
  home hu m hm := by
    have ht : t.rechainings = s.rechainings := by
      refine (h.rechainings.eq_of_length_le ?_).symm
      exact hu ▸ h'.rechainings.length_le
    exact (h'.home (hu.trans ht.symm) m (Nat.lt_of_lt_of_le hm h.masks)).trans (h.home ht m hm)

/-! ## Stores with the same chains -/

/-- Two stores with the same environments, now and at the moments of rechainings. -/
structure SameChains (s t : Store) : Prop where
  scopes : t.scopes.size = s.scopes.size
  masks : t.masks.size = s.masks.size
  parent (i : Nat) : (t.scope i).parent = (s.scope i).parent
  home (m : MaskId) : (t.mask m).home = (s.mask m).home
  rechainings : t.rechainings = s.rechainings

theorem Leads.congr (h : ∀ e, t.parent? e = s.parent? e) (hs : s.Leads e f) : t.Leads e f := by
  induction hs with
  | refl => exact .refl _
  | step hp rest ih => exact .step ((h _).trans hp) ih

theorem leads_congr (h : ∀ e, t.parent? e = s.parent? e) : t.Leads e f ↔ s.Leads e f :=
  ⟨.congr fun e => (h e).symm, .congr h⟩

namespace SameChains

theorem steady (h : s.SameChains t) : s.Steady t where
  scopes := Nat.le_of_eq h.scopes.symm
  masks := Nat.le_of_eq h.masks.symm
  parent i _ := h.parent i
  rechainings := h.rechainings ▸ List.suffix_refl _
  home _ m _ := h.home m

theorem parent?_eq (h : s.SameChains t) (e : EnvId) : t.parent? e = s.parent? e := by
  cases e <;> simp [parent?, h.parent, h.home]

theorem parent?_withMasks (h : s.SameChains t) (masks : Array Mask) (e : EnvId) :
    (t.withMasks masks).parent? e = (s.withMasks masks).parent? e := by
  cases e with
  | empty => rfl
  | scope i => exact congrArg some (h.parent i)
  | bottom m => rfl

theorem grounded (h : s.SameChains t) (hs : s.Grounded) : t.Grounded where
  parent i := h.parent i ▸
    known_mono (Nat.le_of_eq h.scopes.symm) (Nat.le_of_eq h.masks.symm) (hs.parent i)
  home m := h.home m ▸
    known_mono (Nat.le_of_eq h.scopes.symm) (Nat.le_of_eq h.masks.symm) (hs.home m)
  earlier x hx m i hm := h.scopes ▸ hs.earlier x (h.rechainings ▸ hx) m i hm

theorem anchored (h : s.SameChains t) (hs : s.Anchored) : t.Anchored where
  grounded := h.grounded hs.grounded
  ends hcirc u hu e := by
    have hends := hs.ends fun x hx hc =>
      hcirc x (h.rechainings.symm ▸ hx) (hc.congr (h.parent?_withMasks x.2))
    rcases List.mem_cons.mp hu with rfl | hu
    · exact (hends s (List.mem_cons_self ..) e).congr h.parent?_eq
    · obtain ⟨x, hx, rfl⟩ := List.mem_map.mp hu
      have hx' : s.withMasks x.2 ∈ s.moments :=
        List.mem_cons_of_mem _ (List.mem_map.mpr ⟨x, h.rechainings ▸ hx, rfl⟩)
      exact (hends _ hx' e).congr (h.parent?_withMasks x.2)

end SameChains

/-! ## New environments -/

/-- The second store has one environment more, which nothing hangs off yet. -/
structure Grown (s t : Store) (f : EnvId) : Prop where
  same : ∀ x, x ≠ f → t.parent? x = s.parent? x
  childless : ∀ x, t.parent? x ≠ some f
  isSome : (t.parent? f).isSome

namespace Grown

theorem leads (h : s.Grown t f) (he : e ≠ f) (hs : s.Leads e g) : t.Leads e g :=
  hs.of_avoids h.same (Leads.not_of_no_child h.childless he)

theorem leads_empty (h : s.Grown t f) (hs : ∀ e, s.Leads e .empty) (e : EnvId) :
    t.Leads e .empty := by
  obtain ⟨p, hp⟩ := Option.isSome_iff_exists.mp h.isSome
  have hpf : p ≠ f := fun hpf => h.childless f (hpf ▸ hp)
  exact leads_empty_of_parent hs h.same hp (Leads.not_of_no_child h.childless hpf) e

end Grown

theorem Grown.of_scope {n : Nat} (hscope : ∀ i, i ≠ n → (t.scope i).parent = (s.scope i).parent)
    (hmask : ∀ m, (t.mask m).home = (s.mask m).home) (hparent : ∀ i, (t.scope i).parent ≠ .scope n)
    (hhome : ∀ m, (t.mask m).home ≠ .scope n) : s.Grown t (.scope n) where
  same x hx := by
    cases x with
    | empty => rfl
    | scope i => exact congrArg some (hscope i fun hi => hx (hi ▸ rfl))
    | bottom m => exact congrArg some (hmask m)
  childless x := by
    cases x with
    | empty => simp
    | scope i => simpa [parent?] using hparent i
    | bottom m => simpa [parent?] using hhome m
  isSome := rfl

theorem Grown.of_mask {n : MaskId} (hscope : ∀ i, (t.scope i).parent = (s.scope i).parent)
    (hmask : ∀ m, m ≠ n → (t.mask m).home = (s.mask m).home)
    (hparent : ∀ i, (t.scope i).parent ≠ .bottom n) (hhome : ∀ m, (t.mask m).home ≠ .bottom n) :
    s.Grown t (.bottom n) where
  same x hx := by
    cases x with
    | empty => rfl
    | scope i => exact congrArg some (hscope i)
    | bottom m => exact congrArg some (hmask m fun hm => hx (hm ▸ rfl))
  childless x := by
    cases x with
    | empty => simp
    | scope i => simpa [parent?] using hparent i
    | bottom m => simpa [parent?] using hhome m
  isSome := rfl

/-! ## New scopes -/

theorem known_parent_addScope (hs : s.Grounded) (scope : Scope) (i : Nat) :
    s.known ((s.addScope scope).scope i).parent = ((s.addScope scope).scope i).parent := by
  rw [scope_addScope]
  split
  · exact known_known _
  · exact hs.parent i

theorem known_addScope (scope : Scope) (h : s.known e = e) : (s.addScope scope).known e = e :=
  known_mono (by simp [addScope]) (by simp [addScope]) h

theorem grounded_addScope (hs : s.Grounded) (scope : Scope) : (s.addScope scope).Grounded where
  parent i := known_addScope scope (known_parent_addScope hs scope i)
  home m := known_addScope scope (hs.home m)
  earlier x hx m i hm := by
    have hi := hs.earlier x hx m i hm
    simp only [addScope, Array.size_push]
    omega

theorem grown_addScope (hs : s.Grounded) (scope : Scope) :
    s.Grown (s.addScope scope) (.scope s.scopes.size) := by
  refine .of_scope ?_ (fun m => rfl) ?_ ?_
  · intro i hi
    rw [scope_addScope, if_neg hi]
  · intro i hi
    have h := known_parent_addScope hs scope i
    rw [hi, known_eq_scope] at h
    omega
  · intro m hm
    have h := hs.home m
    rw [show (s.mask m).home = .scope s.scopes.size from hm, known_eq_scope] at h
    omega

theorem grown_addScope_earlier (hs : s.Grounded) (scope : Scope) {x : MaskId × Array Mask}
    (hx : x ∈ s.rechainings) :
    (s.withMasks x.2).Grown ((s.addScope scope).withMasks x.2) (.scope s.scopes.size) := by
  refine .of_scope ?_ (fun m => rfl) ?_ ?_
  · intro i hi
    exact congrArg Scope.parent ((s.scope_addScope scope i).trans (if_neg hi))
  · intro i hi
    have h := known_parent_addScope hs scope i
    rw [show ((s.addScope scope).scope i).parent = .scope s.scopes.size from hi,
      known_eq_scope] at h
    omega
  · intro m hm
    have h := hs.earlier x hx m _ hm
    omega

theorem anchored_addScope (hs : s.Anchored) (scope : Scope) : (s.addScope scope).Anchored where
  grounded := grounded_addScope hs.grounded scope
  ends hcirc t ht e := by
    have hends := hs.ends fun x hx hc => by
      refine hcirc x hx ((grown_addScope_earlier hs.grounded scope hx).leads ?_ hc)
      intro hhome
      exact Nat.lt_irrefl _ (hs.grounded.earlier x hx x.1 _ hhome)
    rcases List.mem_cons.mp ht with rfl | ht
    · exact (grown_addScope hs.grounded scope).leads_empty (hends s (List.mem_cons_self ..)) e
    · obtain ⟨x, hx, rfl⟩ := List.mem_map.mp ht
      refine (grown_addScope_earlier hs.grounded scope hx).leads_empty (hends _ ?_) e
      exact List.mem_cons_of_mem _ (List.mem_map.mpr ⟨x, hx, rfl⟩)

theorem steady_addScope (scope : Scope) : s.Steady (s.addScope scope) where
  scopes := by simp [addScope]
  masks := Nat.le_refl _
  parent i hi := by rw [scope_addScope, if_neg (Nat.ne_of_lt hi)]
  rechainings := List.suffix_refl _
  home _ _ _ := rfl

/-! ## New masks -/

theorem known_home_addMask (hs : s.Grounded) (mask : Mask) (m : MaskId) :
    s.known ((s.addMask mask).mask m).home = ((s.addMask mask).mask m).home := by
  rw [mask_addMask]
  split
  · exact known_known _
  · exact hs.home m

theorem known_addMask (mask : Mask) (h : s.known e = e) : (s.addMask mask).known e = e :=
  known_mono (by simp [addMask]) (by simp [addMask]) h

theorem grounded_addMask (hs : s.Grounded) (mask : Mask) : (s.addMask mask).Grounded where
  parent i := known_addMask mask (hs.parent i)
  home m := known_addMask mask (known_home_addMask hs mask m)
  earlier x hx m i hm := hs.earlier x hx m i hm

theorem grown_addMask (hs : s.Grounded) (mask : Mask) :
    s.Grown (s.addMask mask) (.bottom ⟨s.masks.size⟩) := by
  refine .of_mask (fun i => rfl) ?_ ?_ ?_
  · intro m hm
    rw [mask_addMask, if_neg fun h => hm (by rw [← h])]
  · intro i hi
    have h := hs.parent i
    rw [show (s.scope i).parent = .bottom ⟨s.masks.size⟩ from hi, known_eq_bottom] at h
    exact Nat.lt_irrefl _ h
  · intro m hm
    have h := known_home_addMask hs mask m
    rw [hm, known_eq_bottom] at h
    exact Nat.lt_irrefl _ h

theorem anchored_addMask (hs : s.Anchored) (mask : Mask) : (s.addMask mask).Anchored where
  grounded := grounded_addMask hs.grounded mask
  ends hcirc t ht e := by
    have hends := hs.ends hcirc
    rcases List.mem_cons.mp ht with rfl | ht
    · exact (grown_addMask hs.grounded mask).leads_empty (hends s (List.mem_cons_self ..)) e
    · exact hends t (List.mem_cons_of_mem _ ht) e

theorem steady_addMask (mask : Mask) : s.Steady (s.addMask mask) where
  scopes := Nat.le_refl _
  masks := by simp [addMask]
  parent _ _ := rfl
  rechainings := List.suffix_refl _
  home _ m hm := by rw [mask_addMask, if_neg (Nat.ne_of_lt hm)]

/-! ## Masks that fall back to another environment -/

theorem mask_rechain (s : Store) (n : MaskId) (home : EnvId) (m : MaskId) :
    (s.rechain n home).mask m =
      if m.index = n.index ∧ n.index < s.masks.size then
        { s.mask m with home := s.known home }
      else s.mask m := mask_setMask ..

theorem rechainings_rechain (s : Store) (m : MaskId) (home : EnvId) :
    (s.rechain m home).rechainings = (m, (s.rechain m home).masks) :: s.rechainings := rfl

theorem size_masks_rechain (s : Store) (m : MaskId) (home : EnvId) :
    (s.rechain m home).masks.size = s.masks.size := Array.size_modify

theorem known_home_rechain (hs : s.Grounded) (n : MaskId) (home : EnvId) (m : MaskId) :
    s.known ((s.rechain n home).mask m).home = ((s.rechain n home).mask m).home := by
  rw [mask_rechain]
  split
  · exact known_known _
  · exact hs.home m

theorem known_rechain (n : MaskId) (home : EnvId) (h : s.known e = e) :
    (s.rechain n home).known e = e :=
  known_mono (s := s) (by simp [rechain, setMask, record])
    (Nat.le_of_eq (size_masks_rechain s n home).symm) h

theorem grounded_rechain (hs : s.Grounded) (n : MaskId) (home : EnvId) :
    (s.rechain n home).Grounded where
  parent i := known_rechain n home (hs.parent i)
  home m := known_rechain n home (known_home_rechain hs n home m)
  earlier x hx m i hm := by
    rw [rechainings_rechain] at hx
    rcases List.mem_cons.mp hx with rfl | hx
    · have h := known_home_rechain hs n home m
      rw [show ((s.rechain n home).mask m).home = .scope i from hm, known_eq_scope] at h
      exact h
    · exact hs.earlier x hx m i hm

theorem parent?_rechain (s : Store) (m : MaskId) (home : EnvId) {e : EnvId} (he : e ≠ .bottom m) :
    (s.rechain m home).parent? e = s.parent? e := by
  cases e with
  | empty => rfl
  | scope i => rfl
  | bottom n =>
      have hn : ¬ (n.index = m.index ∧ m.index < s.masks.size) := fun h =>
        he (congrArg EnvId.bottom (MaskId.mk.injEq .. ▸ h.1))
      simp only [parent?, mask_rechain, if_neg hn]

theorem leads_withMasks_rechain {m : MaskId} {home : EnvId} {masks : Array Mask} :
    ((s.rechain m home).withMasks masks).Leads e f ↔ (s.withMasks masks).Leads e f :=
  leads_congr fun e => by cases e <;> rfl

theorem anchored_rechain (hs : s.Anchored) (m : MaskId) (home : EnvId) :
    (s.rechain m home).Anchored where
  grounded := grounded_rechain hs.grounded m home
  ends hcirc t ht e := by
    have hends := hs.ends fun x hx hc =>
      hcirc x (List.mem_cons_of_mem _ hx) (leads_withMasks_rechain.mpr hc)
    have hnow := hcirc _ (List.mem_cons_self ..)
    have hrechain (e : EnvId) : (s.rechain m home).Leads e .empty :=
      leads_empty_of_parent (hends s (List.mem_cons_self ..)) (fun x hx => parent?_rechain s m home hx)
        rfl hnow e
    rcases List.mem_cons.mp ht with rfl | ht
    · exact hrechain e
    · obtain ⟨x, hx, rfl⟩ := List.mem_map.mp ht
      rcases List.mem_cons.mp hx with rfl | hx
      · exact hrechain e
      · refine leads_withMasks_rechain.mpr (hends _ ?_ e)
        exact List.mem_cons_of_mem _ (List.mem_map.mpr ⟨x, hx, rfl⟩)

theorem steady_rechain (s : Store) (m : MaskId) (home : EnvId) : s.Steady (s.rechain m home) where
  scopes := Nat.le_refl _
  masks := Nat.le_of_eq (size_masks_rechain ..).symm
  parent _ _ := rfl
  rechainings := List.suffix_cons ..
  home h := by
    rw [rechainings_rechain] at h
    exact absurd (congrArg List.length h) (by simp)

/-- A rechaining that is circular leaves a chain without an end. -/
theorem not_leads_empty_of_circular {m : MaskId} (h : s.Circular m) :
    ¬ s.Leads (.bottom m) .empty := fun hends => hends.not_back rfl h

end Store

end Quasi
