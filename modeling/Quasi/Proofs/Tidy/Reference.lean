import Quasi.Proofs.Tidy.Covered
import Quasi.Proofs.Tidy.Static

/-!
# The reference evaluation

Two readings that evaluation with data comes to. One leaves the mask where it is. It evaluates the
code of promises that were made elsewhere as it stands, unless it matters to that code where the
mask is, and covers no primitive that shows an environment. The other one covers all of these; it
moves the mask along for them, though it does not look at where the mask is itself.
-/

namespace Quasi

open Run (Agrees Matches Respects)

/-! ## Moving the mask -/

namespace Store

theorem Alike.trans_log {m : MaskId} {s t : Store} (h : s.Alike m t) (log : Array LogRecord) :
    Alike m { s with log := log } t := { h with }

/-- It does not show what a mask was made to fall back to. -/
theorem Alike.rechain_left {m : MaskId} {s t : Store} (h : s.Alike m t) (home : EnvId) :
    (s.rechain m home).Alike m t := {
  h with
  size := (Store.size_masks_rechain s m home).symm ▸ h.size
  vars := fun k => by
    rw [Store.mask_rechain]
    split <;> exact h.vars k
  sources := fun k => by
    rw [Store.mask_rechain]
    split <;> exact h.sources k
  home := fun k hk => by
    rw [Store.mask_rechain, if_neg fun hkm => hk (congrArg MaskId.mk hkm.1)]
    exact h.home k hk }

end Store

theorem Store.Alike.of_rechain {m : MaskId} {s t u : Store} {home previous : EnvId}
    (h : s.Alike m t) (hu : Run.rechain m home s = .ok previous u) : u.Alike m t := by
  obtain ⟨log, hlog⟩ := Flow.rechain_eq_log m home s
  rw [hlog, EStateM.Result.ok.injEq] at hu
  exact hu.2 ▸ (h.rechain_left home).trans_log log

namespace Reading

variable {r : Reading} {home inner : EnvId} {s t : Store}

/-- A mask that is rechained stands in front of the environment that it falls back to. -/
theorem Stands.rechain (h : r.Stands home s) (hplain : s.isPlain inner = true)
    (log : Array LogRecord) : r.Stands inner { s.rechain r.mask inner with log := log } := by
  have hfixed : FixedStep s { s.rechain r.mask inner with log := log } :=
    (FixedStep.rechain s r.mask inner).trans (.of_eq rfl rfl)
  have hgrounded := Store.grounded_rechain h.grounded r.mask inner
  have haside := (s.rechain r.mask inner).aside_log log
  have hmask := s.mask_rechain r.mask inner r.mask
  rw [if_pos ⟨rfl, h.made⟩] at hmask
  exact {
    grounded := (HomeStep.of_aside haside).grounded hgrounded
    made := Nat.lt_of_lt_of_le h.made hfixed.masks
    falls := (congrArg Mask.home hmask).trans (Store.isPlain_iff.mp hplain).1
    sources := (hfixed.sources r.mask h.made).trans h.sources
    plain := Store.isPlain_fixed h.grounded.parent hfixed hplain }

/-- A run under a mask that is moved and put back agrees with a run that another one follows, if
moving the mask and putting it back do. -/
theorem matches_under {Q : Store → Store → Prop} {a b : Run Value} {last : Run Unit} {u' : Store}
    [hfixed : Flow.fixed.Holds a] (hs : r.Stands home s) (hplain : s.isPlain inner = true)
    (hopen : ∀ u, Run.rechain r.mask inner s = .ok home u → Q u u')
    (hab : Agrees (r.Beside Q inner) a b)
    (hclose : ∀ t t' w, Q t t' → Run.rechain r.mask home t = .ok inner w →
      ∃ w', last t' = .ok () w' ∧ Q w w') :
    Matches (r.Beside Q home) (Run.under r.mask inner (fun _ => a) s)
      (Run.andFinally b last u') := by
  obtain ⟨log, hu⟩ := Flow.rechain_eq_log r.mask inner s
  rw [hs.falls] at hu
  have hstands := hs.rechain hplain log
  have hstart : FixedStep s { s.rechain r.mask inner with log := log } :=
    (FixedStep.rechain s r.mask inner).trans (.of_eq rfl rfl)
  rw [Run.under, Run.bind_of_ok hu, Run.andFinally, Run.andFinally]
  have hattempt := hab.attempt _ u' ⟨hstands, hopen _ hu⟩
  generalize hx : Run.attempt a _ = x, hy : Run.attempt b u' = y at hattempt
  cases hattempt with
  | @value outcome t t' ht =>
      -- Whether the body has a value or failed, the mask still stands in front of `inner`.
      obtain ⟨log', hw⟩ := Flow.rechain_eq_log r.mask home t
      rw [ht.1.falls] at hw
      obtain ⟨w', hlast, hQ⟩ := hclose t t' _ ht.2 hw
      have hback : (do let _ ← Run.rechain r.mask home : Run Unit) t = .ok () _ := Run.bind_of_ok hw
      have hend : FixedStep s t := hstart.trans (hfixed.ends (Run.endsIn_of_attempt hx))
      have hput := ht.1.rechain (Store.isPlain_fixed hs.grounded.parent hend hs.plain) log'
      rw [Run.bind_of_ok hx, Run.bind_of_ok hy, Run.bind_of_ok hback, Run.bind_of_ok hlast]
      exact Agrees.resume outcome _ _ ⟨hput, hQ⟩
  | @signal signal t t' ht =>
      exact (Run.interrupt_ne_endless signal (Run.attempt_eq_error hx).1).elim
  | endless =>
      simp only [Bind.bind, EStateM.bind, hy]
      exact .endless

/-! ## The mask taken along -/

/-- The reading that takes the mask along, for the code of promises that were made elsewhere and for
primitives that show environments. -/
def moving (mask : MaskId) (scopes : List DataScope) : Reading where
  mask := mask
  scopes := scopes
  admits := Primitive.standsAlone
  within home body := Run.under mask home fun _ => body
  foreign n ctx e env := (Machine.ofLevel n).eval ctx e env

variable {mask : MaskId} {scopes : List DataScope}

theorem sound_moving (hr : (moving mask scopes).Founded) : (moving mask scopes).Sound Eq where
  founded := hr
  alike h := h ▸ .refl _
  alone h := h
  primitive _ _ _ _ := Run.respects_eq _
  foreign n ctx e env := (respects_beside (h := Run.respects_eq _) _).agrees
  within {home inner a b s s'} hfixed hab hs hplain := by
    obtain ⟨hs, rfl⟩ := hs
    obtain ⟨log, hu⟩ := Flow.rechain_eq_log mask inner s
    have hunder : (moving mask scopes).within inner b s = Run.andFinally b
        (do let _ ← Run.rechain mask home) { s.rechain mask inner with log := log } := by
      have hfalls : (s.mask mask).home = home := hs.falls
      rw [hfalls] at hu
      exact Run.bind_of_ok hu
    rw [hunder]
    refine matches_under hs hplain (fun u hu' => ?_) hab fun t t' w ht hw => ?_
    · change Run.rechain mask inner s = .ok home u at hu'
      rw [hu, EStateM.Result.ok.injEq] at hu'
      exact hu'.2.symm
    · subst ht
      exact ⟨w, Run.bind_of_ok hw, rfl⟩

theorem orderly_moving : (moving mask scopes).Orderly where
  alone h := h
  within {home a s} ha := by
    change Run.Finishes s (Run.under mask home fun _ => a)
    unfold Run.under Run.andFinally
    refine (Run.Steady.settles _ s).bind fun previous t _ ht => ?_
    refine (ha t ht).attempt.bind fun outcome u _ _ => ?_
    exact (Run.Steady.settles _ u).bind fun _ _ _ _ => .resume fun _ _ => trivial

/-! ## The mask left where it is -/

/-- A run that comes to the same whatever a mask falls back to when it starts. -/
def Blind {α : Type} (mask : MaskId) (a : Run α) (s : Store) : Prop :=
  ∀ t, t.Alike mask s → Matches (Store.Alike mask) (a t) (a s)

open Classical in
/-- The reading that leaves the mask where it is. It does not cover what could tell where that is:
some code of promises that were made elsewhere, and primitives that show environments. -/
noncomputable def still (mask : MaskId) (scopes : List DataScope) : Reading where
  mask := mask
  scopes := scopes
  admits := Primitive.readsOnly
  within _ body := body
  foreign n ctx e env s :=
    if Blind mask ((Machine.ofLevel n).eval ctx e env) s then (Machine.ofLevel n).eval ctx e env s
    else outside s

theorem andFinally_pure {α : Type} (b : Run α) (s : Store) :
    Run.andFinally b (pure ()) s = b s := by
  simp only [Run.andFinally, Bind.bind, EStateM.bind, Run.attempt]
  cases b s with
  | ok v t => rfl
  | error i t => cases i <;> rfl

theorem sound_still (hr : (still mask scopes).Founded) :
    (still mask scopes).Sound (Store.Alike mask) where
  founded := hr
  alike h := h
  alone h := (Bool.and_eq_true_iff.mp h).1
  primitive m ctx env h := respects_applyPrimitive h m ctx env
  foreign n ctx e env s s' hs := by
    by_cases hblind : Blind mask ((Machine.ofLevel n).eval ctx e env) s'
    · have hread : (still mask scopes).foreign n ctx e env s' =
          (Machine.ofLevel n).eval ctx e env s' := if_pos hblind
      rw [hread]
      exact matches_beside hs.1 (hblind s hs.2)
    · have hread : (still mask scopes).foreign n ctx e env s' = outside s' := if_neg hblind
      rw [hread]
      exact .endless
  within {home inner a b s s'} hfixed hab hs hplain := by
    change Matches _ _ (b s')
    rw [← andFinally_pure b s']
    refine matches_under hs.1 hplain (fun u hu => ?_) hab fun t t' w ht hw => ?_
    · exact hs.2.of_rechain hu
    · exact ⟨t', rfl, ht.of_rechain hw⟩

theorem orderly_still : (still mask scopes).Orderly where
  alone h := (Bool.and_eq_true_iff.mp h).1
  within {_ _ s} ha := ha s (.refl s)

/-! ## Evaluation with data -/

/-- Evaluation with data in front of an environment agrees with what is read. -/
theorem matches_tidy {Q : Store → Store → Prop} [Run.Steps Q] {u u' : Store} (hr : r.Sound Q)
    (hu : r.Stands home u) (hQ : Q u u') (n : Nat) (ctx : EvaluatorId) (e : Expr) (inner : EnvId) :
    Matches Q (Run.under r.mask inner ((Machine.ofLevel n).evalIn ctx e) u)
      (r.tidy n ctx e inner u') := by
  have hplain : u'.isPlain inner = u.isPlain inner := (hr.alike hQ).isPlain hu.grounded inner
  have hread := Machine.ReadAs.inTarget ctx r.bottom
    ((readAs hr n inner).eval ctx e r.bottom)
  rw [tidy, Run.get_bind, hplain]
  split
  · rename_i hinner
    have heval : Flow.fixed.Holds ((Machine.ofLevel n).evalIn ctx e r.bottom) := inferInstance
    exact (hr.within heval hread ⟨hu, hQ⟩ hinner).mono fun _ _ h => h.2
  · exact .endless

end Reading

/-- The expression that is evaluated for a value, and its environment. -/
def tidyCode (code : Value) (home : EnvId) : Expr × EnvId :=
  match code with
  | .quosure e inner => (e, inner)
  | v => (v.toExpr, home)

theorem evalUnder_eq (m : Machine) (ctx : EvaluatorId) (code : Value) (mask : MaskId)
    (home : EnvId) : m.evalUnder ctx code mask (some home) =
      Run.under mask (tidyCode code home).2 (m.evalIn ctx (tidyCode code home).1) := by
  cases code <;> rfl

/-- A mask that was just made over data stands in front of the empty environment. -/
theorem stands_of_asMask {data : Value} {s u : Store} {mask : MaskId}
    (hdata : ∀ m, data ≠ .mask m) (hmask : Machine.asMask data none s = .ok mask u) :
    s.masks.size ≤ mask.index ∧ mask.index < u.masks.size ∧ (u.mask mask).home = .empty ∧
      (u.mask mask).vars =
        [(Pronoun.data.name, .pronoun .data mask), (Pronoun.env.name, .pronoun .env mask)] := by
  have hover : ∃ sources, Machine.maskOver sources .empty s = .ok mask u := by
    cases data with
    | mask m => exact (hdata m rfl).elim
    | _ => exact ⟨_, hmask⟩
  obtain ⟨sources, hover⟩ := hover
  obtain ⟨scopes, v, hscopes, hnew⟩ := Run.bind_eq_ok hover
  have hsize : FixedStep s v := Flow.Holds.of_ok (F := Flow.fixed) inferInstance hscopes
  cases hnew
  refine ⟨hsize.masks, ?_, ?_, ?_⟩
  · simp [Store.addMask]
  · rw [Store.mask_addMask, if_pos rfl]
    rfl
  · rw [Store.mask_addMask, if_pos rfl]

namespace Reading

/-- Evaluation with data is static: it has the value, or fails with the failure, that is read of the
code and of all code that is embedded in it, while the mask stays where it was made. Where something
could tell where the mask is, it has the outcome that is read with the mask taken along. Of covered
code there is such an outcome. -/
theorem evalTidy_static (n : Nat) (ctx : EvaluatorId) (code : Value) {data : Value} (home : EnvId)
    {s u : Store} {mask : MaskId} (hs : s.Grounded) (hdata : ∀ m, data ≠ .mask m)
    (hmask : Machine.asMask data none s = .ok mask u)
    (hsources : ∀ m, DataScope.env (.bottom m) ∈ (u.mask mask).scopes → m.index < s.masks.size) :
    let still := still mask (u.mask mask).scopes
    let moving := moving mask (u.mask mask).scopes
    let read := tidyCode code home
    Matches (Store.Alike mask) ((Machine.ofLevel n).evalTidy ctx code data (some home) s)
      (still.tidy n ctx read.1 read.2 u) ∧
    Matches Eq ((Machine.ofLevel n).evalTidy ctx code data (some home) s)
      (moving.tidy n ctx read.1 read.2 u) ∧
    ∀ r, r = still ∨ r = moving → u.isPlain read.2 = true → r.Covers u read.2 read.1 →
      ∃ t, (r.tidy n ctx read.1 read.2).EndsIn u t := by
  obtain ⟨hold, hmade, hfalls, hvars⟩ := stands_of_asMask hdata hmask
  have hgrounded : u.Grounded :=
    (Flow.Holds.of_ok (F := Flow.homes) inferInstance hmask).grounded hs
  have hrun : (Machine.ofLevel n).evalTidy ctx code data (some home) s =
      Run.under mask (tidyCode code home).2
        ((Machine.ofLevel n).evalIn ctx (tidyCode code home).1) u := by
    rw [Machine.evalTidy, Run.bind_of_ok hmask, evalUnder_eq]
  have hstands (r : Reading) (hr : r.mask = mask) (hr' : r.scopes = (u.mask mask).scopes) :
      r.Stands .empty u := by
    subst hr
    exact ⟨hgrounded, hmade, hfalls, hr'.symm, u.isPlain_empty⟩
  have hfounded : ∀ m, DataScope.env (.bottom m) ∈ (u.mask mask).scopes → m.index < mask.index :=
    fun m hm => Nat.lt_of_lt_of_le (hsources m hm) hold
  -- The mask was made in front of the empty environment, where no code was evaluated yet.
  rw [hrun]
  refine ⟨matches_tidy (sound_still hfounded) (hstands _ rfl rfl) (.refl u) n ctx _ _,
    matches_tidy (sound_moving hfounded) (hstands _ rfl rfl) rfl n ctx _ _,
    fun r hr hplain hcovers => ?_⟩
  rcases hr with rfl | rfl
  · exact tidy_ends orderly_still n ⟨hfounded, hmade, hgrounded.parent, hvars⟩ hplain hcovers
  · exact tidy_ends orderly_moving n ⟨hfounded, hmade, hgrounded.parent, hvars⟩ hplain hcovers

/-- An environment with functions and numbers bound in it, and one below it. -/
def nestedStore : Store where
  scopes := #[
    ⟨[("list", .builtin (.primitive .list) .empty), ("$", .builtin (.special .member) .empty),
      ("x", .int 1), ("y", .int 2)], .empty, none⟩,
    ⟨[("y", .int 3)], .scope 0, none⟩]

def nestedScopes : List DataScope := [.mapping [("x", .int 10)]]

/-- The store in which a mask over the data was made. -/
def nestedMasked : Store := nestedStore.addMask
  ⟨[(Pronoun.data.name, .pronoun .data ⟨0⟩), (Pronoun.env.name, .pronoun .env ⟨0⟩)],
    nestedScopes, .empty⟩

/-- Code of the second environment. -/
def embeddedCode : Expr :=
  .apply "list" [.symbol "x", .symbol "y", .apply "$" [.symbol Pronoun.env.name, .symbol "y"]]

/-- Code of the first environment that embeds code of the second one. -/
def nestedCode : Expr :=
  .apply "list" [.symbol "x", .symbol "y", .apply "$" [.symbol Pronoun.env.name, .symbol "x"],
    .const (.quosure embeddedCode (.scope 1)),
    .apply "$" [.symbol Pronoun.env.name, .symbol "y"]]

/-- The value that is read: data first, then the environment of the code. -/
def nestedValue : Value :=
  .list [.bare (.int 10), .bare (.int 2), .bare (.int 1),
    .bare (.list [.bare (.int 10), .bare (.int 3), .bare (.int 3)]), .bare (.int 2)]

theorem covers_nested : (still ⟨0⟩ nestedScopes).Covers nestedMasked (.scope 0) nestedCode := by
  have hlist (home : EnvId) (h : home = .scope 0 ∨ home = .scope 1) :
      (still ⟨0⟩ nestedScopes).Calls nestedMasked home "list"
        (.builtin (.primitive .list) .empty) := by
    rcases h with rfl | rfl <;> exact ⟨by decide, by decide, rfl⟩
  have hmember (home : EnvId) (h : home = .scope 0 ∨ home = .scope 1) :
      (still ⟨0⟩ nestedScopes).Calls nestedMasked home "$"
        (.builtin (.special .member) .empty) := by
    rcases h with rfl | rfl <;> exact ⟨by decide, by decide, rfl⟩
  have hembedded : (still ⟨0⟩ nestedScopes).Covers nestedMasked (.scope 1) embeddedCode := by
    refine .primitive (hlist _ (.inr rfl)) (fun _ => rfl) fun slot hslot => ?_
    simp only [List.map_cons, List.map_nil, List.mem_cons, List.not_mem_nil, or_false] at hslot
    rcases hslot with rfl | rfl | rfl
    · exact .symbol rfl (by decide)
    · exact .symbol rfl (by decide)
    · exact .member (p := .env) (hmember _ (.inr rfl)) rfl (.inl rfl) (by decide)
  refine .primitive (hlist _ (.inl rfl)) (fun _ => rfl) fun slot hslot => ?_
  simp only [List.map_cons, List.map_nil, List.mem_cons, List.not_mem_nil, or_false] at hslot
  rcases hslot with rfl | rfl | rfl | rfl | rfl
  · exact .symbol rfl (by decide)
  · exact .symbol rfl (by decide)
  · exact .member (p := .env) (hmember _ (.inl rfl)) rfl (.inl rfl) (by decide)
  · exact .quosure rfl hembedded
  · exact .member (p := .env) (hmember _ (.inl rfl)) rfl (.inl rfl) (by decide)

/-- Evaluation has the value that is read, though the mask moves on its way. -/
theorem evalTidy_static_nested :
    (still ⟨0⟩ nestedScopes).Covers nestedMasked (.scope 0) nestedCode ∧
    ∃ t, (Machine.ofLevel 9).evalTidy ⟨0⟩ (.code nestedCode) (.mapping [("x", .int 10)])
      (some (.scope 0)) nestedStore = .ok nestedValue t := by
  have hgrounded : nestedStore.Grounded := {
    parent := fun i => by
      match i with
      | 0 => rfl
      | 1 => rfl
      | i + 2 => rfl
    home := fun m => rfl
    earlier := fun x hx => by cases hx }
  have hdata : ∀ m, Value.mapping [("x", .int 10)] ≠ .mask m := fun m h => by cases h
  have hmask : Machine.asMask (.mapping [("x", .int 10)]) none nestedStore =
      .ok ⟨0⟩ nestedMasked := rfl
  have hsources : ∀ m, DataScope.env (.bottom m) ∈ (nestedMasked.mask ⟨0⟩).scopes →
      m.index < nestedStore.masks.size := fun m hm => by
    change DataScope.env (.bottom m) ∈ nestedScopes at hm
    simp [nestedScopes] at hm
  have hread := (evalTidy_static 9 ⟨0⟩ (.code nestedCode) (.scope 0) hgrounded hdata hmask
    hsources).1
  obtain ⟨t, ht, -⟩ := Matches.of_value (v := nestedValue) hread
  exact ⟨covers_nested, t, ht⟩

end Reading

end Quasi
