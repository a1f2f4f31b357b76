import Quasi.Proofs.Chain.Home
import Quasi.Proofs.Enclosed.Evaluation
import Quasi.Proofs.Enclosed.Preserves
import Quasi.Proofs.Promise.Flow

/-!
# What happens below a mask

The bottom of a mask and the scopes that were made since hang together: from each of them the chain
leads down to the mask first, whatever the mask falls back to. Enclosed code that is evaluated in
one of them binds in these only, and the code of its own promises is evaluated there as well.
-/

namespace Quasi

open Run (Lasting Modest Preserves Serves)
open Reading (outside)

namespace Enclosed

/-- The bottom of the mask that was made first after an earlier store, and the scopes made since
then up to a number. -/
def Below (before : Store) (n : Nat) : EnvId → Prop
  | .empty => False
  | .scope i => before.scopes.size ≤ i ∧ i < n
  | .bottom m => m.index = before.masks.size

/-- A promise that may be evaluated: a new one, or one that was not evaluated before. -/
def Open (before : Store) (p : PromiseId) : Prop :=
  p.index < before.promises.size → (before.promise p).progress.isIdle = true

/-- A store that is reached from an earlier one while code is evaluated below a mask over some
sources of data. Nothing was bound elsewhere, and new promises belong below the mask. There are as
many scopes as given, at least. -/
structure Reached (before : Store) (sources : List DataScope) (n : Nat) (s : Store) : Prop where
  room : n ≤ s.scopes.size
  scopes : before.scopes.size ≤ s.scopes.size
  scope (i : Nat) : i < before.scopes.size → s.scope i = before.scope i
  hangs (i : Nat) : before.scopes.size ≤ i → i < s.scopes.size → Below before i (s.scope i).parent
  masks : before.masks.size < s.masks.size
  mask (m : MaskId) : m.index < before.masks.size → s.mask m = before.mask m
  data : (s.mask ⟨before.masks.size⟩).scopes = sources
  promises : before.promises.size ≤ s.promises.size
  held (p : PromiseId) : p.index < before.promises.size →
    (before.promise p).progress.isIdle = false → (s.promise p).progress.isIdle = false
  env (p : PromiseId) (e : EnvId) : before.promises.size ≤ p.index → (s.promise p).env = some e →
    Below before s.scopes.size e

variable {before s : Store} {sources : List DataScope} {n k : Nat} {e : EnvId} {p : PromiseId}

theorem Below.mono (h : Below before n e) (hnk : n ≤ k) : Below before k e := by
  cases e with
  | empty => exact h
  | scope i => exact ⟨h.1, Nat.lt_of_lt_of_le h.2 hnk⟩
  | bottom m => exact h

/-- A promise that an earlier store left unevaluated is seen to be evaluated. -/
theorem reopens_of_forcing (hp : p.index < before.promises.size) (hopen : Open before p)
    (hforcing : (s.promise p).progress = .forcing) : before.reopens s = true := by
  refine List.any_eq_true.mpr ⟨p.index, List.mem_range.mpr hp, ?_⟩
  have hidle : (before.promise ⟨p.index⟩).progress.isIdle = true := hopen hp
  have hforcing' : (s.promise ⟨p.index⟩).progress = .forcing := hforcing
  rw [hidle, hforcing']
  rfl

namespace Reached

theorem mono (h : Reached before sources n s) (hkn : k ≤ n) : Reached before sources k s :=
  { h with room := Nat.le_trans hkn h.room }

theorem top (h : Reached before sources n s) : Reached before sources s.scopes.size s :=
  { h with room := Nat.le_refl _ }

theorem known (h : Reached before sources n s) (he : Below before n e) : s.known e = e := by
  cases e with
  | empty => rfl
  | scope i => exact Store.known_eq_scope.mpr (Nat.lt_of_lt_of_le he.2 h.room)
  | bottom m => exact Store.known_eq_bottom.mpr (he ▸ h.masks)

/-- A promise that waits for an evaluation may be evaluated. -/
theorem open_of_idle (h : Reached before sources n s)
    (hidle : (s.promise p).progress.isIdle = true) : Open before p := by
  intro hp
  by_contra hheld
  have hnot := h.held p hp (Bool.not_eq_true _ ▸ hheld)
  rw [hidle] at hnot
  cases hnot

/-! ## Changes -/

/-- A change of promises. Those that were not to be evaluated before are as they were. -/
theorem withPromises {t : Store} (hscopes : t.scopes = s.scopes) (hmasks : t.masks = s.masks)
    (hpromises : s.promises.size ≤ t.promises.size)
    (hheld : ∀ p : PromiseId, p.index < before.promises.size → ¬Open before p →
      t.promise p = s.promise p)
    (henv : ∀ p e, (t.promise p).env = some e →
      (s.promise p).env = some e ∨ Below before s.scopes.size e)
    (h : Reached before sources n s) : Reached before sources n t := by
  have hscope (i : Nat) : t.scope i = s.scope i := by simp only [Store.scope, hscopes]
  have hmask (m : MaskId) : t.mask m = s.mask m := by simp only [Store.mask, hmasks]
  exact {
    room := hscopes ▸ h.room
    scopes := hscopes ▸ h.scopes
    scope := fun i hi => (hscope i).trans (h.scope i hi)
    hangs := fun i hold hi => hscope i ▸ h.hangs i hold (hscopes ▸ hi)
    masks := hmasks ▸ h.masks
    mask := fun m hm => (hmask m).trans (h.mask m hm)
    data := hmask _ ▸ h.data
    promises := Nat.le_trans h.promises hpromises
    held := fun p hp hidle => by
      have hclosed : ¬Open before p := fun hopen => by
        rw [hopen hp] at hidle
        cases hidle
      rw [hheld p hp hclosed]
      exact h.held p hp hidle
    env := fun p e hp he => by
      rw [hscopes]
      rcases henv p e he with he | he
      · exact h.env p e hp he
      · exact he }

theorem of_eq {t : Store} (hscopes : t.scopes = s.scopes) (hmasks : t.masks = s.masks)
    (hpromises : t.promises = s.promises) (h : Reached before sources n s) :
    Reached before sources n t := by
  have hpromise (p : PromiseId) : t.promise p = s.promise p := by
    simp only [Store.promise, hpromises]
  exact h.withPromises hscopes hmasks (Nat.le_of_eq (congrArg Array.size hpromises.symm))
    (fun p _ _ => hpromise p) fun p e he => .inl (hpromise p ▸ he)

theorem addMask (mask : Mask) (h : Reached before sources n s) :
    Reached before sources n (s.addMask mask) := by
  have hmask (m : MaskId) (hm : m.index < s.masks.size) : (s.addMask mask).mask m = s.mask m := by
    rw [Store.mask_addMask, if_neg (Nat.ne_of_lt hm)]
  exact {
    h with
    masks := Nat.lt_of_lt_of_le h.masks (by simp [Store.addMask])
    mask := fun m hm => (hmask m (Nat.lt_trans hm h.masks)).trans (h.mask m hm)
    data := (congrArg Mask.scopes (hmask _ h.masks)).trans h.data }

instance : Lasting (Reached before sources n) where
  of_eq := of_eq
  addMask := addMask

/-- A change of the mask itself that leaves its data alone. -/
theorem setMask {m : MaskId} (hm : m.index = before.masks.size) {f : Mask → Mask}
    (hf : ∀ mask, (f mask).scopes = mask.scopes) (h : Reached before sources n s) :
    Reached before sources n (s.setMask m f) := {
  h with
  masks := by rw [Store.setMask, Array.size_modify]; exact h.masks
  mask := fun k hk => by
    rw [Store.mask_setMask, if_neg fun hkm => absurd (hkm.1.trans hm) (Nat.ne_of_lt hk)]
    exact h.mask k hk
  data := by
    rw [Store.mask_setMask]
    split
    · exact (hf _).trans h.data
    · exact h.data }

theorem setVars (he : Below before n e) (f : Bindings Value → Bindings Value)
    (h : Reached before sources n s) : Reached before sources n (s.setVars e f) := by
  cases e with
  | empty => exact h
  | bottom m => exact setMask he (fun _ => rfl) h
  | scope i =>
      have hsize : (s.setVars (.scope i) f).scopes.size = s.scopes.size := Array.size_modify
      have hparent (j : Nat) : ((s.setVars (.scope i) f).scope j).parent = (s.scope j).parent := by
        rw [Store.setVars, Store.scope_setScope]
        split <;> rfl
      exact {
        h with
        room := hsize ▸ h.room
        scopes := hsize ▸ h.scopes
        scope := fun j hj => by
          have hne : ¬(j = i ∧ i < s.scopes.size) := fun hji => by
            have hi := he.1
            omega
          rw [Store.setVars, Store.scope_setScope, if_neg hne]
          exact h.scope j hj
        hangs := fun j hold hj => hparent j ▸ h.hangs j hold (hsize ▸ hj)
        env := fun p e hp he => hsize ▸ h.env p e hp he }

/-- A fresh scope below the mask. -/
theorem addScope (he : Below before n e) (h : Reached before sources n s) :
    Reached before sources (s.scopes.size + 1) (s.addScope ⟨[], e, none⟩) := by
  have hsize : (s.addScope ⟨[], e, none⟩).scopes.size = s.scopes.size + 1 := by
    simp [Store.addScope]
  have hscope (i : Nat) (hi : i < s.scopes.size) :
      (s.addScope ⟨[], e, none⟩).scope i = s.scope i := by
    rw [Store.scope_addScope, if_neg (Nat.ne_of_lt hi)]
  exact {
    h with
    room := Nat.le_of_eq hsize.symm
    scopes := hsize ▸ Nat.le_succ_of_le h.scopes
    scope := fun i hi => (hscope i (Nat.lt_of_lt_of_le hi h.scopes)).trans (h.scope i hi)
    hangs := fun i hold hi => by
      rcases Nat.lt_succ_iff_lt_or_eq.mp (hsize ▸ hi) with hi | rfl
      · exact hscope i hi ▸ h.hangs i hold hi
      · rw [Store.scope_addScope, if_pos rfl]
        exact (h.known he).symm ▸ he.mono h.room
    env := fun p e hp he => hsize ▸ (h.env p e hp he).mono (Nat.le_succ _) }

/-- A new promise over an environment below the mask. -/
theorem addPromise (he : Below before n e) (code : Expr) (ctx : EvaluatorId)
    (h : Reached before sources n s) :
    Reached before sources n (s.addPromise ⟨code, some e, some ctx, false, .unforced⟩) := by
  refine h.withPromises (s.scopes_addPromise _) (s.masks_addPromise _)
    (Nat.le_of_lt (s.lt_size_addPromise _)) (fun p hp _ => ?_) fun p e' he' => ?_
  · rw [Store.promise_addPromise, if_neg (Nat.ne_of_lt (Nat.lt_of_lt_of_le hp h.promises))]
  · rw [Store.promise_addPromise] at he'
    split at he'
    · cases he'
      exact .inr ((h.known he).symm ▸ he.mono h.room)
    · exact .inl he'

/-- A change of a promise that may be evaluated; it gets no other environment. -/
theorem setPromise (hp : Open before p) {f : Promise → Promise}
    (hf : ∀ q e, (f q).env = some e → q.env = some e) (h : Reached before sources n s) :
    Reached before sources n (s.setPromise p f) := by
  have hsize : s.promises.size ≤ (s.setPromise p f).promises.size :=
    Nat.le_of_eq Array.size_modify.symm
  refine h.withPromises (s := s) (t := s.setPromise p f) rfl rfl hsize
    (fun q _ hclosed => ?_) fun q e he => ?_
  · have hne : ¬(q.index = p.index ∧ p.index < s.promises.size) := fun hqp => by
      have hqp' : q = p := congrArg PromiseId.mk hqp.1
      exact hclosed (hqp' ▸ hp)
    rw [Store.promise_setPromise, if_neg hne]
  · rw [Store.promise_setPromise] at he
    split at he
    · exact .inl (hf _ _ he)
    · exact .inl he

theorem begin (hp : Open before p) (h : Reached before sources n s) :
    Reached before sources n (s.begin p) := by
  have hset := setPromise (f := fun promise => { promise with progress := .forcing }) hp
    (fun _ _ he => he) h
  rw [Store.begin, Store.use_eq]
  exact of_eq (s := s.setPromise p fun promise => { promise with progress := .forcing }) rfl rfl rfl
    hset

theorem preserves_conclude (hp : Open before p) (outcome : Except Signal Value) :
    Preserves (Reached before sources n) (Machine.conclude p outcome) := by
  have habandon (x : Signal) : Preserves (Reached before sources n) (Machine.abandon p x) :=
    .of_modify fun s hs => of_eq (s := s.setPromise p _) rfl rfl rfl
      (setPromise (f := fun promise => { promise with progress := .interrupted }) hp
        (fun _ _ he => he) hs)
  have hsettle (progress : Progress) :
      Preserves (Reached before sources n) (Machine.settle p progress) :=
    .of_modify fun s hs => of_eq (s := s.setPromise p _) rfl rfl rfl
      (setPromise (f := fun promise => { promise with progress := progress, env := none }) hp
        (fun _ _ he => nomatch he) hs)
  unfold Machine.conclude
  split <;> infer_instance

/-- It does not matter what the mask falls back to. -/
theorem rechain {m : MaskId} (hm : m.index = before.masks.size) (home : EnvId)
    (h : Reached before sources n s) : Reached before sources n (s.rechain m home) := by
  have hset := setMask (f := fun mask => { mask with home := s.known home }) hm (fun _ => rfl) h
  exact of_eq (s := s.setMask m fun mask => { mask with home := s.known home }) rfl rfl rfl hset

/-! ## Chains -/

/-- The first mask on a chain from below the mask is the mask itself. -/
theorem find_walk (h : Reached before sources n s) (he : Below before n e) {isMask : EnvId → Bool}
    (hbottom : ∀ m, isMask (.bottom m) = true) (hscope : ∀ i, isMask (.scope i) = false)
    {steps : Nat} (hsteps : n + 1 ≤ steps) :
    (s.walk steps e).1.find? isMask = some (.bottom ⟨before.masks.size⟩) := by
  induction steps generalizing n e with
  | zero => omega
  | succ steps ih =>
      cases e with
      | empty => exact he.elim
      | bottom m =>
          have hm : m = ⟨before.masks.size⟩ := congrArg MaskId.mk he
          have hparent : s.parent? (.bottom m) = some (s.mask m).home := rfl
          rw [Store.walk_of_some steps hparent, List.find?_cons_of_pos (hbottom m), hm]
      | scope i =>
          have hparent : s.parent? (.scope i) = some (s.scope i).parent := rfl
          have hhangs := h.hangs i he.1 (Nat.lt_of_lt_of_le he.2 h.room)
          have hi := he.2
          have hnot : ¬isMask (.scope i) = true := by simp [hscope]
          rw [Store.walk_of_some steps hparent, List.find?_cons_of_neg hnot]
          exact ih (h.mono (Nat.le_of_lt he.2)) hhangs (by omega)

theorem search (h : Reached before sources n s) (he : Below before n e) {isMask : EnvId → Bool}
    (hbottom : ∀ m, isMask (.bottom m) = true) (hscope : ∀ i, isMask (.scope i) = false) :
    Run.search e (fun _ => isMask) s = .ok (some (.bottom ⟨before.masks.size⟩)) s := by
  have hsteps : s.scopes.size + 1 ≤ s.environmentCount + 2 := by
    simp only [Store.environmentCount]
    omega
  have hfind := h.top.find_walk (he.mono h.room) hbottom hscope hsteps
  rw [Run.search, Run.get_bind, Store.chain, hfind]
  rfl

theorem findMask (h : Reached before sources n s) (he : Below before n e) :
    Run.findMask e s = .ok (some ⟨before.masks.size⟩) s := by
  rw [Run.findMask, Run.bind_of_ok (h.search he (fun _ => rfl) fun _ => rfl)]
  rfl

end Reached

/-! ## Runs below a mask -/

theorem preserves_outside {I : Store → Prop} {α : Type} : Preserves I (outside : Run α) :=
  inferInstanceAs (Preserves I (throw .endless : Run α))

/-- Whatever runs below the mask may run while the mask falls back elsewhere. -/
theorem preserves_under {α : Type} {body : EnvId → Run α} (home : EnvId)
    (hbody : Preserves (Reached before sources n) (body (.bottom ⟨before.masks.size⟩))) :
    Preserves (Reached before sources n) (Run.under ⟨before.masks.size⟩ home body) where
  ends {s t} hs h := by
    obtain ⟨u, v, hopen, hrun, hclose⟩ := Flow.under_cases h
    have hu := (hs.rechain rfl home).of_eq hopen.scopes hopen.masks hopen.promises
    have hv := (hbody.ends hu hrun).rechain rfl (s.mask ⟨before.masks.size⟩).home
    exact hv.of_eq hclose.scopes hclose.masks hclose.promises

instance {I : Store → Prop} [hI : Lasting I] :
    Lasting fun s => I s ∧ before.reopens s = true where
  of_eq hscopes hmasks hpromises hs := by
    refine ⟨hI.of_eq hscopes hmasks hpromises hs.1, ?_⟩
    simp only [Store.reopens, Store.promise, hpromises]
    exact hs.2
  addMask mask hs := ⟨hI.addMask mask hs.1, hs.2⟩

/-! ## Machines -/

/-- A machine that evaluates below the mask what is below it. Once a promise is being evaluated that
was not to be, it is all the same where. -/
structure Stays (before : Store) (m : Machine) : Prop where
  eval {sources : List DataScope} {n : Nat} {env : EnvId} (ctx : EvaluatorId) (e : Expr) :
    Below before n env → Preserves (Reached before sources n) (m.eval ctx e env)
  reopened {sources : List DataScope} {n : Nat} (ctx : EvaluatorId) (e : Expr) (env : EnvId) :
    Preserves (fun s => Reached before sources n s ∧ before.reopens s = true) (m.eval ctx e env)

namespace Stays

variable {m : Machine} (hm : Stays before m) {env : EnvId}
include hm

omit hm in
theorem preserves_evalPromise {I : Store → Prop} [Lasting I] (ctx : EvaluatorId) {promise : Promise}
    (heval : ∀ env, promise.env = some env → Preserves I (m.eval ctx promise.code env)) :
    Preserves I (m.evalPromise ctx promise) := by
  have hnowhere (e : Expr) : Preserves I (Machine.evalNowhere e) := by
    unfold Machine.evalNowhere
    split <;> infer_instance
  unfold Machine.evalPromise
  split
  next env henv => exact heval env henv
  next => exact hnowhere _

/-- The evaluation of a promise that waits for it happens below the mask, or is lost. -/
theorem runPromise {t : Store} (ctx : EvaluatorId) (hs : Reached before sources n s)
    (hidle : (s.promise p).progress.isIdle = true) (h : (m.runPromise ctx p).EndsIn s t) :
    Reached before sources n t := by
  have hopen := hs.open_of_idle hidle
  have hbegun := hs.top.begin hopen
  have hrest {I : Store → Prop} [Lasting I] (hI : I (s.begin p))
      (hreached : ∀ u, I u → Reached before sources s.scopes.size u)
      (heval : ∀ env, (s.promise p).env = some env →
        Preserves I (m.eval ctx (s.promise p).code env)) :
      Reached before sources s.scopes.size t := by
    have hpromise := preserves_evalPromise ctx heval
    have hevaluation : Preserves I (Flow.evaluation m ctx (s.promise p)) := by
      unfold Flow.evaluation
      infer_instance
    have hend (outcome : Except Signal Value) :
        Preserves (Reached before sources s.scopes.size) (do
          Machine.conclude p outcome
          Run.resume outcome) :=
      .bind (Reached.preserves_conclude hopen outcome) fun _ => inferInstance
    obtain ⟨outcome, u, hu, h⟩ := (h.of_eq (Flow.runPromise_eq ctx s)).of_quiet
    exact (hend outcome).ends (hreached u (hevaluation.of_ok hI hu)) h
  refine Reached.mono ?_ hs.room
  by_cases hp : before.promises.size ≤ p.index
  · exact hrest hbegun (fun _ hu => hu) fun env henv => hm.eval ctx _ (hs.env p env hp henv)
  · have hforcing : ((s.begin p).promise p).progress = .forcing :=
      (Moves.begin (Store.index_lt_of_idle hidle)).progress
    have hreopens := reopens_of_forcing (Nat.lt_of_not_le hp) hopen hforcing
    exact hrest ⟨hbegun, hreopens⟩ (fun _ hu => hu.1) fun env _ => hm.reopened ctx _ env

theorem force (ctx : Option EvaluatorId) (p : PromiseId) :
    Preserves (Reached before sources n) (m.force ctx p) where
  ends {s t} hs h := by
    rcases Flow.force_cases m ctx p s with ⟨a, ha, heq⟩ | ⟨ev, u, hsu, hidle, heq⟩
    · exact (Preserves.of_modest ha).ends hs (h.of_eq heq)
    · exact hm.runPromise ev (hs.of_eq hsu.scopes hsu.masks hsu.promises) hidle (h.of_eq heq)

theorem serves (hbelow : Below before n env) : Serves (Reached before sources n) m env where
  eval ctx e := hm.eval ctx e hbelow
  force := hm.force
  define name v := by
    cases env with
    | empty => exact hbelow.elim
    | scope i => exact .of_modify fun s hs => hs.setVars hbelow _
    | bottom mask => exact .of_modify fun s hs => hs.setVars hbelow _
  newPromise e ctx := .of_value (fun _ => rfl) fun s hs => hs.addPromise hbelow e ctx

theorem evalIn (hbelow : Below before n env) (ctx : EvaluatorId) (e : Expr) :
    Preserves (Reached before sources n) (m.evalIn ctx e env) := by
  have heval : Preserves (Reached before sources n) (m.eval ctx e env) := hm.eval ctx e hbelow
  unfold Machine.evalIn
  infer_instance

/-- A local scope is made below the mask, and what is evaluated in it is evaluated there. -/
theorem localForm (hbelow : Below before n env) (ctx : EvaluatorId) (slots : List Slot) :
    Preserves (Reached before sources n) (localForm m ctx slots env) := by
  have hfresh (expr : Expr) : Preserves (Reached before sources n) (do
      let place ← Run.newScope env [] none
      m.evalIn ctx expr place) := by
    refine ⟨fun {s t} hs h => ?_⟩
    have hnew : Run.newScope env [] none s =
        .ok (.scope s.scopes.size) (s.addScope ⟨[], env, none⟩) := rfl
    have hlocal : Below before (s.scopes.size + 1) (.scope s.scopes.size) :=
      ⟨hs.scopes, Nat.lt_succ_self _⟩
    have heval : Preserves (Reached before sources (s.scopes.size + 1))
        (m.evalIn ctx expr (.scope s.scopes.size)) := hm.evalIn hlocal ctx expr
    have ht := heval.ends (hs.addScope hbelow) (h.of_eq (Run.bind_of_ok hnew))
    exact ht.mono (Nat.le_succ_of_le hs.room)
  unfold Enclosed.localForm
  refine .andThen fun matched => ?_
  split
  · infer_instance
  · exact hfresh _
  · exact preserves_outside

/-- A quosure is evaluated at the bottom of the mask, not in its own environment. -/
theorem evalQuosure (hbelow : Below before n env) (ctx : EvaluatorId) (e : Expr) (home : EnvId) :
    Preserves (Reached before sources n) (m.evalQuosure ctx e home env) where
  ends {s t} hs h := by
    have hbottom : Below before n (.bottom ⟨before.masks.size⟩) := rfl
    have hunder : Preserves (Reached before sources n)
        (Run.under ⟨before.masks.size⟩ home fun bottom => m.eval ctx e bottom) :=
      preserves_under home (hm.eval ctx e hbottom)
    exact hunder.ends hs (h.of_eq (Run.bind_of_ok (hs.findMask hbelow)))

/-- Nor is what is evaluated under the mask. -/
theorem evalUnder (ctx : EvaluatorId) (code : Value) (env : Option EnvId) :
    Preserves (Reached before sources n) (m.evalUnder ctx code ⟨before.masks.size⟩ env) := by
  have hbottom : Below before n (.bottom ⟨before.masks.size⟩) := rfl
  have hunder (e : Expr) (home : EnvId) : Preserves (Reached before sources n)
      (Run.under ⟨before.masks.size⟩ home fun bottom => m.evalIn ctx e bottom) :=
    preserves_under home (hm.evalIn hbottom ctx e)
  unfold Machine.evalUnder
  split
  · exact hunder _ _
  · exact hunder _ _
  · refine .bind ?_ fun home => hunder _ home
    unfold Machine.topEnv
    infer_instance

theorem applyForm (hbelow : Below before n env) (ctx : EvaluatorId) (form : SpecialForm)
    (slots : List Slot) :
    Preserves (Reached before sources n) (applyForm m ctx form slots env) := by
  have hserves : Serves (Reached before sources n) m env := hm.serves hbelow
  cases form with
  | block => exact Serves.blockForm ctx slots
  | paren => exact Serves.parenForm ctx slots
  | ifElse => exact Serves.ifForm ctx slots
  | andAlso => exact Serves.andForm ctx slots
  | orElse => exact Serves.orForm ctx slots
  | assign => exact Serves.assignForm ctx slots
  | equalsAssign => exact Serves.assignForm ctx slots
  | localScope => exact hm.localForm hbelow ctx slots
  | _ => exact preserves_outside

theorem apply (hbelow : Below before n env) (ctx : EvaluatorId) (fn : Value) (call : Expr)
    (slots : List Slot) : Preserves (Reached before sources n) (apply m ctx fn call slots env) := by
  have hserves : Serves (Reached before sources n) m env := hm.serves hbelow
  cases fn with
  | builtin b home =>
      cases b with
      | special form => exact hm.applyForm hbelow ctx form slots
      | primitive fn =>
          refine .bind (Serves.evalArgs ctx slots call) fun args => ?_
          dsimp only
          split
          next halone => exact .applyPrimitive halone m ctx args.2 env
          next => exact preserves_outside
  | _ => exact preserves_outside

theorem step (hbelow : Below before n env) (ctx : EvaluatorId) (e : Expr) :
    Preserves (Reached before sources n) (step m ctx e env) := by
  have hserves : Serves (Reached before sources n) m env := hm.serves hbelow
  cases e with
  | const v =>
      cases v with
      | quosure e home => exact hm.evalQuosure hbelow ctx e home
      | _ => exact inferInstanceAs (Preserves _ (pure _))
  | symbol name => exact Serves.evalSymbol ctx name
  | call head slots =>
      cases head with
      | symbol name =>
          exact .bind (Serves.lookupFunction name) fun fn => hm.apply hbelow ctx fn _ slots
      | _ => exact preserves_outside
  | formals items => exact inferInstanceAs (Preserves _ (pure _))
  | missing => exact inferInstanceAs (Preserves _ (Run.fail _))

end Stays

/-- Enclosed code that is evaluated below the mask leaves alone what is not below it. -/
theorem stays_machine (before : Store) (n : Nat) : Stays before (machine before n) := by
  induction n with
  | zero => exact ⟨fun _ _ _ => inferInstanceAs (Preserves _ (Run.raise .overflow)),
      fun _ _ _ => inferInstanceAs (Preserves _ (Run.raise .overflow))⟩
  | succ n ih =>
      refine ⟨fun {sources k env} ctx e hbelow => ?_, fun {sources k} ctx e env => ?_⟩
      · have hstep : Preserves (Reached before sources k) (step (machine before n) ctx e env) :=
          ih.step hbelow ctx e
        refine .andThen fun s => ?_
        split
        · exact preserves_outside
        · exact hstep
      · refine ⟨fun {s t} hs h => ?_⟩
        have hlost : (machine before (n + 1)).eval ctx e env s = (outside : Run Value) s := by
          change (if before.reopens s then outside else step (machine before n) ctx e env) s = _
          rw [if_pos hs.2]
        have houtside : Preserves (fun s => Reached before sources k s ∧ before.reopens s = true)
            (outside : Run Value) := preserves_outside
        exact houtside.ends hs (h.of_eq hlost)

end Enclosed

end Quasi
