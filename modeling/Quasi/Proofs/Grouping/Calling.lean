import Quasi.Proofs.Grouping.Matching
import Quasi.Proofs.Grouping.Promises
import Quasi.Proofs.Forward.Transparency

/-!
# Calling with a list

A call with a list of arguments is the direct call of the list that it makes of them, in which they
are grouped and of two with one name the later is left. Of another order the direct call takes no
notice where it binds formals, and keeps it in `...`.
-/

namespace Quasi

open Run (bind_of_ok bind_of_error)
open Tagged (carried grouped merged pairs unnamed UnnamedFirst)

/-- The promise of a default, over the environment of the call. -/
def Promise.ofDefault (ctx : EvaluatorId) (env : EnvId) (e : Expr) : Promise :=
  ⟨e, some env, some ctx, true, .unforced⟩

/-- The promises of a store are there in another one, as they are. -/
def Store.PromisesIn (s t : Store) : Prop :=
  s.promises.size ≤ t.promises.size ∧
    ∀ p : PromiseId, p.index < s.promises.size → t.promise p = s.promise p

theorem Store.PromisesIn.of_eq {s t : Store} (h : t.promises = s.promises) : s.PromisesIn t :=
  ⟨Nat.le_of_eq (congrArg Array.size h.symm), fun p _ => by simp only [Store.promise, h]⟩

theorem Store.Grows.promisesIn {s t : Store} (h : s.Grows t) : s.PromisesIn t :=
  ⟨h.promises, h.promise⟩

namespace Machine

variable {ctx : EvaluatorId} {env : EnvId} {s t t' u u' : Store} {i i' : Nat}
  {order : List (Tagged Value) → List (Tagged Value)}

/-! ## Frames of both calls -/

/-- A promise of the direct call and one of the call with a list, of one value. -/
inductive SameArgument (ctx : EvaluatorId) (env : EnvId) (t t' : Store) : Value → Value → Prop where
  | intro {p p' : PromiseId} (v : Value) (hp : p.index < t.promises.size)
      (hp' : p'.index < t'.promises.size) (hawaiting : t.promise p = .awaiting ctx env v)
      (hgiven : t'.promise p' = .given v) :
      SameArgument ctx env t t' (.promise p) (.promise p')

theorem SameArgument.grow {v v' : Value} (h : SameArgument ctx env t t' v v') (hu : t.PromisesIn u)
    (hu' : t'.PromisesIn u') : SameArgument ctx env u u' v v' := by
  cases h with
  | intro v hp hp' hawaiting hgiven =>
      exact .intro v (Nat.lt_of_lt_of_le hp hu.1) (Nat.lt_of_lt_of_le hp' hu'.1)
        ((hu.2 _ hp).trans hawaiting) ((hu'.2 _ hp').trans hgiven)

/-- Arguments of both calls that `...` is bound to, one by one and under the same names. -/
def SameEntries (ctx : EvaluatorId) (env : EnvId) (t t' : Store) :
    List (Tagged Value) → List (Tagged Value) → Prop :=
  List.Forall₂ fun a a' => a.tag = a'.tag ∧ SameArgument ctx env t t' a.item a'.item

/-- What a formal is bound to in the frames of both calls. The entries of `...` are the same where
those of the direct call are put in the given order. -/
inductive SameBinding (ctx : EvaluatorId) (env : EnvId)
    (order : List (Tagged Value) → List (Tagged Value)) (t : Store) (i : Nat) (t' : Store)
    (i' : Nat) : Value → Value → Prop where
  | argument {v v' : Value} (h : SameArgument ctx env t t' v v') :
      SameBinding ctx env order t i t' i' v v'
  | missing : SameBinding ctx env order t i t' i' (.code .missing) (.code .missing)
  | default {p p' : PromiseId} (e : Expr) (hp : p.index < t.promises.size)
      (hp' : p'.index < t'.promises.size)
      (h : t.promise p = .ofDefault ctx (.scope i) e)
      (h' : t'.promise p' = .ofDefault ctx (.scope i') e) :
      SameBinding ctx env order t i t' i' (.promise p) (.promise p')
  | dots {entries entries' : List (Tagged Value)}
      (h : SameEntries ctx env t t' (order entries) entries') :
      SameBinding ctx env order t i t' i' (.dots entries) (.dots entries')

theorem SameBinding.grow {v v' : Value} (h : SameBinding ctx env order t i t' i' v v')
    (hu : t.PromisesIn u) (hu' : t'.PromisesIn u') : SameBinding ctx env order u i u' i' v v' := by
  cases h with
  | argument h => exact .argument (h.grow hu hu')
  | missing => exact .missing
  | default e hp hp' h h' =>
      exact .default e (Nat.lt_of_lt_of_le hp hu.1) (Nat.lt_of_lt_of_le hp' hu'.1)
        ((hu.2 _ hp).trans h) ((hu'.2 _ hp').trans h')
  | dots h => exact .dots (h.imp fun _ _ ha => ⟨ha.1, ha.2.grow hu hu'⟩)

/-- Bindings of the same names, in the same order, to the same. -/
def SameBindings (ctx : EvaluatorId) (env : EnvId)
    (order : List (Tagged Value) → List (Tagged Value)) (t : Store) (i : Nat) (t' : Store)
    (i' : Nat) : Bindings Value → Bindings Value → Prop :=
  List.Forall₂ fun b b' => b.1 = b'.1 ∧ SameBinding ctx env order t i t' i' b.2 b'.2

theorem SameBindings.set {vars vars' : Bindings Value} {v v' : Value}
    (h : SameBindings ctx env order t i t' i' vars vars')
    (hv : SameBinding ctx env order t i t' i' v v') (name : String) :
    SameBindings ctx env order t i t' i' (vars.set name v) (vars'.set name v') := by
  induction h with
  | nil => exact .cons ⟨rfl, hv⟩ .nil
  | @cons b b' rest rest' hb hrest ih =>
      simp only [Bindings.set, ← hb.1]
      split
      · exact .cons ⟨rfl, hv⟩ hrest
      · exact .cons ⟨rfl, hb.2⟩ ih

/-- Two stores in which a call of one closure has bound its arguments to the same, in environments
of its own. -/
structure SameFrames (ctx : EvaluatorId) (env : EnvId)
    (order : List (Tagged Value) → List (Tagged Value)) (t : Store) (i : Nat) (t' : Store)
    (i' : Nat) : Prop where
  made : i < t.scopes.size
  made' : i' < t'.scopes.size
  parent : (t'.scope i').parent = (t.scope i).parent
  vars : SameBindings ctx env order t i t' i' (t.scope i).vars (t'.scope i').vars

namespace SameFrames

/-- Promises may be made in both stores, which the environments take no notice of. -/
theorem grow (h : SameFrames ctx env order t i t' i') (hu : t.PromisesIn u)
    (hu' : t'.PromisesIn u') (hscopes : u.scopes = t.scopes) (hscopes' : u'.scopes = t'.scopes) :
    SameFrames ctx env order u i u' i' where
  made := hscopes ▸ h.made
  made' := hscopes' ▸ h.made'
  parent := by
    simp only [Store.scope, hscopes, hscopes']
    exact h.parent
  vars := by
    simp only [Store.scope, hscopes, hscopes']
    exact h.vars.imp fun _ _ hb => ⟨hb.1, hb.2.grow hu hu'⟩

theorem setVars {v v' : Value} (h : SameFrames ctx env order t i t' i')
    (hv : SameBinding ctx env order t i t' i' v v') (name : String) :
    SameFrames ctx env order (t.setVars (.scope i) fun vars => vars.set name v) i
      (t'.setVars (.scope i') fun vars => vars.set name v') i' where
  made := Nat.lt_of_lt_of_eq h.made Array.size_modify.symm
  made' := Nat.lt_of_lt_of_eq h.made' Array.size_modify.symm
  parent := by
    rw [scope_setVars h.made, scope_setVars h.made']
    exact h.parent
  vars := by
    rw [scope_setVars h.made, scope_setVars h.made']
    exact (h.vars.set hv name).imp fun _ _ hb => ⟨hb.1, hb.2.grow (.of_eq rfl) (.of_eq rfl)⟩

/-- The promise of a default is made on both sides. -/
theorem addDefault (h : SameFrames ctx env order t i t' i') (e : Expr) :
    SameFrames ctx env order (t.addPromise (.ofDefault ctx (.scope i) e)) i
      (t'.addPromise (.ofDefault ctx (.scope i') e)) i' ∧
    SameBinding ctx env order (t.addPromise (.ofDefault ctx (.scope i) e)) i
      (t'.addPromise (.ofDefault ctx (.scope i') e)) i'
      (.promise ⟨t.promises.size⟩) (.promise ⟨t'.promises.size⟩) := by
  refine ⟨h.grow (Store.Grows.addPromise ..).promisesIn (Store.Grows.addPromise ..).promisesIn
    (t.scopes_addPromise _) (t'.scopes_addPromise _), .default e ?_ ?_ ?_ ?_⟩
  · exact t.lt_size_addPromise _
  · exact t'.lt_size_addPromise _
  · rw [Store.promise_addPromise, if_pos rfl, Promise.ofDefault, Option.map_some,
      Store.known_eq_scope.mpr h.made]
  · rw [Store.promise_addPromise, if_pos rfl, Promise.ofDefault, Option.map_some,
      Store.known_eq_scope.mpr h.made']

end SameFrames

/-- Neither is anything, or both are something and related. -/
def Both (R : Value → Value → Prop) (x y : Option Value) : Prop :=
  x = none ∧ y = none ∨ ∃ v w, x = some v ∧ y = some w ∧ R v w

/-- Arguments of both calls that were matched to the same formals, with the same leftovers. -/
structure SameMatched (ctx : EvaluatorId) (env : EnvId)
    (order : List (Tagged Value) → List (Tagged Value)) (t t' : Store)
    (matched matched' : Matched Value) : Prop where
  bound (name : String) :
    Both (SameArgument ctx env t t') (matched.bound.get? name) (matched'.bound.get? name)
  dots : SameEntries ctx env t t' (order matched.dots) matched'.dots

section Bind

variable {matched matched' : Matched Value}

theorem SameMatched.grow (h : SameMatched ctx env order t t' matched matched')
    (hu : t.PromisesIn u) (hu' : t'.PromisesIn u') :
    SameMatched ctx env order u u' matched matched' where
  bound name := (h.bound name).imp id fun ⟨v, w, hv, hw, hvw⟩ => ⟨v, w, hv, hw, hvw.grow hu hu'⟩
  dots := h.dots.imp fun _ _ ha => ⟨ha.1, ha.2.grow hu hu'⟩

/-- A formal is bound to the same, or to its default on both sides. -/
theorem SameMatched.boundTo? (h : SameMatched ctx env order t t' matched matched') (i i' : Nat)
    (name : String) (default : Expr) :
    Both (SameBinding ctx env order t i t' i') (boundTo? matched name default)
      (boundTo? matched' name default) := by
  unfold Machine.boundTo?
  split
  · exact .inr ⟨_, _, rfl, rfl, .dots h.dots⟩
  · obtain ⟨hnone, hnone'⟩ | ⟨v, w, hv, hw, hvw⟩ := h.bound name
    · rw [hnone, hnone']
      cases default with
      | missing => exact .inr ⟨_, _, rfl, rfl, .missing⟩
      | _ => exact .inl ⟨rfl, rfl⟩
    · rw [hv, hw]
      cases hvw with
      | intro v hp hp' hawaiting hgiven =>
          exact .inr ⟨_, _, rfl, rfl, .argument (.intro v hp hp' hawaiting hgiven)⟩

/-- Both calls bind the formals of the closure to the same. -/
theorem SameFrames.bindFormals (h : SameFrames ctx env order t i t' i')
    (hmatched : SameMatched ctx env order t t' matched matched')
    (formals : List (String × Expr)) :
    ∃ v v', Machine.bindFormals ctx (.scope i) matched formals t = .ok ⟨⟩ v ∧
      Machine.bindFormals ctx (.scope i') matched' formals t' = .ok ⟨⟩ v' ∧
      SameFrames ctx env order v i v' i' ∧ v.evaluators = t.evaluators ∧
      v'.evaluators = t'.evaluators := by
  induction formals generalizing t t' with
  | nil => exact ⟨t, t', rfl, rfl, h, rfl, rfl⟩
  | cons formal rest ih =>
      obtain ⟨name, default⟩ := formal
      rw [bindFormals_cons, bindFormals_cons]
      obtain ⟨hnone, hnone'⟩ | ⟨v, w, hv, hw, hvw⟩ := hmatched.boundTo? i i' name default
      · rw [hnone, hnone']
        have hdefault : bindFormals.bindDefault ctx (.scope i) name default t = .ok ⟨⟩
          ((t.addPromise (.ofDefault ctx (.scope i) default)).setVars (.scope i)
            fun vars => vars.set name (.promise ⟨t.promises.size⟩)) := rfl
        have hdefault' : bindFormals.bindDefault ctx (.scope i') name default t' = .ok ⟨⟩
          ((t'.addPromise (.ofDefault ctx (.scope i') default)).setVars (.scope i')
            fun vars => vars.set name (.promise ⟨t'.promises.size⟩)) := rfl
        dsimp only
        rw [bind_of_ok hdefault, bind_of_ok hdefault']
        obtain ⟨hadded, hpromised⟩ := h.addDefault default
        have hgrow := hmatched.grow
          (Store.Grows.addPromise t (.ofDefault ctx (.scope i) default)).promisesIn
          (Store.Grows.addPromise t' (.ofDefault ctx (.scope i') default)).promisesIn
        obtain ⟨v, v', hv, hv', hframes, hev, hev'⟩ :=
          ih (hadded.setVars hpromised name) (hgrow.grow (.of_eq rfl) (.of_eq rfl))
        refine ⟨v, v', hv, hv', hframes, hev.trans ?_, hev'.trans ?_⟩
        · simp [Store.setVars, Store.setScope]
        · simp [Store.setVars, Store.setScope]
      · rw [hv, hw]
        dsimp only
        rw [bind_of_ok (define_scope i name v t), bind_of_ok (define_scope i' name w t')]
        exact ih (h.setVars hvw name) (hmatched.grow (.of_eq rfl) (.of_eq rfl))

end Bind

/-! ## Outcomes of both calls -/

/-- What a direct call of a closure and a call of it with a list come to. -/
inductive SameOutcome (ctx : EvaluatorId) (k : Nat) (c : ClosureId) (env : EnvId)
    (order : List (Tagged Value) → List (Tagged Value)) (s : Store) (direct listed : Run Value) :
    Prop where
  /-- The arguments do not match the formals. -/
  | refused {fault fault' : ArityFault} {r r' : Nat} {t t' : Store}
      (hdirect : direct s = .error (.failure ⟨r, .arity fault⟩) t)
      (hlisted : listed s = .error (.failure ⟨r', .arity fault'⟩) t')
  /-- Whether names may be abbreviated cannot be read from the settings. -/
  | unreadable {flag : SettingFault} {r r' : Nat} {t t' : Store}
      (hflag : s.settings.partialMatching = .error flag)
      (hdirect : direct s = .error (.failure ⟨r, .host (.value flag.message)⟩) t)
      (hlisted : listed s = .error (.failure ⟨r', .host (.value flag.message)⟩) t')
  /-- There is no room for another frame. -/
  | full {r r' : Nat} {t t' : Store}
      (hdirect : direct s = .error (.failure ⟨r, .recursion⟩) t)
      (hlisted : listed s = .error (.failure ⟨r', .recursion⟩) t')
  /-- The body is evaluated in frames that bind the formals to the same. -/
  | bound {i i' id id' : Nat} {t t' : Store}
      (hdirect : direct s = within ctx [⟨ofLevel k, .scope i, id⟩]
        ((ofLevel k).eval ctx (s.closure c).body (.scope i)) t)
      (hlisted : listed s = within ctx [⟨ofLevel k, .scope i', id'⟩]
        ((ofLevel k).eval ctx (s.closure c).body (.scope i')) t')
      (hframes : SameFrames ctx (s.known env) order t i t' i')

section Apply

variable {c : ClosureId} {supplied : List (Tagged Value)} {call : Expr} {m : Machine}
  {caller : EnvId}

theorem applyClosure_of_matchFormals {i : Interrupt}
    (h : matchFormals ((s.closure c).formals.map (·.1)) (describe (opened s c)) supplied (some call)
      (opened s c) = .error i t) : m.applyClosure ctx c supplied call caller s = .error i t := by
  rw [applyClosure_eq]
  refine bind_of_error ?_
  rw [bindClosure_opened]
  exact bind_of_error h

/-- A closure whose arguments are refused by their exact names does not read the flag. -/
theorem applyClosure_refused_exactly {fault : ArityFault}
    (h : Matching.exactRound ((s.closure c).formals.map (·.1)) [] (Matching.number supplied) =
      .error fault) :
    ∃ r t, m.applyClosure ctx c supplied call caller s = .error (.failure ⟨r, .arity fault⟩) t := by
  refine ⟨(opened s c).failures.size, { opened s c with
    failures := (opened s c).failures.push ⟨some call, none⟩ }, applyClosure_of_matchFormals ?_⟩
  unfold matchFormals
  rw [h]
  rfl

/-- One whose arguments pass by their exact names fails at a flag that cannot be read. -/
theorem applyClosure_unreadable {flag : SettingFault} {state : Matching.State Value}
    (hflag : s.settings.partialMatching = .error flag)
    (h : Matching.exactRound ((s.closure c).formals.map (·.1)) [] (Matching.number supplied) =
      .ok state) :
    ∃ r t, m.applyClosure ctx c supplied call caller s =
      .error (.failure ⟨r, .host (.value flag.message)⟩) t := by
  have hopened : (opened s c).settings.partialMatching = .error flag := hflag
  refine ⟨(opened s c).failures.size, { opened s c with
    failures := (opened s c).failures.push ⟨none, none⟩ }, applyClosure_of_matchFormals ?_⟩
  unfold matchFormals
  rw [h]
  simp only [pure_bind, Run.get_bind, hopened]
  rfl

end Apply

/-- Stores in which arguments were promised, beside what another store has. -/
structure Supplied (s u : Store) : Prop where
  grows : s.Grows u
  scopes : u.scopes = s.scopes
  evaluators : u.evaluators = s.evaluators

theorem supplied_addPromises (s : Store) (promises : List Promise) :
    Supplied s (s.addPromises promises) :=
  ⟨s.addPromises_grows promises, s.scopes_addPromises promises, s.evaluators_addPromises promises⟩

section Outcome

variable {c : ClosureId} {supplied supplied' : List (Tagged Value)} {call call' : Expr}
  {caller caller' : EnvId} {k : Nat}

/-- The environments of both calls are alike before anything is bound in them. -/
theorem sameFrames_opened (hu : Supplied s u) (hu' : Supplied s u') (c : ClosureId) :
    SameFrames ctx env order (opened u c) u.scopes.size (opened u' c) u'.scopes.size where
  made := by rw [size_scopes_opened]; exact Nat.lt_succ_self _
  made' := by rw [size_scopes_opened]; exact Nat.lt_succ_self _
  parent := by
    have hknown (e : EnvId) : u'.known e = u.known e := by
      cases e <;> simp [Store.known, hu.scopes, hu'.scopes, hu.grows.masks, hu'.grows.masks]
    rw [scope_opened, scope_opened, hu.grows.closure, hu'.grows.closure, hknown]
  vars := by
    rw [scope_opened, scope_opened]
    exact .nil

variable {direct listed : Run Value} (hu : Supplied s u) (hu' : Supplied s u')
  (hdirect : direct s = (ofLevel k).applyClosure ctx c supplied call caller u)
  (hlisted : listed s = (ofLevel k).applyClosure ctx c supplied' call' caller' u')

include hu hu' hdirect hlisted

/-- Where the flag that matching reads is none, calls of one closure under the same names fail in
the same way. -/
theorem sameOutcome_of_flag {flag : SettingFault}
    (hflag : s.settings.partialMatching = .error flag)
    (hnames : (supplied.map Tagged.name?).Perm (supplied'.map Tagged.name?)) :
    SameOutcome ctx k c env order s direct listed := by
  have hexact := Matching.exactRound_ok_congr ((s.closure c).formals.map (·.1)) hnames
  have hclosure := hu.grows.closure c
  have hclosure' := hu'.grows.closure c
  cases hround : Matching.exactRound ((s.closure c).formals.map (·.1)) []
      (Matching.number supplied) with
  | ok state =>
      obtain ⟨state', hround'⟩ := hexact.mp ⟨state, hround⟩
      obtain ⟨r, t, hends⟩ := applyClosure_unreadable (hu.grows.settings ▸ hflag)
        (hclosure ▸ hround)
      obtain ⟨r', t', hends'⟩ := applyClosure_unreadable (hu'.grows.settings ▸ hflag)
        (hclosure' ▸ hround')
      exact .unreadable hflag (hdirect.trans hends) (hlisted.trans hends')
  | error fault =>
      cases hround' : Matching.exactRound ((s.closure c).formals.map (·.1)) []
          (Matching.number supplied') with
      | ok state' =>
          obtain ⟨state, hok⟩ := hexact.mpr ⟨state', hround'⟩
          cases hround.symm.trans hok
      | error fault' =>
          obtain ⟨r, t, hends⟩ := applyClosure_refused_exactly (hclosure ▸ hround)
          obtain ⟨r', t', hends'⟩ := applyClosure_refused_exactly (hclosure' ▸ hround')
          exact .refused (hdirect.trans hends) (hlisted.trans hends')

/-- Calls of one closure whose arguments both do not match are refused. -/
theorem sameOutcome_of_refused {pm : Bool} (hpm : s.settings.partialMatching = .ok pm)
    (hmatch : (matchArguments ((s.closure c).formals.map (·.1)) (describe u) pm
      supplied).toOption = none)
    (hmatch' : (matchArguments ((s.closure c).formals.map (·.1)) (describe u') pm
      supplied').toOption = none) :
    SameOutcome ctx k c env order s direct listed := by
  rw [← hu.grows.closure c] at hmatch
  rw [← hu'.grows.closure c] at hmatch'
  obtain ⟨r, fault, t, hends, -⟩ := applyClosure_refused (hu.grows.settings ▸ hpm) (.refl u) hmatch
    (ofLevel k) ctx call caller
  obtain ⟨r', fault', t', hends', -⟩ := applyClosure_refused (hu'.grows.settings ▸ hpm) (.refl u')
    hmatch' (ofLevel k) ctx call' caller'
  exact .refused (hdirect.trans hends) (hlisted.trans hends')

/-- Calls of one closure whose arguments match in the same way bind its formals to the same. -/
theorem sameOutcome_of_matched {pm : Bool} {matched matched' : Matched Value}
    (hpm : s.settings.partialMatching = .ok pm)
    (hmatch : (matchArguments ((s.closure c).formals.map (·.1)) (describe u) pm
      supplied).toOption = some matched)
    (hmatch' : (matchArguments ((s.closure c).formals.map (·.1)) (describe u') pm
      supplied').toOption = some matched')
    (hsame : SameMatched ctx (s.known env) order u u' matched matched') :
    SameOutcome ctx k c env order s direct listed := by
  have hclosure := hu.grows.closure c
  have hclosure' := hu'.grows.closure c
  have hbind := bindClosure_matched (hu.grows.settings ▸ hpm) (.refl u) (hclosure ▸ hmatch) ctx call
  have hbind' := bindClosure_matched (hu'.grows.settings ▸ hpm) (.refl u') (hclosure' ▸ hmatch') ctx
    call'
  rw [hclosure] at hbind
  rw [hclosure'] at hbind'
  have hopened : SameFrames ctx (s.known env) order (opened u c) u.scopes.size (opened u' c)
      u'.scopes.size := sameFrames_opened hu hu' c
  obtain ⟨v, v', hv, hv', hframes, hev, hev'⟩ := hopened.bindFormals
    (hsame.grow (opened_grows u c).promisesIn (opened_grows u' c).promisesIn) (s.closure c).formals
  rw [bind_of_ok hv] at hbind
  rw [bind_of_ok hv'] at hbind'
  have hevaluator : v.evaluator ctx = s.evaluator ctx := by
    simp only [Store.evaluator, hev, ← hu.evaluators]
    rfl
  have hevaluator' : v'.evaluator ctx = s.evaluator ctx := by
    simp only [Store.evaluator, hev', ← hu'.evaluators]
    rfl
  by_cases hroom : (s.evaluator ctx).depth < (s.evaluator ctx).maxDepth
  · obtain ⟨id, t, hentry, hentered⟩ :=
      applyClosure_entered hbind (hevaluator ▸ hroom) (ofLevel k) caller
    obtain ⟨id', t', hentry', hentered'⟩ :=
      applyClosure_entered hbind' (hevaluator' ▸ hroom) (ofLevel k) caller'
    exact .bound (hdirect.trans hentry) (hlisted.trans hentry')
      (hframes.grow (.of_eq hentered.promises) (.of_eq hentered'.promises) hentered.scopes
        hentered'.scopes)
  · have hfull := Int.not_lt.mp hroom
    obtain ⟨r, t, hends, -⟩ := applyClosure_full hbind (hevaluator ▸ hfull) (ofLevel k) caller
    obtain ⟨r', t', hends', -⟩ := applyClosure_full hbind' (hevaluator' ▸ hfull) (ofLevel k) caller'
    exact .full (hdirect.trans hends) (hlisted.trans hends')

end Outcome

/-! ## Matching in both calls -/

section Twins

variable {items : List (Tagged Value)} {formals : List String} {pm : Bool}

/-- The store in which a direct call has promised the values of a list. -/
def awaitingIn (ctx : EvaluatorId) (env : EnvId) (s : Store) (items : List (Tagged Value)) :
    Store :=
  s.addPromises (items.map fun t => .awaiting ctx env t.item)

/-- The store in which a call with a list has promised them. -/
def givenIn (s : Store) (items : List (Tagged Value)) : Store :=
  s.addPromises ((Library.tagged (unnamed items) (pairs items)).map fun t => .given t.item)

/-- The promises of both calls, from the next place on. -/
def twinsOf (s : Store) (items : List (Tagged Value)) : List (Tagged Twins) :=
  twins s.promises.size s.promises.size (s.promises.size + (unnamed items).length) items

/-- Both calls promise the same values. -/
theorem sameArgument_twinsOf {t : Tagged Twins} (ht : t ∈ twinsOf s items) :
    SameArgument ctx (s.known env) (awaitingIn ctx env s items) (givenIn s items)
      (.promise ⟨t.item.awaiting⟩) (.promise ⟨t.item.given⟩) := by
  let n := s.promises.size
  let D (j : Nat) (v : Value) : Prop := j < (awaitingIn ctx env s items).promises.size ∧
    (awaitingIn ctx env s items).promise ⟨j⟩ = .awaiting ctx (s.known env) v
  let G (j : Nat) (v : Value) : Prop := j < (givenIn s items).promises.size ∧
    (givenIn s items).promise ⟨j⟩ = .given v
  have hD (j : Nat) (a : Tagged Value) (ha : items[j]? = some a) : D (n + j) a.item :=
    s.promise_addPromises_map (fun t : Tagged Value => .awaiting ctx env t.item) ha
  have hG (j : Nat) (a : Tagged Value)
      (ha : (Library.tagged (unnamed items) (pairs items))[j]? = some a) : G (n + j) a.item :=
    s.promise_addPromises_map (fun t : Tagged Value => .given t.item) ha
  have hbare (j : Nat) (v : Value) (hv : (unnamed items)[j]? = some v) : G (n + j) v := by
    refine hG j (.bare v) ?_
    have hj := (List.getElem?_eq_some_iff.mp hv).1
    rw [Library.tagged, List.getElem?_append_left (by rwa [List.length_map]), List.getElem?_map, hv]
    rfl
  have hnamed (j : Nat) (entry : String × Value) (hentry : (pairs items)[j]? = some entry) :
      G (n + (unnamed items).length + j) entry.2 := by
    rw [Nat.add_assoc]
    refine hG _ ⟨some entry.1, entry.2⟩ ?_
    rw [Library.tagged, List.getElem?_append_right (by simp), List.length_map,
      Nat.add_sub_cancel_left, List.getElem?_map, hentry]
    rfl
  obtain ⟨⟨hp, hawaiting⟩, hp', hgiven⟩ :=
    twins_stand (D := D) (G := G) n n (n + (unnamed items).length) hD hbare hnamed t ht
  exact .intro _ hp hp' hawaiting hgiven

/-- The arguments of the direct call, -/
theorem matchArguments_awaiting (formals : List String) (describe : Value → String) (pm : Bool)
    (s : Store) (items : List (Tagged Value)) :
    matchArguments formals describe pm (Reading.awaited s.promises.size (standingSlots items)) =
      (matchArguments formals (fun z => describe (.promise ⟨z.awaiting⟩)) pm (twinsOf s items)).map
        (Matched.map fun z => .promise ⟨z.awaiting⟩) := by
  rw [← matchArguments_normal, ← map_awaiting_twins, matchArguments_map]
  rfl

/-- and those of the call with a list, match as the pairs do. -/
theorem matchArguments_given (formals : List String) (describe : Value → String) (pm : Bool)
    (s : Store) (items : List (Tagged Value)) :
    matchArguments formals describe pm (Reading.awaited s.promises.size
        (standingSlots (Library.tagged (unnamed items) (pairs items)))) =
      (matchArguments formals (fun z => describe (.promise ⟨z.given⟩)) pm
        (grouped (twinsOf s items))).map (Matched.map fun z => .promise ⟨z.given⟩) := by
  rw [← map_given_twins s.promises.size, matchArguments_map]
  rfl

/-- An order in which the leftovers of the direct call are those of the call with a list. -/
def Regroups (order : List (Tagged Value) → List (Tagged Value)) (s : Store)
    (items : List (Tagged Value)) : Prop :=
  ∀ dots : List (Tagged Twins), dots.Sublist (twinsOf s items) →
    order (dots.map (Tagged.map fun z => .promise ⟨z.awaiting⟩)) =
      (grouped dots).map (Tagged.map fun z => .promise ⟨z.awaiting⟩)

theorem sameMatched_twinsOf (hformals : formals.Nodup) (horder : Regroups order s items)
    {describe : Twins → String} {matched matched' : Matched Twins}
    (hmatched : matchArguments formals describe pm (twinsOf s items) = .ok matched)
    (hbound : ∀ formal, matched.bound.get? formal = matched'.bound.get? formal)
    (hdots : matched'.dots = grouped matched.dots) :
    SameMatched ctx (s.known env) order (awaitingIn ctx env s items) (givenIn s items)
      (matched.map fun z => .promise ⟨z.awaiting⟩) (matched'.map fun z => .promise ⟨z.given⟩) where
  bound name := by
    simp only [Matched.map, Bindings.get?_mapItems, ← hbound]
    cases hname : matched.bound.get? name with
    | none => exact .inl ⟨rfl, rfl⟩
    | some z =>
        obtain ⟨t, ht, rfl⟩ := mem_of_matched hformals hmatched hname
        exact .inr ⟨_, _, rfl, rfl, sameArgument_twinsOf ht⟩
  dots := by
    have hsublist : matched.dots.Sublist (twinsOf s items) := by
      have hnormal : ∀ t ∈ twinsOf s items, t.normal = id t := normal_twins _ _ _ items
      have hleft := dots_sublist hformals hmatched
      rwa [List.map_congr_left hnormal, List.map_id] at hleft
    simp only [Matched.map, hdots, horder _ hsublist]
    refine List.forall₂_map_left_iff.mpr (List.forall₂_map_right_iff.mpr ?_)
    refine List.forall₂_same.mpr fun t ht => ⟨rfl, sameArgument_twinsOf ?_⟩
    exact hsublist.subset ((Tagged.grouped_perm _).mem_iff.mp ht)

theorem regroups_grouped (s : Store) (items : List (Tagged Value)) : Regroups grouped s items :=
  fun dots _ => Tagged.grouped_map _ dots

/-- Where the list is grouped already, so are the leftovers. -/
theorem regroups_id (s : Store) (h : UnnamedFirst items) : Regroups id s items := by
  intro dots hdots
  have hnames : (twinsOf s items).map Tagged.name? = items.map Tagged.name? := by
    have hawaiting := congrArg (List.map Tagged.name?) (map_awaiting_twins s.promises.size
      s.promises.size (s.promises.size + (unnamed items).length) items)
    simp only [List.map_map, Function.comp_def, Tagged.name?_map, Tagged.name?_normal,
      names_awaited, names_standingSlots] at hawaiting
    exact hawaiting
  have hfirst : UnnamedFirst (twinsOf s items) := by
    have hpairwise : (items.map Tagged.name?).Pairwise fun a b => b = none → a = none :=
      List.pairwise_map.mpr h
    rw [← hnames] at hpairwise
    exact List.pairwise_map.mp hpairwise
  rw [Tagged.grouped_eq_self_iff.mpr (hfirst.sublist hdots)]
  rfl

end Twins

/-! ## A call with a list is a direct call -/

section Call

variable {k : Nat} {c : ClosureId} {items whole : List (Tagged Value)}

theorem eval_standing (k : Nat) (ctx : EvaluatorId) (items : List (Tagged Value)) {name : String}
    (hname : s.Calls env name (.closure c)) :
    (ofLevel (k + 1)).eval ctx (.call (.symbol name) (standingSlots items)) env s =
      (ofLevel k).applyClosure ctx c (Reading.awaited s.promises.size (standingSlots items))
        (.call (.symbol name) (standingSlots items)) env (awaitingIn ctx env s items) := by
  rw [eval_call_of_calls hname]
  exact bind_of_ok (promiseArgs_standing ctx env items s)

theorem doCall_closure (k : Nat) (ctx : EvaluatorId) (c : ClosureId) (env : EnvId) (s : Store)
    (hnames : (carried items).Nodup)
    (hsplit : Library.splitArgs items = Library.splitArgs whole) (named : Bindings Value) :
    applyPrimitive (ofLevel (k + 1)) ctx .doCall [.closure c, .list whole] named env s =
      (ofLevel k).applyClosure ctx c (Reading.awaited s.promises.size
          (standingSlots (Library.tagged (unnamed items) (pairs items))))
        (callOf s (.closure c) (unnamed items) (pairs items)) env (givenIn s items) := by
  have hcall : applyPrimitive (ofLevel (k + 1)) ctx .doCall [.closure c, .list whole] named env s =
      callStep (ofLevel k) ctx (.closure c) (Library.splitArgs whole).1 (Library.splitArgs whole).2
        env s := rfl
  have hpairs : Library.splitArgs items = (unnamed items, pairs items) :=
    congrArg (unnamed items, ·)
      (Bindings.ofPairs_of_nodup ((Tagged.names_pairs items).symm ▸ hnames))
  rw [hcall, ← hsplit, hpairs, callStep_closure]
  rfl

/-- A call with a list of arguments and the direct call of a list that falls into the same groups,
without repeated names, come to the same. -/
theorem sameOutcome_of_splitArgs {name : String}
    (hformals : ((s.closure c).formals.map (·.1)).Nodup) (hname : s.Calls env name (.closure c))
    (hnames : (carried items).Nodup)
    (hsplit : Library.splitArgs items = Library.splitArgs whole) (horder : Regroups order s items)
    (named : Bindings Value) :
    SameOutcome ctx k c env order s
      ((ofLevel (k + 1)).eval ctx (.call (.symbol name) (standingSlots items)) env)
      (applyPrimitive (ofLevel (k + 1)) ctx .doCall [.closure c, .list whole] named env) := by
  have hdirect := eval_standing k ctx items hname
  have hlisted := doCall_closure k ctx c env s hnames hsplit named
  have hu : Supplied s (awaitingIn ctx env s items) := supplied_addPromises s _
  have hu' : Supplied s (givenIn s items) := supplied_addPromises s _
  cases hflag : s.settings.partialMatching with
  | error flag =>
      exact sameOutcome_of_flag hu hu' hdirect hlisted hflag
        (names_awaited_perm s.promises.size items)
  | ok pm =>
      let formals := (s.closure c).formals.map (·.1)
      let shown (_ : Twins) : String := ""
      have hawaiting : (matchArguments formals (describe (awaitingIn ctx env s items)) pm
          (Reading.awaited s.promises.size (standingSlots items))).toOption =
          (matchArguments formals shown pm (twinsOf s items)).toOption.map
            (Matched.map fun z => .promise ⟨z.awaiting⟩) := by
        rw [matchArguments_awaiting, toOption_map, matchArguments_describe]
      have hgiven : (matchArguments formals (describe (givenIn s items)) pm
          (Reading.awaited s.promises.size
            (standingSlots (Library.tagged (unnamed items) (pairs items))))).toOption =
          (matchArguments formals shown pm (grouped (twinsOf s items))).toOption.map
            (Matched.map fun z => .promise ⟨z.given⟩) := by
        rw [matchArguments_given, toOption_map, matchArguments_describe]
      have hnodup : ((twinsOf s items).map Tagged.normal).Nodup := by
        have hnormal : ∀ t ∈ twinsOf s items, t.normal = id t := normal_twins _ _ _ items
        rw [List.map_congr_left hnormal, List.map_id]
        exact nodup_twins _ _ _ items
      obtain ⟨hnone, hnone'⟩ | ⟨matched, matched', hmatched, hmatched', hbound, hdots⟩ :=
        matchArguments_grouped shown pm hformals hnodup
      · rw [hnone] at hawaiting
        rw [hnone'] at hgiven
        exact sameOutcome_of_refused hu hu' hdirect hlisted hflag hawaiting hgiven
      · rw [hmatched] at hawaiting
        rw [hmatched'] at hgiven
        exact sameOutcome_of_matched hu hu' hdirect hlisted hflag hawaiting hgiven
          (sameMatched_twinsOf hformals horder hmatched hbound hdots)

/-- The code that stands for a value evaluates to it. Only a quosure is evaluated itself, and an
expression needs the name that quotes it. -/
theorem eval_standing_value {n : Nat} {v : Value} {home : EnvId}
    (hv : ∀ e env, v ≠ .quosure e env)
    (hquote : s.Calls env "quote" (.builtin (.special .quote) home)) :
    (ofLevel (n + 1)).eval ctx v.standing env s = .ok v s := by
  cases v with
  | code e => exact eval_call_of_calls hquote ctx [.bare e]
  | quosure e env => exact absurd rfl (hv e env)
  | _ => rfl

end Call

/-- A call of a closure with a list of values is the direct call of the list that is made of them,
with code that stands for the values: both are refused, fail or bind the formals and `...` to the
same under the same names and in the same order. If no name occurs twice, the same holds of the
direct call of the list as it was written, except that its `...` is in the order of the list.
Nothing is lost of the list exactly if no name occurs twice in it, and it stays as it is exactly if,
besides, no value without a name comes after one with a name. -/
theorem doCall_agrees {k : Nat} {c : ClosureId} {name : String}
    (hformals : ((s.closure c).formals.map (·.1)).Nodup) (hname : s.Calls env name (.closure c))
    (items : List (Tagged Value)) (named : Bindings Value) :
    SameOutcome ctx k c env id s
        ((ofLevel (k + 1)).eval ctx (.call (.symbol name) (standingSlots (merged items))) env)
        (applyPrimitive (ofLevel (k + 1)) ctx .doCall [.closure c, .list items] named env) ∧
      ((carried items).Nodup → SameOutcome ctx k c env grouped s
        ((ofLevel (k + 1)).eval ctx (.call (.symbol name) (standingSlots items)) env)
        (applyPrimitive (ofLevel (k + 1)) ctx .doCall [.closure c, .list items] named env)) ∧
      ((merged items).Perm (items.map Tagged.normal) ↔ (carried items).Nodup) ∧
      (merged items = items.map Tagged.normal ↔ (carried items).Nodup ∧ UnnamedFirst items) ∧
      ∀ {n : Nat} {w : Store} {v : Value} {home : EnvId}, (∀ e env, v ≠ .quosure e env) →
        w.Calls env "quote" (.builtin (.special .quote) home) →
        (ofLevel (n + 1)).eval ctx v.standing env w = .ok v w := by
  refine ⟨?_, fun hnames => ?_, Tagged.merged_perm_iff, Tagged.merged_eq_iff, eval_standing_value⟩
  · exact sameOutcome_of_splitArgs hformals hname (Tagged.nodup_carried_merged items)
      (Tagged.splitArgs_merged items) (regroups_id s (Tagged.unnamedFirst_merged items)) named
  · exact sameOutcome_of_splitArgs hformals hname hnames rfl (regroups_grouped s items) named

/-- Of two values with one name the first is lost, and a value without a name comes first. -/
theorem doCall_agrees_repeated : SameOutcome ⟨0⟩ 4 ⟨0⟩ (.scope 0) id (wrapping [])
    ((ofLevel 5).eval ⟨0⟩
      (.call (.symbol "f") [⟨none, .const (.int 2)⟩, ⟨some "a", .const (.int 3)⟩]) (.scope 0))
    (applyPrimitive (ofLevel 5) ⟨0⟩ .doCall
      [.closure ⟨0⟩, .list [⟨some "a", .int 1⟩, ⟨none, .int 2⟩, ⟨some "a", .int 3⟩]] []
      (.scope 0)) := by
  have hname : (wrapping []).Calls (.scope 0) "f" (.closure ⟨0⟩) := .here rfl rfl rfl
  exact (doCall_agrees (by decide) hname
    [⟨some "a", .int 1⟩, ⟨none, .int 2⟩, ⟨some "a", .int 3⟩] []).1

end Machine

end Quasi
