import Quasi.Proofs.Missing.Moment
import Quasi.Proofs.Missing.Relay

/-!
# What `missing` tells at later moments

A promise that relays another argument stops doing so when it is settled. As long as nothing on the
way is bound anew, `missing` therefore tells the same later, unless a promise on the way has been
settled meanwhile; then the argument counts as supplied.
-/

namespace Quasi

open Relation (ReflTransGen)

/-- A promise that is not settled stands for the name that it stood for before. -/
theorem Promise.Onward.place? {a b : Promise} (h : a.Onward b) : b.place? =
    if b.progress.outcome?.isSome then none else a.place? := by
  unfold Promise.place?
  cases hb : b.progress.outcome? with
  | some outcome => cases b.isDefault <;> rfl
  | none => simp only [h.code, h.isDefault, h.env hb, h.unsettled hb, Option.isSome_none,
      Bool.false_eq_true, if_false]

theorem Promise.isDefault_of_place {promise : Promise} {place : EnvId × String}
    (h : promise.place? = some place) : promise.isDefault = false := by
  unfold Promise.place? at h
  split at h <;> first | assumption | cases h

namespace Store

/-- The second store shows what the first one does wherever following a value looks. -/
structure SameWay (s t : Store) (v : Value) : Prop where
  exist (p : PromiseId) : s.Relays v (.promise p) → p.index < s.promises.size
  slot (p : PromiseId) (e : EnvId) (name : String) : s.Relays v (.promise p) →
    (s.promise p).place? = some (e, name) → t.slot? e name = s.slot? e name

/-- A promise that was on the way has been settled. -/
def Settles (s t : Store) (v : Value) : Prop :=
  ∃ p w, s.Relays v (.promise p) ∧ s.Passes (.promise p) w ∧
    (t.promise p).progress.outcome?.isSome = true

variable {s t : Store} {v w : Value} {b : Bool}

theorem SameWay.of_passes (h : s.SameWay t v) (hv : s.Passes v w) : s.SameWay t w where
  exist p hp := h.exist p (.step hv hp)
  slot p e name hp := h.slot p e name (.step hv hp)

/-- What relays nothing does not begin to. -/
theorem SameWay.end (h : s.SameWay t v) (hlater : s.Later t) (hend : s.relayed? v = none) :
    t.relayed? v = none ∧ t.unsupplied v = s.unsupplied v := by
  cases v with
  | promise p =>
      obtain ⟨-, honward⟩ := hlater.onward (h.exist p .refl)
      refine ⟨?_, honward.isDefault⟩
      simp only [relayed?, honward.place?]
      split
      · rfl
      · cases hplace : (s.promise p).place? with
        | none => rfl
        | some place =>
            simp only [relayed?, hplace, Option.bind_some] at hend ⊢
            rw [h.slot p place.1 place.2 .refl hplace, hend]
  | code e => cases e <;> exact ⟨rfl, rfl⟩
  | _ => exact ⟨rfl, rfl⟩

/-- A promise relays the same as before until it is settled, and then it counts as supplied. -/
theorem SameWay.passes {p : PromiseId} (h : s.SameWay t (.promise p)) (hlater : s.Later t)
    (hp : s.Passes (.promise p) w) :
    ((t.promise p).progress.outcome?.isSome = true → t.Resolves (.promise p) false) ∧
    ((t.promise p).progress.outcome?.isSome = false → t.Passes (.promise p) w) := by
  obtain ⟨-, honward⟩ := hlater.onward (h.exist p .refl)
  obtain ⟨place, hplace, hslot⟩ := Option.bind_eq_some_iff.mp hp
  refine ⟨fun hsettled => ⟨_, .refl, ?_, ?_⟩, fun hopen => ?_⟩
  · simp only [relayed?, honward.place?, hsettled, if_true, Option.bind_none]
  · simp only [unsupplied, honward.isDefault, Promise.isDefault_of_place hplace]
  · simp only [Passes, relayed?, honward.place?, hopen, Bool.false_eq_true, if_false, hplace,
      Option.bind_some, h.slot p place.1 place.2 .refl hplace, hslot]

theorem not_settles_of_end (hend : s.relayed? v = none) : ¬ s.Settles t v := by
  rintro ⟨p, w, hp, hw, -⟩
  rw [hp.eq_of_end hend] at hw
  cases hend.symm.trans hw

theorem settles_iff {p : PromiseId} (hp : s.Passes (.promise p) w) : s.Settles t (.promise p) ↔
    (t.promise p).progress.outcome?.isSome = true ∨ s.Settles t w := by
  constructor
  · rintro ⟨q, x, hq, hx, hsettled⟩
    rcases hq.cases_head with heq | ⟨y, hy, hq⟩
    · cases heq
      exact .inl hsettled
    · obtain rfl := Option.some.inj (hp.symm.trans hy)
      exact .inr ⟨q, x, hq, hx, hsettled⟩
  · rintro (hsettled | ⟨q, x, hq, hx, hsettled⟩)
    · exact ⟨p, w, .refl, hp, hsettled⟩
    · exact ⟨q, x, .step hp hq, hx, hsettled⟩

/-- What following a value comes to at a later moment. -/
theorem Resolves.later (h : s.Resolves v b) (hlater : s.Later t) (hsame : s.SameWay t v) :
    (s.Settles t v → t.Resolves v false) ∧ (¬ s.Settles t v → t.Resolves v b) := by
  obtain ⟨x, hx, hend, hb⟩ := h
  -- Along the way. The first promise that is settled ends it.
  induction hx using ReflTransGen.head_induction_on with
  | refl =>
      obtain ⟨hend', hsupplied⟩ := hsame.end hlater hend
      refine ⟨fun hsettles => absurd hsettles (not_settles_of_end hend), fun _ => ?_⟩
      exact ⟨x, .refl, hend', hsupplied.trans hb⟩
  | @head v w hv rest ih =>
      obtain ⟨p, rfl⟩ := exists_promise_of_relayed hv
      obtain ⟨hsettled, hopen⟩ := hsame.passes hlater hv
      obtain ⟨hfalse, hsame'⟩ := ih (hsame.of_passes hv)
      rw [settles_iff hv]
      cases hp : (t.promise p).progress.outcome?.isSome with
      | true => exact ⟨fun _ => hsettled hp, fun hnot => absurd (.inl rfl) hnot⟩
      | false =>
          have hpass {c : Bool} : t.Resolves w c → t.Resolves (.promise p) c :=
            fun ⟨y, hy, hyend⟩ => ⟨y, .step (hopen hp) hy, hyend⟩
          refine ⟨fun h => hpass (hfalse (h.resolve_left nofun)), fun hnot => ?_⟩
          exact hpass (hsame' fun h => hnot (.inr h))

end Store

namespace Machine

variable {s t : Store} {env : EnvId} {x : String} {v : Value} {tag : Option String} {b : Bool}

theorem later_eval {n : Nat} {ctx : EvaluatorId} {e : Expr}
    (h : ((ofLevel n).eval ctx e env).EndsIn s t ∨ ((ofLevel n).eval ctx e env).LostIn s t) :
    s.Later t := by
  have hholds : Flow.moments.Holds ((ofLevel n).eval ctx e env) := inferInstance
  exact h.elim (fun h => (hholds.ends h).1) fun h => (hholds.lost h).1

/-- `missing` tells the same of an argument at every later moment, as long as neither it nor what it
relays is bound anew, unless a promise that relays another argument has been settled meanwhile: then
the argument counts as supplied. Evaluations and requests, however they end, lead to later moments
only. -/
theorem missing_stable_iff (hlater : s.Later t) (hx : s.slot? env x = some v)
    (hx' : t.slot? env x = some v) (hsame : s.SameWay t v)
    (hb : missingForm [⟨tag, .symbol x⟩] env s = .ok (.bool b) s) :
    (missingForm [⟨tag, .symbol x⟩] env t = .ok (.bool b) t ↔ (s.Settles t v → b = false)) ∧
    (s.Settles t v → missingForm [⟨tag, .symbol x⟩] env t = .ok (.bool false) t) ∧
    (∀ (n : Nat) (ctx : EvaluatorId) (e : Expr) (env : EnvId) (u w : Store),
      ((ofLevel n).eval ctx e env).EndsIn u w ∨ ((ofLevel n).eval ctx e env).LostIn u w →
      u.Later w) ∧
    (∀ (r : Session.Request) (u w : Store), r.run.EndsIn u w ∨ r.run.LostIn u w → u.Later w) := by
  have hresolves := (missingForm_eq_ok_iff hx).mp hb
  obtain ⟨hfalse, hstable⟩ := hresolves.later hlater hsame
  simp only [missingForm_eq_ok_iff hx']
  refine ⟨⟨fun hb' hsettles => hb'.unique (hfalse hsettles), fun h => ?_⟩, hfalse,
    fun n ctx e env u w => later_eval, fun r u w => Session.later_request r⟩
  by_cases hsettles : s.Settles t v
  · rw [h hsettles]
    exact hfalse hsettles
  · exact hstable hsettles

/-- A call of `g` in one of `f`, with `(<- g (function (b) ..))` and `(<- f (function (a) (g a)))`,
where `a` was not supplied. -/
def unsuppliedTwice : Store where
  scopes := #[⟨[("a", .code .missing)], .empty, none⟩, ⟨[("b", .promise ⟨0⟩)], .empty, none⟩]
  promises := #[⟨.symbol "a", some (.scope 0), some ⟨0⟩, false, .unforced⟩]

theorem unsuppliedTwice_sameWay {t : Store} (h : t.scopes = unsuppliedTwice.scopes) :
    unsuppliedTwice.SameWay t (.promise ⟨0⟩) := by
  have hway {p : PromiseId} (hp : unsuppliedTwice.Relays (.promise ⟨0⟩) (.promise p)) :
      p = ⟨0⟩ := by
    rcases hp.cases_head with heq | ⟨w, hw, hp⟩
    · exact (Value.promise.inj heq).symm
    · cases hw
      cases Store.Relays.eq_of_end hp rfl
  refine ⟨fun p hp => ?_, fun p e name hp hplace => ?_⟩ <;> obtain rfl := hway hp
  · decide
  · cases hplace
    simp only [Store.slot?, Store.scope, h]

/-- Before `b` was forced it counts as missing, and afterwards it does not. -/
theorem missing_stable_iff_forced : ∃ t : Store,
    ((ofLevel 2).eval ⟨0⟩ (.symbol "b") (.scope 1)).EndsIn unsuppliedTwice t ∧
    missingForm [.bare (.symbol "b")] (.scope 1) unsuppliedTwice = .ok (.bool true) unsuppliedTwice ∧
    missingForm [.bare (.symbol "b")] (.scope 1) t = .ok (.bool false) t := by
  have hends : ((ofLevel 2).eval ⟨0⟩ (.symbol "b") (.scope 1)).EndsIn unsuppliedTwice _ :=
    .signal (.failure ⟨0, .missingArgument (some "a")⟩) rfl
  have hb : missingForm [.bare (.symbol "b")] (.scope 1) unsuppliedTwice =
      .ok (.bool true) unsuppliedTwice := rfl
  refine ⟨_, hends, hb, ?_⟩
  obtain ⟨-, hsettles, -⟩ := missing_stable_iff (later_eval (.inl hends)) rfl rfl
    (unsuppliedTwice_sameWay rfl) hb
  exact hsettles ⟨⟨0⟩, .code .missing, .refl, rfl, rfl⟩

end Machine

end Quasi
