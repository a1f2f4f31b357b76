import Mathlib.Logic.Relation
import Quasi.Form.Lazy
import Quasi.Proofs.Flow.Basic
import Quasi.Proofs.Promise.Course

/-!
# What promises relay

An argument that is a name is a promise that relays what the name is bound to, until it is settled.
`missing` goes from one to the next, to the first that relays nothing. It comes to one exactly if no
promise on its way relays, over others or not, itself.
-/

namespace Quasi

open Relation (ReflTransGen TransGen)

/-- The name that a promise stands for, and where, until it is settled. A default stands for itself
only. -/
def Promise.place? (promise : Promise) : Option (EnvId × String) :=
  match promise.isDefault, promise.progress.outcome?, promise.env, promise.code with
  | false, none, some env, .symbol name => some (env, name)
  | _, _, _, _ => none

namespace Store

/-- What a promise passes on: what the name is bound to that it stands for. -/
def relayed? (s : Store) : Value → Option Value
  | .promise p => (s.promise p).place?.bind fun place => s.slot? place.1 place.2
  | _ => none

/-- Whether what relays nothing counts as not supplied. -/
def unsupplied (s : Store) : Value → Bool
  | .code .missing => true
  | .dots entries => entries.isEmpty
  | .promise p => (s.promise p).isDefault
  | _ => false

abbrev Passes (s : Store) (v w : Value) : Prop := s.relayed? v = some w

/-- What is relayed by the first value, by what that relays, and so on, comes to the second one. -/
def Relays (s : Store) : Value → Value → Prop := ReflTransGen s.Passes

/-- A value that relays itself, over others or not. -/
def Circles (s : Store) (v : Value) : Prop := TransGen s.Passes v v

/-- What is relayed comes to an end, which counts as supplied or not. -/
def Resolves (s : Store) (v : Value) (b : Bool) : Prop :=
  ∃ w, s.Relays v w ∧ s.relayed? w = none ∧ s.unsupplied w = b

variable {s : Store} {v w x : Value} {b : Bool}

theorem Relays.step (h : s.relayed? v = some w) (rest : s.Relays w x) : s.Relays v x := .head h rest

theorem circles_iff : s.Circles v ↔ ∃ w, s.relayed? v = some w ∧ s.Relays w v :=
  TransGen.head'_iff

/-- Nothing comes after the end. -/
theorem Relays.eq_of_end (h : s.Relays v w) (hend : s.relayed? v = none) : w = v := by
  rcases h.cases_head with rfl | ⟨x, hx, -⟩
  · rfl
  · cases hend.symm.trans hx

/-- What comes to an end comes by no circle. -/
theorem Relays.not_circles (h : s.Relays v w) (hend : s.relayed? w = none) (hx : s.Relays v x) :
    ¬ s.Circles x := by
  -- Along the way to the end. Where the circle starts it would start again one value further on.
  induction h using ReflTransGen.head_induction_on with
  | refl =>
      obtain rfl := hx.eq_of_end hend
      intro hcircles
      obtain ⟨y, hy, -⟩ := circles_iff.mp hcircles
      rw [hend] at hy
      cases hy
  | @head v u hu rest ih =>
      rcases hx.cases_head with rfl | ⟨y, hy, hx⟩
      · intro hcircles
        obtain ⟨y, hy, hback⟩ := circles_iff.mp hcircles
        obtain rfl := Option.some.inj (hu.symm.trans hy)
        exact ih hback hcircles
      · obtain rfl := Option.some.inj (hu.symm.trans hy)
        exact ih hx

theorem Resolves.not_circles (h : s.Resolves v b) (hx : s.Relays v x) : ¬ s.Circles x := by
  obtain ⟨w, hw, hend, -⟩ := h
  exact hw.not_circles hend hx

theorem Resolves.unique {c : Bool} (h : s.Resolves v b) (h' : s.Resolves v c) : b = c := by
  obtain ⟨w, hw, hend, rfl⟩ := h
  obtain ⟨x, hx, hend', rfl⟩ := h'
  have hunique : Relator.RightUnique s.Passes :=
    fun _ _ _ hy hz => Option.some.inj (hy.symm.trans hz)
  rcases ReflTransGen.total_of_right_unique hunique hw hx with h | h
  · rw [Relays.eq_of_end h hend]
  · rw [Relays.eq_of_end h hend']

/-- Only a promise that exists stands for a name, and relays anything. -/
theorem place?_of_size_le {p : PromiseId} (h : s.promises.size ≤ p.index) :
    (s.promise p).place? = none := by
  simp [promise, Array.getD, Nat.not_lt.mpr h, Inhabited.default, Promise.place?]

theorem index_lt_of_relayed {p : PromiseId} (h : s.relayed? (.promise p) = some w) :
    p.index < s.promises.size := by
  refine Nat.lt_of_not_le fun hp => ?_
  simp only [relayed?, place?_of_size_le hp, Option.bind_none] at h
  cases h

theorem exists_promise_of_relayed (h : s.relayed? v = some w) : ∃ p, v = .promise p := by
  cases v with
  | promise p => exact ⟨p, rfl⟩
  | _ => cases h

/-- The promises that a store has. -/
def promiseIds (s : Store) : List PromiseId := (List.range s.promises.size).map .mk

theorem mem_promiseIds {p : PromiseId} : p ∈ s.promiseIds ↔ p.index < s.promises.size := by
  obtain ⟨i⟩ := p
  simp [promiseIds]

end Store

/-! ## Following what is relayed -/

namespace Machine

variable {s : Store} {v w : Value} {b : Bool} {n : Nat}

theorem isMissing?_succ (s : Store) (n : Nat) (v : Value) : isMissing? s (n + 1) v =
    match s.relayed? v with
    | some w => isMissing? s n w
    | none => some (s.unsupplied v) := by
  cases v with
  | promise p =>
      rw [isMissing?]
      simp only [Store.relayed?, Store.unsupplied, Promise.place?]
      cases (s.promise p).isDefault with
      | true => rfl
      | false =>
          -- all that is settled, has no environment or is no name relays nothing
          cases (s.promise p).progress <;> cases (s.promise p).env <;>
            cases (s.promise p).code <;> rfl
  | code e => cases e <;> rfl
  | _ => rfl

theorem resolves_of_isMissing? (h : isMissing? s n v = some b) : s.Resolves v b := by
  induction n generalizing v with
  | zero => cases h
  | succ n ih =>
      rw [isMissing?_succ] at h
      cases hv : s.relayed? v with
      | none =>
          rw [hv] at h
          exact ⟨v, .refl, hv, Option.some.inj h⟩
      | some w =>
          rw [hv] at h
          obtain ⟨x, hx, hend⟩ := ih h
          exact ⟨x, .step hv hx, hend⟩

/-- Following gives up on a circle only: it has come by so many promises that it has come by one of
them twice. -/
theorem exists_circles_of_isMissing? {passed : List PromiseId} (hnodup : passed.Nodup)
    (hexist : passed ⊆ s.promiseIds) (hback : ∀ p ∈ passed, TransGen s.Passes (.promise p) v)
    (hsteps : s.promises.size < passed.length + n) (h : isMissing? s n v = none) :
    ∃ w, s.Relays v w ∧ s.Circles w := by
  induction n generalizing v passed with
  | zero =>
      have hlength := hnodup.length_le_of_subset hexist
      simp only [Store.promiseIds, List.length_map, List.length_range] at hlength
      omega
  | succ n ih =>
      rw [isMissing?_succ] at h
      cases hv : s.relayed? v with
      | none =>
          rw [hv] at h
          cases h
      | some w =>
          rw [hv] at h
          obtain ⟨p, rfl⟩ := Store.exists_promise_of_relayed hv
          by_cases hp : p ∈ passed
          · exact ⟨.promise p, .refl, hback p hp⟩
          · have hexists := Store.mem_promiseIds.mpr (Store.index_lt_of_relayed hv)
            have hback' : ∀ q ∈ p :: passed, TransGen s.Passes (.promise q) w := by
              intro q hq
              rcases List.mem_cons.mp hq with rfl | hq
              · exact .single hv
              · exact (hback q hq).tail hv
            obtain ⟨x, hx, hcircles⟩ := ih (List.nodup_cons.mpr ⟨hp, hnodup⟩)
              (List.cons_subset.mpr ⟨hexists, hexist⟩) hback'
              (by rw [List.length_cons]; omega) h
            exact ⟨x, .step hv hx, hcircles⟩

theorem exists_circles_of_overflow (h : isMissing? s (s.promises.size + 2) v = none) :
    ∃ w, s.Relays v w ∧ s.Circles w :=
  exists_circles_of_isMissing? .nil (by simp) (by simp) (by simp) h

/-- Whether something counts as not supplied is told exactly if what it relays comes to an end. -/
theorem isMissing_eq_ok_iff : isMissing v s = .ok b s ↔ s.Resolves v b := by
  simp only [isMissing, Run.get_bind]
  cases h : isMissing? s (s.promises.size + 2) v with
  | some c =>
      have hc := resolves_of_isMissing? h
      refine ⟨fun hb => ?_, fun hb => ?_⟩
      · cases hb
        exact hc
      · rw [hc.unique hb]
        rfl
  | none =>
      obtain ⟨w, hw, hcircles⟩ := exists_circles_of_overflow h
      refine ⟨fun hb => ?_, fun hb => absurd hcircles (hb.not_circles hw)⟩
      cases hb

/-- What is relayed comes to an end exactly if it comes by no circle. -/
theorem exists_resolves_iff : (∃ b, s.Resolves v b) ↔ ¬ ∃ w, s.Relays v w ∧ s.Circles w := by
  refine ⟨fun ⟨b, hb⟩ ⟨w, hw, hcircles⟩ => hb.not_circles hw hcircles, fun hnone => ?_⟩
  cases h : isMissing? s (s.promises.size + 2) v with
  | some b => exact ⟨b, resolves_of_isMissing? h⟩
  | none => exact absurd (exists_circles_of_overflow h) hnone

/-- Otherwise there is a circle, and following it is left as nested too deeply. -/
theorem isMissing_eq_overflow_iff :
    isMissing v s = .error .overflow s ↔ ∃ w, s.Relays v w ∧ s.Circles w := by
  simp only [isMissing, Run.get_bind]
  cases h : isMissing? s (s.promises.size + 2) v with
  | some c =>
      have hc := resolves_of_isMissing? h
      refine ⟨fun hb => ?_, fun ⟨w, hw, hcircles⟩ => absurd hcircles (hc.not_circles hw)⟩
      cases hb
  | none => exact ⟨fun _ => exists_circles_of_overflow h, fun _ => rfl⟩

section Form

variable {env : EnvId} {name : String} {tag : Option String}

theorem missingForm_of_slot (h : s.slot? env name = some v) :
    missingForm [⟨tag, .symbol name⟩] env s = (Value.bool <$> isMissing v) s := by
  simp only [missingForm, Run.get_bind, h, map_eq_pure_bind]

theorem missingForm_eq_ok_iff (h : s.slot? env name = some v) :
    missingForm [⟨tag, .symbol name⟩] env s = .ok (.bool b) s ↔ s.Resolves v b := by
  rw [missingForm_of_slot h, ← isMissing_eq_ok_iff]
  simp only [Functor.map, EStateM.map]
  cases isMissing v s <;> simp

theorem missingForm_eq_overflow_iff (h : s.slot? env name = some v) :
    missingForm [⟨tag, .symbol name⟩] env s = .error .overflow s ↔
      ∃ w, s.Relays v w ∧ s.Circles w := by
  rw [missingForm_of_slot h, ← isMissing_eq_overflow_iff]
  simp only [Functor.map, EStateM.map]
  cases isMissing v s <;> simp

end Form

end Machine

end Quasi
