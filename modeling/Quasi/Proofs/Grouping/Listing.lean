import Quasi.Proofs.Call.Growth
import Quasi.Proofs.Grouping.Basic

/-!
# Listing arguments

A list of arguments holds their values as they come back from evaluation, which keeps those with a
name apart: the list is grouped, whatever the order in which it was written.
-/

namespace Quasi

open Run (bind_of_ok)
open Tagged (carried grouped pairs unnamed UnnamedFirst)

namespace Machine

variable {m : Machine} {ctx : EvaluatorId} {s t u : Store}

/-- Arguments have values when they are forced from left to right. Each value carries the name of
its argument. -/
inductive Evaluated (m : Machine) (ctx : EvaluatorId) :
    Store → List (Tagged Value) → List (Tagged Value) → Store → Prop where
  | nil (s : Store) : Evaluated m ctx s [] [] s
  | cons {s t u : Store} {argument : Tagged Value} {v : Value} {rest values : List (Tagged Value)}
      (hpresent : argument.item ≠ .code .missing)
      (hvalue : m.forceValue (some ctx) argument.item s = .ok v t)
      (hrest : Evaluated m ctx t rest values u) :
      Evaluated m ctx s (argument :: rest) (⟨argument.name?, v⟩ :: values) u

namespace Evaluated

variable {arguments values values' : List (Tagged Value)}

theorem normal (h : Evaluated m ctx s arguments values t) : ∀ a ∈ values, a.normal = a := by
  induction h with
  | nil => nofun
  | @cons _ _ _ argument v _ _ _ _ _ ih =>
      refine List.forall_mem_cons.mpr ⟨?_, ih⟩
      exact Tagged.normal_normal ⟨argument.tag, v⟩

/-- The values keep their names when they are grouped. -/
theorem grouped_normal (h : Evaluated m ctx s arguments values t) :
    (grouped values).map Tagged.normal = grouped values := by
  have hnormal : ∀ a ∈ grouped values, a.normal = id a :=
    fun a ha => h.normal a ((Tagged.grouped_perm values).mem_iff.mp ha)
  exact (List.map_congr_left hnormal).trans (List.map_id _)

end Evaluated

/-- No name comes twice among values, and none of them was given before. -/
def Fresh (named : Bindings Value) (values : List (Tagged Value)) : Prop :=
  (carried values).Nodup ∧ ∀ name ∈ carried values, named.get? name = none

section Fresh

variable {named : Bindings Value} {a : Tagged Value} {name : String} {values : List (Tagged Value)}

theorem fresh_cons_unnamed (h : a.name? = none) :
    Fresh named (a :: values) ↔ Fresh named values := by
  simp only [Fresh, carried, List.filterMap_cons, h]

theorem carried_cons (h : a.name? = some name) :
    carried (a :: values) = name :: carried values := by
  simp only [carried, List.filterMap_cons, h]

theorem fresh_cons_named (h : a.name? = some name) (item : Value) :
    Fresh named (a :: values) ↔ named.get? name = none ∧ Fresh (named.set name item) values := by
  rw [Fresh, carried_cons h, List.nodup_cons, List.forall_mem_cons]
  constructor
  · rintro ⟨⟨hnot, hnodup⟩, habsent, hothers⟩
    refine ⟨habsent, hnodup, fun other hother => ?_⟩
    rw [Bindings.get?_set_of_ne named item (ne_of_mem_of_not_mem hother hnot)]
    exact hothers other hother
  · rintro ⟨habsent, hnodup, hothers⟩
    have hnot : name ∉ carried values := fun hmem => by simpa using hothers name hmem
    refine ⟨⟨hnot, hnodup⟩, habsent, fun other hother => ?_⟩
    rw [← Bindings.get?_set_of_ne named item (ne_of_mem_of_not_mem hother hnot)]
    exact hothers other hother

end Fresh

/-! ## Forcing arguments -/

/-- An argument that is there is forced, and its value is put with the others. -/
theorem forceArgs_cons {call : Expr} {a : Tagged Value} (h : a.item ≠ .code .missing)
    (rest : List (Tagged Value)) (positional : List Value) (named : Bindings Value) :
    forceArgs m ctx call (a :: rest) positional named = (do
      let v ← forceValue m (some ctx) a.item
      match a.name? with
      | none => forceArgs m ctx call rest (v :: positional) named
      | some name =>
          if named.contains name then Run.failWith (.arity (.nameTwice name)) (some call)
          else forceArgs m ctx call rest positional (named.set name v)) := by
  rw [forceArgs]
  split
  next hmissing => exact absurd hmissing h
  next => rfl

/-- Forcing arguments goes on from one argument to the others if it is there, has a value, and does
not carry a name that was given before. -/
theorem forceArgs_cons_eq_ok_iff {call : Expr} {a : Tagged Value} {rest : List (Tagged Value)}
    {positional : List Value} {named : Bindings Value} {r : List Value × Bindings Value} :
    forceArgs m ctx call (a :: rest) positional named s = .ok r t ↔
      a.item ≠ .code .missing ∧ ∃ v u, m.forceValue (some ctx) a.item s = .ok v u ∧
        (a.name? = none ∧ forceArgs m ctx call rest (v :: positional) named u = .ok r t ∨
          ∃ name, a.name? = some name ∧ named.get? name = none ∧
            forceArgs m ctx call rest positional (named.set name v) u = .ok r t) := by
  by_cases hmissing : a.item = .code .missing
  · have hfails : forceArgs m ctx call (a :: rest) positional named =
        Run.failWith (.missingArgument none) (some call) := by
      rw [forceArgs, hmissing]
    rw [hfails]
    refine ⟨fun h => ?_, fun h => absurd hmissing h.1⟩
    cases h
  · rw [forceArgs_cons hmissing]
    constructor
    · intro h
      obtain ⟨v, u, hvalue, h⟩ := Run.bind_eq_ok h
      refine ⟨hmissing, v, u, hvalue, ?_⟩
      cases ha : a.name? with
      | none =>
          rw [ha] at h
          exact .inl ⟨rfl, h⟩
      | some name =>
          rw [ha] at h
          dsimp only at h
          cases hbound : named.get? name with
          | some old =>
              rw [if_pos (by simp [Bindings.contains, hbound])] at h
              cases h
          | none =>
              rw [if_neg (by simp [Bindings.contains, hbound])] at h
              exact .inr ⟨name, rfl, hbound, h⟩
    · rintro ⟨-, v, u, hvalue, ⟨ha, h⟩ | ⟨name, ha, habsent, h⟩⟩
      · rw [bind_of_ok hvalue, ha]
        exact h
      · rw [bind_of_ok hvalue, ha]
        simp only [Bindings.contains, habsent]
        exact h

/-- Forcing arguments comes to an end exactly where each has a value and no name comes twice. The
values without a name come back in order, and apart from them those with a name. -/
theorem forceArgs_eq_ok_iff {call : Expr} {arguments : List (Tagged Value)}
    {positional : List Value} {named : Bindings Value} {r : List Value × Bindings Value} :
    forceArgs m ctx call arguments positional named s = .ok r t ↔
      ∃ values, Evaluated m ctx s arguments values t ∧ Fresh named values ∧
        r = (positional.reverse ++ unnamed values, named ++ pairs values) := by
  induction arguments generalizing s positional named with
  | nil =>
      constructor
      · intro h
        cases h
        exact ⟨[], .nil _, ⟨List.nodup_nil, List.forall_mem_nil _⟩, by simp [unnamed, pairs]⟩
      · rintro ⟨values, hvalues, -, rfl⟩
        cases hvalues
        simp [forceArgs, unnamed, pairs, pure, EStateM.pure]
  | cons a rest ih =>
      rw [forceArgs_cons_eq_ok_iff]
      simp only [ih]
      constructor
      · rintro ⟨hpresent, v, u, hvalue, hrest⟩
        have hname : (⟨a.name?, v⟩ : Tagged Value).name? = a.name? := a.name?_normal
        rcases hrest with ⟨ha, others, hothers, hfresh, rfl⟩ |
          ⟨name, ha, habsent, others, hothers, hfresh, rfl⟩
        · rw [ha] at hname
          refine ⟨_, ha ▸ .cons hpresent hvalue hothers, (fresh_cons_unnamed hname).mpr hfresh, ?_⟩
          simp [unnamed, pairs, hname]
        · rw [ha] at hname
          refine ⟨_, ha ▸ .cons hpresent hvalue hothers,
            (fresh_cons_named hname v).mpr ⟨habsent, hfresh⟩, ?_⟩
          simp [unnamed, pairs, hname, Bindings.set_of_absent habsent]
      · rintro ⟨_, hvalues, hfresh, rfl⟩
        cases hvalues with
        | @cons _ u _ _ v _ others hpresent hvalue hothers =>
            have hname : (⟨a.name?, v⟩ : Tagged Value).name? = a.name? := a.name?_normal
            refine ⟨hpresent, v, u, hvalue, ?_⟩
            cases ha : a.name? with
            | none =>
                rw [ha] at hname hfresh
                refine .inl ⟨rfl, others, hothers, (fresh_cons_unnamed hname).mp hfresh, ?_⟩
                simp [unnamed, pairs, hname]
            | some name =>
                rw [ha] at hname hfresh
                obtain ⟨habsent, hfresh⟩ := (fresh_cons_named hname v).mp hfresh
                refine .inr ⟨name, rfl, habsent, others, hothers, hfresh, ?_⟩
                simp [unnamed, pairs, hname, Bindings.set_of_absent habsent]

theorem evalArgs_eq_ok_iff {slots : List Slot} {env : EnvId} {call : Expr}
    {r : List Value × Bindings Value} :
    evalArgs m ctx slots env call s = .ok r t ↔
      ∃ supplied u values, promiseArgs ctx env slots s = .ok supplied u ∧
        Evaluated m ctx u supplied values t ∧ (carried values).Nodup ∧
        r = (unnamed values, pairs values) := by
  unfold evalArgs
  cases hargs : promiseArgs ctx env slots s with
  | error i u =>
      rw [Run.bind_of_error hargs]
      refine ⟨nofun, ?_⟩
      rintro ⟨_, _, _, hsupplied, -⟩
      cases hsupplied
  | ok supplied u =>
      rw [bind_of_ok hargs, forceArgs_eq_ok_iff]
      constructor
      · rintro ⟨values, hvalues, hfresh, rfl⟩
        exact ⟨supplied, u, values, rfl, hvalues, hfresh.1, rfl⟩
      · rintro ⟨_, _, values, hsupplied, hvalues, hnames, rfl⟩
        cases hsupplied
        exact ⟨values, hvalues, ⟨hnames, fun _ _ => rfl⟩, rfl⟩

/-! ## The list of arguments -/

/-- Where a name stands for `list`, a call of it has a value exactly if each of its arguments has
one and no name comes twice. It is the grouped list of their values, each under the name of its
argument, and so it is in the order of the arguments exactly if none without a name comes after one
with a name. -/
theorem list_groups_arguments {k : Nat} {env home : EnvId} {name : String}
    (hlist : s.Calls env name (.builtin (.primitive .list) home)) (slots : List Slot)
    (result : Value) (t : Store) :
    (ofLevel (k + 1)).eval ctx (.call (.symbol name) slots) env s = .ok result t ↔
      ∃ supplied u values, promiseArgs ctx env slots s = .ok supplied u ∧
        Evaluated (ofLevel k) ctx u supplied values t ∧ (carried values).Nodup ∧
        result = .list (grouped values) ∧ (result = .list values ↔ UnnamedFirst values) := by
  have happly : (ofLevel (k + 1)).eval ctx (.call (.symbol name) slots) env s =
      (do
        let r ← evalArgs (ofLevel k) ctx slots env (.call (.symbol name) slots)
        pure (.list (Library.tagged r.1 r.2)) : Run Value) s :=
    eval_call_of_calls hlist ctx slots
  have hlisted {supplied values : List (Tagged Value)} {u : Store}
      (hvalues : Evaluated (ofLevel k) ctx u supplied values t) :
      Library.tagged (unnamed values) (pairs values) = grouped values :=
    (Tagged.tagged_groups values).trans hvalues.grouped_normal
  have horder (values : List (Tagged Value)) :
      Value.list (grouped values) = .list values ↔ UnnamedFirst values := by
    rw [Value.list.injEq, Tagged.grouped_eq_self_iff]
  rw [happly]
  constructor
  · intro h
    obtain ⟨r, v, hargs, h⟩ := Run.bind_eq_ok h
    cases h
    obtain ⟨supplied, u, values, hsupplied, hvalues, hnames, rfl⟩ := evalArgs_eq_ok_iff.mp hargs
    rw [hlisted hvalues]
    exact ⟨supplied, u, values, hsupplied, hvalues, hnames, rfl, horder values⟩
  · rintro ⟨supplied, u, values, hsupplied, hvalues, hnames, rfl, -⟩
    have hargs : evalArgs (ofLevel k) ctx slots env (.call (.symbol name) slots) s =
        .ok (unnamed values, pairs values) t :=
      evalArgs_eq_ok_iff.mpr ⟨supplied, u, values, hsupplied, hvalues, hnames, rfl⟩
    rw [bind_of_ok hargs]
    exact congrArg (fun items => EStateM.Result.ok (Value.list items) t) (hlisted hvalues)

/-- A store in which `list` is bound. -/
def listing : Store where
  scopes := #[⟨[("list", .builtin (.primitive .list) .empty)], .empty, none⟩]
  evaluators := #[⟨some (.scope 0), 10, [], 0, []⟩]

/-- An argument without a name overtakes the named one in front of it. -/
theorem list_groups_arguments_mixed :
    ∃ t, (ofLevel 3).eval ⟨0⟩
      (.call (.symbol "list") [⟨some "a", .const (.int 1)⟩, ⟨none, .const (.int 2)⟩]) (.scope 0)
      listing = .ok (.list [⟨none, .int 2⟩, ⟨some "a", .int 1⟩]) t := by
  have hlist : listing.Calls (.scope 0) "list" (.builtin (.primitive .list) .empty) :=
    .here rfl rfl rfl
  let values : List (Tagged Value) := [⟨some "a", .int 1⟩, ⟨none, .int 2⟩]
  exact ⟨_, (list_groups_arguments (k := 2) hlist _ _ _).mpr ⟨_, _, values, rfl,
    .cons nofun rfl (.cons nofun rfl (.nil _)), by decide, rfl,
    by simp [values, UnnamedFirst, Tagged.name?]⟩⟩

end Machine

end Quasi
