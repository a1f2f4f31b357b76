import Quasi.Library.Apply
import Quasi.Proofs.Grouping.Basic
import Quasi.Proofs.Unused.Binding

/-!
# Promises of listed values

A direct call promises code that stands for a value, in the order in which the code is written. A
call with a list promises the value, and it takes the values without a name first. The two calls
make promises for the same values, at other places.
-/

namespace Quasi

open Run (bind_of_ok)
open Tagged (grouped pairs unnamed)

/-- The code that stands for a value in a call: an expression is quoted, and anything else is a
constant. -/
def Value.standing : Value → Expr
  | .code e => e.quoted
  | v => .const v

/-- The slots of the call that stands for a list of arguments. -/
def standingSlots (items : List (Tagged Value)) : List Slot := items.map (Tagged.map Value.standing)

/-- The promise of a value that a direct call makes. -/
def Promise.awaiting (ctx : EvaluatorId) (env : EnvId) (v : Value) : Promise :=
  ⟨v.standing, some env, some ctx, false, .unforced⟩

/-- The promise that has its value from the start. -/
def Promise.given (v : Value) : Promise := ⟨v.standing, none, none, false, .given v⟩

namespace Store

variable {s : Store}

/-- A store with promises that are made one after the other. -/
def addPromises (s : Store) : List Promise → Store
  | [] => s
  | promise :: rest => (s.addPromise promise).addPromises rest

theorem addPromises_append (s : Store) (promises more : List Promise) :
    s.addPromises (promises ++ more) = (s.addPromises promises).addPromises more := by
  induction promises generalizing s with
  | nil => rfl
  | cons promise rest ih => exact ih _

theorem addPromises_grows (s : Store) (promises : List Promise) :
    s.Grows (s.addPromises promises) := by
  induction promises generalizing s with
  | nil => exact .refl s
  | cons promise rest ih => exact (Grows.addPromise s promise).trans (ih _)

@[simp] theorem size_addPromises (s : Store) (promises : List Promise) :
    (s.addPromises promises).promises.size = s.promises.size + promises.length := by
  induction promises generalizing s with
  | nil => rfl
  | cons promise rest ih =>
      rw [addPromises, ih, size_addPromise, List.length_cons]
      omega

theorem scopes_addPromises (s : Store) (promises : List Promise) :
    (s.addPromises promises).scopes = s.scopes := by
  induction promises generalizing s with
  | nil => rfl
  | cons promise rest ih => exact (ih _).trans (s.scopes_addPromise _)

theorem evaluators_addPromises (s : Store) (promises : List Promise) :
    (s.addPromises promises).evaluators = s.evaluators := by
  induction promises generalizing s with
  | nil => rfl
  | cons promise rest ih => exact (ih _).trans (s.evaluators_addPromise _)

/-- Each promise is made at the next place. -/
theorem promise_addPromises {promises : List Promise} {j : Nat} {promise : Promise}
    (h : promises[j]? = some promise) :
    (s.addPromises promises).promise ⟨s.promises.size + j⟩ =
      { promise with env := promise.env.map s.known } := by
  induction promises generalizing s j with
  | nil => cases h
  | cons first rest ih =>
      cases j with
      | zero =>
          cases h
          have hgrows := addPromises_grows (s.addPromise promise) rest
          refine (hgrows.promise _ (s.lt_size_addPromise promise)).trans ?_
          rw [promise_addPromise]
          exact if_pos rfl
      | succ j =>
          have hnext := ih (s := s.addPromise first) h
          rw [size_addPromise, Nat.add_right_comm] at hnext
          refine hnext.trans ?_
          congr 2
          funext env
          exact s.known_addPromise first env

theorem promise_addPromises_map {α : Type} (s : Store) {xs : List α} (f : α → Promise) {j : Nat}
    {x : α} (h : xs[j]? = some x) :
    s.promises.size + j < (s.addPromises (xs.map f)).promises.size ∧
      (s.addPromises (xs.map f)).promise ⟨s.promises.size + j⟩ =
        { f x with env := (f x).env.map s.known } := by
  constructor
  · rw [size_addPromises, List.length_map]
    exact Nat.add_lt_add_left (List.getElem?_eq_some_iff.mp h).1 _
  · exact promise_addPromises (by rw [List.getElem?_map, h, Option.map_some])

end Store

namespace Machine

/-! ## The arguments of both calls -/

theorem promisedIn_eq (ctx : EvaluatorId) (env : EnvId) (s : Store) (items : List (Tagged Value)) :
    promisedIn ctx env s (standingSlots items) =
      s.addPromises (items.map fun t => .awaiting ctx env t.item) := by
  induction items generalizing s with
  | nil => rfl
  | cons t rest ih => exact ih _

/-- Every value of a list is promised by the call that stands for it. -/
theorem promiseArgs_standing (ctx : EvaluatorId) (env : EnvId) (items : List (Tagged Value))
    (s : Store) : promiseArgs ctx env (standingSlots items) s =
      .ok (Reading.awaited s.promises.size (standingSlots items))
        (s.addPromises (items.map fun t => .awaiting ctx env t.item)) := by
  rw [← promisedIn_eq]
  refine promiseArgs_apply ctx env (fun slot hslot => ?_) s
  obtain ⟨t, -, rfl⟩ := List.mem_map.mp hslot
  change t.item.standing.isMissing = false ∧ t.item.standing.isSymbol dotsName = false
  cases t.item <;> exact ⟨rfl, rfl⟩

theorem givenPromise_apply (v : Value) (s : Store) :
    givenPromise v s = .ok (.promise ⟨s.promises.size⟩) (s.addPromise (.given v)) := by
  cases v <;> rfl

/-- Values that are given make promises in their order. -/
theorem mapM_givenPromise {α : Type} (tag : α → Option String) (value : α → Value) (xs : List α)
    (s : Store) :
    (xs.mapM fun x => do pure (Tagged.mk (tag x) (← givenPromise (value x))) : Run _) s =
      .ok (Reading.awaited s.promises.size (standingSlots (xs.map fun x => ⟨tag x, value x⟩)))
        (s.addPromises (xs.map fun x => .given (value x))) := by
  induction xs generalizing s with
  | nil => rfl
  | cons x rest ih =>
      rw [List.mapM_cons, bind_assoc, bind_of_ok (givenPromise_apply (value x) s), pure_bind,
        bind_of_ok (ih _), Store.size_addPromise]
      rfl

theorem awaited_append (n : Nat) (slots more : List Slot) :
    Reading.awaited n (slots ++ more) =
      Reading.awaited n slots ++ Reading.awaited (n + slots.length) more := by
  induction slots generalizing n with
  | nil => rfl
  | cons slot rest ih =>
      rw [List.cons_append, Reading.awaited, ih, List.length_cons, Nat.add_right_comm,
        ← Nat.add_assoc]
      rfl

theorem names_awaited (n : Nat) (slots : List Slot) :
    (Reading.awaited n slots).map Tagged.name? = slots.map Tagged.name? := by
  induction slots generalizing n with
  | nil => rfl
  | cons slot rest ih => exact congrArg (slot.name? :: ·) (ih _)

theorem names_standingSlots (items : List (Tagged Value)) :
    (standingSlots items).map Tagged.name? = items.map Tagged.name? := by
  rw [standingSlots, List.map_map]
  rfl

/-- The arguments of both calls carry the same names. -/
theorem names_awaited_perm (n : Nat) (items : List (Tagged Value)) :
    ((Reading.awaited n (standingSlots items)).map Tagged.name?).Perm
      ((Reading.awaited n (standingSlots (Library.tagged (unnamed items) (pairs items)))).map
        Tagged.name?) := by
  rw [names_awaited, names_awaited, names_standingSlots, names_standingSlots, Tagged.tagged_groups,
    List.map_map]
  simp only [Function.comp_def, Tagged.name?_normal]
  exact ((Tagged.grouped_perm items).map Tagged.name?).symm

/-- A closure that is called with values gets promises of them, the ones without a name first. -/
theorem callStep_closure (m : Machine) (ctx : EvaluatorId) (c : ClosureId) (args : List Value)
    (named : Bindings Value) (env : EnvId) (s : Store) :
    callStep m ctx (.closure c) args named env s =
      m.applyClosure ctx c
        (Reading.awaited s.promises.size (standingSlots (Library.tagged args named)))
        (callOf s (.closure c) args named) env
        (s.addPromises ((Library.tagged args named).map fun t => .given t.item)) := by
  have hbare := mapM_givenPromise (fun _ => none) (fun v => v) args s
  have hnamed := mapM_givenPromise (fun entry : String × Value => some entry.1) (·.2) named
    (s.addPromises (args.map .given))
  unfold callStep
  rw [Run.get_bind]
  dsimp only
  refine (bind_of_ok hbare).trans ((bind_of_ok hnamed).trans ?_)
  rw [Store.size_addPromises, ← Store.addPromises_append, Library.tagged]
  simp only [standingSlots, List.map_append, awaited_append, List.map_map, List.length_map]
  rfl

/-! ## Pairs of promises -/

/-- The places of the promises that both calls make of a value. -/
structure Twins where
  awaiting : Nat
  given : Nat
  value : Value

/-- The promises of listed values from the next place on, where the values without a name and those
with one are given from places of their own. -/
def twins (next bare named : Nat) : List (Tagged Value) → List (Tagged Twins)
  | [] => []
  | t :: rest =>
      match t.name? with
      | none => ⟨none, ⟨next, bare, t.item⟩⟩ :: twins (next + 1) (bare + 1) named rest
      | some name => ⟨some name, ⟨next, named, t.item⟩⟩ :: twins (next + 1) bare (named + 1) rest

section Twins

variable {items : List (Tagged Value)} {next bare named : Nat}

theorem twins_cons_unnamed {a : Tagged Value} (h : a.name? = none) (rest : List (Tagged Value)) :
    twins next bare named (a :: rest) =
      ⟨none, ⟨next, bare, a.item⟩⟩ :: twins (next + 1) (bare + 1) named rest := by
  rw [twins, h]

theorem twins_cons_named {a : Tagged Value} {name : String} (h : a.name? = some name)
    (rest : List (Tagged Value)) : twins next bare named (a :: rest) =
      ⟨some name, ⟨next, named, a.item⟩⟩ :: twins (next + 1) bare (named + 1) rest := by
  rw [twins, h]

theorem normal_twins (next bare named : Nat) (items : List (Tagged Value)) :
    ∀ t ∈ twins next bare named items, t.normal = t := by
  induction items generalizing next bare named with
  | nil => nofun
  | cons a rest ih =>
      cases hname : a.name? with
      | none =>
          rw [twins_cons_unnamed hname]
          exact List.forall_mem_cons.mpr ⟨rfl, ih _ _ _⟩
      | some name =>
          rw [twins_cons_named hname]
          refine List.forall_mem_cons.mpr ⟨?_, ih _ _ _⟩
          rw [Tagged.normal, Tagged.name?_of_some hname]

/-- The promises of the direct call, in the order of the list. -/
theorem map_awaiting_twins (next bare named : Nat) (items : List (Tagged Value)) :
    (twins next bare named items).map (Tagged.map fun z => Value.promise ⟨z.awaiting⟩) =
      (Reading.awaited next (standingSlots items)).map Tagged.normal := by
  induction items generalizing next bare named with
  | nil => rfl
  | cons a rest ih =>
      have hslots : Reading.awaited next (standingSlots (a :: rest)) =
          ⟨a.tag, .promise ⟨next⟩⟩ :: Reading.awaited (next + 1) (standingSlots rest) := rfl
      have hfirst : (⟨a.tag, .promise ⟨next⟩⟩ : Tagged Value).normal =
          ⟨a.name?, .promise ⟨next⟩⟩ := rfl
      cases hname : a.name? with
      | none =>
          rw [twins_cons_unnamed hname, hslots, List.map_cons, List.map_cons, ih, hfirst, hname]
          rfl
      | some name =>
          rw [twins_cons_named hname, hslots, List.map_cons, List.map_cons, ih, hfirst, hname]
          rfl

theorem map_given_unnamed (next bare named : Nat) (items : List (Tagged Value)) :
    ((twins next bare named items).filter (·.name?.isNone)).map
        (Tagged.map fun z => Value.promise ⟨z.given⟩) =
      Reading.awaited bare (standingSlots ((unnamed items).map .bare)) := by
  induction items generalizing next bare named with
  | nil => rfl
  | cons a rest ih =>
      cases hname : a.name? with
      | none =>
          rw [twins_cons_unnamed hname, List.filter_cons_of_pos rfl, List.map_cons, ih,
            Tagged.unnamed_cons_of_none rest hname]
          rfl
      | some name =>
          rw [twins_cons_named hname,
            List.filter_cons_of_neg (by simp [Tagged.name?_of_some hname]), ih,
            Tagged.unnamed_cons_of_some rest hname]

theorem map_given_named (next bare named : Nat) (items : List (Tagged Value)) :
    ((twins next bare named items).filter (·.name?.isSome)).map
        (Tagged.map fun z => Value.promise ⟨z.given⟩) =
      Reading.awaited named
        (standingSlots ((pairs items).map fun (name, v) => ⟨some name, v⟩)) := by
  induction items generalizing next bare named with
  | nil => rfl
  | cons a rest ih =>
      cases hname : a.name? with
      | none =>
          rw [twins_cons_unnamed hname, List.filter_cons_of_neg (by simp [Tagged.name?]), ih,
            Tagged.pairs_cons_of_none rest hname]
      | some name =>
          rw [twins_cons_named hname,
            List.filter_cons_of_pos (by simp [Tagged.name?_of_some hname]), List.map_cons, ih,
            Tagged.pairs_cons_of_some rest hname]
          rfl

/-- The promises of the call with a list, in the order of the grouped list. -/
theorem map_given_twins (next n : Nat) (items : List (Tagged Value)) :
    (grouped (twins next n (n + (unnamed items).length) items)).map
        (Tagged.map fun z => Value.promise ⟨z.given⟩) =
      Reading.awaited n (standingSlots (Library.tagged (unnamed items) (pairs items))) := by
  rw [grouped, List.map_append, map_given_unnamed, map_given_named, Library.tagged]
  simp only [standingSlots, List.map_append, awaited_append, List.length_map]

/-- Each pair is of promises of one value. -/
theorem twins_stand {D G : Nat → Value → Prop} (next bare named : Nat)
    (hD : ∀ j a, items[j]? = some a → D (next + j) a.item)
    (hbare : ∀ j v, (unnamed items)[j]? = some v → G (bare + j) v)
    (hnamed : ∀ j entry, (pairs items)[j]? = some entry → G (named + j) entry.2) :
    ∀ t ∈ twins next bare named items,
      D t.item.awaiting t.item.value ∧ G t.item.given t.item.value := by
  induction items generalizing next bare named with
  | nil => nofun
  | cons a rest ih =>
      have hrest (j : Nat) (b : Tagged Value) (hb : rest[j]? = some b) :
          D (next + 1 + j) b.item := by
        rw [Nat.add_assoc, Nat.add_comm 1]
        exact hD (j + 1) b hb
      cases hname : a.name? with
      | none =>
          rw [Tagged.unnamed_cons_of_none rest hname] at hbare
          rw [Tagged.pairs_cons_of_none rest hname] at hnamed
          rw [twins_cons_unnamed hname]
          refine List.forall_mem_cons.mpr ⟨⟨hD 0 a rfl, hbare 0 a.item rfl⟩, ?_⟩
          refine ih _ _ _ hrest (fun j v hv => ?_) hnamed
          rw [Nat.add_assoc, Nat.add_comm 1]
          exact hbare (j + 1) v hv
      | some name =>
          rw [Tagged.unnamed_cons_of_some rest hname] at hbare
          rw [Tagged.pairs_cons_of_some rest hname] at hnamed
          rw [twins_cons_named hname]
          refine List.forall_mem_cons.mpr ⟨⟨hD 0 a rfl, hnamed 0 (name, a.item) rfl⟩, ?_⟩
          refine ih _ _ _ hrest hbare fun j entry hentry => ?_
          rw [Nat.add_assoc, Nat.add_comm 1]
          exact hnamed (j + 1) entry hentry

theorem next_le_awaiting (next bare named : Nat) (items : List (Tagged Value)) :
    ∀ t ∈ twins next bare named items, next ≤ t.item.awaiting := by
  have h : ∀ t ∈ twins next bare named items, next ≤ t.item.awaiting ∧ True :=
    twins_stand (D := fun n _ => next ≤ n) (G := fun _ _ => True) next bare named
      (fun _ _ _ => Nat.le_add_right ..) (fun _ _ _ => trivial) fun _ _ _ => trivial
  exact fun t ht => (h t ht).1

/-- No pair occurs twice. -/
theorem nodup_twins (next bare named : Nat) (items : List (Tagged Value)) :
    (twins next bare named items).Nodup := by
  induction items generalizing next bare named with
  | nil => exact List.nodup_nil
  | cons a rest ih =>
      have hfresh {bare' named' : Nat} {t : Tagged Twins} (ht : t.item.awaiting = next) :
          t ∉ twins (next + 1) bare' named' rest := fun hmem => by
        have hle := next_le_awaiting _ _ _ _ t hmem
        omega
      cases hname : a.name? with
      | none =>
          rw [twins_cons_unnamed hname]
          exact List.nodup_cons.mpr ⟨hfresh rfl, ih _ _ _⟩
      | some name =>
          rw [twins_cons_named hname]
          exact List.nodup_cons.mpr ⟨hfresh rfl, ih _ _ _⟩

end Twins

end Machine

end Quasi
