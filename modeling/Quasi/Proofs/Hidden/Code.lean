import Quasi.Proofs.Hidden.Computed

/-!
# Code and arguments

Building code from values, taking it apart, and matching arguments to formals mention no more than
what is built from, taken apart and matched.
-/

namespace Quasi

variable {hidden : PromiseId → Prop} {α β : Type} [Mention α] [Mention β]

/-! ## Code -/

section Code

variable {e head : Expr} {slots : List Slot} {v : Value}

instance [h : Conceals hidden v] : Conceals hidden v.toExpr := by
  unfold Value.toExpr
  split
  · exact conceals_code.mp h
  · infer_instance

instance [Conceals hidden e] : Conceals hidden e.quoted := by
  unfold Expr.quoted
  infer_instance

instance [h : Conceals hidden v] : Conceals hidden (Machine.quotedValue v) := by
  unfold Machine.quotedValue
  split
  · infer_instance
  · have hcall := conceals_code.mp h
    infer_instance
  · infer_instance

instance [Conceals hidden head] [Conceals hidden slots] (n : Nat) :
    Conceals hidden (Expr.part? head slots n) := by
  cases n with
  | zero => exact inferInstanceAs (Conceals hidden (some head))
  | succ n =>
      refine conceals_option fun e he => ?_
      obtain ⟨slot, hslot, rfl⟩ := Option.map_eq_some_iff.mp he
      exact conceals_item.mpr (.of_some hslot)

instance [h : Conceals hidden v] : Conceals hidden v.toSlot := by
  unfold Value.toSlot
  split
  · exact conceals_slot.mp h
  · exact conceals_tagged.mpr inferInstance

instance [h : Conceals hidden v] : Conceals hidden v.spliceItems := by
  unfold Value.spliceItems
  split
  · infer_instance
  · infer_instance
  · have hitems := conceals_items.mp h
    exact conceals_ok.mpr (conceals_map fun t ht =>
      have hitem := conceals_item.mpr ht
      conceals_tagged.mpr inferInstance)
  · have hentries := conceals_mapping.mp h
    exact conceals_ok.mpr (conceals_map fun entry hentry =>
      have hitem := (conceals_pair.mp hentry).2
      conceals_tagged.mpr inferInstance)
  · have hitems := conceals_sequence.mp h
    exact conceals_ok.mpr (conceals_map fun _ _ => inferInstance)
  · have hitems := conceals_tuple.mp h
    exact conceals_ok.mpr (conceals_map fun _ _ => inferInstance)
  · have hitems := conceals_vector.mp (conceals_vec.mp h)
    exact conceals_ok.mpr (conceals_map fun _ _ => conceals_tagged.mpr inferInstance)
  · infer_instance

instance [h : Conceals hidden slots] : Conceals hidden (Machine.bodyOf slots) := by
  unfold Machine.bodyOf
  split
  · infer_instance
  · exact conceals_item.mpr (conceals_cons.mp h).1
  · have hitems : Conceals hidden (slots.map fun slot => (Tagged.bare slot.item : Slot)) :=
      conceals_map fun slot hslot => conceals_tagged.mpr (conceals_item.mpr hslot)
    infer_instance

instance [h : Conceals hidden e] (env : EnvId) : Conceals hidden (Machine.quosureAround env e) := by
  unfold Machine.quosureAround
  split
  · exact conceals_const.mp h
  · infer_instance

instance (s : Store) {fn : Value} {args : List Value} {named : Bindings Value}
    [Conceals hidden args] [Conceals hidden named] :
    Conceals hidden (Machine.callOf s fn args named) := by
  have hargs : Conceals hidden (args.map fun v => Tagged.bare (Machine.quotedValue v)) :=
    conceals_map fun _ _ => conceals_tagged.mpr inferInstance
  have hnamed : Conceals hidden (named.map fun (name, v) =>
      (⟨some name, Machine.quotedValue v⟩ : Slot)) :=
    conceals_map fun pair hpair =>
      have hv := (conceals_pair.mp hpair).2
      conceals_tagged.mpr inferInstance
  unfold Machine.callOf
  infer_instance

/-! ### Injections -/

instance : Mention Injection where
  conceals hidden
    | .unquote e => e.Conceals hidden
    | .splice e => e.Conceals hidden
    | .embrace e => e.Conceals hidden

theorem conceals_unquote : Conceals hidden (Injection.unquote e) ↔ Conceals hidden e :=
  ⟨fun h => ⟨h.out⟩, fun h => ⟨h.out⟩⟩

theorem conceals_splice : Conceals hidden (Injection.splice e) ↔ Conceals hidden e :=
  ⟨fun h => ⟨h.out⟩, fun h => ⟨h.out⟩⟩

theorem conceals_embrace : Conceals hidden (Injection.embrace e) ↔ Conceals hidden e :=
  ⟨fun h => ⟨h.out⟩, fun h => ⟨h.out⟩⟩

instance [h : Conceals hidden e] : Conceals hidden e.injection? := by
  unfold Expr.injection?
  split
  · have hoperand := conceals_tagged.mp (conceals_cons.mp (conceals_call.mp h).2).1
    split
    · exact conceals_some.mpr (conceals_unquote.mpr hoperand)
    · split
      · exact conceals_some.mpr (conceals_splice.mpr hoperand)
      · split
        · exact conceals_some.mpr (conceals_embrace.mpr hoperand)
        · infer_instance
  · infer_instance

instance [h : Conceals hidden e] : Conceals hidden e.nameAssign? := by
  unfold Expr.nameAssign?
  split
  · obtain ⟨hlhs, hrest⟩ := conceals_cons.mp (conceals_call.mp h).2
    have hlhs := conceals_tagged.mp hlhs
    have hrhs := conceals_tagged.mp (conceals_cons.mp hrest).1
    split <;> infer_instance
  · infer_instance

/-! ### Squashing -/

mutual

theorem conceals_squash {e : Expr} (h : Conceals hidden e) : Conceals hidden e.squash := by
  match e with
  | .const v =>
      cases v with
      | quosure e env =>
          rw [Expr.squash]
          exact conceals_squash (conceals_quosure.mp (conceals_const.mp h))
      | _ => exact h
  | .call head slots =>
      obtain ⟨hhead, hslots⟩ := conceals_call.mp h
      rw [Expr.squash]
      exact conceals_call.mpr ⟨conceals_squash hhead, conceals_squashSlots hslots⟩
  | .formals items =>
      rw [Expr.squash]
      exact conceals_formals.mpr (conceals_squashFormals (conceals_formals.mp h))
  | .symbol name => exact h
  | .missing => exact h
termination_by structural e

theorem conceals_squashSlots {slots : List (Tagged Expr)} (h : Conceals hidden slots) :
    Conceals hidden (Expr.squashSlots slots) := by
  match slots with
  | [] => exact h
  | ⟨tag, e⟩ :: rest =>
      obtain ⟨hfirst, hrest⟩ := conceals_cons.mp h
      rw [Expr.squashSlots]
      exact conceals_cons.mpr ⟨conceals_tagged.mpr (conceals_squash (conceals_tagged.mp hfirst)),
        conceals_squashSlots hrest⟩
termination_by structural slots

theorem conceals_squashFormals {items : List (String × Expr)} (h : Conceals hidden items) :
    Conceals hidden (Expr.squashFormals items) := by
  match items with
  | [] => exact h
  | (name, e) :: rest =>
      obtain ⟨hfirst, hrest⟩ := conceals_cons.mp h
      have he := conceals_squash (conceals_pair.mp hfirst).2
      have hsquashed := conceals_squashFormals hrest
      rw [Expr.squashFormals]
      infer_instance
termination_by structural items

end

instance [h : Conceals hidden v] : Conceals hidden v.squash := by
  unfold Value.squash
  split
  · exact conceals_squash (conceals_quosure.mp h)
  · exact conceals_squash inferInstance

end Code

/-! ## Arguments -/

section Arguments

variable {args : List Value} {named : Bindings Value} {v : Value}

instance (name : String) (position : Nat) {default : Value} [Conceals hidden args]
    [Conceals hidden named] [Conceals hidden default] :
    Conceals hidden (Library.argument named name args position default) := by
  unfold Library.argument
  infer_instance

instance {t : Tagged Value} [h : Conceals hidden t] : Conceals hidden (Library.entryPair t) := by
  have hitem := conceals_item.mpr h
  unfold Library.entryPair
  split <;> infer_instance

instance [Conceals hidden args] [Conceals hidden named] :
    Conceals hidden (Library.tagged args named) := by
  unfold Library.tagged
  infer_instance

instance {t : Tagged Value} [h : Conceals hidden t] : Conceals hidden (Library.listParts t) := by
  have hitem := conceals_item.mpr h
  unfold Library.listParts
  split
  next items hi => exact conceals_items.mp (hi ▸ hitem)
  next items hi =>
    have hitems := conceals_sequence.mp (hi ▸ hitem)
    infer_instance
  next items hi =>
    have hitems := conceals_tuple.mp (hi ▸ hitem)
    infer_instance
  next => infer_instance

instance {items : List (Tagged Value)} [Conceals hidden items] :
    Conceals hidden (Library.splitArgs items) := by
  unfold Library.splitArgs
  refine conceals_pair.mpr ⟨conceals_filterMap fun t ht => ?_, ?_⟩
  · have hitem := conceals_item.mpr ht
    split <;> infer_instance
  · have hnamed : Conceals hidden (items.filterMap fun t => t.name?.map (·, t.item)) :=
      conceals_filterMap fun t ht => by
        have hitem := conceals_item.mpr ht
        cases t.name? with
        | none => exact inferInstanceAs (Conceals hidden none)
        | some name => exact inferInstanceAs (Conceals hidden (some (name, t.item)))
    infer_instance

instance [h : Conceals hidden v] : Conceals hidden (Library.headOf v) := by
  unfold Library.headOf
  split <;> infer_instance

instance [Conceals hidden v] [Conceals hidden args] [Conceals hidden named] :
    Conceals hidden (Library.makeCall v args named) := by
  have hargs : Conceals hidden (args.map Value.toSlot) := conceals_map fun _ _ => inferInstance
  have hnamed : Conceals hidden (named.map fun (name, v) => (⟨some name, v.toExpr⟩ : Slot)) :=
    conceals_map fun pair hpair =>
      have hv := (conceals_pair.mp hpair).2
      conceals_tagged.mpr inferInstance
  unfold Library.makeCall
  infer_instance

instance (names : List String) : Conceals hidden (Library.texts names) := by
  have hnames : Conceals hidden (names.map Value.str) := conceals_map fun _ _ => inferInstance
  unfold Library.texts
  infer_instance

end Arguments

/-! ## Matching -/

section Matching

open Matching

instance : Mention (Supplied α) := ⟨fun hidden s => Mention.conceals hidden s.argument⟩

instance : Mention (Matched α) where
  conceals hidden m := Mention.conceals hidden m.bound ∧ Mention.conceals hidden m.dots

instance : Mention (Matching.State α) where
  conceals hidden s := Mention.conceals hidden s.bound ∧ Mention.conceals hidden s.left

theorem conceals_supplied {position : Nat} {t : Tagged α} :
    Conceals hidden (⟨position, t⟩ : Supplied α) ↔ Conceals hidden t :=
  ⟨fun h => ⟨h.out⟩, fun h => ⟨h.out⟩⟩

theorem conceals_matched {bound : Bindings α} {dots : List (Tagged α)} :
    Conceals hidden (⟨bound, dots⟩ : Matched α) ↔ Conceals hidden bound ∧ Conceals hidden dots :=
  ⟨fun h => ⟨⟨h.out.1⟩, ⟨h.out.2⟩⟩, fun h => ⟨⟨h.1.out, h.2.out⟩⟩⟩

theorem conceals_state {bound : Bindings α} {left : List (Supplied α)} :
    Conceals hidden (⟨bound, left⟩ : Matching.State α) ↔
      Conceals hidden bound ∧ Conceals hidden left :=
  ⟨fun h => ⟨⟨h.out.1⟩, ⟨h.out.2⟩⟩, fun h => ⟨⟨h.1.out, h.2.out⟩⟩⟩

instance {supplied : List (Tagged α)} [h : Conceals hidden supplied] :
    Conceals hidden (Matching.number supplied) := by
  refine conceals_list.mpr fun s hs => ?_
  obtain ⟨⟨t, i⟩, ht, rfl⟩ := List.mem_map.mp hs
  exact conceals_supplied.mpr (h.mem (List.fst_mem_of_mem_zipIdx ht))

/-- A round leaves what it does not match to the next one. -/
theorem conceals_left {r : Except ArityFault (Matching.State α)} (hr : Conceals hidden r)
    {s : Supplied α} (hs : Conceals hidden s) :
    Conceals hidden (r.map fun state => (⟨state.bound, s :: state.left⟩ : Matching.State α)) :=
  conceals_exceptMap fun state hstate => by
    obtain ⟨hbound, hleft⟩ := conceals_state.mp hstate
    exact conceals_state.mpr ⟨hbound, conceals_cons.mpr ⟨hs, hleft⟩⟩

theorem conceals_exactRound (formals : List String) {bound : Bindings α}
    {supplied : List (Supplied α)} (hbound : Conceals hidden bound)
    (h : Conceals hidden supplied) : Conceals hidden (exactRound formals bound supplied) := by
  induction supplied generalizing bound with
  | nil => exact conceals_ok.mpr (conceals_state.mpr ⟨hbound, h⟩)
  | cons s rest ih =>
      obtain ⟨hs, hrest⟩ := conceals_cons.mp h
      have hitem : Conceals hidden s.argument.item := conceals_item.mpr (conceals_supplied.mp hs)
      unfold exactRound
      split
      · exact conceals_left (ih hbound hrest) hs
      · split
        · infer_instance
        · exact ih inferInstance hrest

theorem conceals_prefixRound (formals : List String) {bound : Bindings α}
    {supplied : List (Supplied α)} (hbound : Conceals hidden bound)
    (h : Conceals hidden supplied) : Conceals hidden (prefixRound formals bound supplied) := by
  induction supplied generalizing bound with
  | nil => exact conceals_ok.mpr (conceals_state.mpr ⟨hbound, h⟩)
  | cons s rest ih =>
      obtain ⟨hs, hrest⟩ := conceals_cons.mp h
      have hitem : Conceals hidden s.argument.item := conceals_item.mpr (conceals_supplied.mp hs)
      unfold prefixRound
      split
      · exact conceals_left (ih hbound hrest) hs
      · split
        · exact conceals_left (ih hbound hrest) hs
        · exact ih inferInstance hrest
        · infer_instance

theorem conceals_positionRound (describe : α → String) (hasDots : Bool) {bound : Bindings α}
    (openFormals : List String) {supplied : List (Supplied α)} (hbound : Conceals hidden bound)
    (h : Conceals hidden supplied) :
    Conceals hidden (positionRound describe hasDots bound openFormals supplied) := by
  induction supplied generalizing bound openFormals with
  | nil =>
      unfold positionRound
      exact conceals_ok.mpr (conceals_matched.mpr ⟨hbound, inferInstance⟩)
  | cons s rest ih =>
      obtain ⟨hs, hrest⟩ := conceals_cons.mp h
      have hitem : Conceals hidden s.argument.item := conceals_item.mpr (conceals_supplied.mp hs)
      unfold positionRound
      split
      · exact ih _ inferInstance hrest
      · split
        · have hmatched (others : List String) := ih others hbound hrest
          refine conceals_exceptMap fun matched hm => ?_
          obtain ⟨hbound, hdots⟩ := conceals_matched.mp hm
          exact conceals_matched.mpr ⟨hbound, inferInstance⟩
        · infer_instance

theorem conceals_finish (formals : List String) (describe : α → String) (partialNames : Bool)
    {state : Matching.State α} (h : Conceals hidden state) :
    Conceals hidden (finish formals describe partialNames state) := by
  obtain ⟨hbound, hleft⟩ := conceals_state.mp h
  have hlast (state : Matching.State α) (h : Conceals hidden state) :
      Conceals hidden (positionRound describe (formals.contains "...") state.bound
        ((beforeDots formals).filter fun formal => !state.bound.contains formal) state.left) :=
    have hparts := conceals_state.mp h
    conceals_positionRound describe _ _ hparts.1 hparts.2
  unfold finish
  split
  · have hprefix := conceals_prefixRound formals hbound hleft
    exact conceals_bind hlast
  · exact hlast state h

/-! How arguments are described matters for those that are left. -/

variable {describe describe' : α → String} (hd : ∀ a, Conceals hidden a → describe a = describe' a)
include hd

theorem positionRound_congr (hasDots : Bool) (bound : Bindings α) (openFormals : List String)
    {supplied : List (Supplied α)} (h : Conceals hidden supplied) :
    positionRound describe hasDots bound openFormals supplied =
      positionRound describe' hasDots bound openFormals supplied := by
  induction supplied generalizing bound openFormals with
  | nil => rfl
  | cons s rest ih =>
      obtain ⟨hs, hrest⟩ := conceals_cons.mp h
      have hitem : Conceals hidden s.argument.item := conceals_item.mpr (conceals_supplied.mp hs)
      have htext : unusedText describe s.argument = unusedText describe' s.argument := by
        unfold unusedText
        rw [hd _ hitem]
      unfold positionRound
      split
      · exact ih _ _ hrest
      · rw [ih _ _ hrest, htext]

theorem finish_congr (formals : List String) (partialNames : Bool) {state : Matching.State α}
    (h : Conceals hidden state) :
    finish formals describe partialNames state = finish formals describe' partialNames state := by
  obtain ⟨hbound, hleft⟩ := conceals_state.mp h
  unfold finish
  cases partialNames with
  | false => exact positionRound_congr hd _ _ _ hleft
  | true =>
      have hprefix := conceals_prefixRound formals hbound hleft
      simp only [↓reduceIte]
      generalize prefixRound formals state.bound state.left = r at hprefix
      cases r with
      | error fault => rfl
      | ok state => exact positionRound_congr hd _ _ _ (conceals_state.mp (conceals_ok.mp hprefix)).2

end Matching

end Quasi
