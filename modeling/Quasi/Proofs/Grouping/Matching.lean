import Quasi.Proofs.Arguments.Natural
import Quasi.Proofs.Arguments.Order
import Quasi.Proofs.Grouping.Basic

/-!
# Matching grouped arguments

Grouped arguments match as they did before. The formals are bound to the same, and `...` gets the
same leftovers, which are grouped then.
-/

namespace Quasi

open Matching
open Tagged (grouped grouped_perm UnnamedFirst)

variable {α β : Type}

/-- Two lists that were left of one list without repetitions are equal if they have the same
items. -/
theorem sublist_eq_of_perm {l₁ l₂ l : List α} (hl : l.Nodup) (h₁ : l₁.Sublist l)
    (h₂ : l₂.Sublist l) (hperm : l₁.Perm l₂) : l₁ = l₂ := by
  induction l generalizing l₁ l₂ with
  | nil => rw [List.sublist_nil.mp h₁, List.sublist_nil.mp h₂]
  | cons a rest ih =>
      obtain ⟨hnot, hrest⟩ := List.nodup_cons.mp hl
      cases h₁ with
      | cons _ h₁ => cases h₂ with
        | cons _ h₂ => exact ih hrest h₁ h₂ hperm
        | cons_cons _ _ =>
            exact absurd (h₁.subset (hperm.mem_iff.mpr (List.mem_cons_self ..))) hnot
      | cons_cons _ h₁ => cases h₂ with
        | cons _ h₂ =>
            exact absurd (h₂.subset (hperm.mem_iff.mp (List.mem_cons_self ..))) hnot
        | cons_cons _ h₂ => rw [ih hrest h₁ h₂ hperm.cons_inv]

namespace Tagged

theorem grouped_map (f : α → β) (items : List (Tagged α)) :
    grouped (items.map (Tagged.map f)) = (grouped items).map (Tagged.map f) := by
  simp only [grouped, List.map_append, List.filter_map]
  rfl

theorem grouped_sublist {items items' : List (Tagged α)} (h : items.Sublist items') :
    (grouped items).Sublist (grouped items') :=
  (h.filter _).append (h.filter _)

end Tagged

namespace Matching

theorem untaken_sublist (arguments : List (Tagged α)) (places : List (Option String)) :
    (untaken arguments places).Sublist arguments := by
  induction arguments generalizing places with
  | nil => exact .refl _
  | cons t rest ih => cases places with
    | nil => exact List.nil_sublist _
    | cons place places => cases place with
      | none => exact (ih places).cons_cons t
      | some formal => exact (ih places).cons t

/-- Arguments keep their order within the groups, so that grouping puts nothing at another place. -/
theorem reordered_grouped (formals : List String) (partialNames : Bool)
    (supplied : List (Tagged α)) :
    Reordered formals partialNames supplied (grouped supplied) where
  perm := (grouped_perm supplied).symm
  untagged := by
    simp [grouped, List.filter_append, List.filter_filter]
  competing _ formal _ _ := by
    have hnamed (t : Tagged α) (ht : begins t formal = true) : t.name?.isSome = true :=
      Option.isSome_iff_ne_none.mpr (tagged_of_begins ht)
    have hcompetes (t : Tagged α) :
        ((exactFormal? formals t).isNone && begins t formal && t.name?.isNone) = false ∧
          ((exactFormal? formals t).isNone && begins t formal && t.name?.isSome) =
            ((exactFormal? formals t).isNone && begins t formal) := by
      cases hbegins : begins t formal with
      | false => simp
      | true => simp [Option.isNone_eq_false_iff.mpr (hnamed t hbegins), hnamed t hbegins]
    simp [grouped, List.filter_append, List.filter_filter, hcompetes]

/-- Whether exact names find a fault depends on the names only, in any order. -/
theorem exactRound_ok_congr {supplied : List (Tagged α)} {supplied' : List (Tagged β)}
    (formals : List String) (h : (supplied.map Tagged.name?).Perm (supplied'.map Tagged.name?)) :
    (∃ state, exactRound formals [] (number supplied) = .ok state) ↔
      ∃ state, exactRound formals [] (number supplied') = .ok state := by
  have hplaces {γ : Type} (arguments : List (Tagged γ)) : exactPlaces formals arguments =
      (arguments.map Tagged.name?).map fun name? =>
        name?.filter fun name => name ≠ "..." && formals.contains name := by
    rw [exactPlaces, List.map_map]
    rfl
  have hperm : (exactPlaces formals supplied).reduceOption.Perm
      (exactPlaces formals supplied').reduceOption := by
    rw [hplaces, hplaces]
    exact (h.map _).filterMap id
  simp only [exactRound_ok_iff, argument_number, Bindings.get?_nil, implies_true, and_true,
    hperm.nodup_iff]

end Matching

section

variable {formals : List String} {describe : α → String} {partialNames : Bool}
  {supplied : List (Tagged α)} {matched : Matched α}

/-- A formal is bound to one of the arguments, -/
theorem mem_of_matched (hformals : formals.Nodup)
    (h : matchArguments formals describe partialNames supplied = .ok matched) {formal : String}
    {item : α} (hitem : matched.bound.get? formal = some item) : ∃ t ∈ supplied, t.item = item := by
  obtain ⟨places, -, hbound, -⟩ := matchArguments_placement hformals h
  obtain ⟨t, ht, rfl⟩ := (hbound formal item).mp hitem
  exact ⟨t, (List.of_mem_zip ht).1, rfl⟩

/-- and what is left for `...` is left in the order of the arguments. -/
theorem dots_sublist (hformals : formals.Nodup)
    (h : matchArguments formals describe partialNames supplied = .ok matched) :
    matched.dots.Sublist (supplied.map Tagged.normal) := by
  obtain ⟨places, -, -, hdots⟩ := matchArguments_placement hformals h
  rw [hdots]
  exact (untaken_sublist supplied places).map _

/-- Grouped arguments match as they did before they were grouped. -/
theorem matchArguments_grouped (describe : α → String) (partialNames : Bool)
    (hformals : formals.Nodup) (hnodup : (supplied.map Tagged.normal).Nodup) :
    ((matchArguments formals describe partialNames supplied).toOption = none ∧
      (matchArguments formals describe partialNames (grouped supplied)).toOption = none) ∨
    ∃ matched matched', matchArguments formals describe partialNames supplied = .ok matched ∧
      matchArguments formals describe partialNames (grouped supplied) = .ok matched' ∧
      (∀ formal, matched.bound.get? formal = matched'.bound.get? formal) ∧
      matched'.dots = grouped matched.dots := by
  have hreordered := reordered_grouped formals partialNames supplied
  cases hmatched : matchArguments formals describe partialNames supplied with
  | error fault =>
      refine .inl ⟨rfl, ?_⟩
      cases hmatched' : matchArguments formals describe partialNames (grouped supplied) with
      | error fault' => rfl
      | ok matched' =>
          obtain ⟨matched, hok, -⟩ := matchArguments_reordered hformals hreordered.symm hmatched'
          cases hmatched.symm.trans hok
  | ok matched =>
      obtain ⟨matched', hmatched', hbound, hdots⟩ :=
        matchArguments_reordered hformals hreordered hmatched
      refine .inr ⟨matched, matched', rfl, hmatched', hbound, ?_⟩
      -- Both leftovers are taken from the grouped arguments, among which none occurs twice.
      have hgrouped : (grouped supplied).map Tagged.normal =
          grouped (supplied.map Tagged.normal) := (Tagged.grouped_normal supplied).symm
      have hleft := dots_sublist hformals hmatched'
      have hleft' := Tagged.grouped_sublist (dots_sublist hformals hmatched)
      rw [hgrouped] at hleft
      exact sublist_eq_of_perm ((grouped_perm _).nodup_iff.mpr hnodup) hleft hleft'
        (hdots.symm.trans (grouped_perm _).symm)

end

end Quasi
