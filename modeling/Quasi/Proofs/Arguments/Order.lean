import Quasi.Proofs.Arguments.Placement
import Mathlib.Data.List.Perm.Basic

/-!
# The order in which arguments are written

Exact names are matched whatever their order, and so are positions as long as the untagged
arguments keep theirs. The round of abbreviations is not: a formal that one name takes no longer
counts for the next, so two names that begin one free formal may not change places. Names that
begin no common formal may: their steps commute, and arguments in any other order that keeps the
order of those that compete for a formal are moved to it step by step.
-/

namespace Quasi

namespace Matching

variable {α : Type}

/-- Where the round of abbreviations puts an argument: at a formal, at none, or it fails. -/
def aim (free : List String) (t : Tagged α) : Option (Option String) :=
  match free.filter (begins t) with
  | [] => some none
  | [formal] => some (some formal)
  | _ => none

/-- The formals that are free after an argument was put at a place. -/
def without (free : List String) (place : Option String) : List String :=
  free.filter fun formal => place ≠ some formal

theorem prefixPlaces_cons (free : List String) (t : Tagged α) (rest : List (Tagged α)) :
    prefixPlaces free (t :: rest) =
      (aim free t).bind fun place => (prefixPlaces (without free place) rest).map (place :: ·) := by
  have hnone : without free none = free := by simp [without]
  have hsome (formal : String) : without free (some formal) = free.filter (· ≠ formal) := by
    simp [without, eq_comm]
  rcases hfit : free.filter (begins t) with _ | ⟨formal, _ | _⟩ <;>
    simp only [prefixPlaces, aim, hfit, Option.bind_some, Option.bind_none, hnone, hsome]

theorem prefixPlaces_cons_eq_some {free : List String} {t : Tagged α} {rest : List (Tagged α)}
    {places : List (Option String)} :
    prefixPlaces free (t :: rest) = some places ↔
      ∃ place more, aim free t = some place ∧
        prefixPlaces (without free place) rest = some more ∧ place :: more = places := by
  simp only [prefixPlaces_cons, Option.bind_eq_some_iff, Option.map_eq_some_iff]
  constructor
  · rintro ⟨place, haim, more, hmore, hplaces⟩
    exact ⟨place, more, haim, hmore, hplaces⟩
  · rintro ⟨place, more, haim, hmore, hplaces⟩
    exact ⟨place, haim, more, hmore, hplaces⟩

theorem begins_of_aim {free : List String} {t : Tagged α} {formal : String}
    (h : aim free t = some (some formal)) : formal ∈ free ∧ begins t formal = true := by
  unfold aim at h
  split at h
  · cases h
  · rename_i other hfilter
    obtain rfl : other = formal := by simpa using h
    exact List.mem_filter.1 (by simp [hfilter])
  · cases h

/-- Two arguments that do not compete for a free formal. -/
def Independent (free : List String) (t u : Tagged α) : Prop :=
  ∀ formal ∈ free, ¬ (begins t formal = true ∧ begins u formal = true)

theorem Independent.symm {free : List String} {t u : Tagged α} (h : Independent free t u) :
    Independent free u t :=
  fun formal hformal hboth => h formal hformal hboth.symm

theorem Independent.without {free : List String} {t u : Tagged α} (h : Independent free t u)
    (place : Option String) : Independent (without free place) t u :=
  fun formal hformal => h formal (List.mem_filter.1 hformal).1

/-- An argument aims at the same place after one that does not compete with it. -/
theorem Independent.aim_eq {free : List String} {t u : Tagged α} (h : Independent free t u)
    {place : Option String} (hplace : aim free t = some place) :
    aim (Matching.without free place) u = aim free u := by
  have hfilter : (Matching.without free place).filter (begins u) = free.filter (begins u) := by
    rw [Matching.without, List.filter_filter]
    refine List.filter_congr fun formal hformal => ?_
    cases hu : begins u formal with
    | false => rfl
    | true =>
        have hne : place ≠ some formal := by
          rintro rfl
          exact h formal hformal ⟨(begins_of_aim hplace).2, hu⟩
        simp [hne]
  rw [aim, hfilter, aim]

/-- If one list is placed, so is the other, and every argument at the same place. -/
def PlacedAlike (free : List String) (l l' : List (Tagged α)) : Prop :=
  ∀ places, prefixPlaces free l = some places →
    ∃ places', prefixPlaces free l' = some places' ∧ (l.zip places).Perm (l'.zip places')

namespace PlacedAlike

variable {free : List String} {l l' l'' : List (Tagged α)}

theorem trans (h : PlacedAlike free l l') (h' : PlacedAlike free l' l'') :
    PlacedAlike free l l'' := by
  intro places hplaces
  obtain ⟨places', hplaces', hperm⟩ := h places hplaces
  obtain ⟨places'', hplaces'', hperm'⟩ := h' places' hplaces'
  exact ⟨places'', hplaces'', hperm.trans hperm'⟩

theorem cons {t : Tagged α}
    (h : ∀ place, aim free t = some place → PlacedAlike (without free place) l l') :
    PlacedAlike free (t :: l) (t :: l') := by
  intro places hplaces
  obtain ⟨place, more, haim, hmore, rfl⟩ := prefixPlaces_cons_eq_some.1 hplaces
  obtain ⟨more', hmore', hperm⟩ := h place haim more hmore
  exact ⟨place :: more', prefixPlaces_cons_eq_some.2 ⟨place, more', haim, hmore', rfl⟩,
    hperm.cons (t, place)⟩

theorem swap {t u : Tagged α} (h : Independent free t u) (rest : List (Tagged α)) :
    PlacedAlike free (t :: u :: rest) (u :: t :: rest) := by
  intro places hplaces
  obtain ⟨place, _, haim, hmore, rfl⟩ := prefixPlaces_cons_eq_some.1 hplaces
  obtain ⟨place', more, haim', hrest, rfl⟩ := prefixPlaces_cons_eq_some.1 hmore
  rw [h.aim_eq haim] at haim'
  have hcomm : without (without free place') place = without (without free place) place' := by
    simp only [without, List.filter_filter, Bool.and_comm]
  refine ⟨place' :: place :: more, ?_, .swap ..⟩
  refine prefixPlaces_cons_eq_some.2 ⟨place', place :: more, haim', ?_, rfl⟩
  refine prefixPlaces_cons_eq_some.2 ⟨place, more, ?_, by rw [hcomm, hrest], rfl⟩
  rw [h.symm.aim_eq haim', haim]

/-- An argument may move past those that do not compete with it. -/
theorem move {t : Tagged α} {before : List (Tagged α)} (h : ∀ u ∈ before, Independent free t u)
    (rest : List (Tagged α)) :
    PlacedAlike free (t :: (before ++ rest)) (before ++ t :: rest) := by
  induction before generalizing free with
  | nil => exact fun places hplaces => ⟨places, hplaces, .refl _⟩
  | cons u before ih =>
      refine (swap (h u List.mem_cons_self) (before ++ rest)).trans (cons fun place _ => ih ?_)
      intro u' hu'
      exact (h u' (List.mem_cons_of_mem _ hu')).without place

/-- Arguments may be written in any order that keeps the order of those whose names begin a common
free formal. -/
theorem of_perm (hperm : l.Perm l')
    (horder : ∀ formal ∈ free, l.filter (begins · formal) = l'.filter (begins · formal)) :
    PlacedAlike free l l' := by
  induction l generalizing l' free with
  | nil =>
      obtain rfl : l' = [] := hperm.symm.eq_nil
      exact fun places hplaces => ⟨places, hplaces, .refl _⟩
  | cons t rest ih =>
      obtain ⟨before, after, rfl, hfirst⟩ :=
        List.eq_append_cons_of_mem (hperm.subset List.mem_cons_self)
      have hnone {formal : String} (hformal : formal ∈ free) (ht : begins t formal = true) :
          before.filter (begins · formal) = [] := by
        have hsame := horder formal hformal
        rw [List.filter_cons_of_pos (p := (begins · formal)) ht, List.filter_append] at hsame
        cases hbefore : before.filter (begins · formal) with
        | nil => rfl
        | cons u more =>
            rw [hbefore, List.cons_append, List.cons.injEq] at hsame
            have hu : u ∈ before.filter (begins · formal) := by simp [hbefore]
            exact absurd (hsame.1 ▸ (List.mem_filter.1 hu).1) hfirst
      have hindependent : ∀ u ∈ before, Independent free t u := by
        rintro u hu formal hformal ⟨ht, hu'⟩
        have hmem : u ∈ before.filter (begins · formal) := List.mem_filter.2 ⟨hu, hu'⟩
        simp [hnone hformal ht] at hmem
      refine (cons fun place _ => ih ?_ fun formal hformal => ?_).trans (move hindependent after)
      · exact (hperm.trans List.perm_middle).cons_inv
      · have hfree := (List.mem_filter.1 hformal).1
        have hsame := horder formal hfree
        cases ht : begins t formal with
        | false =>
            rw [List.filter_cons_of_neg (by simp [ht]), List.filter_append,
              List.filter_cons_of_neg (by simp [ht])] at hsame
            rw [hsame, List.filter_append]
        | true =>
            rw [List.filter_cons_of_pos (p := (begins · formal)) ht, List.filter_append, hnone hfree ht,
              List.nil_append, List.filter_cons_of_pos (p := (begins · formal)) ht, List.cons.injEq] at hsame
            rw [hsame.2, List.filter_append, hnone hfree ht, List.nil_append]

end PlacedAlike

/-! ## Rounds in another order -/

section Rounds

variable {bound bound₁ bound' bound₁' : Bindings α} {arguments arguments' left left' : List (Tagged α)}
  {places places' : List (Option String)}

/-- Arguments at the same places bind the formals in the same way. -/
theorem Placed.get?_congr (h : Placed bound arguments places bound₁ left)
    (h' : Placed bound' arguments' places' bound₁' left')
    (hbound : ∀ formal, bound.get? formal = bound'.get? formal)
    (hperm : (arguments.zip places).Perm (arguments'.zip places')) (formal : String) :
    bound₁.get? formal = bound₁'.get? formal := by
  refine Option.ext fun item => ?_
  rw [h.bound, h'.bound, hbound]
  simp only [hperm.mem_iff]

theorem Placed.left_perm (h : Placed bound arguments places bound₁ left)
    (h' : Placed bound' arguments' places' bound₁' left')
    (hperm : (arguments.zip places).Perm (arguments'.zip places')) : left.Perm left' := by
  rw [h.left, h'.left]
  exact (hperm.filter _).map _

/-- A round that places tagged arguments only leaves the untagged ones. -/
theorem Placed.untagged (h : Placed bound arguments places bound₁ left)
    (htagged : ∀ {t : Tagged α} {formal : String}, (t, some formal) ∈ arguments.zip places →
      t.name? ≠ none) :
    left.filter (·.name?.isNone) = arguments.filter (·.name?.isNone) := by
  have hplaces : places.length = arguments.length := h.length
  rw [h.left]
  clear h
  induction arguments generalizing places with
  | nil => rfl
  | cons t rest ih => cases places with
    | nil => simp at hplaces
    | cons place places =>
        have hmore : places.length = rest.length := by simpa using hplaces
        have hrest := ih (fun ht => htagged (List.mem_cons_of_mem _ ht)) hmore
        cases place with
        | none =>
            rw [untaken_cons_none, List.filter_cons, List.filter_cons, hrest]
        | some formal =>
            have hname : t.name? ≠ none := htagged List.mem_cons_self
            rw [untaken_cons_some, hrest, List.filter_cons_of_neg (by simpa using hname)]

theorem openFormals_congr {formals : List String}
    (h : ∀ formal, bound.get? formal = bound'.get? formal) :
    openFormals formals bound = openFormals formals bound' := by
  simp only [openFormals, Bindings.contains, h]

/-- Positions reach the untagged arguments in their order and no others. -/
theorem zip_positionPlaces_perm (free : List String) (arguments : List (Tagged α)) :
    (arguments.zip (positionPlaces free arguments)).Perm
      ((arguments.filter (·.name?.isSome)).map (·, none) ++
        (arguments.filter (·.name?.isNone)).zip
          (positionPlaces free (arguments.filter (·.name?.isNone)))) := by
  induction arguments generalizing free with
  | nil => exact .refl _
  | cons t rest ih =>
      cases hname : t.name? with
      | some name =>
          rw [positionPlaces_of_passedOver (.inl (by simp [hname])), List.zip_cons_cons,
            List.filter_cons_of_pos (by simp [hname]), List.filter_cons_of_neg (by simp [hname])]
          exact (ih free).cons (t, none)
      | none =>
          rw [List.filter_cons_of_neg (by simp [hname]), List.filter_cons_of_pos (by simp [hname])]
          cases free with
          | nil =>
              simp only [positionPlaces_of_passedOver (t := t) (.inr rfl), List.zip_cons_cons]
              exact ((ih []).cons (t, none)).trans List.perm_middle.symm
          | cons formal more =>
              simp only [positionPlaces, hname, List.zip_cons_cons]
              exact ((ih more).cons (t, some formal)).trans List.perm_middle.symm

theorem zip_positionPlaces_congr (free : List String) (hperm : arguments.Perm arguments')
    (huntagged : arguments.filter (·.name?.isNone) = arguments'.filter (·.name?.isNone)) :
    (arguments.zip (positionPlaces free arguments)).Perm
      (arguments'.zip (positionPlaces free arguments')) := by
  refine (zip_positionPlaces_perm free arguments).trans ?_
  rw [huntagged]
  exact (((hperm.filter _).map _).append_right _).trans (zip_positionPlaces_perm free arguments').symm

end Rounds

/-- The same arguments in another order, which keeps that of the untagged ones. Where names may
abbreviate, it also keeps that of the arguments that compete for a formal: those whose names begin
it, and are not the names of formals, if no argument names it exactly. -/
structure Reordered (formals : List String) (partialNames : Bool)
    (supplied supplied' : List (Tagged α)) : Prop where
  perm : supplied.Perm supplied'
  untagged : supplied.filter (·.name?.isNone) = supplied'.filter (·.name?.isNone)
  competing : partialNames = true → ∀ formal ∈ beforeDots formals,
    (∀ t ∈ supplied, t.name? ≠ some formal) →
      supplied.filter (fun t => (exactFormal? formals t).isNone && begins t formal) =
        supplied'.filter (fun t => (exactFormal? formals t).isNone && begins t formal)

section Reordered

variable {formals : List String} {partialNames : Bool} {supplied supplied' : List (Tagged α)}

theorem Reordered.symm (h : Reordered formals partialNames supplied supplied') :
    Reordered formals partialNames supplied' supplied where
  perm := h.perm.symm
  untagged := h.untagged.symm
  competing hpartial formal hformal hnone :=
    (h.competing hpartial formal hformal fun t ht => hnone t (h.perm.mem_iff.1 ht)).symm

theorem zip_exactPlaces_perm (hperm : supplied.Perm supplied') :
    (supplied.zip (exactPlaces formals supplied)).Perm
      (supplied'.zip (exactPlaces formals supplied')) := by
  rw [zip_exactPlaces, zip_exactPlaces]
  exact hperm.map _

theorem tagged_of_exactPlaces {t : Tagged α} {formal : String}
    (ht : (t, some formal) ∈ supplied.zip (exactPlaces formals supplied)) : t.name? ≠ none := by
  rw [zip_exactPlaces] at ht
  obtain ⟨t, -, heq⟩ := List.mem_map.1 ht
  obtain ⟨rfl, hexact⟩ := Prod.mk.inj heq
  simp [(exactFormal?_eq_some.1 hexact).1]

theorem tagged_of_begins {t : Tagged α} {formal : String} (h : begins t formal = true) :
    t.name? ≠ none := by
  obtain ⟨name, hname, -⟩ := (Option.any_eq_true _ _).1 h
  simp [hname]

/-- The exact round puts arguments in another order at the same places. -/
theorem exactRound_reordered (hperm : supplied.Perm supplied') {state : State α}
    (hexact : exactRound formals [] (number supplied) = .ok state) :
    ∃ state' : State α, exactRound formals [] (number supplied') = .ok state' ∧
      ∀ formal, state.bound.get? formal = state'.bound.get? formal := by
  have hnodup := ((exactRound_ok_iff (number supplied)).1 ⟨state, hexact⟩).1
  have hsame : (exactPlaces formals supplied).reduceOption.Perm
      (exactPlaces formals supplied').reduceOption := (hperm.map _).filterMap id
  obtain ⟨state', hexact'⟩ : ∃ state', exactRound formals [] (number supplied') = .ok state' :=
    (exactRound_ok_iff (number supplied')).2
      ⟨by rwa [argument_number, ← hsame.nodup_iff, ← argument_number supplied], by simp⟩
  refine ⟨state', hexact', ?_⟩
  have hplaced := exactRound_placed hexact
  have hplaced' := exactRound_placed hexact'
  rw [argument_number] at hplaced hplaced'
  exact hplaced.get?_congr hplaced' (fun _ => rfl) (zip_exactPlaces_perm hperm)

/-- What exact names leave open at a formal is what competes for it. -/
theorem filter_begins_left {bound : Bindings α} {left : List (Tagged α)}
    (h : Placed [] supplied (exactPlaces formals supplied) bound left) (formal : String) :
    left.filter (begins · formal) =
      supplied.filter fun t => (exactFormal? formals t).isNone && begins t formal := by
  rw [h.left.trans untaken_exactPlaces, List.filter_filter]
  exact List.filter_congr fun t _ => Bool.and_comm ..

theorem not_named_of_open {bound : Bindings α} {left : List (Tagged α)}
    (h : Placed [] supplied (exactPlaces formals supplied) bound left) {formal : String}
    (hopen : formal ∈ openFormals formals bound) : ∀ t ∈ supplied, t.name? ≠ some formal := by
  intro t ht hname
  obtain ⟨hbefore, hfree⟩ := mem_openFormals.1 hopen
  obtain ⟨hformal, hne⟩ := mem_of_mem_beforeDots hbefore
  have hmem : (t, some formal) ∈ supplied.zip (exactPlaces formals supplied) := by
    rw [zip_exactPlaces]
    exact List.mem_map.2 ⟨t, ht, by rw [exactFormal?_eq_some.2 ⟨hname, hne, hformal⟩]⟩
  rw [(h.bound formal t.item).2 (.inr ⟨t, hmem, rfl⟩)] at hfree
  cases hfree

/-- The rounds by names bind the same formals in another order, and leave the same arguments. -/
theorem namedRounds_reordered (h : Reordered formals partialNames supplied supplied')
    {state after : State α} (hexact : exactRound formals [] (number supplied) = .ok state)
    (hnames : (if partialNames then prefixRound formals state.bound state.left else .ok state) =
      .ok after) :
    ∃ state' after' : State α, exactRound formals [] (number supplied') = .ok state' ∧
      (if partialNames then prefixRound formals state'.bound state'.left else .ok state') =
        .ok after' ∧
      (∀ formal, after.bound.get? formal = after'.bound.get? formal) ∧
      (after.left.map (·.argument)).Perm (after'.left.map (·.argument)) ∧
      (after.left.map (·.argument)).filter (·.name?.isNone) =
        (after'.left.map (·.argument)).filter (·.name?.isNone) := by
  obtain ⟨state', hexact', hbound⟩ := exactRound_reordered h.perm hexact
  have hplaced := exactRound_placed hexact
  have hplaced' := exactRound_placed hexact'
  rw [argument_number] at hplaced hplaced'
  have hperm := hplaced.left_perm hplaced' (zip_exactPlaces_perm h.perm)
  have huntagged : (state.left.map (·.argument)).filter (·.name?.isNone) =
      (state'.left.map (·.argument)).filter (·.name?.isNone) := by
    rw [hplaced.untagged tagged_of_exactPlaces, hplaced'.untagged tagged_of_exactPlaces,
      h.untagged]
  cases partialNames with
  | false =>
      obtain rfl : state = after := by simpa using hnames
      exact ⟨state', state', hexact', by simp, hbound, hperm, huntagged⟩
  | true =>
      obtain ⟨places, hplaces, hround⟩ := prefixRound_placed (by simpa using hnames)
      have hopen : openFormals formals state.bound = openFormals formals state'.bound :=
        openFormals_congr hbound
      obtain ⟨places', hplaces', hsame⟩ := PlacedAlike.of_perm hperm (fun formal hformal => by
        rw [filter_begins_left hplaced, filter_begins_left hplaced']
        exact h.competing rfl formal (mem_openFormals.1 hformal).1
          (not_named_of_open hplaced hformal)) places hplaces
      cases hprefix' : prefixRound formals state'.bound state'.left with
      | error fault =>
          have hnone := prefixRound_error hprefix'
          rw [← hopen, hplaces'] at hnone
          cases hnone
      | ok after' =>
          obtain ⟨other, hother, hround'⟩ := prefixRound_placed hprefix'
          obtain rfl : places' = other := by
            rw [← hopen, hplaces'] at hother
            exact Option.some.inj hother
          refine ⟨state', after', hexact', by simpa using hprefix',
            hround.get?_congr hround' hbound hsame, hround.left_perm hround' hsame, ?_⟩
          rw [hround.untagged fun ht => tagged_of_begins (mem_zip_prefixPlaces hplaces ht).2,
            hround'.untagged fun ht => tagged_of_begins (mem_zip_prefixPlaces hplaces' ht).2,
            huntagged]

/-- Arguments that match also match in another order, with the same formals bound in the same way
and the same leftovers in some order. -/
theorem matchArguments_reordered (hformals : formals.Nodup) {describe : α → String}
    (h : Reordered formals partialNames supplied supplied') {matched : Matched α}
    (hmatched : matchArguments formals describe partialNames supplied = .ok matched) :
    ∃ matched', matchArguments formals describe partialNames supplied' = .ok matched' ∧
      (∀ formal, matched.bound.get? formal = matched'.bound.get? formal) ∧
      matched.dots.Perm matched'.dots := by
  obtain ⟨state, after, hexact, hprefix, hposition⟩ := matchArguments_eq_ok.1 hmatched
  obtain ⟨state', after', hexact', hprefix', hbound, hperm, huntagged⟩ :=
    namedRounds_reordered h hexact hprefix
  have hopen : openFormals formals after'.bound = openFormals formals after.bound :=
    (openFormals_congr hbound).symm
  have hplaces := zip_positionPlaces_congr (openFormals formals after.bound) hperm huntagged
  have hfits : none ∈ positionPlaces (openFormals formals after'.bound)
      (after'.left.map (·.argument)) → formals.contains "..." = true := by
    rw [hopen]
    intro hnone
    obtain ⟨t, ht⟩ := exists_mem_zip (length_positionPlaces _ _) hnone
    exact (positionRound_ok_iff ..).1 ⟨matched, hposition⟩
      (List.of_mem_zip (hplaces.mem_iff.2 ht)).2
  obtain ⟨matched', hposition'⟩ := (positionRound_ok_iff describe _ _ _).2 hfits
  refine ⟨matched', matchArguments_eq_ok.2 ⟨state', after', hexact', hprefix', hposition'⟩, ?_⟩
  have hnodup : (openFormals formals after.bound).Nodup :=
    (hformals.sublist (List.takeWhile_sublist _)).filter _
  obtain ⟨remaining, hplaced, hdots⟩ := positionRound_placed
    (fun formal hformal => (mem_openFormals.1 hformal).2) hnodup hposition
  obtain ⟨remaining', hplaced', hdots'⟩ := positionRound_placed
    (fun formal hformal => (mem_openFormals.1 hformal).2) (hopen ▸ hnodup) hposition'
  rw [hopen] at hplaced'
  refine ⟨hplaced.get?_congr hplaced' hbound hplaces, ?_⟩
  rw [hdots, hdots']
  exact (hplaced.left_perm hplaced' hplaces).map _

end Reordered

end Matching

open Matching

/-- The order in which arguments are written does not matter as long as the untagged ones keep
theirs and, where names may abbreviate, so do those that compete for a formal: either both orders
fail, or the same formals are bound in the same way and the leftovers are the same in some order. -/
theorem matchArguments_order {α : Type} {formals : List String} (hformals : formals.Nodup)
    (describe : α → String) {partialNames : Bool} {supplied supplied' : List (Tagged α)}
    (h : Reordered formals partialNames supplied supplied') :
    ((∃ fault, matchArguments formals describe partialNames supplied = .error fault) ∧
      ∃ fault, matchArguments formals describe partialNames supplied' = .error fault) ∨
    ∃ matched matched', matchArguments formals describe partialNames supplied = .ok matched ∧
      matchArguments formals describe partialNames supplied' = .ok matched' ∧
      (∀ formal, matched.bound.get? formal = matched'.bound.get? formal) ∧
      matched.dots.Perm matched'.dots := by
  cases hmatched : matchArguments formals describe partialNames supplied with
  | ok matched =>
      obtain ⟨matched', hmatched', hbound, hdots⟩ := matchArguments_reordered hformals h hmatched
      exact .inr ⟨matched, matched', rfl, hmatched', hbound, hdots⟩
  | error fault =>
      cases hmatched' : matchArguments formals describe partialNames supplied' with
      | error fault' => exact .inl ⟨⟨fault, rfl⟩, fault', rfl⟩
      | ok matched' =>
          obtain ⟨matched, hok, -⟩ := matchArguments_reordered hformals h.symm hmatched'
          rw [hmatched] at hok
          cases hok

theorem matchArguments_order_mixed :
    ["alpha", "beta", "..."].Nodup ∧
      Reordered ["alpha", "beta", "..."] true
        [⟨none, 1⟩, ⟨some "be", 2⟩, ⟨some "z", 3⟩, ⟨none, 4⟩]
        [⟨some "z", 3⟩, ⟨none, 1⟩, ⟨none, 4⟩, ⟨some "be", (2 : Nat)⟩] ∧
      ∃ matched matched' : Matched Nat,
        matchArguments ["alpha", "beta", "..."] Nat.repr true
            [⟨none, 1⟩, ⟨some "be", 2⟩, ⟨some "z", 3⟩, ⟨none, 4⟩] = .ok matched ∧
          matchArguments ["alpha", "beta", "..."] Nat.repr true
            [⟨some "z", 3⟩, ⟨none, 1⟩, ⟨none, 4⟩, ⟨some "be", 2⟩] = .ok matched' ∧
          (∀ formal, matched.bound.get? formal = matched'.bound.get? formal) ∧
          matched.dots.Perm matched'.dots := by
  have hformals : ["alpha", "beta", "..."].Nodup := by decide
  have hreordered : Reordered ["alpha", "beta", "..."] true
      [⟨none, 1⟩, ⟨some "be", 2⟩, ⟨some "z", 3⟩, ⟨none, 4⟩]
      [⟨some "z", 3⟩, ⟨none, 1⟩, ⟨none, 4⟩, ⟨some "be", (2 : Nat)⟩] :=
    ⟨by decide, by decide, by decide⟩
  refine ⟨hformals, hreordered, ?_⟩
  obtain ⟨⟨fault, hfault⟩, -⟩ | hmatched := matchArguments_order hformals Nat.repr hreordered
  · cases hfault
  · exact hmatched

/-- Names that compete for a formal do not change places: what the first takes is no candidate for
the second. -/
example :
    (matchArguments ["alpha", "alphabet"] Nat.repr true
      [⟨some "al", 1⟩, ⟨some "alphab", 2⟩]).toOption.isNone ∧
    (matchArguments ["alpha", "alphabet"] Nat.repr true
      [⟨some "alphab", 2⟩, ⟨some "al", 1⟩]).toOption.isSome := by decide

end Quasi
