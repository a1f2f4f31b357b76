import Quasi.Proofs.Forward.Matching
import Mathlib.Data.List.ReduceOption
import Mathlib.Data.List.Nodup
import Mathlib.Data.List.TakeWhile

/-!
# Where matching places arguments

Every round of matching gives some of the arguments that are left to formals nothing is bound to,
and leaves the others in their order. A placement says of every argument which formal it goes to,
if any: rounds one after the other fill in what the ones before left open, and what is left open
in the end goes to `...`.
-/

namespace Quasi

namespace Matching

variable {α : Type}

/-- The arguments that a placement leaves open, in their order. -/
def untaken (arguments : List (Tagged α)) (places : List (Option String)) : List (Tagged α) :=
  ((arguments.zip places).filter (·.2.isNone)).map (·.1)

/-- The places of the untagged arguments, in their order. -/
def untaggedPlaces (arguments : List (Tagged α)) (places : List (Option String)) :
    List (Option String) :=
  ((arguments.zip places).filter (·.1.name?.isNone)).map (·.2)

/-- The formals ahead of `...` that no tagged argument is placed at. -/
def unclaimed (formals : List String) (arguments : List (Tagged α))
    (places : List (Option String)) : List String :=
  (beforeDots formals).filter fun formal =>
    !(arguments.zip places).any fun (t, place) => t.name?.isSome && place == some formal

@[simp] theorem untaken_nil (places : List (Option String)) :
    untaken ([] : List (Tagged α)) places = [] := rfl

@[simp] theorem untaken_cons_none (t : Tagged α) (rest : List (Tagged α))
    (places : List (Option String)) :
    untaken (t :: rest) (none :: places) = t :: untaken rest places := rfl

@[simp] theorem untaken_cons_some (t : Tagged α) (rest : List (Tagged α)) (formal : String)
    (places : List (Option String)) :
    untaken (t :: rest) (some formal :: places) = untaken rest places := rfl

theorem exists_mem_zip {arguments : List (Tagged α)} {places : List (Option String)}
    {place : Option String} (hlength : places.length = arguments.length) (h : place ∈ places) :
    ∃ t, (t, place) ∈ arguments.zip places := by
  have hsnd : (arguments.zip places).map Prod.snd = places :=
    List.map_snd_zip (Nat.le_of_eq hlength)
  rw [← hsnd] at h
  obtain ⟨⟨t, _⟩, ht, rfl⟩ := List.mem_map.1 h
  exact ⟨t, ht⟩

theorem mem_untaken {arguments : List (Tagged α)} {places : List (Option String)}
    {t : Tagged α} : t ∈ untaken arguments places ↔ (t, none) ∈ arguments.zip places := by
  simp [untaken]

/-! ## One round after the other -/

/-- A placement with the places that a later one gives to what it leaves open. -/
def fill : List (Option String) → List (Option String) → List (Option String)
  | [], _ => []
  | some formal :: places, later => some formal :: fill places later
  | none :: places, [] => none :: fill places []
  | none :: places, place :: later => place :: fill places later

theorem length_fill (places later : List (Option String)) :
    (fill places later).length = places.length := by
  fun_induction fill places later <;> simp_all

/-- A later placement goes on where an earlier one leaves arguments open: it has a place for each of
these. -/
inductive Continues : List (Tagged α) → List (Option String) → List (Option String) → Prop where
  | nil : Continues [] [] []
  | placed {arguments : List (Tagged α)} {places later : List (Option String)} (t : Tagged α)
      (formal : String) (h : Continues arguments places later) :
      Continues (t :: arguments) (some formal :: places) later
  | left {arguments : List (Tagged α)} {places later : List (Option String)} (t : Tagged α)
      (place : Option String) (h : Continues arguments places later) :
      Continues (t :: arguments) (none :: places) (place :: later)

section Fill

variable {arguments : List (Tagged α)} {places later : List (Option String)}

theorem Continues.of_length (hlength : places.length = arguments.length)
    (hlater : later.length = (untaken arguments places).length) :
    Continues arguments places later := by
  induction places generalizing arguments later with
  | nil =>
      obtain rfl : arguments = [] := List.eq_nil_of_length_eq_zero hlength.symm
      obtain rfl : later = [] := List.eq_nil_of_length_eq_zero hlater
      exact .nil
  | cons place places ih =>
      obtain ⟨t, rest, rfl⟩ := List.exists_cons_of_length_eq_add_one hlength.symm
      have hrest : places.length = rest.length := by simpa using hlength
      cases place with
      | some formal => exact .placed t formal (ih hrest hlater)
      | none =>
          obtain ⟨next, later, rfl⟩ := List.exists_cons_of_length_eq_add_one hlater
          exact .left t next (ih hrest (by simpa using hlater))

theorem untaken_fill (h : Continues arguments places later) :
    untaken arguments (fill places later) = untaken (untaken arguments places) later := by
  induction h with
  | nil => rfl
  | placed t formal _ ih => exact ih
  | left t place _ ih =>
      cases place with
      | none => simp only [fill, untaken_cons_none, ih]
      | some formal => simp only [fill, untaken_cons_none, untaken_cons_some, ih]

/-- An argument is placed by the first placement, or where the later one places it. -/
theorem mem_zip_fill (h : Continues arguments places later) (t : Tagged α) (formal : String) :
    (t, some formal) ∈ arguments.zip (fill places later) ↔
      (t, some formal) ∈ arguments.zip places ∨
        (t, some formal) ∈ (untaken arguments places).zip later := by
  induction h with
  | nil => simp [fill]
  | placed t' formal' _ ih =>
      simp only [fill, untaken_cons_some, List.zip_cons_cons, List.mem_cons, or_assoc, ih]
  | left t' place _ ih =>
      simp only [fill, untaken_cons_none, List.zip_cons_cons, List.mem_cons, ih, Prod.mk.injEq,
        reduceCtorEq, and_false, false_or]
      tauto

theorem reduceOption_fill (places later : List (Option String))
    (hlater : later.length = (places.filter (·.isNone)).length) :
    (fill places later).reduceOption.Perm (places.reduceOption ++ later.reduceOption) := by
  induction places generalizing later with
  | nil =>
      have hnil : later = [] := by simpa using hlater
      simp [fill, hnil]
  | cons place places ih => cases place with
    | some formal => simpa [fill] using ih later (by simpa using hlater)
    | none => cases later with
      | nil => simp at hlater
      | cons next later =>
          have hrest := ih later (by simpa using hlater)
          cases next with
          | none => simpa [fill] using hrest
          | some formal =>
              simpa [fill] using (hrest.cons formal).trans List.perm_middle.symm

theorem untaggedPlaces_fill (h : Continues arguments places later)
    (htagged : ∀ t formal, (t, some formal) ∈ arguments.zip places → t.name? ≠ none) :
    untaggedPlaces arguments (fill places later) =
      untaggedPlaces (untaken arguments places) later := by
  induction h with
  | nil => rfl
  | placed t formal _ ih =>
      have hname : t.name?.isNone = false :=
        Option.isNone_eq_false_iff.2
          (Option.isSome_iff_ne_none.2 (htagged t formal List.mem_cons_self))
      have hrest := ih fun t formal ht => htagged t formal (List.mem_cons_of_mem _ ht)
      simpa [fill, untaggedPlaces, hname] using hrest
  | left t place _ ih =>
      have hrest := ih fun t formal ht => htagged t formal (List.mem_cons_of_mem _ ht)
      unfold untaggedPlaces at hrest
      cases hname : t.name?.isNone <;> simp [fill, untaggedPlaces, hname, hrest]

/-- What the first placement decides the filled one leaves as it is. -/
theorem exists_mem_zip_of_fill (h : Continues arguments places later) {t : Tagged α}
    {place : Option String} (ht : (t, place) ∈ arguments.zip (fill places later)) :
    ∃ first, (t, first) ∈ arguments.zip places ∧ (first = none ∨ first = place) := by
  induction h with
  | nil => cases ht
  | placed t' formal _ ih =>
      simp only [fill, List.zip_cons_cons, List.mem_cons, Prod.mk.injEq] at ht
      obtain ⟨rfl, rfl⟩ | ht := ht
      · exact ⟨some formal, List.mem_cons_self, .inr rfl⟩
      · obtain ⟨first, hfirst, hkept⟩ := ih ht
        exact ⟨first, List.mem_cons_of_mem _ hfirst, hkept⟩
  | left t' next _ ih =>
      simp only [fill, List.zip_cons_cons, List.mem_cons, Prod.mk.injEq] at ht
      obtain ⟨rfl, rfl⟩ | ht := ht
      · exact ⟨none, List.mem_cons_self, .inl rfl⟩
      · obtain ⟨first, hfirst, hkept⟩ := ih ht
        exact ⟨first, List.mem_cons_of_mem _ hfirst, hkept⟩

end Fill

/-- What a round that places arguments makes of what is bound: a formal is bound to what it was
bound to before, or to the one argument that is placed at it. -/
structure Placed (bound : Bindings α) (arguments : List (Tagged α)) (places : List (Option String))
    (bound' : Bindings α) (left : List (Tagged α)) : Prop where
  length : places.length = arguments.length
  fresh : ∀ formal, some formal ∈ places → bound.get? formal = none
  nodup : places.reduceOption.Nodup
  bound : ∀ formal item, bound'.get? formal = some item ↔
    bound.get? formal = some item ∨
      ∃ t, (t, some formal) ∈ arguments.zip places ∧ t.item = item
  left : left = untaken arguments places

namespace Placed

variable {bound bound' bound'' : Bindings α} {arguments left left' : List (Tagged α)}
  {places later : List (Option String)}

theorem nil (bound : Bindings α) : Placed bound [] [] bound [] := by
  constructor <;> simp

theorem leave (h : Placed bound arguments places bound' left) (t : Tagged α) :
    Placed bound (t :: arguments) (none :: places) bound' (t :: left) where
  length := by simp [h.length]
  fresh formal hformal := h.fresh formal (by simpa using hformal)
  nodup := h.nodup
  bound formal item := by simp [h.bound]
  left := by rw [untaken_cons_none, ← h.left]

theorem take {t : Tagged α} {formal : String} (hfresh : bound.get? formal = none)
    (h : Placed (bound.set formal t.item) arguments places bound' left) :
    Placed bound (t :: arguments) (some formal :: places) bound' left where
  length := by simp [h.length]
  fresh other hother := by
    cases hother with
    | head => exact hfresh
    | tail _ hother =>
        have hset := h.fresh other hother
        by_cases hne : other = formal
        · simp [hne] at hset
        · rwa [Bindings.get?_set_of_ne _ _ hne] at hset
  nodup := by
    refine List.nodup_cons.2 ⟨fun hmem => ?_, h.nodup⟩
    have hset := h.fresh formal (List.reduceOption_mem_iff.1 hmem)
    simp at hset
  bound other item := by
    rw [h.bound]
    by_cases hne : other = formal
    · subst hne
      have hother (t' : Tagged α) : (t', some other) ∉ arguments.zip places := fun ht => by
        have hset := h.fresh other (List.of_mem_zip ht).2
        simp at hset
      simp [hfresh, hother]
    · simp [Bindings.get?_set_of_ne _ _ hne, hne]
  left := by rw [untaken_cons_some, ← h.left]

theorem length_left (h : Placed bound arguments places bound' left) :
    (places.filter (·.isNone)).length = left.length := by
  have hplaces : (arguments.zip places).map (·.2) = places := List.map_snd_zip (Nat.le_of_eq h.length)
  calc (places.filter (·.isNone)).length
      = (((arguments.zip places).map (·.2)).filter (·.isNone)).length := by rw [hplaces]
    _ = (untaken arguments places).length := by
        rw [untaken, List.filter_map, List.length_map, List.length_map]
        rfl
    _ = left.length := by rw [h.left]

/-- The round after one that leaves arguments open is about these. -/
theorem continues (h : Placed bound arguments places bound' left)
    (hlater : later.length = left.length) : Continues arguments places later :=
  .of_length h.length (hlater.trans (congrArg List.length h.left))

/-- A round and the next one place arguments together. -/
theorem trans (h : Placed bound arguments places bound' left)
    (h' : Placed bound' left later bound'' left') :
    Placed bound arguments (fill places later) bound'' left' := by
  have hlater := h.continues h'.length
  have hunbound {formal : String} (hformal : bound'.get? formal = none) :
      bound.get? formal = none ∧ ∀ t, (t, some formal) ∉ arguments.zip places := by
    constructor
    · by_contra hsome
      obtain ⟨item, hitem⟩ := Option.ne_none_iff_exists'.1 hsome
      rw [(h.bound formal item).2 (.inl hitem)] at hformal
      cases hformal
    · intro t ht
      rw [(h.bound formal t.item).2 (.inr ⟨t, ht, rfl⟩)] at hformal
      cases hformal
  refine ⟨?_, fun formal hformal => ?_, ?_, fun formal item => ?_, ?_⟩
  · rw [length_fill, h.length]
  · obtain ⟨t, ht⟩ := exists_mem_zip ((length_fill places later).trans h.length) hformal
    rcases (mem_zip_fill hlater t formal).1 ht with ht | ht
    · exact h.fresh formal (List.of_mem_zip ht).2
    · exact (hunbound (h'.fresh formal (List.of_mem_zip ht).2)).1
  · refine (reduceOption_fill places later ?_).nodup_iff.2 (h.nodup.append h'.nodup ?_)
    · rw [h'.length, h.length_left]
    · intro formal hformal hlater'
      have hfresh := hunbound (h'.fresh formal (List.reduceOption_mem_iff.1 hlater'))
      obtain ⟨t, ht⟩ := exists_mem_zip h.length (List.reduceOption_mem_iff.1 hformal)
      exact hfresh.2 t ht
  · rw [h'.bound, h.bound, or_assoc]
    simp only [mem_zip_fill hlater, h.left]
    grind
  · rw [h'.left, h.left, untaken_fill hlater]

end Placed

/-! ## The rounds -/

section Rounds

variable {formals : List String} {bound : Bindings α}

/-- Where the exact round puts arguments. -/
def exactPlaces (formals : List String) (arguments : List (Tagged α)) : List (Option String) :=
  arguments.map (exactFormal? formals)

theorem zip_exactPlaces (arguments : List (Tagged α)) :
    arguments.zip (exactPlaces formals arguments) =
      arguments.map fun t => (t, exactFormal? formals t) := by
  simpa [exactPlaces] using List.zip_map' (f := id) (g := exactFormal? formals) (l := arguments)

theorem exactRound_placed {left : List (Supplied α)} {state : State α}
    (h : exactRound formals bound left = .ok state) :
    Placed bound (left.map (·.argument)) (exactPlaces formals (left.map (·.argument)))
      state.bound (state.left.map (·.argument)) := by
  induction left generalizing bound state with
  | nil =>
      obtain rfl : (⟨bound, []⟩ : State α) = state := by simpa [exactRound] using h
      exact .nil bound
  | cons s rest ih =>
      simp only [List.map_cons, exactPlaces]
      cases hformal : exactFormal? formals s.argument with
      | none =>
          simp only [exactRound, hformal] at h
          cases hrest : exactRound formals bound rest with
          | error fault => simp [hrest, Except.map] at h
          | ok after =>
              obtain rfl : (⟨after.bound, s :: after.left⟩ : State α) = state := by
                simpa [hrest, Except.map] using h
              exact (ih hrest).leave s.argument
      | some name =>
          simp only [exactRound, hformal] at h
          cases hcontains : bound.contains name with
          | true => simp [hcontains] at h
          | false =>
              have hfresh : bound.get? name = none := by
                simpa [Bindings.contains] using hcontains
              rw [hcontains] at h
              exact (ih h).take hfresh

/-- The exact round finds a fault exactly if a formal is named that is bound already, or twice. -/
theorem exactRound_ok_iff (left : List (Supplied α)) :
    (∃ state, exactRound formals bound left = .ok state) ↔
      (exactPlaces formals (left.map (·.argument))).reduceOption.Nodup ∧
        ∀ formal, some formal ∈ exactPlaces formals (left.map (·.argument)) →
          bound.get? formal = none := by
  induction left generalizing bound with
  | nil => simp [exactRound, exactPlaces]
  | cons s rest ih =>
      simp only [exactPlaces, List.map_cons] at ih ⊢
      cases hformal : exactFormal? formals s.argument with
      | none =>
          have hstep : (∃ state, exactRound formals bound (s :: rest) = .ok state) ↔
              ∃ state, exactRound formals bound rest = .ok state := by
            simp only [exactRound, hformal]
            cases exactRound formals bound rest <;> simp [Except.map]
          rw [hstep, ih]
          simp
      | some name =>
          simp only [exactRound, hformal]
          cases hcontains : bound.contains name with
          | true =>
              have hbound : bound.get? name ≠ none := by
                simpa [Bindings.contains, Option.isSome_iff_ne_none] using hcontains
              simp [hbound]
          | false =>
              have hfresh : bound.get? name = none := by
                simpa [Bindings.contains] using hcontains
              simp only [Bool.false_eq_true, if_false, ih, List.reduceOption_cons_of_some,
                List.nodup_cons, List.reduceOption_mem_iff, List.mem_cons, Option.some.injEq]
              constructor
              · rintro ⟨hnodup, hset⟩
                refine ⟨⟨fun hmem => by simpa using hset name hmem, hnodup⟩, ?_⟩
                rintro other (rfl | hother)
                · exact hfresh
                · have hne : other ≠ name := by
                    rintro rfl
                    simpa using hset other hother
                  rw [← Bindings.get?_set_of_ne _ s.argument.item hne]
                  exact hset other hother
              · rintro ⟨⟨hmem, hnodup⟩, hbound⟩
                refine ⟨hnodup, fun other hother => ?_⟩
                have hne : other ≠ name := by
                  rintro rfl
                  exact hmem hother
                rw [Bindings.get?_set_of_ne _ _ hne]
                exact hbound other (.inr hother)

/-- The formals ahead of `...` that nothing is bound to. -/
def openFormals (formals : List String) (bound : Bindings α) : List String :=
  (beforeDots formals).filter fun formal => !bound.contains formal

theorem mem_openFormals {bound : Bindings α} {formal : String} :
    formal ∈ openFormals formals bound ↔
      formal ∈ beforeDots formals ∧ bound.get? formal = none := by
  simp [openFormals, Bindings.contains]

/-- Whether the name of an argument begins a formal. -/
def begins (t : Tagged α) (formal : String) : Bool :=
  t.name?.any fun name => name.toList.isPrefixOf formal.toList

/-- Where the round of abbreviations puts arguments, if no name begins two formals that are still
free. A formal that is taken is free no more. -/
def prefixPlaces : List String → List (Tagged α) → Option (List (Option String))
  | _, [] => some []
  | free, t :: rest =>
      match free.filter (begins t) with
      | [] => (prefixPlaces free rest).map (none :: ·)
      | [formal] => (prefixPlaces (free.filter (· ≠ formal)) rest).map (some formal :: ·)
      | _ => none

theorem prefixRound_cons (s : Supplied α) (rest : List (Supplied α)) :
    prefixRound formals bound (s :: rest) =
      match (openFormals formals bound).filter (begins s.argument) with
      | [] => (prefixRound formals bound rest).map fun state => ⟨state.bound, s :: state.left⟩
      | [formal] => prefixRound formals (bound.set formal s.argument.item) rest
      | _ => .error (.ambiguousPrefix s.position) := by
  cases hname : s.argument.name? with
  | none =>
      have hnone : (openFormals formals bound).filter (begins s.argument) = [] := by
        simp [begins, hname]
      simp only [prefixRound, hname, hnone]
  | some name =>
      have hsome : (openFormals formals bound).filter (begins s.argument) =
          candidates formals bound name := by
        rw [openFormals, List.filter_filter, candidates]
        exact List.filter_congr fun formal _ => by simp [begins, hname, Bool.and_comm]
      rcases hfit : candidates formals bound name with _ | ⟨formal, _ | _⟩ <;>
        simp only [prefixRound, hname, hsome, hfit]

theorem openFormals_set (formal : String) (item : α) :
    openFormals formals (bound.set formal item) =
      (openFormals formals bound).filter (· ≠ formal) := by
  rw [openFormals, openFormals, List.filter_filter]
  refine List.filter_congr fun other _ => ?_
  by_cases hne : other = formal
  · simp [hne, Bindings.contains]
  · simp [hne, Bindings.contains, Bindings.get?_set_of_ne]

theorem prefixRound_placed {left : List (Supplied α)} {state : State α}
    (h : prefixRound formals bound left = .ok state) :
    ∃ places, prefixPlaces (openFormals formals bound) (left.map (·.argument)) = some places ∧
      Placed bound (left.map (·.argument)) places state.bound (state.left.map (·.argument)) := by
  induction left generalizing bound state with
  | nil =>
      obtain rfl : (⟨bound, []⟩ : State α) = state := by simpa [prefixRound] using h
      exact ⟨[], rfl, .nil bound⟩
  | cons s rest ih =>
      rw [prefixRound_cons] at h
      simp only [List.map_cons, prefixPlaces]
      split at h
      · cases hrest : prefixRound formals bound rest with
        | error fault => simp [hrest, Except.map] at h
        | ok after =>
            obtain rfl : (⟨after.bound, s :: after.left⟩ : State α) = state := by
              simpa [hrest, Except.map] using h
            obtain ⟨places, hplaces, hplaced⟩ := ih hrest
            exact ⟨none :: places, by simp [hplaces], hplaced.leave s.argument⟩
      · rename_i formal hbegun
        obtain ⟨places, hplaces, hplaced⟩ := ih h
        rw [openFormals_set] at hplaces
        have hopen : formal ∈ (openFormals formals bound).filter (begins s.argument) := by
          simp [hbegun]
        have hfree := (mem_openFormals.1 (List.mem_filter.1 hopen).1).2
        exact ⟨some formal :: places, by simp only [hplaces, Option.map_some],
          hplaced.take hfree⟩
      · cases h

theorem prefixRound_error {left : List (Supplied α)} {fault : ArityFault}
    (h : prefixRound formals bound left = .error fault) :
    prefixPlaces (openFormals formals bound) (left.map (·.argument)) = none := by
  induction left generalizing bound with
  | nil => cases h
  | cons s rest ih =>
      rw [prefixRound_cons] at h
      simp only [List.map_cons, prefixPlaces]
      split at h
      · cases hrest : prefixRound formals bound rest with
        | error fault' => simp [ih (hrest.trans (by simpa [hrest, Except.map] using h))]
        | ok after => simp [hrest, Except.map] at h
      · have hrest := ih h
        rw [openFormals_set] at hrest
        simp only [hrest, Option.map_none]
      · rfl

theorem mem_zip_prefixPlaces {free : List String} {arguments : List (Tagged α)}
    {places : List (Option String)} (h : prefixPlaces free arguments = some places)
    {t : Tagged α} {formal : String} (ht : (t, some formal) ∈ arguments.zip places) :
    formal ∈ free ∧ begins t formal = true := by
  induction arguments generalizing free places with
  | nil => simp at ht
  | cons t' rest ih =>
      simp only [prefixPlaces] at h
      split at h
      · obtain ⟨places, hplaces, rfl⟩ := Option.map_eq_some_iff.1 h
        exact ih hplaces (by simpa using ht)
      · rename_i formal' hbegun
        obtain ⟨places, hplaces, rfl⟩ := Option.map_eq_some_iff.1 h
        simp only [List.zip_cons_cons, List.mem_cons, Prod.mk.injEq, Option.some.injEq] at ht
        obtain ⟨rfl, rfl⟩ | ht := ht
        · exact List.mem_filter.1 (by simp [hbegun])
        · exact ⟨(List.mem_filter.1 (ih hplaces ht).1).1, (ih hplaces ht).2⟩
      · cases h

/-- An argument abbreviates a formal ahead of `...`. -/
def Abbreviates (formals : List String) (t : Tagged α) (formal : String) : Prop :=
  ∃ name, t.name? = some name ∧ formal ∈ beforeDots formals ∧ name.toList <+: formal.toList

theorem abbreviates_of_begins {t : Tagged α} {formal : String}
    (hopen : formal ∈ openFormals formals bound) (h : begins t formal = true) :
    Abbreviates formals t formal := by
  obtain ⟨name, hname, hbegins⟩ := (Option.any_eq_true _ _).1 h
  exact ⟨name, hname, (mem_openFormals.1 hopen).1, List.isPrefixOf_iff_prefix.1 hbegins⟩

/-- Where the round of positions puts arguments: the untagged ones go to the open formals. -/
def positionPlaces : List String → List (Tagged α) → List (Option String)
  | _, [] => []
  | openFormals, t :: rest =>
      match t.name?, openFormals with
      | none, formal :: openFormals => some formal :: positionPlaces openFormals rest
      | _, openFormals => none :: positionPlaces openFormals rest

/-- Whether the next argument is passed over by the round of positions. -/
def PassedOver (openFormals : List String) (t : Tagged α) : Prop :=
  t.name? ≠ none ∨ openFormals = []

theorem positionPlaces_of_passedOver {openFormals : List String} {t : Tagged α}
    (h : PassedOver openFormals t) (rest : List (Tagged α)) :
    positionPlaces openFormals (t :: rest) = none :: positionPlaces openFormals rest := by
  cases hname : t.name? with
  | some name => simp [positionPlaces, hname]
  | none =>
      obtain rfl : openFormals = [] := h.resolve_left (by simp [hname])
      simp [positionPlaces, hname]

theorem positionRound_of_passedOver (describe : α → String) (hasDots : Bool)
    {openFormals : List String} {s : Supplied α} (h : PassedOver openFormals s.argument)
    (rest : List (Supplied α)) :
    positionRound describe hasDots bound openFormals (s :: rest) =
      if hasDots then
        (positionRound describe hasDots bound openFormals rest).map fun matched =>
          ⟨matched.bound, s.argument.normal :: matched.dots⟩
      else .error (.unused (unusedText describe s.argument)) := by
  cases hname : s.argument.name? with
  | some name => simp [positionRound, hname, Tagged.normal]
  | none =>
      obtain rfl : openFormals = [] := h.resolve_left (by simp [hname])
      simp [positionRound, hname, Tagged.normal]

/-- An argument is passed over, or goes to the first open formal. -/
theorem passedOver_or (openFormals : List String) (t : Tagged α) :
    PassedOver openFormals t ∨
      t.name? = none ∧ ∃ formal more, openFormals = formal :: more := by
  cases hname : t.name? with
  | some name => exact .inl (.inl (by simp [hname]))
  | none => cases openFormals with
    | nil => exact .inl (.inr rfl)
    | cons formal more => exact .inr ⟨rfl, formal, more, rfl⟩

theorem positionRound_placed {describe : α → String} {hasDots : Bool} {openFormals : List String}
    {left : List (Supplied α)} {matched : Matched α}
    (hopen : ∀ formal ∈ openFormals, bound.get? formal = none) (hnodup : openFormals.Nodup)
    (h : positionRound describe hasDots bound openFormals left = .ok matched) :
    ∃ remaining, Placed bound (left.map (·.argument))
        (positionPlaces openFormals (left.map (·.argument))) matched.bound remaining ∧
      matched.dots = remaining.map Tagged.normal := by
  induction left generalizing bound openFormals matched with
  | nil =>
      obtain rfl : (⟨bound, []⟩ : Matched α) = matched := by simpa [positionRound] using h
      exact ⟨[], .nil bound, rfl⟩
  | cons s rest ih =>
      rw [List.map_cons]
      obtain hpassed | ⟨hname, formal, more, rfl⟩ := passedOver_or openFormals s.argument
      · rw [positionRound_of_passedOver describe hasDots hpassed] at h
        cases hasDots with
        | false => cases h
        | true =>
            cases hrest : positionRound describe true bound openFormals rest with
            | error fault => simp [hrest, Except.map] at h
            | ok after =>
                obtain rfl : (⟨after.bound, s.argument.normal :: after.dots⟩ : Matched α) =
                    matched := by simpa [hrest, Except.map] using h
                obtain ⟨remaining, hplaced, hdots⟩ := ih hopen hnodup hrest
                rw [positionPlaces_of_passedOver hpassed]
                exact ⟨s.argument :: remaining, hplaced.leave s.argument, by simp [hdots]⟩
      · simp only [positionRound, hname] at h
        obtain ⟨hnot, hmore⟩ := List.nodup_cons.1 hnodup
        have hopen' : ∀ other ∈ more, (bound.set formal s.argument.item).get? other = none := by
          intro other hother
          rw [Bindings.get?_set_of_ne _ _ (by rintro rfl; exact hnot hother)]
          exact hopen other (List.mem_cons_of_mem _ hother)
        obtain ⟨remaining, hplaced, hdots⟩ := ih hopen' hmore h
        simp only [positionPlaces, hname]
        exact ⟨remaining, hplaced.take (hopen formal List.mem_cons_self), hdots⟩

/-- The round of positions finds a fault exactly if it leaves an argument and there is no `...`. -/
theorem positionRound_ok_iff (describe : α → String) (hasDots : Bool) (openFormals : List String)
    (left : List (Supplied α)) :
    (∃ matched, positionRound describe hasDots bound openFormals left = .ok matched) ↔
      (none ∈ positionPlaces openFormals (left.map (·.argument)) → hasDots = true) := by
  induction left generalizing bound openFormals with
  | nil => simp [positionRound, positionPlaces]
  | cons s rest ih =>
      rw [List.map_cons]
      obtain hpassed | ⟨hname, formal, more, rfl⟩ := passedOver_or openFormals s.argument
      · rw [positionRound_of_passedOver describe hasDots hpassed,
          positionPlaces_of_passedOver hpassed]
        cases hasDots with
        | false => simp
        | true =>
            obtain ⟨after, hafter⟩ : ∃ after,
                positionRound describe true bound openFormals rest = .ok after :=
              (ih openFormals).2 fun _ => rfl
            simp [hafter, Except.map]
      · simp only [positionRound, positionPlaces, hname, ih]
        simp

theorem length_positionPlaces (openFormals : List String) (arguments : List (Tagged α)) :
    (positionPlaces openFormals arguments).length = arguments.length := by
  fun_induction positionPlaces openFormals arguments <;> simp_all

/-- The untagged arguments go to the open formals one after the other, while there are any. -/
theorem untaggedPlaces_positionPlaces (openFormals : List String) (arguments : List (Tagged α))
    {k : Nat} {place : Option String}
    (h : (untaggedPlaces arguments (positionPlaces openFormals arguments))[k]? = some place) :
    place = openFormals[k]? := by
  induction arguments generalizing openFormals k with
  | nil => simp [untaggedPlaces] at h
  | cons t rest ih =>
      cases hname : t.name? with
      | some name =>
          simp only [positionPlaces, hname, untaggedPlaces, List.zip_cons_cons] at h
          rw [List.filter_cons_of_neg (by simp [hname])] at h
          exact ih openFormals h
      | none => cases openFormals with
        | nil =>
            simp only [positionPlaces, hname, untaggedPlaces, List.zip_cons_cons] at h
            rw [List.filter_cons_of_pos (by simp [hname]), List.map_cons] at h
            cases k with
            | zero => simpa using h.symm
            | succ k => simpa using ih [] h
        | cons formal more =>
            simp only [positionPlaces, hname, untaggedPlaces, List.zip_cons_cons] at h
            rw [List.filter_cons_of_pos (by simp [hname]), List.map_cons] at h
            cases k with
            | zero => simpa using h.symm
            | succ k => simpa using ih more h

theorem mem_zip_positionPlaces {openFormals : List String} {arguments : List (Tagged α)}
    {t : Tagged α} {formal : String}
    (h : (t, some formal) ∈ arguments.zip (positionPlaces openFormals arguments)) :
    t.name? = none ∧ formal ∈ openFormals := by
  induction arguments generalizing openFormals with
  | nil => simp at h
  | cons t' rest ih =>
      obtain hpassed | ⟨hname, first, more, rfl⟩ := passedOver_or openFormals t'
      · rw [positionPlaces_of_passedOver hpassed] at h
        exact ih (by simpa using h)
      · simp only [positionPlaces, hname, List.zip_cons_cons, List.mem_cons, Prod.mk.injEq,
          Option.some.injEq] at h
        obtain ⟨rfl, rfl⟩ | h := h
        · exact ⟨hname, List.mem_cons_self⟩
        · exact ⟨(ih h).1, List.mem_cons_of_mem _ (ih h).2⟩

/-- Positions leave an argument if one is tagged, or if there are more than open formals. -/
theorem none_mem_positionPlaces (openFormals : List String) (arguments : List (Tagged α)) :
    none ∈ positionPlaces openFormals arguments ↔
      (∃ t ∈ arguments, t.name? ≠ none) ∨
        openFormals.length < (arguments.filter (·.name?.isNone)).length := by
  induction arguments generalizing openFormals with
  | nil => simp [positionPlaces]
  | cons t rest ih =>
      cases hname : t.name? with
      | some name => simp [positionPlaces, hname]
      | none => cases openFormals with
        | nil => simp [positionPlaces, hname]
        | cons formal more => simp [positionPlaces, hname, ih]

theorem exactFormal?_eq_some {t : Tagged α} {formal : String} :
    exactFormal? formals t = some formal ↔
      t.name? = some formal ∧ formal ≠ "..." ∧ formal ∈ formals := by
  simp [exactFormal?, Option.filter_eq_some_iff]

theorem argument_number (supplied : List (Tagged α)) :
    (number supplied).map (·.argument) = supplied := by
  simp only [number, List.map_map]
  exact List.zipIdx_map_fst 0 supplied

/-- A placement by names: an argument is at the formal it names exactly, or at one that it
abbreviates. -/
structure ByName (formals : List String) (partialNames : Bool) (arguments : List (Tagged α))
    (places : List (Option String)) : Prop where
  named : ∀ {t : Tagged α} {formal : String}, (t, some formal) ∈ arguments.zip places →
    exactFormal? formals t = some formal ∨ partialNames = true ∧ Abbreviates formals t formal
  exact : ∀ {t : Tagged α} {place : Option String}, (t, place) ∈ arguments.zip places →
    ∀ {formal : String}, exactFormal? formals t = some formal → place = some formal

theorem ByName.tagged {partialNames : Bool} {arguments : List (Tagged α)}
    {places : List (Option String)} (h : ByName formals partialNames arguments places)
    {t : Tagged α} {formal : String} (ht : (t, some formal) ∈ arguments.zip places) :
    t.name? ≠ none := by
  obtain hexact | ⟨-, name, hname, -⟩ := h.named ht
  · simp [(exactFormal?_eq_some.1 hexact).1]
  · simp [hname]

theorem namedRounds_placed {partialNames : Bool} {left : List (Supplied α)} {state after : State α}
    (hexact : exactRound formals bound left = .ok state)
    (h : (if partialNames then prefixRound formals state.bound state.left else .ok state) =
      .ok after) :
    ∃ places, Placed bound (left.map (·.argument)) places after.bound
        (after.left.map (·.argument)) ∧
      ByName formals partialNames (left.map (·.argument)) places := by
  have hround := exactRound_placed hexact
  have hplaces {t : Tagged α} {place : Option String}
      (ht : (t, place) ∈ (left.map (·.argument)).zip
        (exactPlaces formals (left.map (·.argument)))) : place = exactFormal? formals t := by
    rw [zip_exactPlaces] at ht
    obtain ⟨t, -, heq⟩ := List.mem_map.1 ht
    obtain ⟨rfl, rfl⟩ := Prod.mk.inj heq
    rfl
  cases partialNames with
  | false =>
      obtain rfl : state = after := by simpa using h
      refine ⟨_, hround, fun ht => .inl (hplaces ht).symm, fun ht formal hf => ?_⟩
      rw [hplaces ht, hf]
  | true =>
      obtain ⟨later, hplaces', hlater⟩ := prefixRound_placed (by simpa using h)
      have hcontinues := hround.continues hlater.length
      refine ⟨_, hround.trans hlater, fun {t formal} ht => ?_, fun {t place} ht {formal} hf => ?_⟩
      · obtain ht | ht := (mem_zip_fill hcontinues t formal).1 ht
        · exact .inl (hplaces ht).symm
        · rw [← hround.left] at ht
          obtain ⟨hopen, hbegins⟩ := mem_zip_prefixPlaces hplaces' ht
          exact .inr ⟨rfl, abbreviates_of_begins hopen hbegins⟩
      · obtain ⟨first, hfirst, hkept⟩ := exists_mem_zip_of_fill hcontinues ht
        rw [hplaces hfirst, hf] at hkept
        exact (hkept.resolve_left (by simp)).symm

end Rounds

/-- What matching may do with the supplied arguments: each goes to one place, a formal other than
`...` or, left open, `...` itself. -/
structure Placement (formals : List String) (partialNames : Bool) (supplied : List (Tagged α))
    (places : List (Option String)) : Prop where
  length : places.length = supplied.length
  formal : ∀ name, some name ∈ places → name ∈ formals ∧ name ≠ "..."
  nodup : places.reduceOption.Nodup
  dots : none ∈ places → "..." ∈ formals
  exact : ∀ t place, (t, place) ∈ supplied.zip places →
    ∀ formal ∈ formals, formal ≠ "..." → t.name? = some formal → place = some formal
  named : ∀ t formal, (t, some formal) ∈ supplied.zip places → ∀ name, t.name? = some name →
    name = formal ∨
      partialNames = true ∧ formal ∈ beforeDots formals ∧ name.toList <+: formal.toList
  afterDots : ∀ t formal, (t, some formal) ∈ supplied.zip places → formal ∉ beforeDots formals →
    t.name? = some formal
  untagged : ∀ (k : Nat) (place : Option String), (untaggedPlaces supplied places)[k]? = some place →
    place = (unclaimed formals supplied places)[k]?

section Outcome

variable {formals : List String} {describe : α → String} {partialNames : Bool}
  {supplied : List (Tagged α)}

theorem mem_of_mem_beforeDots {formal : String} (h : formal ∈ beforeDots formals) :
    formal ∈ formals ∧ formal ≠ "..." :=
  ⟨(List.takeWhile_sublist _).subset h, by simpa using List.mem_takeWhile_imp h⟩

/-- Matching is the three rounds, one after the other. -/
theorem matchArguments_eq_ok {matched : Matched α} :
    matchArguments formals describe partialNames supplied = .ok matched ↔
      ∃ state after, exactRound formals [] (number supplied) = .ok state ∧
        (if partialNames then prefixRound formals state.bound state.left else .ok state) =
          .ok after ∧
        positionRound describe (formals.contains "...") after.bound
          (openFormals formals after.bound) after.left = .ok matched := by
  unfold matchArguments
  cases exactRound formals [] (number supplied) with
  | error fault => simp [bind, Except.bind]
  | ok state =>
      cases partialNames with
      | false => simp [bind, Except.bind, finish, openFormals]
      | true =>
          cases hprefix : prefixRound formals state.bound state.left <;>
            simp [bind, Except.bind, finish, openFormals, hprefix]

section Positions

variable {bound : Bindings α} {arguments left : List (Tagged α)} {named : List (Option String)}
  (hplaced : Placed [] arguments named bound left)
include hplaced

variable (formals) in
theorem continues_positions :
    Continues arguments named (positionPlaces (openFormals formals bound) left) :=
  hplaced.continues (length_positionPlaces _ _)

theorem mem_positions {t : Tagged α} {formal : String}
    (ht : (t, some formal) ∈
      arguments.zip (fill named (positionPlaces (openFormals formals bound) left))) :
    (t, some formal) ∈ arguments.zip named ∨
      t.name? = none ∧ formal ∈ openFormals formals bound := by
  obtain ht | ht := (mem_zip_fill (continues_positions formals hplaced) t formal).1 ht
  · exact .inl ht
  · exact .inr (mem_zip_positionPlaces (hplaced.left ▸ ht))

theorem unclaimed_positions (hnamed : ByName formals partialNames arguments named) :
    unclaimed formals arguments
        (fill named (positionPlaces (openFormals formals bound) left)) =
      openFormals formals bound := by
  refine List.filter_congr fun formal _ => congrArg not ?_
  rw [Bool.eq_iff_iff, List.any_eq_true, Bindings.contains, Option.isSome_iff_exists]
  constructor
  · rintro ⟨⟨t, place⟩, ht, hplace⟩
    obtain ⟨htagged, rfl⟩ : t.name?.isSome = true ∧ place = some formal := by
      simpa using hplace
    obtain ht | ⟨hnone, -⟩ := mem_positions hplaced ht
    · exact ⟨t.item, (hplaced.bound formal t.item).2 (.inr ⟨t, ht, rfl⟩)⟩
    · simp [hnone] at htagged
  · rintro ⟨item, hitem⟩
    obtain ⟨t, ht, rfl⟩ := ((hplaced.bound formal item).1 hitem).resolve_left (by simp)
    have hmem := (mem_zip_fill (continues_positions formals hplaced) t formal).2
      (.inl ht)
    exact ⟨(t, some formal), hmem, by simp [Option.isSome_iff_ne_none, hnamed.tagged ht]⟩

/-- The round of positions completes what the rounds by names began. -/
theorem placement_positions (hnamed : ByName formals partialNames arguments named)
    {places : List (Option String)}
    (hplaces : places = fill named (positionPlaces (openFormals formals bound) left))
    {bound' : Bindings α} {remaining : List (Tagged α)}
    (hcomplete : Placed [] arguments places bound' remaining)
    (hdots : none ∈ positionPlaces (openFormals formals bound) left → "..." ∈ formals) :
    Placement formals partialNames arguments places := by
  subst hplaces
  have hlater := continues_positions formals hplaced
  refine ⟨hcomplete.length, fun name hmem => ?_, hcomplete.nodup, fun hnone => hdots ?_,
    fun t place ht formal hformal hne hexact => ?_, fun t formal ht name hname => ?_,
    fun t formal ht hafter => ?_, fun k place hplace => ?_⟩
  · obtain ⟨t, ht⟩ := exists_mem_zip hcomplete.length hmem
    obtain ht | ⟨-, hopened⟩ := mem_positions hplaced ht
    · obtain hexact | ⟨-, -, -, hbefore, -⟩ := hnamed.named ht
      · obtain ⟨-, hne, hformal⟩ := exactFormal?_eq_some.1 hexact
        exact ⟨hformal, hne⟩
      · exact mem_of_mem_beforeDots hbefore
    · exact mem_of_mem_beforeDots (mem_openFormals.1 hopened).1
  · obtain ⟨t, ht⟩ := exists_mem_zip hcomplete.length hnone
    rw [← mem_untaken, untaken_fill hlater, ← hplaced.left, mem_untaken] at ht
    exact (List.of_mem_zip ht).2
  · obtain ⟨first, hfirst, hsame⟩ := exists_mem_zip_of_fill hlater ht
    rw [hnamed.exact hfirst (exactFormal?_eq_some.2 ⟨hexact, hne, hformal⟩)] at hsame
    exact (hsame.resolve_left (by simp)).symm
  · obtain ht | ⟨hnone, -⟩ := mem_positions hplaced ht
    · obtain hexact | ⟨hpartial, other, hother, hbefore, hbegins⟩ := hnamed.named ht
      · exact .inl (Option.some.inj (hname.symm.trans (exactFormal?_eq_some.1 hexact).1))
      · obtain rfl : name = other := Option.some.inj (hname.symm.trans hother)
        exact .inr ⟨hpartial, hbefore, hbegins⟩
    · simp [hnone] at hname
  · obtain ht | ⟨-, hopened⟩ := mem_positions hplaced ht
    · obtain hexact | ⟨-, -, -, hbefore, -⟩ := hnamed.named ht
      · exact (exactFormal?_eq_some.1 hexact).1
      · exact absurd hbefore hafter
    · exact absurd (mem_openFormals.1 hopened).1 hafter
  · rw [untaggedPlaces_fill hlater fun t formal => hnamed.tagged,
      ← hplaced.left] at hplace
    rw [unclaimed_positions hplaced hnamed]
    exact untaggedPlaces_positionPlaces _ _ hplace

end Positions

theorem matchArguments_placement (hformals : formals.Nodup) {matched : Matched α}
    (h : matchArguments formals describe partialNames supplied = .ok matched) :
    ∃ places, Placement formals partialNames supplied places ∧
      (∀ formal item, matched.bound.get? formal = some item ↔
        ∃ t, (t, some formal) ∈ supplied.zip places ∧ t.item = item) ∧
      matched.dots = (untaken supplied places).map Tagged.normal := by
  obtain ⟨state, after, hexact, hprefix, hposition⟩ := matchArguments_eq_ok.1 h
  obtain ⟨named, hplaced, hnamed⟩ := namedRounds_placed hexact hprefix
  rw [argument_number] at hplaced hnamed
  have hnodup : (openFormals formals after.bound).Nodup :=
    (hformals.sublist (List.takeWhile_sublist _)).filter _
  obtain ⟨remaining, hpositions, hdots⟩ := positionRound_placed
    (fun formal hformal => (mem_openFormals.1 hformal).2) hnodup hposition
  have hcomplete := hplaced.trans hpositions
  refine ⟨_, placement_positions hplaced hnamed rfl hcomplete fun hnone => ?_, ?_, ?_⟩
  · simpa using (positionRound_ok_iff ..).1 ⟨matched, hposition⟩ hnone
  · intro formal item
    simp [hcomplete.bound]
  · rw [hdots, hcomplete.left]

/-! ## Exact names alone -/

/-- The formals that no supplied argument names. -/
def unnamed (formals : List String) (supplied : List (Tagged α)) : List String :=
  formals.filter fun formal => supplied.all fun t => t.name? ≠ some formal

/-- What is wrong with supplied arguments where names must be exact. -/
def Mismatched (formals : List String) (supplied : List (Tagged α)) : Prop :=
  (∃ formal ∈ formals, formal ≠ "..." ∧ 1 < supplied.countP (·.name? = some formal)) ∨
    "..." ∉ formals ∧
      ((∃ t ∈ supplied, ∃ name, t.name? = some name ∧ name ∉ formals) ∨
        (unnamed formals supplied).length < supplied.countP (·.name?.isNone))

theorem count_exactPlaces (formal : String) :
    (exactPlaces formals supplied).reduceOption.count formal =
      if formal ∈ formals ∧ formal ≠ "..." then supplied.countP (·.name? = some formal) else 0 := by
  rw [exactPlaces, List.reduceOption, List.filterMap_map, List.count_filterMap]
  by_cases hformal : formal ∈ formals ∧ formal ≠ "..."
  · rw [if_pos hformal]
    refine List.countP_congr fun t _ => ?_
    simp [exactFormal?_eq_some, hformal]
  · rw [if_neg hformal, List.countP_eq_zero]
    intro t _ hexact
    obtain ⟨-, hne, hmem⟩ := exactFormal?_eq_some.1 (beq_iff_eq.1 hexact)
    exact hformal ⟨hmem, hne⟩

theorem exactPlaces_nodup_iff :
    (exactPlaces formals supplied).reduceOption.Nodup ↔
      ∀ formal ∈ formals, formal ≠ "..." → supplied.countP (·.name? = some formal) ≤ 1 := by
  rw [List.nodup_iff_count_le_one]
  refine forall_congr' fun formal => ?_
  rw [count_exactPlaces]
  by_cases hformal : formal ∈ formals ∧ formal ≠ "..."
  · simp [hformal]
  · rw [if_neg hformal]
    simp only [Nat.zero_le, true_iff]
    exact fun hmem hne => absurd ⟨hmem, hne⟩ hformal

theorem untaken_exactPlaces :
    untaken supplied (exactPlaces formals supplied) =
      supplied.filter fun t => (exactFormal? formals t).isNone := by
  induction supplied with
  | nil => rfl
  | cons t rest ih =>
      cases hexact : exactFormal? formals t <;> simpa [exactPlaces, hexact] using ih

section NoDots

variable (hdots : "..." ∉ formals)
include hdots

theorem beforeDots_of_not_mem : beforeDots formals = formals :=
  List.takeWhile_eq_self_iff.2 fun formal hformal => by
    have hne : formal ≠ "..." := by
      rintro rfl
      exact hdots hformal
    simp [hne]

theorem exactFormal?_eq_none {t : Tagged α} :
    exactFormal? formals t = none ↔ ∀ name, t.name? = some name → name ∉ formals := by
  rw [Option.eq_none_iff_forall_not_mem]
  refine forall_congr' fun name => ?_
  rw [Option.mem_def, exactFormal?_eq_some]
  constructor
  · intro hnot hname hmem
    exact hnot ⟨hname, by rintro rfl; exact hdots hmem, hmem⟩
  · rintro hnot ⟨hname, -, hmem⟩
    exact hnot hname hmem

theorem openFormals_exact {bound : Bindings α} {left : List (Tagged α)}
    (h : Placed [] supplied (exactPlaces formals supplied) bound left) :
    openFormals formals bound = unnamed formals supplied := by
  unfold openFormals unnamed
  rw [beforeDots_of_not_mem hdots]
  refine List.filter_congr fun formal hformal => ?_
  rw [Bool.eq_iff_iff, Bool.not_eq_true', ← Bool.not_eq_true, Bindings.contains,
    Option.isSome_iff_exists, List.all_eq_true]
  have hne : formal ≠ "..." := by
    rintro rfl
    exact hdots hformal
  constructor
  · intro hfree t ht
    rw [decide_eq_true_eq]
    intro hname
    obtain ⟨t', ht'⟩ := exists_mem_zip h.length (List.mem_map.2
      ⟨t, ht, exactFormal?_eq_some.2 ⟨hname, hne, hformal⟩⟩)
    exact hfree ⟨t'.item, (h.bound formal t'.item).2 (.inr ⟨t', ht', rfl⟩)⟩
  · rintro hall ⟨item, hitem⟩
    obtain ⟨t, ht, -⟩ := ((h.bound formal item).1 hitem).resolve_left (by simp)
    obtain ⟨t', ht', hexact⟩ := List.mem_map.1 (List.of_mem_zip ht).2
    exact of_decide_eq_true (hall t' ht') (exactFormal?_eq_some.1 hexact).1

/-- Without `...`, what exact names leave does not fit the open formals exactly if a name is not
that of a formal, or if too many arguments are untagged. -/
theorem none_mem_exact_positions {bound : Bindings α} {left : List (Tagged α)}
    (h : Placed [] supplied (exactPlaces formals supplied) bound left) :
    none ∈ positionPlaces (openFormals formals bound) left ↔
      (∃ t ∈ supplied, ∃ name, t.name? = some name ∧ name ∉ formals) ∨
        (unnamed formals supplied).length < supplied.countP (·.name?.isNone) := by
  have hleft : left = supplied.filter fun t => (exactFormal? formals t).isNone :=
    h.left.trans untaken_exactPlaces
  have huntagged : left.filter (·.name?.isNone) = supplied.filter (·.name?.isNone) := by
    rw [hleft, List.filter_filter]
    refine List.filter_congr fun t _ => ?_
    cases hname : t.name? <;> simp [exactFormal?, hname]
  rw [none_mem_positionPlaces, openFormals_exact hdots h, huntagged, List.countP_eq_length_filter]
  refine or_congr_left ?_
  simp only [hleft, List.mem_filter, Option.isNone_iff_eq_none, exactFormal?_eq_none hdots]
  constructor
  · rintro ⟨t, ⟨ht, hnot⟩, htagged⟩
    obtain ⟨name, hname⟩ := Option.ne_none_iff_exists'.1 htagged
    exact ⟨t, ht, name, hname, hnot name hname⟩
  · rintro ⟨t, ht, name, hname, hnot⟩
    refine ⟨t, ⟨ht, fun other hother => ?_⟩, by simp [hname]⟩
    rwa [← Option.some.inj (hname.symm.trans hother)]

end NoDots

variable (describe) in
theorem matchArguments_exact_ok_iff :
    (∃ matched, matchArguments formals describe false supplied = .ok matched) ↔
      ¬ Mismatched formals supplied := by
  have hround : (∃ state, exactRound formals [] (number supplied) = .ok state) ↔ _ :=
    exactRound_ok_iff (number supplied)
  rw [argument_number, exactPlaces_nodup_iff] at hround
  rw [Mismatched, not_or, not_and]
  have hpast (state : State α) (hstate : exactRound formals [] (number supplied) = .ok state) :
      (∃ matched, positionRound describe (formals.contains "...") state.bound
        (openFormals formals state.bound) state.left = .ok matched) ↔
      ("..." ∉ formals → ¬((∃ t ∈ supplied, ∃ name, t.name? = some name ∧ name ∉ formals) ∨
        (unnamed formals supplied).length < supplied.countP (·.name?.isNone))) := by
    have hplaced := exactRound_placed hstate
    rw [argument_number] at hplaced
    rw [positionRound_ok_iff]
    by_cases hdots : "..." ∈ formals
    · simp [hdots]
    · rw [none_mem_exact_positions hdots hplaced]
      simp [hdots]
  constructor
  · rintro ⟨matched, hmatched⟩
    obtain ⟨state, after, hexact, hsame, hposition⟩ := matchArguments_eq_ok.1 hmatched
    obtain rfl : state = after := by simpa using hsame
    refine ⟨?_, (hpast state hexact).1 ⟨matched, hposition⟩⟩
    rintro ⟨formal, hmem, hne, htwice⟩
    have honce := (hround.1 ⟨state, hexact⟩).1 formal hmem hne
    omega
  · rintro ⟨honce, hfits⟩
    obtain ⟨state, hexact⟩ := hround.2 ⟨fun formal hmem hne => by
      by_contra htwice
      exact honce ⟨formal, hmem, hne, by omega⟩, by simp⟩
    obtain ⟨matched, hposition⟩ := (hpast state hexact).2 hfits
    exact ⟨matched, matchArguments_eq_ok.2 ⟨state, state, hexact, by simp, hposition⟩⟩

theorem matchArguments_exact_error_iff :
    (∃ fault, matchArguments formals describe false supplied = .error fault) ↔
      Mismatched formals supplied := by
  rw [← not_iff_not, ← matchArguments_exact_ok_iff describe]
  cases matchArguments formals describe false supplied <;> simp

end Outcome

end Matching

open Matching

/-- Matching loses, duplicates and reorders no argument. Every supplied argument has one place,
which is a formal other than `...` or in the leftovers; a formal is bound to the one argument that
is placed at it; and the leftovers are the others, in their order and under their tags. Where names
must be exact, it fails exactly if the arguments do not fit the formals. -/
theorem matchArguments_partitions {α : Type} {formals : List String} (hformals : formals.Nodup)
    (describe : α → String) (partialNames : Bool) (supplied : List (Tagged α)) :
    (∀ matched, matchArguments formals describe partialNames supplied = .ok matched →
      ∃ places, Placement formals partialNames supplied places ∧
        (∀ formal item, matched.bound.get? formal = some item ↔
          ∃ t, (t, some formal) ∈ supplied.zip places ∧ t.item = item) ∧
        matched.dots = (untaken supplied places).map Tagged.normal) ∧
    (partialNames = false →
      ((∃ fault, matchArguments formals describe partialNames supplied = .error fault) ↔
        Mismatched formals supplied)) := by
  refine ⟨fun matched h => matchArguments_placement hformals h, ?_⟩
  rintro rfl
  exact matchArguments_exact_error_iff

theorem matchArguments_partitions_mixed :
    ["alpha", "beta", "...", "gamma"].Nodup ∧
      (∃ matched places,
        matchArguments ["alpha", "beta", "...", "gamma"] Nat.repr true
            [⟨none, 1⟩, ⟨some "gamma", 2⟩, ⟨some "al", 3⟩, ⟨some "gam", 4⟩, ⟨some "", 5⟩] =
          .ok matched ∧
        Placement ["alpha", "beta", "...", "gamma"] true
          [⟨none, 1⟩, ⟨some "gamma", 2⟩, ⟨some "al", 3⟩, ⟨some "gam", 4⟩, ⟨some "", 5⟩] places ∧
        matched.dots = [⟨some "gam", 4⟩, ⟨none, 5⟩]) ∧
      ((∃ fault, matchArguments ["alpha"] Nat.repr false [⟨some "al", 3⟩] = .error fault) ↔
        Mismatched ["alpha"] [(⟨some "al", 3⟩ : Tagged Nat)]) := by
  have hformals : ["alpha", "beta", "...", "gamma"].Nodup := by decide
  obtain ⟨places, hplacement, -, -⟩ := (matchArguments_partitions hformals Nat.repr true
    [⟨none, 1⟩, ⟨some "gamma", 2⟩, ⟨some "al", 3⟩, ⟨some "gam", 4⟩, ⟨some "", 5⟩]).1 _ rfl
  exact ⟨hformals, ⟨_, places, rfl, hplacement, rfl⟩,
    (matchArguments_partitions (by decide) Nat.repr false [⟨some "al", 3⟩]).2 rfl⟩

end Quasi
