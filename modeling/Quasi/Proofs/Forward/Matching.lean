import Quasi.Arguments.Matching

/-!
# Matching loses nothing that it passes on

Where `...` is the only formal it takes all arguments as they are, in their order; a name that is
empty is none. Arguments match in the same way whether they were taken by `...` before or not, and
how an argument is shown matters to the text of a fault only.
-/

namespace Quasi

variable {α : Type}

/-- A tagged item as it is matched: an empty tag is none. -/
def Tagged.normal (t : Tagged α) : Tagged α := ⟨t.name?, t.item⟩

@[simp] theorem Tagged.name?_normal (t : Tagged α) : t.normal.name? = t.name? := by
  simp [Tagged.normal, Tagged.name?, Option.filter_filter]

@[simp] theorem Tagged.normal_normal (t : Tagged α) : t.normal.normal = t.normal := by
  simp only [Tagged.normal, Tagged.mk.injEq, and_true]
  exact t.name?_normal

namespace Matching

/-- An argument under its position, as it is matched. -/
def normal (s : Supplied α) : Supplied α := ⟨s.position, s.argument.normal⟩

theorem number_normal (supplied : List (Tagged α)) :
    number (supplied.map Tagged.normal) = (number supplied).map normal := by
  simp only [number, List.zipIdx_map, List.map_map]
  rfl

theorem exactFormal?_normal (formals : List String) (argument : Tagged α) :
    exactFormal? formals argument.normal = exactFormal? formals argument := by
  simp only [exactFormal?, Tagged.name?_normal]

/-- A state of a round with the arguments that are left as they are matched. -/
def State.normal (state : State α) : State α := ⟨state.bound, state.left.map Matching.normal⟩

theorem exactRound_normal (formals : List String) (bound : Bindings α)
    (supplied : List (Supplied α)) :
    exactRound formals bound (supplied.map normal) =
      (exactRound formals bound supplied).map State.normal := by
  induction supplied generalizing bound with
  | nil => rfl
  | cons s rest ih =>
      simp only [List.map_cons, exactRound]
      rw [show exactFormal? formals (normal s).argument = exactFormal? formals s.argument from
        exactFormal?_normal formals s.argument]
      cases exactFormal? formals s.argument with
      | none =>
          simp only [ih]
          cases exactRound formals bound rest <;> rfl
      | some name =>
          dsimp only
          split
          · rfl
          · exact ih _

theorem prefixRound_normal (formals : List String) (bound : Bindings α)
    (supplied : List (Supplied α)) :
    prefixRound formals bound (supplied.map normal) =
      (prefixRound formals bound supplied).map State.normal := by
  induction supplied generalizing bound with
  | nil => rfl
  | cons s rest ih =>
      simp only [List.map_cons, prefixRound]
      rw [show (normal s).argument.name? = s.argument.name? from s.argument.name?_normal]
      cases s.argument.name? with
      | none =>
          simp only [ih]
          cases prefixRound formals bound rest <;> rfl
      | some name =>
          dsimp only
          split
          · simp only [ih]
            cases prefixRound formals bound rest <;> rfl
          · exact ih _
          · rfl

theorem positionRound_normal (describe : α → String) (hasDots : Bool) (bound : Bindings α)
    (openFormals : List String) (supplied : List (Supplied α)) :
    positionRound describe hasDots bound openFormals (supplied.map normal) =
      positionRound describe hasDots bound openFormals supplied := by
  induction supplied generalizing bound openFormals with
  | nil => rfl
  | cons s rest ih =>
      have hname : (normal s).argument.name? = s.argument.name? := s.argument.name?_normal
      have htext : unusedText describe (normal s).argument = unusedText describe s.argument := by
        simp only [unusedText, hname]
        rfl
      simp only [List.map_cons, positionRound, hname, htext, ih]
      rfl

theorem finish_normal (formals : List String) (describe : α → String) (partialNames : Bool)
    (state : State α) :
    finish formals describe partialNames state.normal =
      finish formals describe partialNames state := by
  unfold finish
  cases partialNames with
  | false => exact positionRound_normal ..
  | true =>
      simp only [if_true]
      rw [show prefixRound formals state.normal.bound state.normal.left =
        (prefixRound formals state.bound state.left).map State.normal from prefixRound_normal ..]
      cases prefixRound formals state.bound state.left with
      | error fault => rfl
      | ok state => exact positionRound_normal ..

end Matching

open Matching

/-- Arguments that `...` took before match as they did. -/
theorem matchArguments_normal (formals : List String) (describe : α → String)
    (partialNames : Bool) (supplied : List (Tagged α)) :
    matchArguments formals describe partialNames (supplied.map Tagged.normal) =
      matchArguments formals describe partialNames supplied := by
  unfold matchArguments
  rw [number_normal, exactRound_normal]
  cases exactRound formals [] (number supplied) with
  | error fault => rfl
  | ok state => exact finish_normal formals describe partialNames state

/-! ## Dots alone -/

section Dots

variable (supplied : List (Supplied α))

theorem exactRound_dots (bound : Bindings α) :
    exactRound ["..."] bound supplied = .ok ⟨bound, supplied⟩ := by
  induction supplied with
  | nil => rfl
  | cons s rest ih =>
      have hnone : exactFormal? ["..."] s.argument = none := by
        simp only [exactFormal?, Option.filter_eq_none_iff]
        intro name _
        by_cases h : name = "..." <;> simp [h]
      simp only [exactRound, hnone, ih, Except.map]

theorem prefixRound_dots (bound : Bindings α) :
    prefixRound ["..."] bound supplied = .ok ⟨bound, supplied⟩ := by
  have hnone (name : String) : candidates ["..."] bound name = [] := rfl
  induction supplied with
  | nil => rfl
  | cons s rest ih =>
      cases hname : s.argument.name? <;> simp [prefixRound, hname, hnone, ih, Except.map]

theorem positionRound_dots (describe : α → String) (bound : Bindings α) :
    positionRound describe true bound [] supplied =
      .ok ⟨bound, supplied.map (·.argument.normal)⟩ := by
  induction supplied with
  | nil => rfl
  | cons s rest ih =>
      have hnormal : s.argument.normal = ⟨s.argument.name?, s.argument.item⟩ := rfl
      cases hname : s.argument.name? <;> simp [positionRound, hname, hnormal, ih, Except.map]

end Dots

/-- Dots alone take all arguments, in their order. -/
theorem matchArguments_dots (describe : α → String) (partialNames : Bool)
    (supplied : List (Tagged α)) :
    matchArguments ["..."] describe partialNames supplied =
      .ok ⟨[], supplied.map Tagged.normal⟩ := by
  have hnumber : (number supplied).map (·.argument.normal) = supplied.map Tagged.normal := by
    rw [number, List.map_map]
    change supplied.zipIdx.map (Tagged.normal ∘ Prod.fst) = _
    rw [← List.map_map, List.zipIdx_map_fst]
  unfold matchArguments
  rw [exactRound_dots]
  cases partialNames with
  | false => exact (positionRound_dots ..).trans (by rw [hnumber])
  | true =>
      change (do
        let state ← prefixRound ["..."] [] (number supplied)
        _) = _
      rw [prefixRound_dots]
      exact (positionRound_dots ..).trans (by rw [hnumber])

/-! ## What is shown of arguments -/

theorem toOption_map {ε α β : Type} (f : α → β) (r : Except ε α) :
    (r.map f).toOption = r.toOption.map f := by
  cases r <;> rfl

theorem positionRound_describe (describe describe' : α → String) (hasDots : Bool)
    (bound : Bindings α) (openFormals : List String) (supplied : List (Supplied α)) :
    (positionRound describe hasDots bound openFormals supplied).toOption =
      (positionRound describe' hasDots bound openFormals supplied).toOption := by
  induction supplied generalizing bound openFormals with
  | nil => rfl
  | cons s rest ih =>
      cases hname : s.argument.name? with
      | some name =>
          cases hasDots with
          | false =>
              simp only [positionRound, hname]
              rfl
          | true => simp [positionRound, hname, toOption_map, ih]
      | none =>
          cases openFormals with
          | nil =>
              cases hasDots with
              | false =>
                  simp only [positionRound, hname]
                  rfl
              | true => simp [positionRound, hname, toOption_map, ih]
          | cons formal openFormals => simp [positionRound, hname, ih]

/-- Whether arguments match, and how, does not depend on how they are shown. -/
theorem matchArguments_describe (formals : List String) (describe describe' : α → String)
    (partialNames : Bool) (supplied : List (Tagged α)) :
    (matchArguments formals describe partialNames supplied).toOption =
      (matchArguments formals describe' partialNames supplied).toOption := by
  unfold matchArguments
  cases exactRound formals [] (number supplied) with
  | error fault => rfl
  | ok state =>
      change (finish formals describe partialNames state).toOption =
        (finish formals describe' partialNames state).toOption
      unfold finish
      cases partialNames with
      | false => exact positionRound_describe ..
      | true =>
          simp only [if_true]
          cases prefixRound formals state.bound state.left with
          | error fault => rfl
          | ok state => exact positionRound_describe ..

section Outcome

variable {formals : List String} {describe : α → String} {partialNames : Bool}
  {supplied : List (Tagged α)}

theorem matchArguments_of_none
    (h : (matchArguments formals describe partialNames supplied).toOption = none)
    (describe' : α → String) :
    ∃ fault, matchArguments formals describe' partialNames supplied = .error fault := by
  rw [matchArguments_describe formals describe describe'] at h
  cases hmatch : matchArguments formals describe' partialNames supplied with
  | error fault => exact ⟨fault, rfl⟩
  | ok matched =>
      rw [hmatch] at h
      cases h

theorem matchArguments_of_some {matched : Matched α}
    (h : (matchArguments formals describe partialNames supplied).toOption = some matched)
    (describe' : α → String) :
    matchArguments formals describe' partialNames supplied = .ok matched := by
  rw [matchArguments_describe formals describe describe'] at h
  cases hmatch : matchArguments formals describe' partialNames supplied with
  | error fault =>
      rw [hmatch] at h
      cases h
  | ok matched' =>
      rw [hmatch] at h
      cases h
      rfl

end Outcome

end Quasi
