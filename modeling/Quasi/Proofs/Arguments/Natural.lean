import Quasi.Proofs.Arguments.Placement

/-!
# Matching does not look at what it matches

Arguments are matched by their tags and positions. What the arguments are plays no part in that,
except in the text that shows one of them when nothing takes it. Matching may therefore be done on
the positions of arguments and what stands there be filled in afterwards.
-/

namespace Quasi

variable {α β : Type}

namespace Bindings

/-- Bindings with everything that is bound replaced. -/
def mapItems (g : α → β) (bindings : Bindings α) : Bindings β :=
  bindings.map fun binding => (binding.1, g binding.2)

variable (g : α → β) (bindings : Bindings α) (name : String)

theorem get?_mapItems : get? (mapItems g bindings) name = (get? bindings name).map g := by
  induction bindings with
  | nil => rfl
  | cons binding rest ih =>
      obtain ⟨key, item⟩ := binding
      change (if key = name then some (g item) else get? (mapItems g rest) name) =
        (if key = name then some item else get? rest name).map g
      rw [ih]
      split <;> rfl

theorem contains_mapItems : contains (mapItems g bindings) name = contains bindings name := by
  rw [contains, contains, get?_mapItems, Option.isSome_map]

theorem set_mapItems (item : α) :
    set (mapItems g bindings) name (g item) = mapItems g (set bindings name item) := by
  induction bindings with
  | nil => rfl
  | cons binding rest ih =>
      obtain ⟨key, old⟩ := binding
      change (if key = name then (key, g item) :: mapItems g rest
          else (key, g old) :: set (mapItems g rest) name (g item)) =
        mapItems g (if key = name then (key, item) :: rest else (key, old) :: set rest name item)
      rw [ih]
      split <;> rfl

end Bindings

@[simp] theorem Tagged.name?_map (g : α → β) (t : Tagged α) : (t.map g).name? = t.name? := rfl

/-- The result of matching with what was matched replaced. -/
def Matched.map (g : α → β) (matched : Matched α) : Matched β :=
  ⟨matched.bound.mapItems g, matched.dots.map (Tagged.map g)⟩

namespace Matching

def mapSupplied (g : α → β) (s : Supplied α) : Supplied β := ⟨s.position, s.argument.map g⟩

def State.map (g : α → β) (state : State α) : State β :=
  ⟨state.bound.mapItems g, state.left.map (mapSupplied g)⟩

variable (g : α → β) (formals : List String) (bound : Bindings α) (supplied : List (Supplied α))

theorem number_map (arguments : List (Tagged α)) :
    number (arguments.map (Tagged.map g)) = (number arguments).map (mapSupplied g) := by
  simp only [number, List.zipIdx_map, List.map_map]
  rfl

theorem exactRound_map : exactRound formals (bound.mapItems g) (supplied.map (mapSupplied g)) =
    (exactRound formals bound supplied).map (State.map g) := by
  induction supplied generalizing bound with
  | nil => rfl
  | cons s rest ih =>
      have hformal : exactFormal? formals (mapSupplied g s).argument =
          exactFormal? formals s.argument := rfl
      simp only [List.map_cons, exactRound, hformal]
      cases exactFormal? formals s.argument with
      | none =>
          simp only [ih]
          cases exactRound formals bound rest <;> rfl
      | some name =>
          simp only [Bindings.contains_mapItems]
          split
          · rfl
          · exact (congrArg (exactRound formals · _) (Bindings.set_mapItems ..)).trans (ih _)

theorem prefixRound_map : prefixRound formals (bound.mapItems g) (supplied.map (mapSupplied g)) =
    (prefixRound formals bound supplied).map (State.map g) := by
  induction supplied generalizing bound with
  | nil => rfl
  | cons s rest ih =>
      have hname : (mapSupplied g s).argument.name? = s.argument.name? := rfl
      have hfit (name : String) :
          candidates formals (bound.mapItems g) name = candidates formals bound name := by
        simp only [candidates, Bindings.contains_mapItems]
      simp only [List.map_cons, prefixRound, hname]
      cases s.argument.name? with
      | none =>
          simp only [ih]
          cases prefixRound formals bound rest <;> rfl
      | some name =>
          simp only [hfit]
          split
          · simp only [ih]
            cases prefixRound formals bound rest <;> rfl
          · exact (congrArg (prefixRound formals · _) (Bindings.set_mapItems ..)).trans (ih _)
          · rfl

theorem positionRound_map (describe : β → String) (hasDots : Bool) (openFormals : List String) :
    positionRound describe hasDots (bound.mapItems g) openFormals
        (supplied.map (mapSupplied g)) =
      (positionRound (describe ∘ g) hasDots bound openFormals supplied).map (Matched.map g) := by
  induction supplied generalizing bound openFormals with
  | nil => rfl
  | cons s rest ih =>
      have hname : (mapSupplied g s).argument.name? = s.argument.name? := rfl
      have htext : unusedText describe (mapSupplied g s).argument =
          unusedText (describe ∘ g) s.argument := rfl
      have hleft (name : Option String) :
          (if hasDots then
            (positionRound describe hasDots (bound.mapItems g) openFormals
              (rest.map (mapSupplied g))).map fun matched =>
                (⟨matched.bound, ⟨name, g s.argument.item⟩ :: matched.dots⟩ : Matched β)
            else .error (.unused (unusedText (describe ∘ g) s.argument))) =
          (if hasDots then
            (positionRound (describe ∘ g) hasDots bound openFormals rest).map fun matched =>
                (⟨matched.bound, ⟨name, s.argument.item⟩ :: matched.dots⟩ : Matched α)
            else .error (.unused (unusedText (describe ∘ g) s.argument))).map (Matched.map g) := by
        rw [ih]
        split
        · cases positionRound (describe ∘ g) hasDots bound openFormals rest <;> rfl
        · rfl
      simp only [List.map_cons, positionRound, hname, htext]
      cases s.argument.name? with
      | some name => exact hleft (some name)
      | none =>
          cases openFormals with
          | nil => exact hleft none
          | cons formal openFormals =>
              exact (congrArg (positionRound describe hasDots · _ _)
                (Bindings.set_mapItems ..)).trans (ih _ _)

theorem finish_map (describe : β → String) (partialNames : Bool) (state : State α) :
    finish formals describe partialNames (state.map g) =
      (finish formals (describe ∘ g) partialNames state).map (Matched.map g) := by
  have hposition (state : State α) :
      (positionRound describe (formals.contains "...") (state.map g).bound
        ((beforeDots formals).filter fun formal => !(state.map g).bound.contains formal)
        (state.map g).left) =
      (positionRound (describe ∘ g) (formals.contains "...") state.bound
        ((beforeDots formals).filter fun formal => !state.bound.contains formal)
        state.left).map (Matched.map g) := by
    have hopen : (fun formal => !(state.map g).bound.contains formal) =
        fun formal => !state.bound.contains formal :=
      funext fun formal => congrArg not (Bindings.contains_mapItems ..)
    rw [hopen]
    exact positionRound_map ..
  unfold finish
  cases partialNames with
  | false => exact hposition state
  | true =>
      have hround : prefixRound formals (state.map g).bound (state.map g).left =
          (prefixRound formals state.bound state.left).map (State.map g) := prefixRound_map ..
      simp only [if_true, hround]
      cases prefixRound formals state.bound state.left with
      | error fault => rfl
      | ok state => exact hposition state

end Matching

open Matching

/-- What was matched may be replaced before as well as afterwards. -/
theorem matchArguments_map (g : α → β) (formals : List String) (describe : β → String)
    (partialNames : Bool) (supplied : List (Tagged α)) :
    matchArguments formals describe partialNames (supplied.map (Tagged.map g)) =
      (matchArguments formals (describe ∘ g) partialNames supplied).map (Matched.map g) := by
  have hexact : exactRound formals [] ((number supplied).map (mapSupplied g)) =
      (exactRound formals [] (number supplied)).map (State.map g) := exactRound_map g formals [] _
  unfold matchArguments
  rw [number_map, hexact]
  cases exactRound formals [] (number supplied) with
  | error fault => rfl
  | ok state => exact finish_map g formals describe partialNames state

/-! ## Positions -/

/-- Positions in place of arguments, under the tags of the arguments. -/
def positionsOf (tags : List (Option String)) : List (Tagged Nat) :=
  tags.zipIdx.map fun (tag, k) => ⟨tag, k⟩

theorem item_positionsOf {tags : List (Option String)} {t : Tagged Nat} {i : Nat}
    (h : (positionsOf tags)[i]? = some t) : t.item = i := by
  rw [positionsOf, List.getElem?_map, List.getElem?_zipIdx] at h
  obtain ⟨_, hpair, rfl⟩ := Option.map_eq_some_iff.mp h
  obtain ⟨_, -, rfl⟩ := Option.map_eq_some_iff.mp hpair
  exact Nat.zero_add i

/-- An argument is for a formal if the formal is bound to it wherever the arguments match, and it is
not shown as unused where they do not. -/
structure IsFor (formals : List String) (partialNames : Bool) (tags : List (Option String)) (k : Nat)
    (x : String) : Prop where
  bound {describe : Nat → String} {matched : Matched Nat} :
    matchArguments formals describe partialNames (positionsOf tags) = .ok matched →
      matched.bound.get? x = some k
  unshown {describe describe' : Nat → String} : (∀ j, j ≠ k → describe j = describe' j) →
    matchArguments formals describe partialNames (positionsOf tags) =
      matchArguments formals describe' partialNames (positionsOf tags)

/-- Where the arguments match, an argument is for the formal that it is bound to. -/
theorem isFor_of_ok {formals : List String} {partialNames : Bool} {tags : List (Option String)}
    {k : Nat} {x : String} {matched : Matched Nat} (describe : Nat → String)
    (h : matchArguments formals describe partialNames (positionsOf tags) = .ok matched)
    (hx : matched.bound.get? x = some k) : IsFor formals partialNames tags k x := by
  have hall := matchArguments_of_some (congrArg Except.toOption h)
  constructor
  · intro describe' matched' h'
    cases (hall describe').symm.trans h'
    exact hx
  · exact fun _ => (hall _).trans (hall _).symm

/-- A position is bound to one formal. -/
theorem bound_injective {formals : List String} (hformals : formals.Nodup)
    {describe : Nat → String} {partialNames : Bool} {tags : List (Option String)}
    {matched : Matched Nat}
    (h : matchArguments formals describe partialNames (positionsOf tags) = .ok matched)
    {k : Nat} {x y : String} (hx : matched.bound.get? x = some k)
    (hy : matched.bound.get? y = some k) : x = y := by
  obtain ⟨places, -, hbound, -⟩ := matchArguments_placement hformals h
  have hplace {z : String} (hz : matched.bound.get? z = some k) : places[k]? = some (some z) := by
    obtain ⟨t, ht, hitem⟩ := (hbound z k).mp hz
    obtain ⟨i, hi⟩ := List.mem_iff_getElem?.mp ht
    obtain ⟨hposition, hplace⟩ := List.getElem?_zip_eq_some.mp hi
    rw [← hitem, item_positionsOf hposition]
    exact hplace
  have hsame := (hplace hx).symm.trans (hplace hy)
  exact Option.some.inj (Option.some.inj hsame)

end Quasi
