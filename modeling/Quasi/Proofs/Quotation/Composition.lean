import Quasi.Quotation.Substitute

/-!
# Substituting twice

Substituting by one table and then by another is substituting by a third one: what the first table
gives for a name, with the second one substituted into it, and what the second table gives for names
that the first one leaves alone. The entries of `...` take part like the arguments of a call. One
thing a table cannot give is the marker of a missing argument, except through a promise of it, so
the third table exists if nothing comes to the marker on the way.
-/

namespace Quasi

theorem Bindings.mem_of_get? {α : Type} {bindings : Bindings α} {name : String} {item : α}
    (h : bindings.get? name = some item) : (name, item) ∈ bindings := by
  induction bindings with
  | nil => cases h
  | cons binding rest ih =>
      rw [get?] at h
      split at h
      next heq =>
        cases h
        exact heq ▸ List.mem_cons_self
      next => exact List.mem_cons_of_mem _ (ih h)

namespace Substitution

variable {s : Store} {bound first second : String → Option Value}

/-! ## Tables -/

/-- A table binds `...` to entries, if at all, and no other name. -/
structure IsTable (bound : String → Option Value) : Prop where
  dots (v : Value) : bound dotsName = some v → ∃ entries, v = .dots entries
  names (name : String) : name ≠ dotsName → ∀ entries, bound name ≠ some (.dots entries)

/-- Entries as the arguments that take their place. -/
def slotsOf (s : Store) (entries : List (Tagged Value)) : List Slot :=
  entries.map (Tagged.map (codeOf s))

/-- The table that stands for two tables, one substituted after the other. -/
def compose (s : Store) (first second : String → Option Value) (name : String) : Option Value :=
  if name = dotsName then
    match first name with
    | some (.dots entries) =>
        some (.dots ((substituteSlots s second (slotsOf s entries)).map (Tagged.map .code)))
    | _ => second name
  else
    match first name with
    | none => second name
    | some (.code .missing) => second name
    | some v => some (.code (substitute s second (codeOf s v)))

mutual

/-- What becomes of an expression in which a table is substituted. What is inserted is inserted as
it is, and slots and formals keep their names. -/
inductive Becomes (s : Store) (bound : String → Option Value) : Expr → Expr → Prop where
  | bound {name : String} {v : Value} (hbound : bound name = some v)
      (hmissing : v ≠ .code .missing) (hdots : ∀ entries, v ≠ .dots entries) :
      Becomes s bound (.symbol name) (codeOf s v)
  | unbound {name : String}
      (h : ∀ v ∈ bound name, v = .code .missing ∨ ∃ entries, v = .dots entries) :
      Becomes s bound (.symbol name) (.symbol name)
  | const (v : Value) : Becomes s bound (.const v) (.const v)
  | call {head head' : Expr} {slots slots' : List Slot} (hhead : Becomes s bound head head')
      (hslots : SlotsBecome s bound slots slots') :
      Becomes s bound (.call head slots) (.call head' slots')
  | formals {items items' : List (String × Expr)} (hitems : FormalsBecome s bound items items') :
      Becomes s bound (.formals items) (.formals items')
  | missing : Becomes s bound .missing .missing

/-- What becomes of arguments. -/
inductive SlotsBecome (s : Store) (bound : String → Option Value) :
    List Slot → List Slot → Prop where
  | nil : SlotsBecome s bound [] []
  | dots {tag : Option String} {entries : List (Tagged Value)} {rest rest' : List Slot}
      (hbound : bound dotsName = some (.dots entries)) (hrest : SlotsBecome s bound rest rest') :
      SlotsBecome s bound (⟨tag, .symbol dotsName⟩ :: rest) (slotsOf s entries ++ rest')
  | slot {tag : Option String} {e e' : Expr} {rest rest' : List Slot}
      (hdots : ∀ entries, bound dotsName = some (.dots entries) → e ≠ .symbol dotsName)
      (he : Becomes s bound e e') (hrest : SlotsBecome s bound rest rest') :
      SlotsBecome s bound (⟨tag, e⟩ :: rest) (⟨tag, e'⟩ :: rest')

/-- What becomes of formals. -/
inductive FormalsBecome (s : Store) (bound : String → Option Value) :
    List (String × Expr) → List (String × Expr) → Prop where
  | nil : FormalsBecome s bound [] []
  | cons {name : String} {e e' : Expr} {rest rest' : List (String × Expr)}
      (he : Becomes s bound e e') (hrest : FormalsBecome s bound rest rest') :
      FormalsBecome s bound ((name, e) :: rest) ((name, e') :: rest')

end

/-! ## One symbol, one argument -/

section Symbols

variable {name : String} {v : Value} {e : Expr} {entries : List (Tagged Value)}

theorem isSymbol_iff : e.isSymbol name = true ↔ e = .symbol name := by
  cases e with
  | symbol text => simp [Expr.isSymbol]
  | _ => simp [Expr.isSymbol]

theorem symbolValue_bound (h : bound name = some v) (hmissing : v ≠ .code .missing)
    (hdots : ∀ entries, v ≠ .dots entries) : symbolValue s bound name = codeOf s v := by
  unfold symbolValue
  rw [h]
  split
  next heq => cases heq
  next heq => cases heq; exact absurd rfl hmissing
  next entries heq => cases heq; exact absurd rfl (hdots entries)
  next heq => cases heq; rfl

theorem symbolValue_unbound
    (h : ∀ v ∈ bound name, v = .code .missing ∨ ∃ entries, v = .dots entries) :
    symbolValue s bound name = .symbol name := by
  unfold symbolValue
  split
  · rfl
  · rfl
  · rfl
  next v hmissing hdots hv =>
    rcases h v hv with rfl | ⟨entries, rfl⟩
    · exact (hmissing rfl).elim
    · exact (hdots entries rfl).elim

/-- A symbol is bound to an expression, or it stays. -/
theorem symbol_cases (bound : String → Option Value) (name : String) :
    (∃ v, bound name = some v ∧ v ≠ .code .missing ∧ ∀ entries, v ≠ .dots entries) ∨
      ∀ v ∈ bound name, v = .code .missing ∨ ∃ entries, v = .dots entries := by
  cases bound name with
  | none => exact .inr nofun
  | some v =>
      by_cases hmissing : v = .code .missing
      · exact .inr fun _ hv => .inl (Option.some.inj hv ▸ hmissing)
      by_cases hdots : ∃ entries, v = .dots entries
      · exact .inr fun _ hv => .inr (Option.some.inj hv ▸ hdots)
      · exact .inl ⟨v, rfl, hmissing, fun entries hv => hdots ⟨entries, hv⟩⟩

theorem entries?_eq_some_iff : entries? bound e = some entries ↔
    e = .symbol dotsName ∧ bound dotsName = some (.dots entries) := by
  unfold entries?
  split
  next h =>
    rw [isSymbol_iff] at h
    split
    next found hbound => simp [h, hbound]
    next hnone =>
      simp only [reduceCtorEq, false_iff, not_and]
      exact fun _ hbound => hnone entries hbound
  next h =>
    simp only [reduceCtorEq, false_iff, not_and]
    exact fun he => absurd (isSymbol_iff.mpr he) h

theorem entries?_eq_none_iff : entries? bound e = none ↔
    ∀ entries, bound dotsName = some (.dots entries) → e ≠ .symbol dotsName := by
  simp only [Option.eq_none_iff_forall_ne_some, ne_eq, entries?_eq_some_iff, not_and]
  exact ⟨fun h entries hbound he => h entries he hbound,
    fun h entries he hbound => h entries hbound he⟩

end Symbols

/-! ## What becomes of an expression -/

theorem substituteSlots_dots {tag : Option String} {entries : List (Tagged Value)}
    (h : bound dotsName = some (.dots entries)) (rest : List Slot) :
    substituteSlots s bound (⟨tag, .symbol dotsName⟩ :: rest) =
      slotsOf s entries ++ substituteSlots s bound rest := by
  rw [substituteSlots, entries?_eq_some_iff.mpr ⟨rfl, h⟩, slotsOf]

theorem substituteSlots_slot {tag : Option String} {e : Expr}
    (h : ∀ entries, bound dotsName = some (.dots entries) → e ≠ .symbol dotsName)
    (rest : List Slot) : substituteSlots s bound (⟨tag, e⟩ :: rest) =
      ⟨tag, substitute s bound e⟩ :: substituteSlots s bound rest := by
  rw [substituteSlots, entries?_eq_none_iff.mpr h]

/-- An argument is `...` with entries, or it keeps its slot. -/
theorem slot_cases (bound : String → Option Value) (e : Expr) :
    (∃ entries, bound dotsName = some (.dots entries) ∧ e = .symbol dotsName) ∨
      ∀ entries, bound dotsName = some (.dots entries) → e ≠ .symbol dotsName := by
  cases h : entries? bound e with
  | none => exact .inr (entries?_eq_none_iff.mp h)
  | some entries =>
      obtain ⟨he, hbound⟩ := entries?_eq_some_iff.mp h
      exact .inl ⟨entries, hbound, he⟩

mutual

theorem becomes_substitute (e : Expr) : Becomes s bound e (substitute s bound e) := by
  match e with
  | .symbol name =>
      rw [substitute]
      rcases symbol_cases bound name with ⟨v, hv, hmissing, hdots⟩ | hunbound
      · rw [symbolValue_bound hv hmissing hdots]
        exact .bound hv hmissing hdots
      · rw [symbolValue_unbound hunbound]
        exact .unbound hunbound
  | .call head slots =>
      rw [substitute]
      exact .call (becomes_substitute head) (becomes_substituteSlots slots)
  | .formals items =>
      rw [substitute]
      exact .formals (becomes_substituteFormals items)
  | .const v => exact .const v
  | .missing => exact .missing
termination_by structural e

theorem becomes_substituteSlots (slots : List (Tagged Expr)) :
    SlotsBecome s bound slots (substituteSlots s bound slots) := by
  match slots with
  | [] => exact .nil
  | ⟨tag, e⟩ :: rest =>
      have he := becomes_substitute e
      have hrest := becomes_substituteSlots rest
      rcases slot_cases bound e with ⟨entries, hbound, hdots⟩ | hslot
      · rw [hdots, substituteSlots_dots hbound]
        exact .dots hbound hrest
      · rw [substituteSlots_slot hslot]
        exact .slot hslot he hrest
termination_by structural slots

theorem becomes_substituteFormals (items : List (String × Expr)) :
    FormalsBecome s bound items (substituteFormals s bound items) := by
  match items with
  | [] => exact .nil
  | (name, e) :: rest =>
      rw [substituteFormals]
      exact .cons (becomes_substitute e) (becomes_substituteFormals rest)
termination_by structural items

end

mutual

theorem Becomes.eq {e e' : Expr} (h : Becomes s bound e e') : substitute s bound e = e' := by
  match h with
  | .bound hbound hmissing hdots => rw [substitute, symbolValue_bound hbound hmissing hdots]
  | .unbound hunbound => rw [substitute, symbolValue_unbound hunbound]
  | .const _ | .missing => rfl
  | .call hhead hslots => rw [substitute, hhead.eq, hslots.eq]
  | .formals hitems => rw [substitute, hitems.eq]
termination_by structural h

theorem SlotsBecome.eq {slots slots' : List Slot} (h : SlotsBecome s bound slots slots') :
    substituteSlots s bound slots = slots' := by
  match h with
  | .nil => rfl
  | .dots hbound hrest => rw [substituteSlots_dots hbound, hrest.eq]
  | .slot hslot he hrest => rw [substituteSlots_slot hslot, he.eq, hrest.eq]
termination_by structural h

theorem FormalsBecome.eq {items items' : List (String × Expr)}
    (h : FormalsBecome s bound items items') : substituteFormals s bound items = items' := by
  match h with
  | .nil => rfl
  | .cons he hrest => rw [substituteFormals, he.eq, hrest.eq]
termination_by structural h

end

theorem substitute_eq_iff {e e' : Expr} : substitute s bound e = e' ↔ Becomes s bound e e' :=
  ⟨fun h => h ▸ becomes_substitute e, Becomes.eq⟩

/-! ## The composed table -/

@[simp] theorem codeOf_code (e : Expr) : codeOf s (.code e) = e := rfl

@[simp] theorem slotsOf_code (slots : List Slot) :
    slotsOf s (slots.map (Tagged.map .code)) = slots := by
  simp [slotsOf, Function.comp_def, Tagged.map]

/-- Arguments are substituted one by one. -/
theorem substituteSlots_append (slots more : List Slot) :
    substituteSlots s bound (slots ++ more) =
      substituteSlots s bound slots ++ substituteSlots s bound more := by
  induction slots with
  | nil => rfl
  | cons slot rest ih =>
      obtain ⟨tag, e⟩ := slot
      rcases slot_cases bound e with ⟨entries, hbound, rfl⟩ | hslot
      · rw [List.cons_append, substituteSlots_dots hbound, substituteSlots_dots hbound, ih,
          List.append_assoc]
      · rw [List.cons_append, substituteSlots_slot hslot, substituteSlots_slot hslot, ih,
          List.cons_append]

theorem compose_dots {entries : List (Tagged Value)} (h : first dotsName = some (.dots entries)) :
    compose s first second dotsName =
      some (.dots ((substituteSlots s second (slotsOf s entries)).map (Tagged.map .code))) := by
  simp [compose, h]

theorem compose_dots_unbound (h : first dotsName = none) :
    compose s first second dotsName = second dotsName := by
  simp [compose, h]

theorem compose_bound {name : String} {v : Value} (hname : name ≠ dotsName)
    (h : first name = some v) (hmissing : v ≠ .code .missing) :
    compose s first second name = some (.code (substitute s second (codeOf s v))) := by
  unfold compose
  rw [if_neg hname, h]
  split
  next heq => cases heq
  next heq => cases heq; exact absurd rfl hmissing
  next heq => cases heq; rfl

theorem compose_unbound {name : String} (hname : name ≠ dotsName)
    (h : ∀ v ∈ first name, v = .code .missing) :
    compose s first second name = second name := by
  unfold compose
  rw [if_neg hname]
  cases hv : first name with
  | none => rfl
  | some v => rw [h v hv]

namespace IsTable

variable {name : String}

/-- Bindings are a table if `...` is bound to entries and the other names are not. -/
theorem bindings {bindings : Bindings Value}
    (h : ∀ pair ∈ bindings, pair.1 = dotsName ↔ ∃ entries, pair.2 = .dots entries) :
    IsTable bindings.get? := by
  exact ⟨fun v hv => (h _ (Bindings.mem_of_get? hv)).mp rfl,
    fun _ hname entries hv => hname ((h _ (Bindings.mem_of_get? hv)).mpr ⟨entries, rfl⟩)⟩

theorem dots_cases (h : IsTable bound) :
    bound dotsName = none ∨ ∃ entries, bound dotsName = some (.dots entries) := by
  cases hv : bound dotsName with
  | none => exact .inl rfl
  | some v =>
      obtain ⟨entries, rfl⟩ := h.dots v hv
      exact .inr ⟨entries, rfl⟩

/-- Outside of arguments `...` stays. -/
theorem symbolValue_dots (h : IsTable bound) :
    symbolValue s bound dotsName = .symbol dotsName :=
  symbolValue_unbound fun v hv => .inr (h.dots v hv)

theorem substitute_dots (h : IsTable bound) :
    substitute s bound (.symbol dotsName) = .symbol dotsName := by
  rw [substitute, h.symbolValue_dots]

theorem name_cases (h : IsTable bound) (hname : name ≠ dotsName) :
    (∀ v ∈ bound name, v = .code .missing) ∨
      ∃ v, bound name = some v ∧ v ≠ .code .missing ∧ ∀ entries, v ≠ .dots entries := by
  rcases symbol_cases bound name with hbound | hunbound
  · exact .inr hbound
  · refine .inl fun v hv => (hunbound v hv).resolve_right ?_
    rintro ⟨entries, rfl⟩
    exact h.names name hname entries hv

/-- Two tables give a symbol what the composed one does, unless that is the missing marker. -/
theorem symbolValue_compose (hfirst : IsTable first) (hsecond : IsTable second)
    (hcomes : name ≠ dotsName → ∀ v, first name = some v → v ≠ .code .missing →
      substitute s second (codeOf s v) ≠ .missing) :
    substitute s second (symbolValue s first name) =
      symbolValue s (compose s first second) name := by
  by_cases hname : name = dotsName
  · subst hname
    rw [hfirst.symbolValue_dots, hsecond.substitute_dots]
    refine (symbolValue_unbound fun v hv => .inr ?_).symm
    rcases hfirst.dots_cases with hnone | ⟨entries, hentries⟩
    · rw [compose_dots_unbound hnone] at hv
      exact hsecond.dots v hv
    · rw [compose_dots hentries] at hv
      exact ⟨_, (Option.some.inj hv).symm⟩
  rcases hfirst.name_cases hname with hunbound | ⟨v, hv, hmissing, hdots⟩
  · rw [symbolValue_unbound fun v hv => .inl (hunbound v hv), substitute]
    simp only [symbolValue, compose_unbound hname hunbound]
  · have hvalue := hcomes hname v hv hmissing
    rw [symbolValue_bound hv hmissing hdots,
      symbolValue_bound (compose_bound hname hv hmissing) (by simpa using hvalue) nofun,
      codeOf_code]

end IsTable

/-! ## Substituting twice -/

/-- What is inserted for a name never comes to the marker of a missing argument. -/
def NeverMissing (s : Store) (first second : String → Option Value) : Prop :=
  ∀ name v, name ≠ dotsName → first name = some v → v ≠ .code .missing →
    substitute s second (codeOf s v) ≠ .missing

/-- No promise of a table stands for the marker of a missing argument. -/
def NoMissingPromise (s : Store) (bound : String → Option Value) : Prop :=
  ∀ name p, bound name = some (.promise p) → (s.promise p).code ≠ .missing

/-- Only `...` itself is `...` after a substitution that inserts no `...`. -/
theorem eq_dots_of_substitute
    (hdots : ∀ name v, first name = some v → codeOf s v ≠ .symbol dotsName) {e : Expr}
    (h : substitute s first e = .symbol dotsName) : e = .symbol dotsName := by
  cases e with
  | symbol name =>
      rw [substitute] at h
      rcases symbol_cases first name with ⟨v, hv, hmissing, hentries⟩ | hunbound
      · rw [symbolValue_bound hv hmissing hentries] at h
        exact absurd h (hdots name v hv)
      · rwa [symbolValue_unbound hunbound] at h
  | _ => simp [substitute] at h

/-- Two tables of which the first inserts no `...` and never comes to the missing marker. -/
structure Composable (s : Store) (first second : String → Option Value) : Prop where
  firstTable : IsTable first
  secondTable : IsTable second
  dots (name : String) (v : Value) : first name = some v → codeOf s v ≠ .symbol dotsName
  comes : NeverMissing s first second

mutual

theorem substitute_compose (h : Composable s first second) (e : Expr) :
    substitute s second (substitute s first e) = substitute s (compose s first second) e := by
  match e with
  | .symbol name =>
      exact h.firstTable.symbolValue_compose h.secondTable fun hname v => h.comes name v hname
  | .call head slots =>
      simp only [substitute]
      rw [substitute_compose h head, substituteSlots_compose h slots]
  | .formals items =>
      simp only [substitute]
      rw [substituteFormals_compose h items]
  | .const _ | .missing => rfl
termination_by structural e

theorem substituteSlots_compose (h : Composable s first second) (slots : List (Tagged Expr)) :
    substituteSlots s second (substituteSlots s first slots) =
      substituteSlots s (compose s first second) slots := by
  match slots with
  | [] => rfl
  | ⟨tag, e⟩ :: rest =>
      have he := substitute_compose h e
      have hrest := substituteSlots_compose h rest
      by_cases hsymbol : e = .symbol dotsName
      · subst hsymbol
        rcases h.firstTable.dots_cases with hnone | ⟨entries, hentries⟩
        · -- the first table leaves `...` to the second one
          have hslot : ∀ entries, first dotsName = some (.dots entries) →
              Expr.symbol dotsName ≠ .symbol dotsName := by simp [hnone]
          rw [h.firstTable.substitute_dots] at he
          rw [substituteSlots_slot hslot, h.firstTable.substitute_dots]
          rcases h.secondTable.dots_cases with hnone' | ⟨entries, hentries⟩
          · rw [substituteSlots_slot (by simp [hnone']),
              substituteSlots_slot (by simp [compose_dots_unbound hnone, hnone']), he, hrest]
          · rw [substituteSlots_dots hentries,
              substituteSlots_dots ((compose_dots_unbound hnone).trans hentries), hrest]
        · rw [substituteSlots_dots hentries, substituteSlots_append, hrest,
            substituteSlots_dots (compose_dots hentries), slotsOf_code]
      · have hstays : substitute s first e ≠ .symbol dotsName :=
          fun heq => hsymbol (eq_dots_of_substitute h.dots heq)
        rw [substituteSlots_slot fun _ _ => hsymbol, substituteSlots_slot fun _ _ => hstays,
          substituteSlots_slot fun _ _ => hsymbol, he, hrest]
termination_by structural slots

theorem substituteFormals_compose (h : Composable s first second)
    (items : List (String × Expr)) :
    substituteFormals s second (substituteFormals s first items) =
      substituteFormals s (compose s first second) items := by
  match items with
  | [] => rfl
  | (name, e) :: rest =>
      simp only [substituteFormals]
      rw [substitute_compose h e, substituteFormals_compose h rest]
termination_by structural items

end

/-- A symbol shows where two substitutions come to the missing marker. -/
theorem neverMissing_of_compose (hfirst : IsTable first)
    (h : ∀ e, substitute s second (substitute s first e) =
      substitute s (compose s first second) e) : NeverMissing s first second := by
  intro name v hname hv hmissing hcomes
  have hdots : ∀ entries, v ≠ .dots entries := fun entries heq =>
    hfirst.names name hname entries (heq ▸ hv)
  have hsymbol := h (.symbol name)
  have hcompose : compose s first second name = _ := compose_bound hname hv hmissing
  rw [hcomes] at hcompose
  rw [substitute, symbolValue_bound hv hmissing hdots, hcomes, substitute,
    symbolValue_unbound fun w hw => .inl (Option.some.inj (hw.symm.trans hcompose))] at hsymbol
  cases hsymbol

theorem NoMissingPromise.codeOf_ne_missing (h : NoMissingPromise s bound) {name : String}
    {v : Value} (hv : bound name = some v) (hmissing : v ≠ .code .missing) :
    codeOf s v ≠ .missing := by
  intro hcode
  cases v with
  | promise p => exact h name p hv hcode
  | code e => exact hmissing (congrArg Value.code hcode)
  | _ => cases hcode

/-- The marker comes from a promise of it. -/
theorem neverMissing_of_promises (hfirst : NoMissingPromise s first)
    (hsecond : NoMissingPromise s second) : NeverMissing s first second := by
  intro name v _ hv hmissing hcomes
  have hinserted := hfirst.codeOf_ne_missing hv hmissing
  cases he : codeOf s v with
  | symbol text =>
      rw [he, substitute] at hcomes
      rcases symbol_cases second text with ⟨w, hw, hw', hdots⟩ | hunbound
      · rw [symbolValue_bound hw hw' hdots] at hcomes
        exact hsecond.codeOf_ne_missing hw hw' hcomes
      · rw [symbolValue_unbound hunbound] at hcomes
        cases hcomes
  | missing => exact hinserted he
  | _ => simp [he, substitute] at hcomes

/-- Substituting by one table and then by another is substituting by the composed table, for every
expression, exactly if no name of the first table comes to the missing marker; without promises of
the marker none does. What a substitution gives is described by `Becomes`: tags and names are kept
and what is inserted is not substituted again. -/
theorem substitution_composes (hfirst : IsTable first) (hsecond : IsTable second)
    (hdots : ∀ name v, first name = some v → codeOf s v ≠ .symbol dotsName) :
    ((∀ e, substitute s second (substitute s first e) =
        substitute s (compose s first second) e) ↔ NeverMissing s first second) ∧
      (NoMissingPromise s first → NoMissingPromise s second → NeverMissing s first second) ∧
      ∀ e e', substitute s first e = e' ↔ Becomes s first e e' :=
  ⟨⟨neverMissing_of_compose hfirst,
      fun hcomes => substitute_compose ⟨hfirst, hsecond, hdots, hcomes⟩⟩,
    neverMissing_of_promises, fun _ _ => substitute_eq_iff⟩

/-- In `f(x, ...)` the name `x` stands for `g(y)`, and `...` for the tagged `y` and for `...` again;
then `y` stands for the promised `z`, and `...` for `1`. -/
theorem substitution_composes_dots :
    let s : Store := { promises := #[⟨.symbol "z", none, none, false, .given .null⟩] }
    let first : Bindings Value := [("x", .code (.apply "g" [.symbol "y"])),
      ("...", .dots [⟨some "a", .code (.symbol "y")⟩, ⟨none, .code (.symbol "...")⟩])]
    let second : Bindings Value :=
      [("y", .promise ⟨0⟩), ("...", .dots [⟨some "b", .int 1⟩])]
    IsTable first.get? ∧ IsTable second.get? ∧
      (∀ name v, first.get? name = some v → codeOf s v ≠ .symbol dotsName) ∧
      substitute s (compose s first.get? second.get?)
          (.apply "f" [.symbol "x", .symbol "..."]) =
        .call (.symbol "f") [⟨none, .apply "g" [.symbol "z"]⟩, ⟨some "a", .symbol "z"⟩,
          ⟨some "b", .const (.int 1)⟩] := by
  intro s first second
  have hfirst : IsTable first.get? := .bindings (by simp [first, dotsName])
  have hsecond : IsTable second.get? := .bindings (by simp [second, dotsName])
  have hdots : ∀ name v, first.get? name = some v → codeOf s v ≠ .symbol dotsName := by
    intro name v hv
    have hmem := Bindings.mem_of_get? hv
    simp only [first, List.mem_cons, List.not_mem_nil, or_false, Prod.mk.injEq] at hmem
    rcases hmem with ⟨-, rfl⟩ | ⟨-, rfl⟩ <;> simp [codeOf, Value.toExpr, Expr.apply]
  have hnone : NoMissingPromise s first.get? := by
    intro name p hv
    simpa [first] using Bindings.mem_of_get? hv
  have hpromise : NoMissingPromise s second.get? := by
    intro name p hv
    obtain ⟨-, rfl⟩ : name = "y" ∧ p = ⟨0⟩ := by simpa [second] using Bindings.mem_of_get? hv
    simp [s, Store.promise]
  obtain ⟨hiff, hnever, -⟩ := substitution_composes hfirst hsecond hdots
  refine ⟨hfirst, hsecond, hdots, ?_⟩
  rw [← hiff.mpr (hnever hnone hpromise)]
  rfl

/-- A promise of the missing marker is inserted for `x`, where the marker itself leaves `x`. -/
theorem substitution_of_promised_missing :
    let s : Store := { promises := #[⟨.missing, none, none, false, .given .null⟩] }
    let first : Bindings Value := [("x", .promise ⟨0⟩)]
    let second : Bindings Value := [("y", .code (.symbol "z"))]
    IsTable first.get? ∧ IsTable second.get? ∧
      (∀ name v, first.get? name = some v → codeOf s v ≠ .symbol dotsName) ∧
      substitute s second.get? (substitute s first.get? (.symbol "x")) = .missing ∧
      substitute s (compose s first.get? second.get?) (.symbol "x") = .symbol "x" := by
  intro s first second
  refine ⟨.bindings (by simp [first, dotsName]), .bindings (by simp [second, dotsName]), ?_,
    rfl, rfl⟩
  intro name v hv
  obtain ⟨-, rfl⟩ : name = "x" ∧ v = .promise ⟨0⟩ := by simpa [first] using Bindings.mem_of_get? hv
  simp [codeOf, s, Store.promise]

end Substitution

end Quasi
