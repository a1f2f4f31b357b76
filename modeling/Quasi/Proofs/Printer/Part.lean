import Quasi.Proofs.Printer.Atom

/-!
# The parts of an expression as text

An expression is written by the texts of its names and numbers, and by parentheses and blanks. A name
does not stand for itself if it is written without backquotes although it starts like a block comment
or ends with a newline. The name of an argument does not if it is written between backquotes: then it
reads as two symbols, and the expression that is read has these in place of the name.
-/

namespace Quasi

open Reader

/-! ## Parts -/

/-- A part of an expression whose text may read as something else: the name of a symbol or a formal,
the name of an argument, or a number. -/
inductive Part where
  | name (text : String)
  | tag (text : String)
  | number (x : Binary64)

/-- Whether the text of a part is read as the part again. -/
def Part.Faithful : Part → Prop
  | .name text => Name.deparse text = text →
      ¬ ['#', '|'] <+: text.toList ∧ text.toList.getLast? ≠ some '\n'
  | .tag text => Name.deparse text = text
  | .number x => x.isFinite = true → Numeral.number? x.text = some x

instance (part : Part) : Decidable part.Faithful :=
  match part with
  | .name text => inferInstanceAs (Decidable (Name.deparse text = text →
      ¬ ['#', '|'] <+: text.toList ∧ text.toList.getLast? ≠ some '\n'))
  | .tag text => inferInstanceAs (Decidable (Name.deparse text = text))
  | .number x => inferInstanceAs (Decidable (x.isFinite = true → Numeral.number? x.text = some x))

mutual

def Expr.parts : Expr → List Part
  | .const (.num x) => [.number x]
  | .symbol name => [.name name]
  | .call head slots => head.parts ++ slotParts slots
  | .formals items => formalParts items
  | _ => []

def slotParts : List (Tagged Expr) → List Part
  | [] => []
  | ⟨some tag, e⟩ :: rest => .tag tag :: (e.parts ++ slotParts rest)
  | ⟨none, e⟩ :: rest => e.parts ++ slotParts rest

def formalParts : List (String × Expr) → List Part
  | [] => []
  | (name, e) :: rest => .name name :: (e.parts ++ formalParts rest)

end

theorem slotParts_cons (slot : Slot) (rest : List Slot) : slotParts (slot :: rest) =
    (slot.tag.map Part.tag).toList ++ (slot.item.parts ++ slotParts rest) := by
  rcases slot with ⟨_ | tag, e⟩ <;> rfl

theorem mem_slotParts {slots : List Slot} {part : Part} : part ∈ slotParts slots ↔
    ∃ slot ∈ slots, part ∈ (slot.tag.map Part.tag).toList ∨ part ∈ slot.item.parts := by
  induction slots with
  | nil => simp [slotParts]
  | cons slot rest ih =>
      rw [slotParts_cons, List.mem_append, List.mem_append, ih]
      simp only [List.mem_cons, exists_eq_or_imp, or_assoc]

theorem mem_bareParts {items : List Expr} {part : Part} :
    part ∈ slotParts (items.map Tagged.bare) ↔ ∃ e ∈ items, part ∈ e.parts := by
  simp [mem_slotParts, Tagged.bare]

theorem mem_formalParts {formals : List Formal} {part : Part} : part ∈ formalParts formals ↔
    ∃ formal ∈ formals, part = .name formal.1 ∨ part ∈ formal.2.parts := by
  induction formals with
  | nil => simp [formalParts]
  | cons formal rest ih =>
      rw [formalParts, List.mem_cons, List.mem_append, ih]
      simp only [List.mem_cons, exists_eq_or_imp, or_assoc]

theorem mem_parts_functionExpr {formals : List Formal} {body : List Expr} {part : Part} :
    part ∈ (functionExpr formals body).parts ↔ part = .name "function" ∨
      part ∈ formalParts formals ∨ 2 ≤ body.length ∧ part = .name "\x7b" ∨
      ∃ e ∈ body, part ∈ e.parts := by
  rcases body with _ | ⟨first, _ | ⟨second, others⟩⟩
  · simp [functionExpr, Expr.parts, slotParts]
  · simp [functionExpr, Expr.parts, slotParts, Tagged.bare]
  · have hblock : (functionExpr formals (first :: second :: others)).parts =
        .name "function" :: (formalParts formals ++ ((.name "\x7b" ::
          slotParts ((first :: second :: others).map Tagged.bare)) ++ [])) := rfl
    rw [hblock, List.append_nil, List.mem_cons, List.mem_append, List.mem_cons, mem_bareParts]
    simp

/-- The names and numbers among the parts stand for themselves. Nothing is said of argument names. -/
structure Readable (parts : List Part) : Prop where
  name : ∀ name, .name name ∈ parts → (Part.name name).Faithful
  number : ∀ x, .number x ∈ parts → (Part.number x).Faithful

theorem Readable.mono {parts parts' : List Part} (h : Readable parts) (hsub : parts' ⊆ parts) :
    Readable parts' :=
  ⟨fun name hname => h.name name (hsub hname), fun x hx => h.number x (hsub hx)⟩

/-! ## Argument names that read as two symbols -/

mutual

/-- The expression with every argument name that would stand between backquotes in two slots of its
own, a colon and the name, before its argument. -/
def Expr.spread : Expr → Expr
  | .call head slots => .call head.spread (spreadSlots slots)
  | .formals items => .formals (spreadFormals items)
  | e => e
termination_by structural e => e

def spreadSlots : List (Tagged Expr) → List (Tagged Expr)
  | [] => []
  | ⟨some tag, e⟩ :: rest =>
      if Name.deparse tag = tag then ⟨some tag, e.spread⟩ :: spreadSlots rest
      else .bare (.symbol ":") :: .bare (.symbol tag) :: .bare e.spread :: spreadSlots rest
  | ⟨none, e⟩ :: rest => .bare e.spread :: spreadSlots rest
termination_by structural slots => slots

def spreadFormals : List (String × Expr) → List (String × Expr)
  | [] => []
  | (name, e) :: rest => (name, e.spread) :: spreadFormals rest
termination_by structural items => items

end

mutual

/-- An expression is its own spread exactly if no name of an argument needs backquotes. -/
theorem spread_eq_self_iff (e : Expr) :
    e.spread = e ↔ ∀ tag, .tag tag ∈ e.parts → (Part.tag tag).Faithful := by
  match e with
  | .call head slots =>
      rw [Expr.spread, Expr.call.injEq, spread_eq_self_iff head, spreadSlots_eq_self_iff slots]
      simp only [Expr.parts, List.mem_append, or_imp, forall_and]
  | .formals items =>
      rw [Expr.spread, Expr.formals.injEq, spreadFormals_eq_self_iff items, Expr.parts]
  | .symbol name => simp [Expr.spread, Expr.parts]
  | .const value => cases value <;> simp [Expr.spread, Expr.parts]
  | .missing => simp [Expr.spread, Expr.parts]
termination_by structural e

theorem spreadSlots_eq_self_iff (slots : List Slot) :
    spreadSlots slots = slots ↔ ∀ tag, .tag tag ∈ slotParts slots → (Part.tag tag).Faithful := by
  match slots with
  | [] => simp [spreadSlots, slotParts]
  | ⟨none, e⟩ :: rest =>
      rw [spreadSlots, slotParts, List.cons.injEq, Tagged.bare, Tagged.mk.injEq,
        spread_eq_self_iff e, spreadSlots_eq_self_iff rest]
      simp only [List.mem_append, or_imp, forall_and, true_and]
  | ⟨some tag, e⟩ :: rest =>
      have he := spread_eq_self_iff e
      have hrest := spreadSlots_eq_self_iff rest
      rw [spreadSlots, slotParts]
      by_cases hself : Name.deparse tag = tag
      · rw [if_pos hself, List.cons.injEq, Tagged.mk.injEq, he, hrest]
        simp only [List.mem_cons, List.mem_append, or_imp, forall_and, true_and, Part.tag.injEq,
          forall_eq, Part.Faithful, hself]
      · rw [if_neg hself]
        refine iff_of_false (fun h => by cases h) fun h => hself (h tag List.mem_cons_self)
termination_by structural slots

theorem spreadFormals_eq_self_iff (items : List (String × Expr)) :
    spreadFormals items = items ↔ ∀ tag, .tag tag ∈ formalParts items → (Part.tag tag).Faithful := by
  match items with
  | [] => simp [spreadFormals, formalParts]
  | (name, e) :: rest =>
      rw [spreadFormals, formalParts, List.cons.injEq, Prod.mk.injEq, spread_eq_self_iff e,
        spreadFormals_eq_self_iff rest]
      simp only [List.mem_cons, List.mem_append, or_imp, forall_and, true_and, reduceCtorEq,
        false_implies]
termination_by structural items

end

theorem spread_eq_symbol {e : Expr} {name : String} (h : e.spread = .symbol name) :
    e = .symbol name := by
  cases e <;> simp_all [Expr.spread]

theorem spreadSlots_bare (items : List Expr) :
    spreadSlots (items.map .bare) = (items.map Expr.spread).map .bare := by
  induction items with
  | nil => rfl
  | cons e rest ih => rw [List.map_cons, Tagged.bare, spreadSlots, ih, List.map_cons, List.map_cons]

theorem names_spreadFormals (formals : List Formal) :
    (spreadFormals formals).map (·.1) = formals.map (·.1) := by
  induction formals with
  | nil => rfl
  | cons formal rest ih => rw [spreadFormals, List.map_cons, ih, List.map_cons]

theorem spread_atom (word : String) : (atom word).spread = atom word := by
  rw [atom]
  split
  · rfl
  · split <;> rfl

/-! ## Names -/

namespace Name

theorem deparse_eq (name : String) : deparse name = name ∧
      (name = ":" ∨ name = ":=" ∨ isPlain name = true ∧ literal? name = none ∧
        Numeral.number? name = none) ∨ deparse name = backquoted name := by
  rw [deparse]
  split
  next h => exact .inl ⟨rfl, h.imp_right .inl⟩
  · split
    next h =>
      simp only [Bool.and_eq_true, Option.isNone_iff_eq_none] at h
      exact .inl ⟨rfl, .inr (.inr ⟨h.1.1, h.1.2, h.2⟩)⟩
    · exact .inr rfl

/-- What a plain name is that does not end with a newline. -/
theorem of_isPlain {name : String} (h : isPlain name = true)
    (hend : name.toList.getLast? ≠ some '\n') :
    ∃ c rest, name.toList = c :: rest ∧ c ≠ ':' ∧ ∀ d ∈ name.toList, isWordChar d = true := by
  rw [isPlain, withoutNewline, if_neg hend] at h
  split at h
  · cases h
  next c rest heq =>
    simp only [Bool.and_eq_true, decide_eq_true_eq, List.all_eq_true] at h
    refine ⟨c, rest, heq, h.1.1.1, fun d hd => ?_⟩
    rw [heq] at hd
    rcases List.mem_cons.mp hd with rfl | hd
    · exact h.1.2
    · exact h.2 d hd

theorem atom_eq_symbol {name : String} (hliteral : literal? name = none)
    (hnumber : Numeral.number? name = none) : atom name = .symbol name := by
  have hread : Numeral.read? name.toList = none := by
    by_contra h
    have hsome := Numeral.isSome_number? (Option.isSome_iff_ne_none.mpr h)
    rw [hnumber] at hsome
    cases hsome
  rw [atom, hliteral, hread]

theorem spells_deparse {name : String} (h : (Part.name name).Faithful) :
    Spells (deparse name).toList (Reads · (.symbol name)) := by
  rcases deparse_eq name with ⟨hself, hname⟩ | hquoted
  · obtain ⟨hblock, hend⟩ := h hself
    rw [hself]
    rcases hname with rfl | rfl | ⟨hplain, hliteral, hnumber⟩
    · exact @spells_atom ":" (by decide) (List.all_eq_true.mp (by decide)) (by decide) rfl
    · exact @spells_atom ":=" (by decide) (List.all_eq_true.mp (by decide)) (by decide) rfl
    · obtain ⟨c, rest, heq, hc, hword⟩ := of_isPlain hplain hend
      rw [← atom_eq_symbol hliteral hnumber]
      exact spells_atom (by simp [heq]) hword hblock (by rw [heq, isArgumentName_cons hc])
  · rw [hquoted]
    exact spells_backquoted name

end Name

end Quasi
