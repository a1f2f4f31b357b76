import Quasi.Printer.Layout
import Quasi.Proofs.Printer.ReadBack

/-!
# Calls that are laid out read back

An expression with a written form reads back from its one-line text and from every layout that shows
all of it. The two texts differ in the gaps between tokens only, so they have the same tokens.
-/

namespace Quasi

open Reader

/-! ## Two texts with the same tokens -/

/-- Two texts are read as the same tokens but for their offsets, of which `reads` holds. -/
structure Alike (text text' : List Char) (reads : List Token → Prop) : Prop where
  left : Spells text reads
  right : Spells text' reads
  contents : contents text = contents text'

section Alike

variable {text text' next next' : List Char} {reads reads' : List Token → Prop}

theorem Alike.refl (h : Spells text reads) : Alike text text reads := ⟨h, h, rfl⟩

theorem Alike.mono (h : Alike text text' reads) (himp : ∀ tokens, reads tokens → reads' tokens) :
    Alike text text' reads' :=
  ⟨h.left.mono himp, h.right.mono himp, h.contents⟩

theorem Alike.append (h : Alike text text' reads)
    (hleft : ∀ rest, Delimited rest → Delimited (next ++ rest))
    (hright : ∀ rest, Delimited rest → Delimited (next' ++ rest)) (h' : Alike next next' reads') :
    Alike (text ++ next) (text' ++ next') fun tokens =>
      ∃ front back, tokens = front ++ back ∧ reads front ∧ reads' back where
  left := h.left.append hleft h'.left
  right := h.right.append hright h'.right
  contents := by
    rw [h.left.contents_append hleft h'.left, h.right.contents_append hright h'.right, h.contents,
      h'.contents]

variable {gap gap' : List Char} (hgap : IsGap gap) (hgap' : IsGap gap')

include hgap hgap'

theorem Alike.after_gap (h : Alike text text' reads) : Alike (gap ++ text) (gap' ++ text') reads where
  left := h.left.after_gap hgap
  right := h.right.after_gap hgap'
  contents := by rw [h.left.contents_gap hgap, h.right.contents_gap hgap', h.contents]

theorem alike_spaced_cons {first first' : String} {texts texts' : List String}
    (h : Alike first.toList first'.toList reads)
    (h' : Alike (spaced gap texts) (spaced gap' texts') reads') :
    Alike (spaced gap (first :: texts)) (spaced gap' (first' :: texts')) fun tokens =>
      ∃ front back, tokens = front ++ back ∧ reads front ∧ reads' back :=
  (h.after_gap hgap hgap').append (fun _ => delimited_spaced hgap texts)
    (fun _ => delimited_spaced hgap' texts') h'

end Alike

theorem contents_list {gap : String} (hgap : IsGap gap.toList) {texts : List String}
    {reads : List Token → Prop} (h : Spells (spaced gap.toList texts) reads) :
    contents ("(" ++ gap.intercalate texts ++ ")").toList =
      (.openParen, "(") :: (contents (spaced gap.toList texts) ++ [(.closeParen, ")")]) := by
  have htoList : ("(" ++ gap.intercalate texts ++ ")").toList =
      '(' :: ((gap.intercalate texts).toList ++ [')']) := by simp
  rw [htoList]
  cases texts with
  | nil => exact h.contents_parens
  | cons text texts =>
      rw [spaced, List.flatMap_cons, List.append_assoc] at h ⊢
      have hinner := h.of_gap hgap
      rw [toList_intercalate_cons, hinner.contents_gap hgap]
      exact hinner.contents_parens

theorem alike_list {gap gap' : String} (hgap : IsGap gap.toList) (hgap' : IsGap gap'.toList)
    {texts texts' : List String} {reads : List Token → Prop}
    (h : Alike (spaced gap.toList texts) (spaced gap'.toList texts') reads) :
    Alike ("(" ++ gap.intercalate texts ++ ")").toList
      ("(" ++ gap'.intercalate texts' ++ ")").toList fun tokens =>
        ∃ left inside right, tokens = left :: (inside ++ [right]) ∧ left.kind = .openParen ∧
          right.kind = .closeParen ∧ reads inside where
  left := spells_list hgap h.left
  right := spells_list hgap' h.right
  contents := by rw [contents_list hgap h.left, contents_list hgap' h.right, h.contents]

/-! ## Expressions with a written form -/

/-- The constants that are written as one token. -/
inductive WrittenConstant : Value → Prop where
  | null : WrittenConstant .null
  | bool (b : Bool) : WrittenConstant (.bool b)
  | int (i : Int) : WrittenConstant (.int i)
  | str (text : String) : WrittenConstant (.str text)

/-- The names that read as symbols, between backquotes where they need them. -/
structure WrittenName (name : String) : Prop where
  block : ¬ ['#', '|'] <+: name.toList
  last : name.toList.getLast? ≠ some '\n'

/-- The argument names that are written as they are. -/
structure WrittenTag (tag : String) : Prop where
  ne_nil : tag.toList ≠ []
  chars : ∀ c ∈ tag.toList, isWordChar c = true
  first : ∀ c ∈ tag.toList.head?, c ≠ ':' ∧ c ≠ '=' ∧ c ≠ '^'
  literal : literal? tag = none
  number : Numeral.number? tag = none

/-- The expressions that have a written form. Formals stand in function expressions only. -/
inductive Written : Expr → Prop where
  | const {v : Value} (h : WrittenConstant v) : Written (.const v)
  | symbol {name : String} (h : WrittenName name) : Written (.symbol name)
  | call {head : Expr} {slots : List Slot} (hhead : Written head)
      (hne : head ≠ .symbol "function")
      (htags : ∀ slot ∈ slots, ∀ tag, slot.tag = some tag → WrittenTag tag)
      (hitems : ∀ slot ∈ slots, Written slot.item) : Written (.call head slots)
  | function {formals : List Formal} {body : List Expr}
      (hnames : ∀ formal ∈ formals, WrittenName formal.1) (hdistinct : (formals.map (·.1)).Nodup)
      (hdefaults : ∀ formal ∈ formals, formal.2 ≠ .missing → Written formal.2)
      (hbody : ∀ e ∈ body, Written e) (hshort : body.length ≤ 1) :
      Written (.call (.symbol "function") (.bare (.formals formals) :: body.map .bare))

mutual

/-- How many calls deep the arguments of an expression are nested; heads do not count. -/
def Expr.nesting : Expr → Nat
  | .call head slots => max head.nesting (slotNesting slots)
  | _ => 0

def slotNesting : List Slot → Nat
  | [] => 0
  | ⟨_, e⟩ :: rest => max (e.nesting + 1) (slotNesting rest)

end

theorem nesting_lt_of_mem {slots : List Slot} {slot : Slot} (h : slot ∈ slots) :
    slot.item.nesting < slotNesting slots := by
  induction slots with
  | nil => cases h
  | cons first rest ih =>
      rw [slotNesting]
      rcases List.mem_cons.mp h with rfl | h
      · exact Nat.lt_of_lt_of_le (Nat.lt_succ_self _) (Nat.le_max_left ..)
      · exact Nat.lt_of_lt_of_le (ih h) (Nat.le_max_right ..)

theorem WrittenName.faithful {name : String} (h : WrittenName name) : (Part.name name).Faithful :=
  fun _ => ⟨h.block, h.last⟩

namespace WrittenTag

variable {tag : String} (h : WrittenTag tag)

include h

theorem deparse_eq : Name.deparse tag = tag := by
  obtain ⟨c, rest, heq⟩ := List.exists_cons_of_ne_nil h.ne_nil
  obtain ⟨hcolon, -, hcaret⟩ := h.first c (by rw [heq]; rfl)
  have hlast : tag.toList.getLast? ≠ some '\n' := fun hlast => by
    have := h.chars '\n' (List.mem_of_getLast? hlast)
    exact absurd this (by decide)
  have hplain : Name.isPlain tag = true := by
    have hchars := h.chars
    rw [heq, List.forall_mem_cons] at hchars
    rw [Name.isPlain, Name.withoutNewline, if_neg hlast, heq]
    simpa [hcolon, hcaret, hchars.1] using hchars.2
  have hne (name : String) (htoList : ∃ rest, name.toList = ':' :: rest) : tag ≠ name := by
    rintro rfl
    obtain ⟨others, hothers⟩ := htoList
    rw [heq] at hothers
    cases hothers
    exact hcolon rfl
  rw [Name.deparse, if_neg, hplain, h.literal, h.number]
  · rfl
  · exact not_or.mpr ⟨hne _ ⟨_, rfl⟩, hne _ ⟨_, rfl⟩⟩

theorem admitted : AdmittedTag tag := by
  obtain ⟨c, rest, heq⟩ := List.exists_cons_of_ne_nil h.ne_nil
  obtain ⟨hcolon, heqsign, -⟩ := h.first c (by rw [heq]; rfl)
  refine ⟨?_, List.forall_mem_cons.mpr ⟨by decide, h.chars⟩⟩
  rw [heq, isArgumentName]
  simp [hcolon, heqsign]

end WrittenTag

/-- No name of an argument is written between backquotes. -/
theorem Written.spread_eq {e : Expr} (h : Written e) : e.spread = e := by
  rw [spread_eq_self_iff]
  induction h with
  | @const v h => cases h <;> simp [Expr.parts]
  | symbol h => simp [Expr.parts]
  | @call head slots hhead hne htags hitems ihhead ihitems =>
      intro tag htag
      rcases List.mem_append.mp htag with htag | htag
      · exact ihhead tag htag
      · obtain ⟨slot, hslot, htag⟩ := mem_slotParts.mp htag
        rcases htag with htag | htag
        · cases hname : slot.tag with
          | none => simp [hname] at htag
          | some name =>
              obtain rfl : tag = name := by simpa [hname] using htag
              exact (htags slot hslot tag hname).deparse_eq
        · exact ihitems slot hslot tag htag
  | @function formals body hnames hdistinct hdefaults hbody hshort ihdefaults ihbody =>
      intro tag htag
      rcases List.mem_append.mp htag with htag | htag
      · cases List.mem_singleton.mp htag
      rcases List.mem_append.mp htag with htag | htag
      · obtain ⟨formal, hformal, htag⟩ := mem_formalParts.mp htag
        rcases htag with heq | htag
        · cases heq
        · refine ihdefaults formal hformal (fun hmissing => ?_) tag htag
          rw [hmissing] at htag
          cases htag
      · obtain ⟨e, he, htag⟩ := mem_bareParts.mp htag
        exact ihbody e he tag htag

theorem Written.isMissing_eq {e : Expr} (h : Written e) : e.isMissing = false := by
  cases h <;> rfl

theorem WrittenConstant.spells {v : Value} (h : WrittenConstant v) :
    Spells (Expr.const v).deparse.toList (Reads · (.const v)) := by
  cases h with
  | null => exact @spells_literal "NULL" _ rfl
  | bool b =>
      cases b with
      | false => exact @spells_literal "FALSE" _ rfl
      | true => exact @spells_literal "TRUE" _ rfl
  | int i => exact spells_int i
  | str text => exact Text.StringLiteral.spells_quote text

/-! ## Layouts -/

theorem layOut_eq_deparse {e : Expr} (h : ∀ head slots, e ≠ .call head slots) {layout : Layout}
    {indent level : Nat} (hlevel : (level : Int) < layout.depth) :
    e.layOut layout indent level = e.deparse := by
  cases e with
  | call head slots => exact absurd rfl (h head slots)
  | _ => exact if_neg (by omega)

/-- However its parts are arranged, a call is a list of them between parentheses. -/
theorem arrange_eq (layout : Layout) (indent : Nat) (parts : List String) :
    ∃ gap : String, IsGap gap.toList ∧
      layout.arrange indent parts = "(" ++ gap.intercalate parts ++ ")" := by
  rw [Layout.arrange]
  split
  · exact ⟨" ", isGap_blank, rfl⟩
  · refine ⟨_, ⟨fun c hc => ?_, by simp⟩, rfl⟩
    simp only [String.toList_append, String.toList_ofList, List.mem_append, List.mem_replicate] at hc
    rcases hc with hc | ⟨-, rfl⟩
    · obtain rfl : c = '\n' := by simpa using hc
      decide
    · decide

section Slots

variable {gap : List Char} (hgap : IsGap gap) {layout : Layout} {indent level : Nat}
  {slots : List Slot}

include hgap in
theorem alike_slots (htags : ∀ slot ∈ slots, ∀ tag, slot.tag = some tag → WrittenTag tag)
    (hitems : ∀ slot ∈ slots, Alike (slot.item.layOut layout indent level).toList
      slot.item.deparse.toList (Reads · slot.item)) :
    Alike (spaced gap (layOutSlots layout indent level slots))
      (spaced " ".toList (deparseSlots slots)) (ReadsSlots · slots) := by
  induction slots with
  | nil => exact .refl (spells_nil .nil)
  | cons slot rest ih =>
      have hitem := hitems slot List.mem_cons_self
      have hrest := ih (fun slot hslot => htags slot (List.mem_cons_of_mem _ hslot))
        fun slot hslot => hitems slot (List.mem_cons_of_mem _ hslot)
      rcases slot with ⟨_ | tag, e⟩
      · rw [layOutSlots, deparseSlots]
        refine (alike_spaced_cons hgap isGap_blank hitem hrest).mono ?_
        rintro _ ⟨front, back, rfl, hfront, hback⟩
        exact .bare hfront hback
      · have htag := htags _ List.mem_cons_self tag rfl
        have hinner := (hitem.append (fun _ => delimited_spaced hgap _)
          (fun _ => delimited_spaced isGap_blank _) hrest).after_gap isGap_blank isGap_blank
        have hdelimited (text : List Char) (rest : List Char) (_ : Delimited rest) :
            Delimited (" ".toList ++ text ++ rest) := by
          rw [List.append_assoc]
          exact isGap_blank.delimited
        have hname := Alike.refl (spells_tag htag.admitted htag.deparse_eq)
        have hslot := (hname.append (hdelimited _) (hdelimited _) hinner).after_gap hgap isGap_blank
        have hleft : spaced gap (layOutSlots layout indent level (⟨some tag, e⟩ :: rest)) =
            gap ++ ((":" ++ Name.deparse tag).toList ++ (" ".toList ++
              ((e.layOut layout indent level).toList ++
                spaced gap (layOutSlots layout indent level rest)))) := by
          simp [layOutSlots, spaced]
        have hright : spaced " ".toList (deparseSlots (⟨some tag, e⟩ :: rest)) =
            " ".toList ++ ((":" ++ Name.deparse tag).toList ++ (" ".toList ++
              (e.deparse.toList ++ spaced " ".toList (deparseSlots rest)))) := by
          simp [deparseSlots, spaced]
        rw [hleft, hright]
        refine hslot.mono ?_
        rintro _ ⟨_, _, rfl, ⟨name, rfl, hkind, rfl⟩, front, back, rfl, hfront, hback⟩
        rw [List.singleton_append]
        exact .named hkind hfront hback

end Slots

theorem spells_writtenFormals {formals : List Formal}
    (hnames : ∀ formal ∈ formals, WrittenName formal.1)
    (hdefaults : ∀ formal ∈ formals, formal.2 ≠ .missing →
      Written formal.2 ∧ Spells formal.2.deparse.toList (Reads · formal.2)) :
    Spells (Expr.formals formals).deparse.toList fun tokens =>
      ∃ left inside right, tokens = left :: (inside ++ [right]) ∧ left.kind = .openParen ∧
        right.kind = .closeParen ∧ ReadsFormals inside formals := by
  have hself : spreadFormals formals = formals := by
    clear hnames
    induction formals with
    | nil => rfl
    | cons formal rest ih =>
        obtain ⟨name, default⟩ := formal
        rw [List.forall_mem_cons] at hdefaults
        rw [spreadFormals, ih hdefaults.2]
        by_cases hmissing : default = .missing
        · rw [hmissing]
          rfl
        · rw [(hdefaults.1 hmissing).1.spread_eq]
  have hspells := spells_formals fun formal hformal => FormalSpells.mk
    (hnames formal hformal).faithful (by
      by_cases hmissing : formal.2 = .missing
      · exact .inl hmissing
      · obtain ⟨hwritten, hdefault⟩ := hdefaults formal hformal hmissing
        rw [hwritten.spread_eq]
        exact .inr ⟨hwritten.isMissing_eq, hdefault⟩)
  rw [hself] at hspells
  rw [Expr.deparse]
  exact spells_list isGap_blank hspells

section Calls

variable {layout : Layout} {indent level : Nat}

theorem alike_call {head : Expr} {slots : List Slot} (hlevel : (level : Int) < layout.depth)
    (hhead : Alike (head.layOut layout (indent + 1) level).toList head.deparse.toList
      (Reads · head)) (hne : head ≠ .symbol "function")
    (htags : ∀ slot ∈ slots, ∀ tag, slot.tag = some tag → WrittenTag tag)
    (hitems : ∀ slot ∈ slots, Alike (slot.item.layOut layout (indent + 1) (level + 1)).toList
      slot.item.deparse.toList (Reads · slot.item)) :
    Alike ((Expr.call head slots).layOut layout indent level).toList
      (Expr.call head slots).deparse.toList (Reads · (.call head slots)) := by
  obtain ⟨gap, hgap, harrange⟩ := arrange_eq layout indent
    (head.layOut layout (indent + 1) level :: layOutSlots layout (indent + 1) (level + 1) slots)
  have hparts := alike_spaced_cons hgap isGap_blank hhead (alike_slots hgap htags hitems)
  rw [Expr.layOut, if_neg (by omega), harrange, Expr.deparse]
  refine (alike_list hgap isGap_blank hparts).mono ?_
  rintro _ ⟨left, _, right, rfl, hleft, hright, front, back, rfl, hfront, hback⟩
  rw [List.append_assoc]
  exact .call hleft hright hfront hne hback

theorem functionExpr_short (formals : List Formal) {body : List Expr} (h : body.length ≤ 1) :
    functionExpr formals ((body.map Tagged.bare).map (·.item)) =
      .call (.symbol "function") (.bare (.formals formals) :: body.map .bare) := by
  match body, h with
  | [], _ => rfl
  | [_], _ => rfl

/-- The formals of a function expression are never broken over lines. -/
theorem alike_function {formals : List Formal} {body : List Expr}
    (hlevel : (level + 1 : Int) < layout.depth)
    (hformals : Spells (Expr.formals formals).deparse.toList fun tokens =>
      ∃ left inside right, tokens = left :: (inside ++ [right]) ∧ left.kind = .openParen ∧
        right.kind = .closeParen ∧ ReadsFormals inside formals)
    (hdistinct : (formals.map (·.1)).Nodup) (hshort : body.length ≤ 1)
    (hbody : ∀ e ∈ body, Alike (e.layOut layout (indent + 1) (level + 1)).toList
      e.deparse.toList (Reads · e)) :
    Alike ((Expr.call (.symbol "function")
        (.bare (.formals formals) :: body.map .bare)).layOut layout indent level).toList
      (Expr.call (.symbol "function") (.bare (.formals formals) :: body.map .bare)).deparse.toList
      (Reads · (.call (.symbol "function") (.bare (.formals formals) :: body.map .bare))) := by
  obtain ⟨gap, hgap, harrange⟩ := arrange_eq layout indent
    ((Expr.symbol "function").deparse :: (Expr.formals formals).deparse ::
      layOutSlots layout (indent + 1) (level + 1) (body.map .bare))
  have hfunction : Spells (Expr.symbol "function").deparse.toList
      (Reads · (.symbol "function")) := Name.spells_deparse fun _ => by decide
  have hslots : Alike
      (spaced gap.toList (layOutSlots layout (indent + 1) (level + 1) (body.map .bare)))
      (spaced " ".toList (deparseSlots (body.map .bare))) (ReadsSlots · (body.map .bare)) := by
    refine alike_slots hgap (by simp [Tagged.bare]) fun slot hslot => ?_
    obtain ⟨e, he, rfl⟩ := List.mem_map.mp hslot
    exact hbody e he
  have hparts := alike_spaced_cons hgap isGap_blank (.refl hfunction)
    (alike_spaced_cons hgap isGap_blank (.refl hformals) hslots)
  have hleft : (Expr.call (.symbol "function")
      (.bare (.formals formals) :: body.map .bare)).layOut layout indent level =
      "(" ++ gap.intercalate ((Expr.symbol "function").deparse :: (Expr.formals formals).deparse ::
        layOutSlots layout (indent + 1) (level + 1) (body.map .bare)) ++ ")" := by
    rw [Expr.layOut, if_neg (by omega), Tagged.bare, layOutSlots,
      layOut_eq_deparse (by simp) (by omega), layOut_eq_deparse (by simp) (by omega), harrange]
  have hright : (Expr.call (.symbol "function")
      (.bare (.formals formals) :: body.map .bare)).deparse =
      "(" ++ " ".intercalate ((Expr.symbol "function").deparse :: (Expr.formals formals).deparse ::
        deparseSlots (body.map .bare)) ++ ")" := rfl
  rw [hleft, hright, ← functionExpr_short formals hshort]
  refine (alike_list hgap isGap_blank hparts).mono ?_
  rintro _ ⟨left, _, right, rfl, hleft, hright, first, _, rfl, hfirst, _, back, rfl,
    ⟨left', inside, right', rfl, hleft', hright', hinside⟩, hback⟩
  simp only [List.cons_append, List.append_assoc, List.nil_append]
  exact .function hleft hright hleft' hright' hfirst hinside hdistinct hback

end Calls

/-- Layouts that show all of an expression are read as its one-line text is. -/
theorem Written.alike {e : Expr} (h : Written e) (layout : Layout) (indent level : Nat)
    (hdepth : (level + e.nesting : Int) < layout.depth) :
    Alike (e.layOut layout indent level).toList e.deparse.toList (Reads · e) := by
  induction h generalizing layout indent level with
  | @const v h =>
      rw [layOut_eq_deparse (by simp) (by omega)]
      exact .refl h.spells
  | @symbol name h =>
      rw [layOut_eq_deparse (by simp) (by omega)]
      exact .refl (Name.spells_deparse h.faithful)
  | @call head slots hhead hne htags hitems ihhead ihitems =>
      rw [Expr.nesting] at hdepth
      refine alike_call (by omega) (ihhead layout (indent + 1) level (by omega)) hne htags
        fun slot hslot => ?_
      have hnesting := nesting_lt_of_mem hslot
      exact ihitems slot hslot layout (indent + 1) (level + 1) (by omega)
  | @function formals body hnames hdistinct hdefaults hbody hshort ihdefaults ihbody =>
      rw [Expr.nesting, Tagged.bare, slotNesting] at hdepth
      -- Defaults are shown on one line, however deep they are.
      have hformals := spells_writtenFormals hnames fun formal hformal hmissing =>
        ⟨hdefaults formal hformal hmissing, (ihdefaults formal hformal hmissing
          ⟨80, formal.2.nesting + 1⟩ 0 0 (by dsimp only; omega)).right⟩
      refine alike_function (by omega) hformals hdistinct hshort fun e he => ?_
      have hnesting : e.nesting < _ := nesting_lt_of_mem (List.mem_map_of_mem (f := Tagged.bare) he)
      exact ihbody e he layout (indent + 1) (level + 1) (by omega)

/-- The one-line text of an expression with a written form, and every layout that is deep enough for
it, read back as the expression. They are the same tokens. -/
theorem layouts_read_back {e : Expr} (h : Written e) (layout : Layout) (indent : Nat)
    (hdepth : e.nesting < layout.depth) :
    parseOne (lex (e.layOut layout indent 0)) = .ok e ∧ parseOne (lex e.deparse) = .ok e ∧
      (lex (e.layOut layout indent 0)).tokens.map Token.content =
        (lex e.deparse).tokens.map Token.content := by
  have halike := h.alike layout indent 0 (by omega)
  exact ⟨parseOne_of_spells halike.left, parseOne_of_spells halike.right, halike.contents⟩

/-- A function expression with a name between backquotes and a named argument, one part a line. -/
theorem layouts_read_back_function :
    let e : Expr := .call (.symbol "function") [⟨none, .formals [("x", .missing),
      ("a b", .call (.symbol "f") [⟨some "y", .const (.str "s")⟩])]⟩,
      ⟨none, .call (.symbol "g") [⟨none, .symbol "x"⟩, ⟨none, .const (.int (-3))⟩]⟩]
    parseOne (lex (e.layOut ⟨4, 3⟩ 2 0)) = .ok e ∧ parseOne (lex e.deparse) = .ok e ∧
      (lex (e.layOut ⟨4, 3⟩ 2 0)).tokens.map Token.content =
        (lex e.deparse).tokens.map Token.content := by
  intro e
  have hname (name : String) (h : name = "x" ∨ name = "a b" ∨ name = "f" ∨ name = "g") :
      WrittenName name := by
    rcases h with rfl | rfl | rfl | rfl <;> exact ⟨by decide, by decide⟩
  have hdefault : Written (.call (.symbol "f") [⟨some "y", .const (.str "s")⟩]) := by
    refine .call (.symbol (hname "f" (by simp))) (by simp) ?_ ?_
    · simp only [List.mem_singleton, forall_eq, Option.some.injEq, forall_eq']
      exact ⟨by decide, List.all_eq_true.mp (by decide), by simp, by decide, by decide⟩
    · simp only [List.mem_singleton, forall_eq]
      exact .const (.str "s")
  have hbody : Written (.call (.symbol "g") [⟨none, .symbol "x"⟩, ⟨none, .const (.int (-3))⟩]) := by
    refine .call (.symbol (hname "g" (by simp))) (by simp) (by simp) ?_
    simp only [List.forall_mem_cons]
    exact ⟨.symbol (hname "x" (by simp)), .const (.int (-3)), by simp⟩
  have hwritten : Written e := by
    refine @Written.function _ [_] ?_ (by simp) ?_ ?_ (Nat.le_refl 1)
    · simp only [List.forall_mem_cons]
      exact ⟨hname "x" (by simp), hname "a b" (by simp), by simp⟩
    · simp only [List.forall_mem_cons]
      exact ⟨fun h => absurd rfl h, fun _ => hdefault, by simp⟩
    · simp only [List.mem_singleton, forall_eq]
      exact hbody
  exact layouts_read_back hwritten ⟨4, 3⟩ 2 (by decide)

end Quasi
