import Quasi.Proofs.Printer.Part

/-!
# Deparsed expressions read back

The text of an expression is put together from the texts of its parts, and so is what is read from
it. What was read from a source is read back from its text as long as each part stands for itself.
-/

namespace Quasi

open Reader

/-! ## Lists of texts -/

/-- The characters of texts, each after a gap. -/
def spaced (gap : List Char) (texts : List String) : List Char :=
  texts.flatMap fun text => gap ++ text.toList

theorem toList_intercalate_cons (gap text : String) (texts : List String) :
    (gap.intercalate (text :: texts)).toList = text.toList ++ spaced gap.toList texts := by
  induction texts generalizing text with
  | nil => simp [spaced]
  | cons next rest ih =>
      rw [String.intercalate_cons_cons, String.toList_append, ih, String.toList_append, spaced,
        spaced, List.flatMap_cons]
      simp

/-- The blank between two texts on one line. -/
theorem isGap_blank : IsGap " ".toList := ⟨List.all_eq_true.mp (by decide), by decide⟩

section Spaced

variable {gap : List Char} (hgap : IsGap gap) {reads reads' : List Token → Prop}

include hgap

theorem delimited_spaced (texts : List String) {rest : List Char} (h : Delimited rest) :
    Delimited (spaced gap texts ++ rest) := by
  cases texts with
  | nil => exact h
  | cons text texts =>
      rw [spaced, List.flatMap_cons, List.append_assoc, List.append_assoc]
      exact hgap.delimited

theorem spells_spaced_cons {text : String} {texts : List String} (h : Spells text.toList reads)
    (h' : Spells (spaced gap texts) reads') :
    Spells (spaced gap (text :: texts)) fun tokens =>
      ∃ front back, tokens = front ++ back ∧ reads front ∧ reads' back :=
  (h.after_gap hgap).append (fun _ => delimited_spaced hgap texts) h'

end Spaced

theorem spells_list {gap : String} (hgap : IsGap gap.toList) {texts : List String}
    {reads : List Token → Prop} (h : Spells (spaced gap.toList texts) reads) :
    Spells ("(" ++ gap.intercalate texts ++ ")").toList fun tokens =>
      ∃ left inside right, tokens = left :: (inside ++ [right]) ∧ left.kind = .openParen ∧
        right.kind = .closeParen ∧ reads inside := by
  have htexts : Spells (gap.intercalate texts).toList reads := by
    cases texts with
    | nil => exact h
    | cons text texts =>
        rw [spaced, List.flatMap_cons, List.append_assoc] at h
        rw [toList_intercalate_cons]
        exact h.of_gap hgap
  have hlist := spells_parens htexts
  simpa using hlist

/-! ## Slots and formals -/

/-- The argument names that the reader accepts. -/
def AdmittedTag (tag : String) : Prop := TokenKind.argumentName.Admits (':' :: tag.toList)

/-- A slot whose text is read, as the slot itself or spread. -/
structure SlotSpells (slot : Slot) : Prop where
  item : Spells slot.item.deparse.toList (Reads · slot.item.spread)
  tag : ∀ tag, slot.tag = some tag → AdmittedTag tag

theorem spells_tag {tag : String} (h : AdmittedTag tag) (hself : Name.deparse tag = tag) :
    Spells (":" ++ Name.deparse tag).toList fun tokens => ∃ name, tokens = [name] ∧
      name.kind = .argumentName ∧ String.ofList (name.text.toList.drop 1) = tag := by
  have htext : (":" ++ Name.deparse tag).toList = ':' :: tag.toList := by simp [hself]
  rw [htext]
  refine spells_word (by simp) h.2 (fun hblock => ?_) fun offset => ⟨_, rfl, by simp [h.1], by simp⟩
  cases (List.cons_prefix_cons.mp hblock).1

/-- The name of an argument between backquotes reads as two symbols. -/
theorem spells_quotedTag (tag : String) :
    Spells (":" ++ Name.backquoted tag).toList fun tokens => ∃ front back,
      tokens = front ++ back ∧ Reads front (.symbol ":") ∧ Reads back (.symbol tag) := by
  have hcolon : Spells [':'] (Reads · (.symbol ":")) :=
    @spells_atom ":" (by decide) (List.all_eq_true.mp (by decide)) (by decide) rfl
  have hdelimited (rest : List Char) : Delimited ((Name.backquoted tag).toList ++ rest) := by
    rw [Name.toList_backquoted]
    exact delimited_cons (by decide)
  rw [String.toList_append]
  exact hcolon.append (fun rest _ => hdelimited rest) (Name.spells_backquoted tag)

theorem spells_slots {slots : List Slot} (h : ∀ slot ∈ slots, SlotSpells slot) :
    Spells (spaced " ".toList (deparseSlots slots)) (ReadsSlots · (spreadSlots slots)) := by
  induction slots with
  | nil => exact spells_nil .nil
  | cons slot rest ih =>
      have hslot := h slot (by simp)
      have hrest := ih fun slot hmem => h slot (by simp [hmem])
      rcases slot with ⟨_ | tag, e⟩
      · rw [deparseSlots, spreadSlots]
        refine (spells_spaced_cons isGap_blank hslot.item hrest).mono ?_
        rintro _ ⟨front, back, rfl, hfront, hback⟩
        exact .bare hfront hback
      · rw [deparseSlots, spreadSlots]
        by_cases hself : Name.deparse tag = tag
        · rw [if_pos hself]
          refine (spells_spaced_cons isGap_blank (spells_tag (hslot.tag tag rfl) hself)
            (spells_spaced_cons isGap_blank hslot.item hrest)).mono ?_
          rintro _ ⟨_, _, rfl, ⟨name, rfl, hname, rfl⟩, front, back, rfl, hfront, hback⟩
          rw [List.singleton_append]
          exact .named hname hfront hback
        · have hquoted := (Name.deparse_eq tag).resolve_left fun h => hself h.1
          rw [if_neg hself, hquoted]
          refine (spells_spaced_cons isGap_blank (spells_quotedTag tag)
            (spells_spaced_cons isGap_blank hslot.item hrest)).mono ?_
          rintro _ ⟨_, _, rfl, ⟨first, second, rfl, hfirst, hsecond⟩, front, back, rfl, hfront, hback⟩
          rw [List.append_assoc]
          exact .bare hfirst (.bare hsecond (.bare hfront hback))

/-- A formal whose text is read as the formal, its default spread. -/
structure FormalSpells (formal : Formal) : Prop where
  name : (Part.name formal.1).Faithful
  default : formal.2 = .missing ∨
    formal.2.isMissing = false ∧ Spells formal.2.deparse.toList (Reads · formal.2.spread)

theorem spells_formals {formals : List Formal} (h : ∀ formal ∈ formals, FormalSpells formal) :
    Spells (spaced " ".toList (deparseFormals formals)) (ReadsFormals · (spreadFormals formals)) := by
  induction formals with
  | nil => exact spells_nil .nil
  | cons formal rest ih =>
      have hformal := h formal (by simp)
      have hrest := ih fun formal hmem => h formal (by simp [hmem])
      rcases formal with ⟨name, default⟩
      have hname := Name.spells_deparse hformal.name
      rw [deparseFormals, spreadFormals]
      rcases hformal.default with hmissing | ⟨hpresent, hdefault⟩
      · dsimp only at hmissing
        subst hmissing
        refine (spells_spaced_cons isGap_blank hname hrest).mono ?_
        rintro _ ⟨front, back, rfl, hfront, hback⟩
        exact .plain hfront hback
      · have htext : "(" ++ Name.deparse name ++ " " ++ default.deparse ++ ")" =
            "(" ++ " ".intercalate [Name.deparse name, default.deparse] ++ ")" := by
          simp [String.intercalate_cons_cons, String.append_assoc]
        have hend : Spells (spaced " ".toList []) (· = []) := spells_nil rfl
        have hpair := spells_list isGap_blank (spells_spaced_cons isGap_blank hname (spells_spaced_cons isGap_blank hdefault hend))
        rw [if_neg (by simp [hpresent]), htext]
        refine (spells_spaced_cons isGap_blank hpair hrest).mono ?_
        rintro _ ⟨_, back, rfl, ⟨left, _, right, rfl, hleft, hright, first, _, rfl, hfirst, second, _,
          rfl, hsecond, rfl⟩, hback⟩
        rw [List.append_nil, List.cons_append, List.append_assoc, List.append_assoc,
          List.singleton_append]
        exact .withDefault hleft hright hfirst hsecond hback

/-! ## Calls -/

theorem spells_call {head : Expr} {slots : List Slot}
    (hhead : Spells head.deparse.toList (Reads · head.spread)) (hne : head ≠ .symbol "function")
    (hslots : ∀ slot ∈ slots, SlotSpells slot) :
    Spells (Expr.call head slots).deparse.toList (Reads · (Expr.call head slots).spread) := by
  rw [Expr.deparse, Expr.spread]
  refine (spells_list isGap_blank (spells_spaced_cons isGap_blank hhead (spells_slots hslots))).mono ?_
  rintro _ ⟨left, _, right, rfl, hleft, hright, front, back, rfl, hfront, hback⟩
  rw [List.append_assoc]
  exact .call hleft hright hfront (mt spread_eq_symbol hne) hback

theorem bareSpells {items : List Expr}
    (h : ∀ e ∈ items, Spells e.deparse.toList (Reads · e.spread)) :
    ∀ slot ∈ items.map Tagged.bare, SlotSpells slot := by
  intro slot hslot
  obtain ⟨e, he, rfl⟩ := List.mem_map.mp hslot
  exact ⟨h e he, fun _ htag => by cases htag⟩

/-- The call that a function expression is, with at most one form as its body. -/
theorem spells_functionCall {formals : List Formal} {body : List Expr}
    (hformals : ∀ formal ∈ formals, FormalSpells formal) (hdistinct : (formals.map (·.1)).Nodup)
    (hbody : ∀ e ∈ body, Spells e.deparse.toList (Reads · e.spread)) (hshort : body.length ≤ 1) :
    Spells (Expr.call (.symbol "function") (.bare (.formals formals) :: body.map .bare)).deparse.toList
      (Reads · (Expr.call (.symbol "function")
        (.bare (.formals formals) :: body.map .bare)).spread) := by
  have hfunction : Spells (Expr.symbol "function").deparse.toList (Reads · (.symbol "function")) :=
    Name.spells_deparse fun _ => by decide
  have hparams : Spells (Expr.formals formals).deparse.toList fun tokens =>
      ∃ left inside right, tokens = left :: (inside ++ [right]) ∧ left.kind = .openParen ∧
        right.kind = .closeParen ∧ ReadsFormals inside (spreadFormals formals) := by
    rw [Expr.deparse]
    exact spells_list isGap_blank (spells_formals hformals)
  have hslots := spells_slots (bareSpells hbody)
  rw [spreadSlots_bare] at hslots
  have hexpr : (Expr.call (.symbol "function")
      (.bare (.formals formals) :: body.map .bare)).spread =
      functionExpr (spreadFormals formals) (((body.map Expr.spread).map Tagged.bare).map (·.item)) := by
    match body, hshort with
    | [], _ => rfl
    | [_], _ => rfl
  rw [hexpr, Expr.deparse, Tagged.bare, deparseSlots]
  refine (spells_list isGap_blank (spells_spaced_cons isGap_blank hfunction (spells_spaced_cons isGap_blank hparams hslots))).mono ?_
  rintro _ ⟨left, _, right, rfl, hleft, hright, first, _, rfl, hfirst, _, back, rfl,
    ⟨left', inside, right', rfl, hleft', hright', hinside⟩, hback⟩
  simp only [List.cons_append, List.append_assoc, List.nil_append]
  exact .function hleft hright hleft' hright' hfirst hinside
    (by rwa [names_spreadFormals]) hback

theorem spells_function {formals : List Formal} {body : List Expr}
    (hformals : ∀ formal ∈ formals, FormalSpells formal) (hdistinct : (formals.map (·.1)).Nodup)
    (hbody : ∀ e ∈ body, Spells e.deparse.toList (Reads · e.spread)) :
    Spells (functionExpr formals body).deparse.toList
      (Reads · (functionExpr formals body).spread) := by
  match body with
  | [] => exact spells_functionCall hformals hdistinct (fun _ h => by cases h) (Nat.zero_le _)
  | [e] => exact spells_functionCall hformals hdistinct hbody (Nat.le_refl _)
  | first :: second :: others =>
      have hbrace : Spells (Expr.symbol "\x7b").deparse.toList (Reads · (.symbol "\x7b")) :=
        Name.spells_deparse fun _ => by decide
      have hblock := spells_call hbrace (by simp) (bareSpells hbody)
      exact spells_functionCall hformals hdistinct
        (fun e he => List.mem_singleton.mp he ▸ hblock) (Nat.le_refl _)

/-! ## Everything that is read -/

theorem spells_literal {word : String} {value : Value} (h : literal? word = some value) :
    Spells (Expr.const value).deparse.toList (Reads · (.const value)) := by
  have hconst (text : String) (c : Char) (rest : List Char) (value : Value)
      (hword : ∀ c ∈ text.toList, isWordChar c = true)
      (hstart : text.toList = c :: rest ∧ c ≠ '#' ∧ c ≠ ':') (hatom : atom text = .const value) :
      Spells text.toList (Reads · (.const value)) :=
    spells_const hword ⟨c, rest, hstart⟩ hatom
  rw [literal?] at h
  split at h
  · cases h
    exact hconst "TRUE" 'T' _ _ (List.all_eq_true.mp (by decide)) ⟨rfl, by decide⟩ rfl
  split at h
  · cases h
    exact hconst "FALSE" 'F' _ _ (List.all_eq_true.mp (by decide)) ⟨rfl, by decide⟩ rfl
  split at h
  · cases h
    exact hconst "NULL" 'N' _ _ (List.all_eq_true.mp (by decide)) ⟨rfl, by decide⟩ rfl
  split at h
  · cases h
    exact spells_num (by decide) (by decide)
  split at h
  · cases h
    exact spells_num (by decide) (by decide)
  split at h
  · cases h
    exact hconst "NaN" 'N' _ _ (List.all_eq_true.mp (by decide)) ⟨rfl, by decide⟩ rfl
  · cases h

theorem spells_deparse_atom {word : String} (hparts : Readable (atom word).parts) :
    Spells (atom word).deparse.toList (Reads · (atom word)) := by
  cases hliteral : literal? word with
  | some value =>
      rw [atom, hliteral]
      exact spells_literal hliteral
  | none =>
      rw [atom, hliteral] at hparts ⊢
      cases hread : Numeral.read? word.toList with
      | none =>
          rw [hread] at hparts
          exact Name.spells_deparse (hparts.name _ (List.mem_singleton_self _))
      | some n =>
          rw [hread] at hparts
          by_cases hintegral : n.isIntegral = true
          · simp only [hintegral, if_true]
            exact spells_int n.intValue
          · simp only [hintegral, Bool.false_eq_true, if_false] at hparts ⊢
            exact spells_num n.isNaN_value (hparts.number _ (List.mem_singleton_self _))

/-- What reads as an expression is more than a missing argument. -/
theorem isMissing_of_reads {tokens : List Token} {e : Expr} (h : Reads tokens e) :
    e.isMissing = false := by
  cases h with
  | @word token _ =>
      rw [atom]
      split
      · rfl
      · split <;> rfl
  | _ => rfl

theorem admittedTag_drop {text : String} (h : TokenKind.argumentName.Admits text.toList) :
    AdmittedTag (String.ofList (text.toList.drop 1)) := by
  have hcolon : ∃ rest, text.toList = ':' :: rest := by
    have hname := h.1
    rw [isArgumentName.eq_def] at hname
    split at hname
    next heq => exact ⟨_, heq⟩
    · cases hname
  obtain ⟨rest, heq⟩ := hcolon
  rw [AdmittedTag, String.toList_ofList, heq, List.drop_one, List.tail_cons, ← heq]
  exact h

mutual

theorem spells_of_reads {tokens : List Token} {e : Expr} (h : Reads tokens e)
    (htokens : ∀ token ∈ tokens, token.kind.Admits token.text.toList)
    (hparts : Readable e.parts) : Spells e.deparse.toList (Reads · e.spread) := by
  match h with
  | @Reads.word token _ =>
      rw [spread_atom]
      exact spells_deparse_atom hparts
  | .backquoted _ => exact Name.spells_deparse (hparts.name _ (List.mem_singleton_self _))
  | .string _ _ => exact Text.StringLiteral.spells_quote _
  | .null _ _ => exact @spells_literal "NULL" _ rfl
  | @Reads.quote mark _ e _ he =>
      have hname := hparts.name (quoteHead mark.text)
        (List.mem_append_left _ (List.mem_singleton_self _))
      have hitem := spells_of_reads he (fun token hmem => htokens token (by simp [hmem]))
        (hparts.mono fun part hmem => List.mem_append_right _
          (mem_bareParts.mpr ⟨e, List.mem_singleton_self _, hmem⟩))
      refine spells_call (Name.spells_deparse hname) ?_
        (bareSpells fun e' he' => List.mem_singleton.mp he' ▸ hitem)
      rw [quoteHead]
      split <;> simp
      split <;> simp
  | @Reads.call left right first others head slots _ _ hhead hne hslots =>
      have hhead := spells_of_reads hhead (fun token hmem => htokens token (by simp [hmem]))
        (hparts.mono fun part hmem => List.mem_append_left _ hmem)
      have hslots := spells_of_readsSlots hslots fun token hmem => htokens token (by simp [hmem])
      refine spells_call hhead hne fun slot hslot => ?_
      obtain ⟨hitem, htag⟩ := hslots slot hslot
      exact ⟨hitem (hparts.mono fun part hpart => List.mem_append_right _
        (mem_slotParts.mpr ⟨slot, hslot, .inr hpart⟩)), htag⟩
  | @Reads.function left right left' right' first params body formals slots _ _ _ _ _ hformals
      hdistinct hslots =>
      have hformals := spells_of_readsFormals hformals fun token hmem => htokens token (by simp [hmem])
      have hslots := spells_of_readsSlots hslots fun token hmem => htokens token (by simp [hmem])
      refine spells_function (fun formal hformal => ?_) hdistinct fun e he => ?_
      · have hmem {part : Part} (h : part = .name formal.1 ∨ part ∈ formal.2.parts) :
            part ∈ (functionExpr formals (slots.map (·.item))).parts :=
          mem_parts_functionExpr.mpr (.inr (.inl (mem_formalParts.mpr ⟨formal, hformal, h⟩)))
        exact ⟨hparts.name _ (hmem (.inl rfl)),
          hformals formal hformal (hparts.mono fun part hpart => hmem (.inr hpart))⟩
      · obtain ⟨slot, hslot, rfl⟩ := List.mem_map.mp he
        exact (hslots slot hslot).1 (hparts.mono fun part hpart =>
          mem_parts_functionExpr.mpr (.inr (.inr (.inr ⟨_, he, hpart⟩))))
termination_by structural h

theorem spells_of_readsSlots {tokens : List Token} {slots : List Slot} (h : ReadsSlots tokens slots)
    (htokens : ∀ token ∈ tokens, token.kind.Admits token.text.toList) :
    ∀ slot ∈ slots, (Readable slot.item.parts →
      Spells slot.item.deparse.toList (Reads · slot.item.spread)) ∧
      ∀ tag, slot.tag = some tag → AdmittedTag tag := by
  match h with
  | .nil => simp
  | @ReadsSlots.named name first others e slots hname he hslots =>
      have hitem := spells_of_reads he fun token hmem => htokens token (by simp [hmem])
      have hrest := spells_of_readsSlots hslots fun token hmem => htokens token (by simp [hmem])
      intro slot hslot
      rcases List.mem_cons.mp hslot with rfl | hslot
      · refine ⟨hitem, fun tag heq => ?_⟩
        cases heq
        have hadmits := htokens name (by simp)
        rw [hname] at hadmits
        exact admittedTag_drop hadmits
      · exact hrest slot hslot
  | @ReadsSlots.bare first others e slots he hslots =>
      have hitem := spells_of_reads he fun token hmem => htokens token (by simp [hmem])
      have hrest := spells_of_readsSlots hslots fun token hmem => htokens token (by simp [hmem])
      intro slot hslot
      rcases List.mem_cons.mp hslot with rfl | hslot
      · exact ⟨hitem, fun tag heq => by cases heq⟩
      · exact hrest slot hslot
termination_by structural h

theorem spells_of_readsFormals {tokens : List Token} {formals : List Formal}
    (h : ReadsFormals tokens formals)
    (htokens : ∀ token ∈ tokens, token.kind.Admits token.text.toList) :
    ∀ formal ∈ formals, Readable formal.2.parts → formal.2 = .missing ∨
      formal.2.isMissing = false ∧ Spells formal.2.deparse.toList (Reads · formal.2.spread) := by
  match h with
  | .nil => simp
  | @ReadsFormals.plain first others name formals hname hformals =>
      have hrest := spells_of_readsFormals hformals fun token hmem => htokens token (by simp [hmem])
      intro formal hformal
      rcases List.mem_cons.mp hformal with rfl | hformal
      · exact fun _ => .inl rfl
      · exact hrest formal hformal
  | @ReadsFormals.withDefault _ _ first second others name default formals _ _ hname hdefault
      hformals =>
      have hdefault := spells_of_reads hdefault fun token hmem => htokens token (by simp [hmem])
      have hrest := spells_of_readsFormals hformals fun token hmem => htokens token (by simp [hmem])
      intro formal hformal
      rcases List.mem_cons.mp hformal with rfl | hformal
      · exact fun hparts => .inr ⟨isMissing_of_reads ‹Reads second default›, hdefault hparts⟩
      · exact hrest formal hformal
termination_by structural h

end

/-! ## What does not read back -/

/-- A token from which no name can be read that does not stand for itself. -/
def Token.Plain (token : Token) : Prop :=
  token.kind ≠ .backquoted ∧ (token.kind = .word →
    (∀ c ∈ token.text.toList, isWordChar c = true) ∧ ¬ ['#', '|'] <+: token.text.toList)

theorem eq_of_mem_parts_atom {word name : String} (h : .name name ∈ (atom word).parts) :
    word = name := by
  have hconst (value : Value) : .name name ∉ (Expr.const value).parts := by
    intro h
    cases value <;> simp [Expr.parts] at h
  rw [atom] at h
  split at h
  · exact (hconst _ h).elim
  · split at h
    · exact (hconst _ h).elim
    · cases List.mem_singleton.mp h
      rfl

theorem faithful_of_word {word : String} (hword : ∀ c ∈ word.toList, isWordChar c = true)
    (hblock : ¬ ['#', '|'] <+: word.toList) : (Part.name word).Faithful :=
  fun _ => ⟨hblock, fun hend => absurd (hword _ (List.mem_of_getLast? hend)) (by decide)⟩

theorem faithful_of_plain {token : Token} (hplain : Token.Plain token) {name : String}
    (h : Reads [token] (.symbol name)) : (Part.name name).Faithful := by
  obtain ⟨_, heq, hkind⟩ := h.eq_singleton
  cases heq
  have hword : token.kind = .word := hkind.resolve_right hplain.1
  have hread := h.complete none []
  rw [List.append_nil, readExpr_word hword] at hread
  injection hread with hread
  have hatom : atom token.text = .symbol name := congrArg Prod.fst hread
  have hmem : .name name ∈ (atom token.text).parts := by
    rw [hatom]
    exact List.mem_singleton_self _
  rw [← eq_of_mem_parts_atom hmem]
  exact faithful_of_word (hplain.2 hword).1 (hplain.2 hword).2

theorem faithful_quoteHead (mark : String) : (Part.name (quoteHead mark)).Faithful := by
  rw [quoteHead]
  split
  · exact faithful_of_word (List.all_eq_true.mp (by decide)) (by decide)
  split
  · exact faithful_of_word (List.all_eq_true.mp (by decide)) (by decide)
  · exact faithful_of_word (List.all_eq_true.mp (by decide)) (by decide)

mutual

theorem faithful_of_reads {tokens : List Token} {e : Expr} (h : Reads tokens e)
    (htokens : ∀ token ∈ tokens, Token.Plain token) :
    ∀ name, .name name ∈ e.parts → (Part.name name).Faithful := by
  intro name hname
  match h with
  | @Reads.word token hkind =>
      obtain ⟨hword, hblock⟩ := (htokens token (List.mem_singleton_self _)).2 hkind
      rw [← eq_of_mem_parts_atom hname]
      exact faithful_of_word hword hblock
  | .backquoted hkind => exact ((htokens _ (by simp)).1 hkind).elim
  | .string _ _ => cases hname
  | .null _ _ => cases hname
  | @Reads.quote mark _ e _ he =>
      rcases List.mem_cons.mp hname with heq | hname
      · cases heq
        exact faithful_quoteHead mark.text
      · obtain ⟨e', he', hname⟩ := mem_bareParts.mp hname
        cases List.mem_singleton.mp he'
        exact faithful_of_reads he (fun token hmem => htokens token (by simp [hmem])) name hname
  | @Reads.call left right first others head slots _ _ hhead hne hslots => 
      rcases List.mem_append.mp hname with hname | hname
      · exact faithful_of_reads hhead (fun token hmem => htokens token (by simp [hmem])) name hname
      · obtain ⟨slot, hslot, hname⟩ := mem_slotParts.mp hname
        have hitem := faithful_of_readsSlots hslots (fun token hmem => htokens token (by simp [hmem]))
          slot hslot name
        rcases hname with htag | hname
        · cases htag' : slot.tag <;> simp [htag'] at htag
        · exact hitem hname
  | @Reads.function left right left' right' first params body formals slots _ _ _ _ hhead hformals
      hdistinct hslots =>
      have hformals := faithful_of_readsFormals hformals fun token hmem =>
        htokens token (by simp [hmem])
      have hslots := faithful_of_readsSlots hslots fun token hmem => htokens token (by simp [hmem])
      rcases mem_parts_functionExpr.mp hname with heq | hname | ⟨-, heq⟩ | ⟨e, he, hname⟩
      · cases heq
        exact faithful_of_word (List.all_eq_true.mp (by decide)) (by decide)
      · obtain ⟨formal, hformal, hname⟩ := mem_formalParts.mp hname
        obtain ⟨hfirst, hsecond⟩ := hformals formal hformal
        rcases hname with heq | hname
        · cases heq
          exact hfirst
        · exact hsecond name hname
      · cases heq
        exact faithful_of_word (List.all_eq_true.mp (by decide)) (by decide)
      · obtain ⟨slot, hslot, rfl⟩ := List.mem_map.mp he
        exact hslots slot hslot name hname
termination_by structural h

theorem faithful_of_readsSlots {tokens : List Token} {slots : List Slot} (h : ReadsSlots tokens slots)
    (htokens : ∀ token ∈ tokens, Token.Plain token) :
    ∀ slot ∈ slots, ∀ name, .name name ∈ slot.item.parts → (Part.name name).Faithful := by
  match h with
  | .nil => simp
  | @ReadsSlots.named name first others e slots hname he hslots =>
      have hitem := faithful_of_reads he fun token hmem => htokens token (by simp [hmem])
      have hrest := faithful_of_readsSlots hslots fun token hmem => htokens token (by simp [hmem])
      exact List.forall_mem_cons.mpr ⟨hitem, hrest⟩
  | @ReadsSlots.bare first others e slots he hslots =>
      have hitem := faithful_of_reads he fun token hmem => htokens token (by simp [hmem])
      have hrest := faithful_of_readsSlots hslots fun token hmem => htokens token (by simp [hmem])
      exact List.forall_mem_cons.mpr ⟨hitem, hrest⟩
termination_by structural h

theorem faithful_of_readsFormals {tokens : List Token} {formals : List Formal}
    (h : ReadsFormals tokens formals) (htokens : ∀ token ∈ tokens, Token.Plain token) :
    ∀ formal ∈ formals, (Part.name formal.1).Faithful ∧
      ∀ name, .name name ∈ formal.2.parts → (Part.name name).Faithful := by
  match h with
  | .nil => simp
  | @ReadsFormals.plain first others name formals hname hformals =>
      have hrest := faithful_of_readsFormals hformals fun token hmem => htokens token (by simp [hmem])
      intro formal hformal
      rcases List.mem_cons.mp hformal with rfl | hformal
      · obtain ⟨token, rfl, -⟩ := hname.eq_singleton
        exact ⟨faithful_of_plain (htokens token (by simp)) hname, fun _ h => by cases h⟩
      · exact hrest formal hformal
  | @ReadsFormals.withDefault _ _ first second others name default formals _ _ hname hdefault
      hformals =>
      have hitem := faithful_of_reads hdefault fun token hmem => htokens token (by simp [hmem])
      have hrest := faithful_of_readsFormals hformals fun token hmem => htokens token (by simp [hmem])
      intro formal hformal
      rcases List.mem_cons.mp hformal with rfl | hformal
      · obtain ⟨token, rfl, -⟩ := hname.eq_singleton
        exact ⟨faithful_of_plain (htokens token (by simp)) hname, hitem⟩
      · exact hrest formal hformal
termination_by structural h

end

theorem subset_intercalate {text : String} {texts : List String} (h : text ∈ texts) :
    text.toList ⊆ ("(" ++ " ".intercalate texts ++ ")").toList := by
  have hspaced (texts : List String) (h : text ∈ texts) : text.toList ⊆ spaced " ".toList texts :=
    fun c hc => List.mem_flatMap.mpr ⟨text, h, List.mem_cons_of_mem _ hc⟩
  intro c hc
  rw [String.toList_append, String.toList_append]
  refine List.mem_append_left _ (List.mem_append_right _ ?_)
  cases texts with
  | nil => cases h
  | cons first texts =>
      rw [toList_intercalate_cons]
      rcases List.mem_cons.mp h with rfl | h
      · exact List.mem_append_left _ hc
      · exact List.mem_append_right _ (hspaced texts h hc)

mutual

theorem tag_subset_deparse {tag : String} (e : Expr) (h : .tag tag ∈ e.parts) :
    (Name.deparse tag).toList ⊆ e.deparse.toList := by
  match e with
  | .call head slots =>
      rw [Expr.deparse]
      rcases List.mem_append.mp h with h | h
      · have hhead := tag_subset_deparse head h
        exact List.Subset.trans hhead (subset_intercalate List.mem_cons_self)
      · obtain ⟨text, hmem, htext⟩ := tag_subset_deparseSlots slots h
        exact List.Subset.trans htext (subset_intercalate (List.mem_cons_of_mem _ hmem))
  | .formals items =>
      rw [Expr.deparse]
      obtain ⟨text, hmem, htext⟩ := tag_subset_deparseFormals items h
      exact List.Subset.trans htext (subset_intercalate hmem)
  | .symbol _ => cases List.mem_singleton.mp h
  | .const value => cases value <;> simp [Expr.parts] at h
  | .missing => cases h
termination_by structural e

theorem tag_subset_deparseSlots {tag : String} (slots : List Slot) (h : .tag tag ∈ slotParts slots) :
    ∃ text ∈ deparseSlots slots, (Name.deparse tag).toList ⊆ text.toList := by
  match slots with
  | [] => cases h
  | ⟨none, e⟩ :: rest =>
      rcases List.mem_append.mp h with h | h
      · exact ⟨_, List.mem_cons_self, tag_subset_deparse e h⟩
      · obtain ⟨text, hmem, htext⟩ := tag_subset_deparseSlots rest h
        exact ⟨text, List.mem_cons_of_mem _ hmem, htext⟩
  | ⟨some _, e⟩ :: rest =>
      rcases List.mem_cons.mp h with heq | h
      · cases heq
        exact ⟨_, List.mem_cons_self, by simp⟩
      rcases List.mem_append.mp h with h | h
      · exact ⟨_, List.mem_cons_of_mem _ List.mem_cons_self, tag_subset_deparse e h⟩
      · obtain ⟨text, hmem, htext⟩ := tag_subset_deparseSlots rest h
        exact ⟨text, List.mem_cons_of_mem _ (List.mem_cons_of_mem _ hmem), htext⟩
termination_by structural slots

theorem tag_subset_deparseFormals {tag : String} (items : List (String × Expr))
    (h : .tag tag ∈ formalParts items) :
    ∃ text ∈ deparseFormals items, (Name.deparse tag).toList ⊆ text.toList := by
  match items with
  | [] => cases h
  | (name, default) :: rest =>
      rw [deparseFormals]
      rcases List.mem_cons.mp h with heq | h
      · cases heq
      rcases List.mem_append.mp h with h | h
      · refine ⟨_, List.mem_cons_self, ?_⟩
        have hdefault := tag_subset_deparse default h
        split
        next hmissing => cases default <;> simp_all [Expr.isMissing, Expr.parts]
        · intro c hc
          simp [hdefault hc]
      · obtain ⟨text, hmem, htext⟩ := tag_subset_deparseFormals rest h
        exact ⟨text, List.mem_cons_of_mem _ hmem, htext⟩
termination_by structural items

end

/-! ## Reading back -/

theorem parseOne_of_spells {text : String} {e : Expr} (h : Spells text.toList (Reads · e)) :
    parseOne (lex text) = .ok e := by
  obtain ⟨tokens, hreads, hlex⟩ := h.lex
  rw [hlex]
  exact parseOne_eq_ok_iff.mpr ⟨rfl, hreads⟩

theorem reads_of_parseOne {source : String} {e : Expr} (h : parseOne (lex source) = .ok e) :
    Reads (lex source).tokens e :=
  (parseOne_eq_ok_iff.mp h).2

/-- Without backquotes only parts that stand for themselves are read back. -/
theorem faithful_of_parseOne {e : Expr} (h : parseOne (lex e.deparse) = .ok e)
    (hnumbers : ∀ x, .number x ∈ e.parts → (Part.number x).Faithful)
    (hquote : backquote ∉ e.deparse.toList) : ∀ part ∈ e.parts, part.Faithful := by
  have hplain : ∀ token ∈ (lex e.deparse).tokens, Token.Plain token := by
    intro token htoken
    obtain ⟨hpart, hadmits, hblock⟩ := mem_lexFrom htoken
    refine ⟨fun hkind => ?_, fun hkind => ?_⟩
    · rw [hkind] at hadmits
      exact hquote (hpart.subset hadmits)
    · rw [hkind] at hadmits
      exact ⟨hadmits, hblock⟩
  intro part hpart
  cases part with
  | name name => exact faithful_of_reads (reads_of_parseOne h) hplain name hpart
  | number x => exact hnumbers x hpart
  | tag tag =>
      rcases Name.deparse_eq tag with ⟨hself, -⟩ | hquoted
      · exact hself
      · have hsubset := tag_subset_deparse e hpart
        rw [hquoted, Name.toList_backquoted] at hsubset
        exact (hquote (hsubset List.mem_cons_self)).elim

/-- How far deparsing undoes reading. Take an expression that was read from a source and the finite
numbers of which are denoted by their texts. If every part of it stands for itself, its text is read
as the expression. If every name does, its text is read as the expression with each argument name
that needs backquotes in slots of its own, and as the expression itself only if there is no such name.
If its text has no backquotes, the text is read as the expression only if every part stands for
itself. -/
theorem deparse_reads_back (source : String) (e : Expr) (hread : parseOne (lex source) = .ok e)
    (hnumbers : ∀ x, .number x ∈ e.parts → x.isFinite = true → Numeral.number? x.text = some x) :
    ((∀ part ∈ e.parts, part.Faithful) → parseOne (lex e.deparse) = .ok e) ∧
    ((∀ name, .name name ∈ e.parts → (Part.name name).Faithful) →
      parseOne (lex e.deparse) = .ok e.spread ∧
      (parseOne (lex e.deparse) = .ok e ↔ ∀ part ∈ e.parts, part.Faithful)) ∧
    (backquote ∉ e.deparse.toList →
      (parseOne (lex e.deparse) = .ok e ↔ ∀ part ∈ e.parts, part.Faithful)) := by
  have hspread (hnames : ∀ name, .name name ∈ e.parts → (Part.name name).Faithful) :
      parseOne (lex e.deparse) = .ok e.spread :=
    parseOne_of_spells (spells_of_reads (reads_of_parseOne hread)
      (fun token htoken => (mem_lexFrom htoken).2.1) ⟨hnames, hnumbers⟩)
  have hback (hparts : ∀ part ∈ e.parts, part.Faithful) : parseOne (lex e.deparse) = .ok e := by
    have hself := (spread_eq_self_iff e).mpr fun tag htag => hparts _ htag
    rw [hspread fun name hname => hparts _ hname, hself]
  refine ⟨hback, fun hnames => ⟨hspread hnames, fun h => ?_, hback⟩, fun hquote =>
    ⟨fun h => faithful_of_parseOne h hnumbers hquote, hback⟩⟩
  rw [hspread hnames, Except.ok.injEq] at h
  intro part hpart
  cases part with
  | tag tag => exact (spread_eq_self_iff e).mp h tag hpart
  | name name => exact hnames name hpart
  | number x => exact hnumbers x hpart

/-- The argument name in `(f :^x ())` is written between backquotes and read as two symbols. -/
theorem deparse_reads_back_caret :
    parseOne (lex (Expr.call (.symbol "f") [⟨some "^x", .const .null⟩]).deparse) =
      .ok (.call (.symbol "f") [⟨none, .symbol ":"⟩, ⟨none, .symbol "^x"⟩, ⟨none, .const .null⟩]) ∧
    parseOne (lex (Expr.call (.symbol "f") [⟨some "^x", .const .null⟩]).deparse) ≠
      .ok (.call (.symbol "f") [⟨some "^x", .const .null⟩]) := by
  have hlex : (lex "(f :^x ())").tokens = [⟨.openParen, "(", 0⟩, ⟨.word, "f", 1⟩,
      ⟨.argumentName, ":^x", 3⟩, ⟨.openParen, "(", 7⟩, ⟨.closeParen, ")", 8⟩,
      ⟨.closeParen, ")", 9⟩] ∧ (lex "(f :^x ())").fault = none := by decide +kernel
  have hreads : Reads (lex "(f :^x ())").tokens
      (.call (.symbol "f") [⟨some "^x", .const .null⟩]) := by
    rw [hlex.1]
    exact @Reads.call _ _ [_] [_, _, _] _ _ rfl rfl (.word rfl) (by simp)
      (@ReadsSlots.named _ [_, _] [] _ _ rfl (.null rfl rfl) .nil)
  have hback := deparse_reads_back "(f :^x ())" _
    (parseOne_eq_ok_iff.mpr ⟨hlex.2, hreads⟩) (fun x hx => by simp [Expr.parts, slotParts] at hx)
  have hparts : (Expr.call (.symbol "f") [⟨some "^x", .const .null⟩]).parts =
      [.name "f", .tag "^x"] := rfl
  rw [hparts] at hback
  obtain ⟨hspread, hiff⟩ := hback.2.1 fun name hname => by
    obtain rfl : name = "f" := by simpa using hname
    decide
  refine ⟨hspread, fun h => ?_⟩
  have htag := hiff.mp h (.tag "^x") (by simp)
  revert htag
  decide

end Quasi
