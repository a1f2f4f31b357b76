import Quasi.Proofs.Reader.Step

/-!
# The grammar of expressions

Which tokens read as which tree, said without a parser. A list of tokens reads as at most one tree,
and the descent over the tokens reads exactly what the grammar says: it stops where the only prefix
ends that reads as a tree, and fails if there is none.
-/

namespace Quasi.Reader

mutual

/-- Tokens that read as a tree, all of them together. -/
inductive Reads : List Token → Expr → Prop where
  | word {token : Token} (h : token.kind = .word) : Reads [token] (atom token.text)
  | backquoted {token : Token} (h : token.kind = .backquoted) :
      Reads [token] (.symbol (backquotedName token.text))
  | string {token : Token} {text : String} (h : token.kind = .string)
      (htext : stringText? token.text = .ok text) : Reads [token] (.const (.str text))
  | quote {mark : Token} {tokens : List Token} {e : Expr} (h : mark.kind = .quote)
      (he : Reads tokens e) : Reads (mark :: tokens) (.apply (quoteHead mark.text) [e])
  | null {left right : Token} (hleft : left.kind = .openParen)
      (hright : right.kind = .closeParen) : Reads [left, right] (.const .null)
  | call {left right : Token} {first others : List Token} {head : Expr} {slots : List Slot}
      (hleft : left.kind = .openParen) (hright : right.kind = .closeParen)
      (hhead : Reads first head) (hne : head ≠ .symbol "function")
      (hslots : ReadsSlots others slots) :
      Reads (left :: (first ++ (others ++ [right]))) (.call head slots)
  | function {left right left' right' : Token} {first params body : List Token}
      {formals : List Formal} {slots : List Slot} (hleft : left.kind = .openParen)
      (hright : right.kind = .closeParen) (hleft' : left'.kind = .openParen)
      (hright' : right'.kind = .closeParen) (hhead : Reads first (.symbol "function"))
      (hformals : ReadsFormals params formals) (hdistinct : (formals.map (·.1)).Nodup)
      (hslots : ReadsSlots body slots) :
      Reads (left :: (first ++ left' :: (params ++ right' :: (body ++ [right]))))
        (functionExpr formals (slots.map (·.item)))

/-- Tokens that read as argument slots, one after the other. -/
inductive ReadsSlots : List Token → List Slot → Prop where
  | nil : ReadsSlots [] []
  | named {name : Token} {first others : List Token} {e : Expr} {slots : List Slot}
      (h : name.kind = .argumentName) (he : Reads first e) (hslots : ReadsSlots others slots) :
      ReadsSlots (name :: (first ++ others))
        (⟨some (String.ofList (name.text.toList.drop 1)), e⟩ :: slots)
  | bare {first others : List Token} {e : Expr} {slots : List Slot} (he : Reads first e)
      (hslots : ReadsSlots others slots) : ReadsSlots (first ++ others) (⟨none, e⟩ :: slots)

/-- Tokens that read as formals, one after the other. -/
inductive ReadsFormals : List Token → List Formal → Prop where
  | nil : ReadsFormals [] []
  | plain {first others : List Token} {name : String} {formals : List Formal}
      (hname : Reads first (.symbol name)) (hformals : ReadsFormals others formals) :
      ReadsFormals (first ++ others) ((name, .missing) :: formals)
  | withDefault {left right : Token} {first second others : List Token} {name : String}
      {default : Expr} {formals : List Formal} (hleft : left.kind = .openParen)
      (hright : right.kind = .closeParen) (hname : Reads first (.symbol name))
      (hdefault : Reads second default) (hformals : ReadsFormals others formals) :
      ReadsFormals (left :: (first ++ (second ++ right :: others))) ((name, default) :: formals)

end

/-! ## Whatever reads is read -/

section Complete

variable {pending : Option SyntaxFault} {offset : Nat} {tokens rest : List Token}

/-- What reads as a tree starts with neither a closing parenthesis nor the name of an argument. -/
theorem Reads.exists_cons {e : Expr} (h : Reads tokens e) : ∃ first others,
    tokens = first :: others ∧ first.kind ≠ .closeParen ∧ first.kind ≠ .argumentName := by
  cases h <;> simp_all

theorem Reads.eq_singleton {name : String} (h : Reads tokens (.symbol name)) :
    ∃ token, tokens = [token] ∧ (token.kind = .word ∨ token.kind = .backquoted) := by
  generalize he : Expr.symbol name = e at h
  cases h <;> simp_all [Expr.apply, functionExpr]

theorem repeatedName?_eq_none {names : List String} : repeatedName? names = none ↔ names.Nodup := by
  have hgo (seen names : List String) : repeatedName?.go seen names = none ↔
      names.Nodup ∧ ∀ name ∈ names, name ∉ seen := by
    induction names generalizing seen with
    | nil => simp [repeatedName?.go]
    | cons name rest ih =>
        rw [repeatedName?.go]
        split
        next hseen => simp_all
        next hseen =>
          simp only [List.contains_eq_mem, decide_eq_true_eq] at hseen
          simp only [ih, List.nodup_cons, List.mem_cons, not_or]
          grind
  rw [repeatedName?, hgo]
  simp

end Complete

mutual

theorem Reads.complete (pending : Option SyntaxFault) {tokens : List Token} {e : Expr}
    (h : Reads tokens e) (rest : List Token) : readExpr pending (tokens ++ rest) = .ok (e, rest) := by
  match h with
  | .word h => exact readExpr_word h
  | .backquoted h => exact readExpr_backquoted h
  | .string h htext => rw [List.singleton_append, readExpr_string h, htext]
  | .quote h he =>
      have hread := he.complete pending rest
      obtain ⟨first, others, rfl, -⟩ := he.exists_cons
      simp only [List.cons_append] at hread ⊢
      rw [readExpr_quote h, hread]
  | .null hleft hright => exact readExpr_open_close hleft hright
  | @Reads.call _ right _ others _ _ hleft hright hhead hne hslots =>
      have hread := hhead.complete pending (others ++ right :: rest)
      have hreadSlots := hslots.complete pending
      obtain ⟨first, others, rfl, hclose, hname⟩ := hhead.exists_cons
      simp only [List.cons_append, List.append_assoc, List.nil_append] at hread ⊢
      rw [readExpr_call hleft hclose hname, hread]
      simp only [mt isSymbol_function.mp hne, Bool.false_eq_true, if_false, hreadSlots _ hright]
  | @Reads.function _ right left' right' _ params body _ _ hleft hright hleft' hright' hhead hformals
      hdistinct hslots =>
      have hread := hhead.complete pending (left' :: (params ++ right' :: (body ++ right :: rest)))
      have hreadFormals := hformals.complete pending
      have hreadSlots := hslots.complete pending
      obtain ⟨first, others, rfl, hclose, hname⟩ := hhead.exists_cons
      simp only [List.cons_append, List.append_assoc, List.nil_append] at hread ⊢
      rw [readExpr_call hleft hclose hname, hread]
      simp only [isSymbol_function.mpr rfl, if_true, readFunction_open hleft',
        hreadFormals _ hright', hreadSlots _ hright, repeatedName?_eq_none.mpr hdistinct]
termination_by structural h

theorem ReadsSlots.complete (pending : Option SyntaxFault) {tokens : List Token}
    {slots : List Slot} (h : ReadsSlots tokens slots) (offset : Nat) {right : Token}
    (hright : right.kind = .closeParen) (rest : List Token) :
    readSlots pending offset (tokens ++ right :: rest) = .ok (slots, rest) := by
  match h with
  | .nil => exact readSlots_close hright
  | @ReadsSlots.named _ _ others _ _ h he hslots =>
      have hread := he.complete pending (others ++ right :: rest)
      have hreadSlots := hslots.complete pending offset hright rest
      obtain ⟨first, others, rfl, hclose, -⟩ := he.exists_cons
      simp only [List.cons_append, List.append_assoc] at hread ⊢
      rw [readSlots_name h hclose, hread]
      simp only [hreadSlots]
  | @ReadsSlots.bare _ others _ _ he hslots =>
      have hread := he.complete pending (others ++ right :: rest)
      have hreadSlots := hslots.complete pending offset hright rest
      obtain ⟨first, others, rfl, hclose, hname⟩ := he.exists_cons
      simp only [List.cons_append, List.append_assoc] at hread ⊢
      rw [readSlots_bare hclose hname, hread]
      simp only [hreadSlots]
termination_by structural h

theorem ReadsFormals.complete (pending : Option SyntaxFault) {tokens : List Token}
    {formals : List Formal} (h : ReadsFormals tokens formals) (offset : Nat) {right : Token}
    (hright : right.kind = .closeParen) (rest : List Token) :
    readFormals pending offset (tokens ++ right :: rest) = .ok (formals, rest) := by
  match h with
  | .nil => exact readFormals_close hright
  | @ReadsFormals.plain _ others _ _ hname hformals =>
      have hread := hname.complete pending (others ++ right :: rest)
      have hreadFormals := hformals.complete pending offset hright rest
      obtain ⟨first, rfl, hkind⟩ := hname.eq_singleton
      simp only [List.cons_append, List.nil_append] at hread ⊢
      rw [readFormals_plain (by rcases hkind with h | h <;> simp [h])
        (by rcases hkind with h | h <;> simp [h]), hread]
      simp only [Expr.symbolName?, hreadFormals]
  | @ReadsFormals.withDefault _ close _ second others _ _ _ hleft hclose hname hdefault hformals =>
      have hread := hname.complete pending (second ++ close :: (others ++ right :: rest))
      have hreadDefault := hdefault.complete pending (close :: (others ++ right :: rest))
      have hreadFormals := hformals.complete pending offset hright rest
      simp only [List.cons_append, List.append_assoc] at hread ⊢
      rw [readFormals_open hleft, hread]
      simp only [hreadDefault, Expr.symbolName?, hclose, if_true, hreadFormals]
termination_by structural h

end

/-! ## Whatever is read reads -/

/-- The tokens that `read` takes from the front of a list read as what it gives. -/
def Sound {α : Type} (read : List Token → Except SyntaxFault (α × List Token))
    (reads : List Token → α → Prop) (tokens : List Token) : Prop :=
  ∀ a rest, read tokens = .ok (a, rest) → ∃ consumed, tokens = consumed ++ rest ∧ reads consumed a

/-- The same of tokens up to a closing parenthesis. -/
def SoundBefore {α : Type} (read : List Token → Except SyntaxFault (α × List Token))
    (reads : List Token → α → Prop) (tokens : List Token) : Prop :=
  ∀ a rest, read tokens = .ok (a, rest) → ∃ consumed right, tokens = consumed ++ right :: rest ∧
    right.kind = .closeParen ∧ reads consumed a

section Sound

variable {pending : Option SyntaxFault}

/-- What is assumed of the tokens after those that were read already. -/
structure SoundBelow (pending : Option SyntaxFault) (n : Nat) : Prop where
  expr : ∀ tokens : List Token, tokens.length < n → Sound (readExpr pending) Reads tokens
  slots : ∀ (offset : Nat) (tokens : List Token), tokens.length < n →
    SoundBefore (readSlots pending offset) ReadsSlots tokens
  formals : ∀ (offset : Nat) (tokens : List Token), tokens.length < n →
    SoundBefore (readFormals pending offset) ReadsFormals tokens

theorem SoundBelow.readFunction {n : Nat} (h : SoundBelow pending n) {offset : Nat}
    {tokens rest : List Token} {e : Expr} (htokens : tokens.length ≤ n)
    (hread : readFunction pending offset tokens = .ok (e, rest)) :
    ∃ left' params right' body right formals slots,
      tokens = left' :: (params ++ right' :: (body ++ right :: rest)) ∧
      left'.kind = .openParen ∧ right'.kind = .closeParen ∧ right.kind = .closeParen ∧
      ReadsFormals params formals ∧ (formals.map (·.1)).Nodup ∧ ReadsSlots body slots ∧
      e = functionExpr formals (slots.map (·.item)) := by
  cases tokens with
  | nil => simp at hread
  | cons left' tokens =>
      by_cases hleft' : left'.kind = .openParen
      · rw [readFunction_open hleft'] at hread
        split at hread
        · cases hread
        next formals rest₁ hformals =>
          split at hread
          · cases hread
          next slots rest₂ hslots =>
            split at hread
            · cases hread
            next hdistinct =>
              cases hread
              obtain ⟨params, right', rfl, hright', hparams⟩ :=
                h.formals offset tokens htokens formals rest₁ hformals
              simp only [List.length_cons, List.length_append] at htokens
              obtain ⟨body, right, rfl, hright, hbody⟩ :=
                h.slots offset rest₁ (by omega) slots rest hslots
              exact ⟨left', params, right', body, right, formals, slots, rfl, hleft', hright',
                hright, hparams, repeatedName?_eq_none.mp hdistinct, hbody, rfl⟩
      · rw [readFunction_of_ne hleft'] at hread
        cases hread

theorem SoundBelow.readExpr {n : Nat} (h : SoundBelow pending n) {tokens : List Token}
    (htokens : tokens.length ≤ n) : Sound (readExpr pending) Reads tokens := by
  intro e rest hread
  cases tokens with
  | nil => simp at hread
  | cons token tokens =>
      cases hkind : token.kind with
      | word =>
          rw [readExpr_word hkind] at hread
          cases hread
          exact ⟨[token], rfl, .word hkind⟩
      | backquoted =>
          rw [readExpr_backquoted hkind] at hread
          cases hread
          exact ⟨[token], rfl, .backquoted hkind⟩
      | string =>
          rw [readExpr_string hkind] at hread
          split at hread
          next text htext =>
            cases hread
            exact ⟨[token], rfl, .string hkind htext⟩
          · cases hread
      | argumentName =>
          rw [readExpr_argumentName hkind] at hread
          cases hread
      | closeParen =>
          rw [readExpr_closeParen hkind] at hread
          cases hread
      | quote =>
          rw [readExpr_quote hkind] at hread
          split at hread
          · cases hread
          · split at hread
            next e' rest' he =>
              cases hread
              obtain ⟨consumed, rfl, hreads⟩ := h.expr tokens htokens e' rest he
              exact ⟨token :: consumed, rfl, .quote hkind hreads⟩
            · cases hread
      | openParen =>
          cases tokens with
          | nil =>
              rw [readExpr_open_nil hkind] at hread
              cases hread
          | cons next tokens =>
              by_cases hclose : next.kind = .closeParen
              · rw [readExpr_open_close hkind hclose] at hread
                cases hread
                exact ⟨[token, next], rfl, .null hkind hclose⟩
              by_cases hname : next.kind = .argumentName
              · rw [readExpr_open_name hkind hname] at hread
                cases hread
              rw [readExpr_call hkind hclose hname] at hread
              split at hread
              · cases hread
              next head rest₁ hhead =>
                obtain ⟨first, hfirst, hreads⟩ := h.expr _ htokens head rest₁ hhead
                have hlength := congrArg List.length hfirst
                obtain ⟨_, _, rfl, -⟩ := hreads.exists_cons
                simp only [List.length_append, List.length_cons] at hlength htokens
                rw [hfirst]
                split at hread
                next hfunction =>
                  obtain ⟨left', params, right', body, right, formals, slots, rfl, hleft', hright',
                    hright, hparams, hdistinct, hbody, rfl⟩ :=
                    h.readFunction (by omega) hread
                  rw [isSymbol_function.mp hfunction] at hreads
                  exact ⟨_, by simp, .function hkind hright hleft' hright' hreads hparams hdistinct
                    hbody⟩
                next hfunction =>
                  split at hread
                  next slots rest₂ hslots =>
                    cases hread
                    obtain ⟨others, right, rfl, hright, hothers⟩ :=
                      h.slots token.offset rest₁ (by omega) slots rest hslots
                    exact ⟨_, by simp, .call hkind hright hreads (mt isSymbol_function.mpr hfunction)
                      hothers⟩
                  · cases hread

theorem SoundBelow.readSlots {n : Nat} (h : SoundBelow pending n) (offset : Nat)
    {tokens : List Token} (htokens : tokens.length ≤ n) :
    SoundBefore (readSlots pending offset) ReadsSlots tokens := by
  intro slots rest hread
  cases tokens with
  | nil => simp at hread
  | cons token tokens =>
      by_cases hclose : token.kind = .closeParen
      · rw [readSlots_close hclose] at hread
        cases hread
        exact ⟨[], token, rfl, hclose, .nil⟩
      by_cases hname : token.kind = .argumentName
      · cases tokens with
        | nil =>
            rw [readSlots_name_nil hname] at hread
            cases hread
        | cons next tokens =>
            by_cases hnext : next.kind = .closeParen
            · rw [readSlots_name_close hname hnext] at hread
              cases hread
            rw [readSlots_name hname hnext] at hread
            split at hread
            · cases hread
            next e rest₁ he =>
              obtain ⟨first, hfirst, hreads⟩ := h.readExpr (by simp at *; omega) e rest₁ he
              have hlength := congrArg List.length hfirst
              obtain ⟨_, _, rfl, -⟩ := hreads.exists_cons
              simp only [List.length_append, List.length_cons] at hlength htokens
              split at hread
              next slots rest₂ hslots =>
                cases hread
                obtain ⟨others, right, rfl, hright, hothers⟩ :=
                  h.slots offset rest₁ (by omega) slots rest hslots
                exact ⟨_, right, by simp [hfirst], hright, .named hname hreads hothers⟩
              · cases hread
      · rw [readSlots_bare hclose hname] at hread
        split at hread
        · cases hread
        next e rest₁ he =>
          obtain ⟨first, hfirst, hreads⟩ := h.readExpr htokens e rest₁ he
          have hlength := congrArg List.length hfirst
          obtain ⟨_, _, rfl, -⟩ := hreads.exists_cons
          simp only [List.length_append, List.length_cons] at hlength htokens
          split at hread
          next slots rest₂ hslots =>
            cases hread
            obtain ⟨others, right, rfl, hright, hothers⟩ :=
              h.slots offset rest₁ (by omega) slots rest hslots
            exact ⟨_, right, by simp [hfirst], hright, .bare hreads hothers⟩
          · cases hread

theorem symbolName?_eq_some {e : Expr} {name : String} (h : e.symbolName? = some name) :
    e = .symbol name := by
  cases e <;> simp_all [Expr.symbolName?]

theorem SoundBelow.readFormals {n : Nat} (h : SoundBelow pending n) (offset : Nat)
    {tokens : List Token} (htokens : tokens.length ≤ n) :
    SoundBefore (readFormals pending offset) ReadsFormals tokens := by
  intro formals rest hread
  cases tokens with
  | nil => simp at hread
  | cons token tokens =>
      by_cases hclose : token.kind = .closeParen
      · rw [readFormals_close hclose] at hread
        cases hread
        exact ⟨[], token, rfl, hclose, .nil⟩
      by_cases hopen : token.kind = .openParen
      · rw [readFormals_open hopen] at hread
        split at hread
        · cases hread
        next name rest₁ hname =>
          obtain ⟨first, rfl, hreads⟩ := h.expr tokens htokens name rest₁ hname
          simp only [List.length_append, List.length_cons] at htokens
          split at hread
          · cases hread
          next default rest₂ hdefault =>
            obtain ⟨second, rfl, hreads'⟩ := h.expr rest₁ (by omega) default rest₂ hdefault
            simp only [List.length_append] at htokens
            split at hread
            · cases hread
            · cases hread
            next name' right rest₃ hsymbol =>
              split at hread
              next hright =>
                split at hread
                next formals rest₄ hformals =>
                  cases hread
                  simp only [List.length_cons] at htokens
                  obtain ⟨others, right', rfl, hright', hothers⟩ :=
                    h.formals offset rest₃ (by omega) formals rest hformals
                  rw [symbolName?_eq_some hsymbol] at hreads
                  exact ⟨_, right', by simp, hright',
                    .withDefault hopen hright hreads hreads' hothers⟩
                · cases hread
              · cases hread
      · rw [readFormals_plain hclose hopen] at hread
        split at hread
        · cases hread
        next name rest₁ hname =>
          obtain ⟨first, hfirst, hreads⟩ := h.readExpr htokens name rest₁ hname
          have hlength := congrArg List.length hfirst
          obtain ⟨_, _, rfl, -⟩ := hreads.exists_cons
          simp only [List.length_append, List.length_cons] at hlength htokens
          split at hread
          · cases hread
          next name' hsymbol =>
            split at hread
            next formals rest₂ hformals =>
              cases hread
              obtain ⟨others, right, rfl, hright, hothers⟩ :=
                h.formals offset rest₁ (by omega) formals rest hformals
              rw [symbolName?_eq_some hsymbol] at hreads
              exact ⟨_, right, by simp [hfirst], hright, .plain hreads hothers⟩
            · cases hread

theorem soundBelow (pending : Option SyntaxFault) (n : Nat) : SoundBelow pending n := by
  induction n with
  | zero => exact ⟨fun _ h => by omega, fun _ _ h => by omega, fun _ _ h => by omega⟩
  | succ n ih =>
      exact ⟨fun _ h => ih.readExpr (Nat.le_of_lt_succ h),
        fun offset _ h => ih.readSlots offset (Nat.le_of_lt_succ h),
        fun offset _ h => ih.readFormals offset (Nat.le_of_lt_succ h)⟩

end Sound

/-! ## The readings of a list of tokens -/

section Main

variable {pending : Option SyntaxFault} {tokens rest consumed : List Token} {e : Expr}

theorem readExpr_eq_ok_iff : readExpr pending tokens = .ok (e, rest) ↔
    ∃ consumed, tokens = consumed ++ rest ∧ Reads consumed e := by
  constructor
  · exact (soundBelow pending _).expr tokens (Nat.lt_succ_self _) e rest
  · rintro ⟨consumed, rfl, h⟩
    exact h.complete pending rest

/-- Two prefixes of a list that read as trees are the same, and so are the trees. -/
theorem Reads.unique {consumed' rest' : List Token} {e' : Expr} (h : Reads consumed e)
    (h' : Reads consumed' e') (heq : consumed ++ rest = consumed' ++ rest') :
    consumed = consumed' ∧ e = e' := by
  have hread := h.complete none rest
  rw [heq, h'.complete none rest'] at hread
  cases hread
  exact ⟨List.append_cancel_right heq, rfl⟩

theorem parseOne_eq_ok_iff : parseOne ⟨tokens, pending⟩ = .ok e ↔
    pending = none ∧ Reads tokens e := by
  cases tokens with
  | nil =>
      have hnil : ¬ Reads [] e := fun h => by
        obtain ⟨_, _, h, -⟩ := h.exists_cons
        cases h
      cases pending <;> simp [parseOne, hnil]
  | cons token others =>
      have hread : Reads (token :: others) e ↔ readExpr pending (token :: others) = .ok (e, []) := by
        rw [readExpr_eq_ok_iff]
        simp
      rw [hread, readExpr]
      simp only [parseOne]
      rcases parseExpr pending (token :: others) with fault | ⟨⟨e', rest⟩, hlt⟩
      · simp [Except.map]
      · cases rest <;> cases pending <;> simp [Except.map]

end Main

end Quasi.Reader
