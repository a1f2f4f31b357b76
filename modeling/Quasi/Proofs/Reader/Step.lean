import Quasi.Reader.Parser

/-!
# Reading step by step

What each reader does with the token in front, without the lengths that make the descent end. Proofs
about reading follow these equations and open the readers themselves no more.
-/

namespace Quasi.Reader

def readExpr (pending : Option SyntaxFault) (tokens : List Token) :
    Except SyntaxFault (Expr × List Token) := (parseExpr pending tokens).map Subtype.val

def readSlots (pending : Option SyntaxFault) (offset : Nat) (tokens : List Token) :
    Except SyntaxFault (List Slot × List Token) :=
  (parseSlots pending offset tokens).map Subtype.val

def readFunction (pending : Option SyntaxFault) (offset : Nat) (tokens : List Token) :
    Except SyntaxFault (Expr × List Token) :=
  (parseFunction pending offset tokens).map Subtype.val

def readFormals (pending : Option SyntaxFault) (offset : Nat) (tokens : List Token) :
    Except SyntaxFault (List Formal × List Token) :=
  (parseFormals pending offset tokens).map Subtype.val

section Equations

variable {pending : Option SyntaxFault} {offset : Nat} {token next : Token} {rest : List Token}

theorem isSymbol_function {e : Expr} : e.isSymbol "function" = true ↔ e = .symbol "function" := by
  cases e <;> simp [Expr.isSymbol]

theorem map_val_widen {α : Type} {fewer tokens : List Token} (h : fewer.length < tokens.length)
    (r : Parsed α fewer) : (r.widen h).map Subtype.val = r.map Subtype.val := by
  rcases r with fault | ⟨x, hx⟩ <;> rfl

@[simp] theorem readExpr_nil : readExpr pending [] = .error (atEnd pending .endOfInput) := by
  rw [readExpr, parseExpr.eq_def]
  rfl

theorem readExpr_word (h : token.kind = .word) :
    readExpr pending (token :: rest) = .ok (atom token.text, rest) := by
  rw [readExpr, parseExpr.eq_def]
  simp only [h]
  rfl

theorem readExpr_backquoted (h : token.kind = .backquoted) :
    readExpr pending (token :: rest) = .ok (.symbol (backquotedName token.text), rest) := by
  rw [readExpr, parseExpr.eq_def]
  simp only [h]
  rfl

theorem readExpr_string (h : token.kind = .string) : readExpr pending (token :: rest) =
    match stringText? token.text with
    | .ok text => .ok (.const (.str text), rest)
    | .error fault => .error (.literal token.offset fault) := by
  rw [readExpr, parseExpr.eq_def]
  simp only [h]
  cases stringText? token.text <;> rfl

theorem readExpr_quote (h : token.kind = .quote) : readExpr pending (token :: rest) =
    match rest with
    | [] => .error (atEnd pending (.nothingToQuote token.text token.offset))
    | _ =>
        match readExpr pending rest with
        | .ok (e, rest) => .ok (.apply (quoteHead token.text) [e], rest)
        | .error fault => .error fault := by
  rw [readExpr, parseExpr.eq_def]
  simp only [h]
  cases rest with
  | nil => rfl
  | cons next others =>
      simp only [readExpr]
      cases parseExpr pending (next :: others) <;> rfl

theorem readExpr_argumentName (h : token.kind = .argumentName) : 
    readExpr pending (token :: rest) = .error (.strayName token.text token.offset) := by
  rw [readExpr, parseExpr.eq_def]
  simp only [h]
  rfl

theorem readExpr_closeParen (h : token.kind = .closeParen) : 
    readExpr pending (token :: rest) = .error (.strayClose token.offset) := by
  rw [readExpr, parseExpr.eq_def]
  simp only [h]
  rfl

theorem readExpr_open_nil (h : token.kind = .openParen) :
    readExpr pending [token] = .error (atEnd pending .endOfInput) := by
  rw [readExpr, parseExpr.eq_def]
  simp only [h]
  rfl

theorem readExpr_open_close (h : token.kind = .openParen) (hnext : next.kind = .closeParen) :
    readExpr pending (token :: next :: rest) = .ok (.const .null, rest) := by
  rw [readExpr, parseExpr.eq_def]
  simp only [h, hnext]
  rfl

theorem readExpr_open_name (h : token.kind = .openParen) (hnext : next.kind = .argumentName) :
    readExpr pending (token :: next :: rest) = .error (.namedHead next.offset) := by
  rw [readExpr, parseExpr.eq_def]
  simp only [h, hnext]
  rfl

theorem readExpr_call (h : token.kind = .openParen) (hclose : next.kind ≠ .closeParen)
    (hname : next.kind ≠ .argumentName) : readExpr pending (token :: next :: rest) =
      match readExpr pending (next :: rest) with
      | .error fault => .error fault
      | .ok (head, rest) =>
          if head.isSymbol "function" then readFunction pending token.offset rest
          else
            match readSlots pending token.offset rest with
            | .ok (slots, rest) => .ok (.call head slots, rest)
            | .error fault => .error fault := by
  rw [readExpr, parseExpr.eq_def]
  simp only [h, readExpr, readFunction, readSlots]
  rcases parseExpr pending (next :: rest) with fault | ⟨⟨head, others⟩, hlt⟩
  · rfl
  · simp only [Except.map]
    by_cases hf : head.isSymbol "function"
    · simp only [hf, if_true]
      exact map_val_widen _ _
    · simp only [hf, Bool.false_eq_true, if_false]
      cases parseSlots pending token.offset others <;> rfl

@[simp] theorem readSlots_nil : readSlots pending offset [] =
    .error (atEnd pending (.unmatchedOpen offset)) := by
  rw [readSlots, parseSlots.eq_def]
  rfl

theorem readSlots_close (h : token.kind = .closeParen) :
    readSlots pending offset (token :: rest) = .ok ([], rest) := by
  rw [readSlots, parseSlots.eq_def]
  simp only [h]
  rfl

theorem readSlots_name_nil (h : token.kind = .argumentName) :
    readSlots pending offset [token] =
      .error (atEnd pending (.nameWithoutValue token.text token.offset)) := by
  rw [readSlots, parseSlots.eq_def]
  simp only [h]
  rfl

theorem readSlots_name_close (h : token.kind = .argumentName) (hnext : next.kind = .closeParen) :
    readSlots pending offset (token :: next :: rest) =
      .error (.nameWithoutValue token.text token.offset) := by
  rw [readSlots, parseSlots.eq_def]
  simp only [h, hnext]
  rfl

theorem readSlots_name (h : token.kind = .argumentName) (hnext : next.kind ≠ .closeParen) :
    readSlots pending offset (token :: next :: rest) =
      match readExpr pending (next :: rest) with
      | .error fault => .error fault
      | .ok (e, rest) =>
          match readSlots pending offset rest with
          | .ok (slots, rest) =>
              .ok (⟨some (String.ofList (token.text.toList.drop 1)), e⟩ :: slots, rest)
          | .error fault => .error fault := by
  rw [readSlots, parseSlots.eq_def]
  simp only [h, hnext, if_false, readExpr, readSlots]
  rcases parseExpr pending (next :: rest) with fault | ⟨⟨e, others⟩, hlt⟩
  · rfl
  · simp only [Except.map]
    cases parseSlots pending offset others <;> rfl

theorem readSlots_bare (hclose : token.kind ≠ .closeParen) (hname : token.kind ≠ .argumentName) :
    readSlots pending offset (token :: rest) =
      match readExpr pending (token :: rest) with
      | .error fault => .error fault
      | .ok (e, rest) =>
          match readSlots pending offset rest with
          | .ok (slots, rest) => .ok (⟨none, e⟩ :: slots, rest)
          | .error fault => .error fault := by
  rw [readSlots, parseSlots.eq_def]
  simp only [readExpr, readSlots]
  rcases parseExpr pending (token :: rest) with fault | ⟨⟨e, others⟩, hlt⟩
  · rfl
  · simp only [Except.map]
    cases parseSlots pending offset others <;> rfl

@[simp] theorem readFunction_nil : readFunction pending offset [] =
    .error (atEnd pending (.noFormals none)) := by
  rw [readFunction, parseFunction.eq_def]
  rfl

theorem readFunction_open (h : token.kind = .openParen) :
    readFunction pending offset (token :: rest) =
      match readFormals pending offset rest with
      | .error fault => .error fault
      | .ok (formals, rest) =>
          match readSlots pending offset rest with
          | .error fault => .error fault
          | .ok (slots, rest) =>
              match repeatedName? (formals.map (·.1)) with
              | some name => .error (.repeatedFormal name)
              | none => .ok (functionExpr formals (slots.map (·.item)), rest) := by
  rw [readFunction, parseFunction.eq_def]
  simp only [h, if_true, readFormals, readSlots]
  rcases parseFormals pending offset rest with fault | ⟨⟨formals, others⟩, hlt⟩
  · rfl
  · simp only [Except.map]
    rcases parseSlots pending offset others with fault | ⟨⟨slots, others'⟩, hlt'⟩
    · rfl
    · simp only
      cases repeatedName? (formals.map (·.1)) <;> rfl

theorem readFunction_of_ne (h : token.kind ≠ .openParen) :
    readFunction pending offset (token :: rest) = .error (.noFormals (some token.offset)) := by
  rw [readFunction, parseFunction.eq_def]
  simp only [h, if_false]
  rfl

@[simp] theorem readFormals_nil : readFormals pending offset [] =
    .error (atEnd pending (.unmatchedOpen offset)) := by
  rw [readFormals, parseFormals.eq_def]
  rfl

theorem readFormals_close (h : token.kind = .closeParen) :
    readFormals pending offset (token :: rest) = .ok ([], rest) := by
  rw [readFormals, parseFormals.eq_def]
  simp only [h]
  rfl

theorem readFormals_open (h : token.kind = .openParen) :
    readFormals pending offset (token :: rest) =
      match readExpr pending rest with
      | .error fault => .error fault
      | .ok (name, rest) =>
          match readExpr pending rest with
          | .error fault => .error fault
          | .ok (default, rest) =>
              match name.symbolName?, rest with
              | none, _ => .error (.badDefault token.offset)
              | some _, [] => .error (atEnd pending (.badDefault token.offset))
              | some name, close :: rest =>
                  if close.kind = .closeParen then
                    match readFormals pending offset rest with
                    | .ok (formals, rest) => .ok ((name, default) :: formals, rest)
                    | .error fault => .error fault
                  else .error (.badDefault token.offset) := by
  rw [readFormals, parseFormals.eq_def]
  simp only [h, readExpr, readFormals]
  rcases parseExpr pending rest with fault | ⟨⟨name, others⟩, hlt⟩
  · rfl
  · simp only [Except.map]
    rcases parseExpr pending others with fault | ⟨⟨default, others'⟩, hlt'⟩
    · rfl
    · cases name.symbolName? with
      | none => rfl
      | some name =>
          cases others' with
          | nil => rfl
          | cons close others'' =>
              by_cases hclose : close.kind = .closeParen
              · simp only [hclose, if_true]
                cases parseFormals pending offset others'' <;> rfl
              · simp only [hclose, if_false]

theorem readFormals_plain (hclose : token.kind ≠ .closeParen) (hopen : token.kind ≠ .openParen) :
    readFormals pending offset (token :: rest) =
      match readExpr pending (token :: rest) with
      | .error fault => .error fault
      | .ok (name, rest) =>
          match name.symbolName? with
          | none => .error (.badFormal token.text token.offset)
          | some name =>
              match readFormals pending offset rest with
              | .ok (formals, rest) => .ok ((name, .missing) :: formals, rest)
              | .error fault => .error fault := by
  rw [readFormals, parseFormals.eq_def]
  simp only [readExpr, readFormals]
  rcases parseExpr pending (token :: rest) with fault | ⟨⟨name, others⟩, hlt⟩
  · rfl
  · simp only [Except.map]
    cases name.symbolName? with
    | none => rfl
    | some name => cases parseFormals pending offset others <;> rfl

/-- What is left after a reading is shorter. -/
theorem length_of_map_val {α : Type} {tokens : List Token} {r : Parsed α tokens}
    {result : α × List Token} (h : r.map Subtype.val = .ok result) :
    result.2.length < tokens.length := by
  rcases r with fault | ⟨x, hx⟩
  · cases h
  · cases h
    exact hx

@[simp] theorem parseAll_nil {fault : Option SyntaxFault} : parseAll ⟨[], fault⟩ = ([], fault) := by
  rw [parseAll.eq_def]
  cases fault <;> rfl

theorem parseAll_cons : parseAll ⟨token :: rest, pending⟩ =
    match readExpr pending (token :: rest) with
    | .error fault => ([], some fault)
    | .ok (e, rest) => (e :: (parseAll ⟨rest, pending⟩).1, (parseAll ⟨rest, pending⟩).2) := by
  rw [parseAll.eq_def, readExpr]
  simp only [next?]
  rcases parseExpr pending (token :: rest) with fault | ⟨⟨e, others⟩, hlt⟩ <;> rfl

end Equations

end Quasi.Reader
