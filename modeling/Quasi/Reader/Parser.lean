import Quasi.Reader.Atom

/-!
# Reading expressions

A recursive descent over the tokens of a source. Each reader gives back what it read and the
tokens after it, which are fewer, so the descent ends. A fault of the lexer counts only once the
tokens before it are used up.
-/

namespace Quasi.Reader

/-- What was read from the front of `tokens`, with the shorter rest. -/
abbrev Parsed (α : Type) (tokens : List Token) :=
  Except SyntaxFault { result : α × List Token // result.2.length < tokens.length }

/-- The rest of a reading counts as read from a longer list of tokens too. -/
def Parsed.widen {α : Type} {fewer tokens : List Token} (h : fewer.length < tokens.length) :
    Parsed α fewer → Parsed α tokens
  | .ok ⟨result, hr⟩ => .ok ⟨result, Nat.lt_trans hr h⟩
  | .error fault => .error fault

/-- The fault at the end of the tokens: the lexer's own, or else `fault`. -/
def atEnd (pending : Option SyntaxFault) (fault : SyntaxFault) : SyntaxFault :=
  pending.getD fault

/-- The head of the call that a quotation mark abbreviates. -/
def quoteHead (mark : String) : String :=
  if mark = "'" then "quote" else if mark = "," then "!!" else "!!!"

/-- A function expression from its formals and body forms. Several forms make one block. -/
def functionExpr (formals : List Formal) (body : List Expr) : Expr :=
  let body := match body with
    | _ :: _ :: _ => [Expr.apply "\x7b" body]
    | _ => body
  .call (.symbol "function") (⟨none, .formals formals⟩ :: body.map Tagged.bare)

/-- The first name that occurs twice. -/
def repeatedName? (names : List String) : Option String :=
  go [] names
where
  go : List String → List String → Option String
    | _, [] => none
    | seen, name :: rest => if seen.contains name then some name else go (name :: seen) rest

mutual

/-- One expression. -/
def parseExpr (pending : Option SyntaxFault) (tokens : List Token) : Parsed Expr tokens :=
  match tokens with
  | [] => .error (atEnd pending .endOfInput)
  | token :: rest =>
      match token.kind with
      | .word => .ok ⟨(atom token.text, rest), by simp⟩
      | .backquoted => .ok ⟨(.symbol (backquotedName token.text), rest), by simp⟩
      | .string =>
          match stringText? token.text with
          | .ok text => .ok ⟨(.const (.str text), rest), by simp⟩
          | .error fault => .error (.literal token.offset fault)
      | .quote =>
          match rest with
          | [] => .error (atEnd pending (.nothingToQuote token.text token.offset))
          | next :: rest' =>
              match parseExpr pending (next :: rest') with
              | .ok ⟨(expr, rest''), h⟩ =>
                  .ok ⟨(Expr.apply (quoteHead token.text) [expr], rest''), by
                    simp only [List.length_cons] at *; omega⟩
              | .error fault => .error fault
      | .argumentName => .error (.strayName token.text token.offset)
      | .closeParen => .error (.strayClose token.offset)
      | .openParen =>
          match rest with
          | [] => .error (atEnd pending .endOfInput)
          | next :: rest' =>
              match next.kind with
              | .closeParen => .ok ⟨(.const .null, rest'), by
                  simp only [List.length_cons]; omega⟩
              | .argumentName => .error (.namedHead next.offset)
              | _ =>
                  match parseExpr pending (next :: rest') with
                  | .error fault => .error fault
                  | .ok ⟨(head, rest''), h⟩ =>
                      if head.isSymbol "function" then
                        (parseFunction pending token.offset rest'').widen (by
                          simp only [List.length_cons] at *; omega)
                      else
                        match parseSlots pending token.offset rest'' with
                        | .ok ⟨(slots, rest'''), h'⟩ =>
                            .ok ⟨(.call head slots, rest'''), by
                              simp only [List.length_cons] at *; omega⟩
                        | .error fault => .error fault
termination_by (tokens.length, 0)
decreasing_by
  all_goals simp_wf
  all_goals try simp only [List.length_cons] at *
  all_goals omega

/-- The argument slots of a call up to the closing parenthesis. -/
def parseSlots (pending : Option SyntaxFault) (offset : Nat) (tokens : List Token) :
    Parsed (List Slot) tokens :=
  match tokens with
  | [] => .error (atEnd pending (.unmatchedOpen offset))
  | token :: rest =>
      match token.kind with
      | .closeParen => .ok ⟨([], rest), by simp⟩
      | .argumentName =>
          match rest with
          | [] => .error (atEnd pending (.nameWithoutValue token.text token.offset))
          | next :: rest' =>
              if next.kind = .closeParen then
                .error (.nameWithoutValue token.text token.offset)
              else
                match parseExpr pending (next :: rest') with
                | .error fault => .error fault
                | .ok ⟨(value, rest''), h⟩ =>
                    match parseSlots pending offset rest'' with
                    | .ok ⟨(slots, rest'''), h'⟩ =>
                        .ok ⟨(⟨some (String.ofList (token.text.toList.drop 1)), value⟩ :: slots,
                          rest'''), by simp only [List.length_cons] at *; omega⟩
                    | .error fault => .error fault
      | _ =>
          match parseExpr pending (token :: rest) with
          | .error fault => .error fault
          | .ok ⟨(value, rest'), h⟩ =>
              match parseSlots pending offset rest' with
              | .ok ⟨(slots, rest''), h'⟩ =>
                  .ok ⟨(⟨none, value⟩ :: slots, rest''), by
                    simp only [List.length_cons] at *; omega⟩
              | .error fault => .error fault
termination_by (tokens.length, 1)
decreasing_by
  all_goals simp_wf
  all_goals try simp only [List.length_cons] at *
  all_goals omega

/-- The formals and the body of a function expression. A formal that is repeated is noticed last. -/
def parseFunction (pending : Option SyntaxFault) (offset : Nat) (tokens : List Token) :
    Parsed Expr tokens :=
  match tokens with
  | [] => .error (atEnd pending (.noFormals none))
  | token :: rest =>
      if token.kind = .openParen then
        match parseFormals pending offset rest with
        | .error fault => .error fault
        | .ok ⟨(formals, rest'), h⟩ =>
            match parseSlots pending offset rest' with
            | .error fault => .error fault
            | .ok ⟨(slots, rest''), h'⟩ =>
                match repeatedName? (formals.map (·.1)) with
                | some name => .error (.repeatedFormal name)
                | none =>
                    .ok ⟨(functionExpr formals (slots.map (·.item)), rest''), by
                      simp only at *; simp only [List.length_cons]; omega⟩
      else .error (.noFormals (some token.offset))
termination_by (tokens.length, 1)
decreasing_by
  · simp_wf
    omega
  · simp_wf
    simp only at h
    omega

/-- A list of formals up to its closing parenthesis. -/
def parseFormals (pending : Option SyntaxFault) (offset : Nat) (tokens : List Token) :
    Parsed (List Formal) tokens :=
  match tokens with
  | [] => .error (atEnd pending (.unmatchedOpen offset))
  | token :: rest =>
      match token.kind with
      | .closeParen => .ok ⟨([], rest), by simp⟩
      | .openParen =>
          match parseExpr pending rest with
          | .error fault => .error fault
          | .ok ⟨(name, rest'), h⟩ =>
              match parseExpr pending rest' with
              | .error fault => .error fault
              | .ok ⟨(default, rest''), h'⟩ =>
                  match name.symbolName? with
                  | some name =>
                      match rest'' with
                      | [] => .error (atEnd pending (.badDefault token.offset))
                      | close :: rest''' =>
                          if close.kind = .closeParen then
                            match parseFormals pending offset rest''' with
                            | .ok ⟨(formals, last), h''⟩ =>
                                .ok ⟨((name, default) :: formals, last), by
                                  simp only [List.length_cons] at *; omega⟩
                            | .error fault => .error fault
                          else .error (.badDefault token.offset)
                  | none => .error (.badDefault token.offset)
      | _ =>
          match parseExpr pending (token :: rest) with
          | .error fault => .error fault
          | .ok ⟨(name, rest'), h⟩ =>
              match name.symbolName? with
              | some name =>
                  match parseFormals pending offset rest' with
                  | .ok ⟨(formals, rest''), h'⟩ =>
                      .ok ⟨((name, .missing) :: formals, rest''), by
                        simp only [List.length_cons] at *; omega⟩
                  | .error fault => .error fault
              | none => .error (.badFormal token.text token.offset)
termination_by (tokens.length, 1)
decreasing_by
  all_goals simp_wf
  all_goals try simp only [List.length_cons] at *
  all_goals omega

end

/-- The next expression of a source, if one is left, and the source after it. -/
def next? (source : TokenStream) : Except SyntaxFault (Option (Expr × TokenStream)) :=
  match source.tokens, source.fault with
  | [], some fault => .error fault
  | [], none => .ok none
  | tokens@(_ :: _), fault =>
      match parseExpr fault tokens with
      | .ok ⟨(expr, rest), _⟩ => .ok (some (expr, ⟨rest, fault⟩))
      | .error fault => .error fault

theorem length_of_next? {source rest : TokenStream} {expr : Expr}
    (h : next? source = .ok (some (expr, rest))) : rest.tokens.length < source.tokens.length := by
  unfold next? at h
  split at h
  · simp at h
  · simp at h
  · rename_i hs
    split at h
    · rename_i hlt _
      simp only [Except.ok.injEq, Option.some.injEq, Prod.mk.injEq] at h
      rw [← h.2, hs]
      exact hlt
    · simp at h

/-- The expressions of a whole source, and the fault at which reading them stopped. -/
def parseAll (source : TokenStream) : List Expr × Option SyntaxFault :=
  match _h : next? source with
  | .error fault => ([], some fault)
  | .ok none => ([], none)
  | .ok (some (expr, rest)) =>
      let (others, fault) := parseAll rest
      (expr :: others, fault)
termination_by source.tokens.length
decreasing_by exact length_of_next? _h

/-- The only expression of a source. -/
def parseOne (source : TokenStream) : Except SyntaxFault Expr :=
  match source.tokens, source.fault with
  | [], some fault => .error fault
  | [], none => .error .noExpression
  | tokens@(_ :: _), fault =>
      match parseExpr fault tokens with
      | .error fault => .error fault
      | .ok ⟨(expr, rest), _⟩ =>
          match rest, fault with
          | [], some fault => .error fault
          | [], none => .ok expr
          | token :: _, _ => .error (.trailing token.text token.offset)

end Quasi.Reader
