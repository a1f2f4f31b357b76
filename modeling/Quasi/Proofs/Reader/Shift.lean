import Quasi.Proofs.Reader.Lexing
import Quasi.Proofs.Reader.Step

/-!
# Reading further on in a text

A text that stands further on in a source reads as it would alone. Its tokens, what is left of them
and the faults are the same but for their offsets, each of which is shifted by as much as the text
is. The end of the input is no place in the text and is shown alike wherever it is met.
-/

namespace Quasi

/-- The fault of the same text, `k` characters further on. -/
def SyntaxFault.shift (k : Nat) : SyntaxFault → SyntaxFault
  | .openComment offset => .openComment (offset + k)
  | .character c offset => .character c (offset + k)
  | .endOfInput => .endOfInput
  | .literal offset fault => .literal (offset + k) fault
  | .nothingToQuote mark offset => .nothingToQuote mark (offset + k)
  | .strayName token offset => .strayName token (offset + k)
  | .strayClose offset => .strayClose (offset + k)
  | .namedHead offset => .namedHead (offset + k)
  | .unmatchedOpen offset => .unmatchedOpen (offset + k)
  | .nameWithoutValue token offset => .nameWithoutValue token (offset + k)
  | .noFormals offset => .noFormals (offset.map (· + k))
  | .badDefault offset => .badDefault (offset + k)
  | .badFormal token offset => .badFormal token (offset + k)
  | .repeatedFormal name => .repeatedFormal name
  | .noExpression => .noExpression
  | .trailing token offset => .trailing token (offset + k)
  | .badFormals shown => .badFormals shown

namespace Reader

def Token.shift (k : Nat) (token : Token) : Token := { token with offset := token.offset + k }

theorem Token.shift_eq {k : Nat} {kind : TokenKind} {token : Token} (h : token.kind = kind) :
    (token.shift k).kind = kind := h

theorem Token.shift_ne {k : Nat} {kind : TokenKind} {token : Token} (h : token.kind ≠ kind) :
    (token.shift k).kind ≠ kind := h

@[simp] theorem Token.text_shift (k : Nat) (token : Token) : (token.shift k).text = token.text := rfl

@[simp] theorem Token.offset_shift (k : Nat) (token : Token) :
    (token.shift k).offset = token.offset + k := rfl

def TokenStream.shift (k : Nat) (stream : TokenStream) : TokenStream :=
  ⟨stream.tokens.map (Token.shift k), stream.fault.map (SyntaxFault.shift k)⟩

/-! ## Lexing -/

theorem shift_prepend (k : Nat) (tokens : List Token) (stream : TokenStream) :
    (stream.prepend tokens).shift k =
      (stream.shift k).prepend (tokens.map (Token.shift k)) := by
  simp [TokenStream.prepend, TokenStream.shift]

/-- The end of a source has the same tokens in a longer source, further on. -/
theorem lexFrom_shift (k : Nat) {total : Nat} {text : List Char} (h : text.length ≤ total) :
    lexFrom (total + k) text = (lexFrom total text).shift k := by
  induction hn : text.length using Nat.strong_induction_on generalizing text with
  | _ n ih =>
      subst hn
      rw [lexFrom_eq, lexFrom_eq total text]
      rcases hgap : skipGap text with rest | rest
      · have hle : rest.length ≤ text.length := (skipGap_open_suffix hgap).length_le
        have hoffset : total + k - rest.length = total - rest.length + k := by omega
        simp [TokenStream.shift, SyntaxFault.shift, hoffset]
      · have hle : rest.length ≤ text.length := length_of_skipGap hgap
        cases rest with
        | nil => rfl
        | cons c rest =>
            simp only [List.length_cons] at hle
            have hoffset : total + k - (rest.length + 1) = total - (rest.length + 1) + k := by omega
            rcases hscan : scan? (c :: rest) with _ | ⟨kind, length⟩
            · simp [hscan, TokenStream.shift, SyntaxFault.shift, hoffset]
            · have hpos := pos_of_scan? hscan
              have hdrop : ((c :: rest).drop length).length < text.length := by
                simp only [List.length_drop, List.length_cons]
                omega
              have hrest := ih _ hdrop (Nat.le_trans (Nat.le_of_lt hdrop) h) rfl
              simp only [hscan, shift_prepend, hrest, hoffset]
              rfl

/-! ## Reading -/

/-- What is read of tokens that stand further on. -/
def shifted {α : Type} (k : Nat) :
    Except SyntaxFault (α × List Token) → Except SyntaxFault (α × List Token)
  | .ok (a, rest) => .ok (a, rest.map (Token.shift k))
  | .error fault => .error (fault.shift k)

@[simp] theorem shifted_ok {α : Type} (k : Nat) (a : α) (rest : List Token) :
    shifted k (.ok (a, rest)) = .ok (a, rest.map (Token.shift k)) := rfl

@[simp] theorem shifted_error {α : Type} (k : Nat) (fault : SyntaxFault) :
    shifted (α := α) k (.error fault) = .error (fault.shift k) := rfl

@[simp] theorem atEnd_shift (k : Nat) (pending : Option SyntaxFault) (fault : SyntaxFault) :
    atEnd (pending.map (SyntaxFault.shift k)) (fault.shift k) = (atEnd pending fault).shift k := by
  cases pending <;> rfl

section Shifts

variable {k : Nat} {pending : Option SyntaxFault}

/-- What is assumed of the tokens after those that were read already. -/
structure ShiftsBelow (k : Nat) (pending : Option SyntaxFault) (n : Nat) : Prop where
  expr : ∀ tokens : List Token, tokens.length < n →
    readExpr (pending.map (.shift k)) (tokens.map (.shift k)) = shifted k (readExpr pending tokens)
  slots : ∀ (offset : Nat) (tokens : List Token), tokens.length < n →
    readSlots (pending.map (.shift k)) (offset + k) (tokens.map (.shift k)) =
      shifted k (readSlots pending offset tokens)
  formals : ∀ (offset : Nat) (tokens : List Token), tokens.length < n →
    readFormals (pending.map (.shift k)) (offset + k) (tokens.map (.shift k)) =
      shifted k (readFormals pending offset tokens)

theorem ShiftsBelow.step_function {n : Nat} (h : ShiftsBelow k pending n) {offset : Nat}
    {tokens : List Token} (htokens : tokens.length ≤ n) :
    readFunction (pending.map (.shift k)) (offset + k) (tokens.map (.shift k)) =
      shifted k (readFunction pending offset tokens) := by
  cases tokens with
  | nil =>
      rw [List.map_nil, readFunction_nil, readFunction_nil, shifted_error, ← atEnd_shift]
      rfl
  | cons token tokens =>
      rw [List.map_cons]
      by_cases hopen : token.kind = .openParen
      · rw [readFunction_open hopen, readFunction_open (Token.shift_eq hopen),
          h.formals offset tokens htokens]
        rcases hformals : readFormals pending offset tokens with fault | ⟨formals, rest⟩
        · rfl
        have hrest := length_of_map_val hformals
        rw [shifted_ok]
        simp only
        rw [h.slots offset rest (Nat.lt_trans hrest htokens)]
        rcases readSlots pending offset rest with fault | ⟨slots, rest'⟩
        · rfl
        rw [shifted_ok]
        simp only
        cases repeatedName? (formals.map (·.1)) <;> rfl
      · rw [readFunction_of_ne hopen, readFunction_of_ne (Token.shift_ne hopen)]
        rfl

theorem ShiftsBelow.step_expr {n : Nat} (h : ShiftsBelow k pending n) {tokens : List Token}
    (htokens : tokens.length ≤ n) :
    readExpr (pending.map (.shift k)) (tokens.map (.shift k)) =
      shifted k (readExpr pending tokens) := by
  cases tokens with
  | nil =>
      rw [List.map_nil, readExpr_nil, readExpr_nil, shifted_error, ← atEnd_shift]
      rfl
  | cons token tokens =>
      rw [List.map_cons]
      cases hkind : token.kind with
      | word => rw [readExpr_word hkind, readExpr_word (Token.shift_eq hkind)]; rfl
      | backquoted =>
          rw [readExpr_backquoted hkind, readExpr_backquoted (Token.shift_eq hkind)]
          rfl
      | string =>
          rw [readExpr_string hkind, readExpr_string (Token.shift_eq hkind),
            Token.text_shift]
          cases stringText? token.text <;> rfl
      | argumentName =>
          rw [readExpr_argumentName hkind, readExpr_argumentName (Token.shift_eq hkind)]
          rfl
      | closeParen =>
          rw [readExpr_closeParen hkind, readExpr_closeParen (Token.shift_eq hkind)]
          rfl
      | quote =>
          rw [readExpr_quote hkind, readExpr_quote (Token.shift_eq hkind)]
          cases tokens with
          | nil =>
              rw [List.map_nil, shifted_error, ← atEnd_shift]
              rfl
          | cons next tokens =>
              have hnext := h.expr (next :: tokens) htokens
              rw [List.map_cons] at hnext ⊢
              simp only [hnext]
              rcases readExpr pending (next :: tokens) with fault | ⟨e, rest⟩ <;> rfl
      | openParen =>
          cases tokens with
          | nil =>
              rw [List.map_nil, readExpr_open_nil hkind,
                readExpr_open_nil (Token.shift_eq hkind), shifted_error, ← atEnd_shift]
              rfl
          | cons next tokens =>
              rw [List.map_cons]
              by_cases hclose : next.kind = .closeParen
              · rw [readExpr_open_close hkind hclose,
                  readExpr_open_close (Token.shift_eq hkind) (Token.shift_eq hclose)]
                rfl
              by_cases hname : next.kind = .argumentName
              · rw [readExpr_open_name hkind hname,
                  readExpr_open_name (Token.shift_eq hkind) (Token.shift_eq hname)]
                rfl
              have hnext := h.expr (next :: tokens) htokens
              rw [List.map_cons] at hnext
              rw [readExpr_call hkind hclose hname,
                readExpr_call (Token.shift_eq hkind) (Token.shift_ne hclose) (Token.shift_ne hname),
                hnext]
              rcases hread : readExpr pending (next :: tokens) with fault | ⟨head, rest⟩
              · rfl
              have hrest := length_of_map_val hread
              rw [shifted_ok]
              simp only
              by_cases hfunction : head.isSymbol "function" = true
              · rw [if_pos hfunction, if_pos hfunction]
                exact h.step_function (Nat.le_of_lt (Nat.lt_trans hrest htokens))
              · rw [if_neg hfunction, if_neg hfunction, Token.offset_shift,
                  h.slots token.offset rest (Nat.lt_trans hrest htokens)]
                rcases readSlots pending token.offset rest with fault | ⟨slots, rest'⟩ <;> rfl

theorem ShiftsBelow.step_slots {n : Nat} (h : ShiftsBelow k pending n) (offset : Nat)
    {tokens : List Token} (htokens : tokens.length ≤ n) :
    readSlots (pending.map (.shift k)) (offset + k) (tokens.map (.shift k)) =
      shifted k (readSlots pending offset tokens) := by
  cases tokens with
  | nil =>
      rw [List.map_nil, readSlots_nil, readSlots_nil, shifted_error, ← atEnd_shift]
      rfl
  | cons token tokens =>
      by_cases hclose : token.kind = .closeParen
      · rw [List.map_cons, readSlots_close hclose, readSlots_close (Token.shift_eq hclose)]
        rfl
      by_cases hname : token.kind = .argumentName
      · cases tokens with
        | nil =>
            rw [List.map_cons, List.map_nil, readSlots_name_nil hname,
              readSlots_name_nil (Token.shift_eq hname), shifted_error, ← atEnd_shift]
            rfl
        | cons next tokens =>
            rw [List.map_cons, List.map_cons]
            by_cases hnext : next.kind = .closeParen
            · rw [readSlots_name_close hname hnext,
                readSlots_name_close (Token.shift_eq hname) (Token.shift_eq hnext)]
              rfl
            have hexpr := h.expr (next :: tokens) htokens
            rw [List.map_cons] at hexpr
            rw [readSlots_name hname hnext,
              readSlots_name (Token.shift_eq hname) (Token.shift_ne hnext), hexpr]
            rcases hread : readExpr pending (next :: tokens) with fault | ⟨e, rest⟩
            · rfl
            have hrest := length_of_map_val hread
            rw [shifted_ok]
            simp only
            rw [h.slots offset rest (Nat.lt_trans hrest htokens)]
            rcases readSlots pending offset rest with fault | ⟨slots, rest'⟩ <;> rfl
      · have hexpr := h.step_expr htokens
        rw [List.map_cons] at hexpr ⊢
        rw [readSlots_bare hclose hname,
          readSlots_bare (Token.shift_ne hclose) (Token.shift_ne hname), hexpr]
        rcases hread : readExpr pending (token :: tokens) with fault | ⟨e, rest⟩
        · rfl
        have hrest := length_of_map_val hread
        rw [shifted_ok]
        simp only
        rw [h.slots offset rest (Nat.lt_of_lt_of_le hrest htokens)]
        rcases readSlots pending offset rest with fault | ⟨slots, rest'⟩ <;> rfl

theorem ShiftsBelow.step_formals {n : Nat} (h : ShiftsBelow k pending n) (offset : Nat)
    {tokens : List Token} (htokens : tokens.length ≤ n) :
    readFormals (pending.map (.shift k)) (offset + k) (tokens.map (.shift k)) =
      shifted k (readFormals pending offset tokens) := by
  cases tokens with
  | nil =>
      rw [List.map_nil, readFormals_nil, readFormals_nil, shifted_error, ← atEnd_shift]
      rfl
  | cons token tokens =>
      by_cases hclose : token.kind = .closeParen
      · rw [List.map_cons, readFormals_close hclose,
          readFormals_close (Token.shift_eq hclose)]
        rfl
      by_cases hopen : token.kind = .openParen
      · rw [List.map_cons, readFormals_open hopen, readFormals_open (Token.shift_eq hopen),
          h.expr tokens htokens]
        rcases hname : readExpr pending tokens with fault | ⟨name, rest⟩
        · rfl
        have hrest := length_of_map_val hname
        rw [shifted_ok]
        simp only
        rw [h.expr rest (Nat.lt_trans hrest htokens)]
        rcases hdefault : readExpr pending rest with fault | ⟨default, rest'⟩
        · rfl
        have hrest' := length_of_map_val hdefault
        rw [shifted_ok]
        simp only
        cases name.symbolName? with
        | none => rfl
        | some name =>
            cases rest' with
            | nil =>
                rw [List.map_nil]
                simp only
                rw [shifted_error, ← atEnd_shift]
                rfl
            | cons close rest' =>
                rw [List.map_cons]
                simp only
                by_cases hright : close.kind = .closeParen
                · simp only [List.length_cons] at hrest hrest' htokens
                  rw [if_pos hright, if_pos (Token.shift_eq hright),
                    h.formals offset rest' (by omega)]
                  rcases readFormals pending offset rest' with fault | ⟨formals, last⟩ <;> rfl
                · rw [if_neg hright, if_neg (Token.shift_ne hright)]
                  rfl
      · have hexpr := h.step_expr htokens
        rw [List.map_cons] at hexpr ⊢
        rw [readFormals_plain hclose hopen,
          readFormals_plain (Token.shift_ne hclose) (Token.shift_ne hopen), hexpr]
        rcases hname : readExpr pending (token :: tokens) with fault | ⟨name, rest⟩
        · rfl
        have hrest := length_of_map_val hname
        rw [shifted_ok]
        simp only
        cases name.symbolName? with
        | none => rfl
        | some name =>
            simp only
            rw [h.formals offset rest (Nat.lt_of_lt_of_le hrest htokens)]
            rcases readFormals pending offset rest with fault | ⟨formals, rest'⟩ <;> rfl

theorem shiftsBelow (k : Nat) (pending : Option SyntaxFault) (n : Nat) :
    ShiftsBelow k pending n := by
  induction n with
  | zero => exact ⟨fun _ h => by omega, fun _ _ h => by omega, fun _ _ h => by omega⟩
  | succ n ih =>
      exact ⟨fun _ h => ih.step_expr (Nat.le_of_lt_succ h),
        fun offset _ h => ih.step_slots offset (Nat.le_of_lt_succ h),
        fun offset _ h => ih.step_formals offset (Nat.le_of_lt_succ h)⟩

theorem readExpr_shift (k : Nat) (pending : Option SyntaxFault) (tokens : List Token) :
    readExpr (pending.map (.shift k)) (tokens.map (.shift k)) =
      shifted k (readExpr pending tokens) :=
  (shiftsBelow k pending _).expr tokens (Nat.lt_succ_self _)

end Shifts

/-- A source further on has the same expressions, and stops at the same fault. -/
theorem parseAll_shift (k : Nat) (source : TokenStream) : parseAll (source.shift k) =
    ((parseAll source).1, (parseAll source).2.map (SyntaxFault.shift k)) := by
  obtain ⟨tokens, pending⟩ := source
  induction hn : tokens.length using Nat.strong_induction_on generalizing tokens with
  | _ n ih =>
      subst hn
      cases tokens with
      | nil => simp [TokenStream.shift]
      | cons token tokens =>
          have hread := readExpr_shift k pending (token :: tokens)
          rw [List.map_cons] at hread
          rw [TokenStream.shift, List.map_cons, parseAll_cons, parseAll_cons, hread]
          rcases hfirst : readExpr pending (token :: tokens) with fault | ⟨e, rest⟩
          · rfl
          · have hrest := ih _ (length_of_map_val hfirst) rest rfl
            rw [TokenStream.shift] at hrest
            simp only [shifted_ok, hrest]

end Reader

end Quasi
