import Quasi.Proofs.Flow.Basic
import Quasi.Proofs.Reader.Grammar
import Quasi.Proofs.Reader.Shift
import Quasi.Session.Basic

/-!
# Cutting a source

A source can be cut at a line end between two of its expressions. The lexer decides on a token by
the text up to its end and one character that cannot go on with it, so it reads the text before the
cut as if nothing came after it, and the text after the cut as if it stood alone, further on. So
does the reader, which takes from the tokens before the cut exactly those that read as expressions.
-/

namespace Quasi.Reader

open Text

/-! ## Lexing up to the cut -/

section Lexing

variable {text rest more : List Char}

theorem afterComment?_append {depth : Nat} (h : afterComment? depth text = some rest) :
    afterComment? depth (text ++ more) = some (rest ++ more) := by
  fun_induction afterComment? depth text with
  | case1 text => cases h; simp [afterComment?]
  | case2 => cases h
  | case3 depth text ih => exact ih h
  | case4 depth text ih => exact ih h
  | case5 depth c text hopen hclose ih =>
      cases text with
      | nil => cases h
      | cons d text =>
          -- the marks of a comment are two characters long, and two are there before the end
          rw [List.cons_append, List.cons_append, afterComment?]
          · exact ih h
          · intro back hc heq
            cases heq
            exact hopen _ hc rfl
          · intro back hc heq
            cases heq
            exact hclose _ hc rfl

/-- The line end takes no part in the start of a block comment. -/
theorem not_block_append {c : Char} (h : ∀ back, c = '#' → text = '|' :: back → False) :
    ∀ back, c = '#' → text ++ '\n' :: more = '|' :: back → False := by
  intro back hc heq
  cases text with
  | nil => cases heq
  | cons d text =>
      cases heq
      exact h text hc rfl

/-- Before the cut the same gap is skipped. A gap that reaches the cut goes on behind it. -/
theorem skipGap_cut (h : skipGap text = .ok rest) : skipGap (text ++ '\n' :: more) =
    if rest = [] then skipGap more else .ok (rest ++ '\n' :: more) := by
  have hline : skipGap ('\n' :: more) = skipGap more := skipGap_blank (by decide)
  fun_induction skipGap text with
  | case1 =>
      cases h
      rw [if_pos rfl]
      exact hline
  | case2 text ih =>
      rw [List.cons_append, skipGap, afterLine_append]
      split
      · exact ih h
      next hmem =>
        rw [afterLine_of_not_mem hmem, skipGap.eq_def] at h
        cases h
        rw [if_pos rfl]
  | case3 text back hclosed ih =>
      rw [List.cons_append, List.cons_append, skipGap]
      rw [afterComment?_append hclosed]
      exact ih h
  | case4 => cases h
  | case5 c text hsemi hblock hblank ih =>
      rw [List.cons_append, skipGap, if_pos hblank]
      · exact ih h
      · exact hsemi
      · exact not_block_append hblock
  | case6 c text hsemi hblock hblank =>
      cases h
      rw [List.cons_append, skipGap, if_neg hblank, if_neg (List.cons_ne_nil c text)]
      · exact hsemi
      · exact not_block_append hblock

theorem takeWhile_delimited (hmore : Delimited more) :
    (text ++ more).takeWhile isWordChar = text.takeWhile isWordChar := by
  induction text with
  | nil =>
      have hnone : ∀ c ∈ ([] : List Char), isWordChar c = true := by simp
      simpa using takeWhile_word hnone hmore
  | cons c text ih =>
      by_cases hc : isWordChar c = true
      · rw [List.cons_append, List.takeWhile_cons_of_pos hc, List.takeWhile_cons_of_pos hc, ih]
      · rw [List.cons_append, List.takeWhile_cons_of_neg hc, List.takeWhile_cons_of_neg hc]

/-- Where a token starts, the length of the text before the delimiter bounds it. -/
theorem scan?_append {kind : TokenKind} {n : Nat} (h : scan? text = some (kind, n))
    (hmore : Delimited more) : scan? (text ++ more) = some (kind, n) ∧ n ≤ text.length := by
  cases text with
  | nil => cases h
  | cons c text =>
      by_cases hword : isWordChar c = true
      · rw [scan?_of_isWordChar hword] at h
        obtain ⟨-, hn⟩ := Prod.mk.inj (Option.some.inj h)
        have htake : (c :: text ++ more).takeWhile isWordChar = (c :: text).takeWhile isWordChar :=
          takeWhile_delimited hmore
        rw [List.cons_append] at htake ⊢
        rw [scan?_of_isWordChar hword, htake]
        exact ⟨h, hn ▸ (List.takeWhile_prefix isWordChar).length_le⟩
      · rw [scan?.eq_def] at h
        split at h
        next heq => cases heq
        next heq => cases heq; cases h; exact ⟨rfl, by simp⟩
        next heq => cases heq; cases h; exact ⟨rfl, by simp⟩
        next heq => cases heq; cases h; exact ⟨rfl, by simp⟩
        next heq => cases heq; cases h; exact ⟨rfl, by simp⟩
        next hat heq =>
          cases heq
          cases h
          refine ⟨?_, by simp⟩
          rw [List.cons_append, scan?]
          intro back heq
          cases text with
          | nil =>
              rw [List.nil_append] at heq
              have := hmore '@' (by rw [heq]; rfl)
              revert this
              decide
          | cons d text =>
              cases heq
              exact hat _ rfl
        next heq =>
          cases heq
          obtain ⟨m, hm, heq⟩ := Option.map_eq_some_iff.mp h
          cases heq
          have hle := closing?_le hm
          rw [List.cons_append, scan?, closing?_append (by decide) hm]
          exact ⟨rfl, Nat.succ_le_succ hle⟩
        next heq =>
          cases heq
          split at h
          next hc =>
            obtain ⟨m, hm, heq⟩ := Option.map_eq_some_iff.mp h
            cases heq
            have hle := closing?_le hm
            have hscan (back : List Char) : scan? (backquote :: back) =
                (closing? backquote back).map (.backquoted, · + 1) := rfl
            rw [hc, List.cons_append, hscan, closing?_append (by decide) hm]
            exact ⟨rfl, Nat.succ_le_succ hle⟩
          next => simp [List.takeWhile_cons_of_neg hword] at h

/-- The tokens before the cut, and then those behind it. -/
theorem lexFrom_cut {total : Nat} (h : (lexFrom total text).fault = none) :
    lexFrom (total + (more.length + 1)) (text ++ '\n' :: more) =
      (lexFrom (total + (more.length + 1)) more).prepend (lexFrom total text).tokens := by
  induction hn : text.length using Nat.strong_induction_on generalizing text with
  | _ n ih =>
      subst hn
      rw [lexFrom_eq] at h ⊢
      rw [lexFrom_eq total text]
      rcases hgap : skipGap text with rest | rest
      · simp [hgap] at h
      rw [skipGap_cut hgap]
      rcases rest with _ | ⟨c, rest⟩
      · rw [if_pos rfl, TokenStream.prepend_nil, ← lexFrom_eq]
      rw [if_neg (List.cons_ne_nil c rest)]
      rcases hscan : scan? (c :: rest) with _ | ⟨kind, length⟩
      · simp [hgap, hscan] at h
      have hmore : Delimited ('\n' :: more) := delimited_cons (by decide)
      obtain ⟨hscan', hle⟩ := scan?_append hscan hmore
      have hrest := length_of_skipGap hgap
      have hdrop : ((c :: rest).drop length).length < text.length := by
        have hpos := pos_of_scan? hscan
        simp only [List.length_drop, List.length_cons] at hrest ⊢
        omega
      simp only [hgap, hscan] at h
      have hothers := ih _ hdrop h rfl
      have hoffset : total + (more.length + 1) - ((rest ++ '\n' :: more).length + 1) =
          total - (rest.length + 1) := by
        simp only [List.length_append, List.length_cons]
        omega
      rw [List.cons_append] at hscan' ⊢
      simp only [hscan']
      rw [← List.cons_append, List.drop_append_of_le_length hle,
        List.take_append_of_le_length hle, hothers, hoffset, TokenStream.prepend_prepend]
      simp only [hscan]
      rfl

end Lexing

theorem lex_cut {first second : String} (h : (lex first).fault = none) :
    lex (first ++ "\n" ++ second) =
      ((lex second).shift (first.length + 1)).prepend (lex first).tokens := by
  have htext : (first ++ "\n" ++ second).toList = first.toList ++ '\n' :: second.toList := by
    simp
  have hlength : (first.toList ++ '\n' :: second.toList).length =
      second.toList.length + (first.length + 1) := by
    simp only [List.length_append, List.length_cons, String.length_toList]
    omega
  have htotal : first.toList.length + (second.toList.length + 1) =
      second.toList.length + (first.length + 1) := by
    simp only [String.length_toList]
    omega
  have hcut : lexFrom (first.toList.length + (second.toList.length + 1))
      (first.toList ++ '\n' :: second.toList) = _ := lexFrom_cut h
  rw [htotal] at hcut
  rw [lex, htext, hlength, hcut, lexFrom_shift (first.length + 1) (Nat.le_refl _)]
  rfl

/-! ## Reading up to the cut -/

theorem fault_of_parseAll {source : TokenStream} (h : (parseAll source).2 = none) :
    source.fault = none := by
  obtain ⟨tokens, pending⟩ := source
  induction hn : tokens.length using Nat.strong_induction_on generalizing tokens with
  | _ n ih =>
      subst hn
      cases tokens with
      | nil => simpa using h
      | cons token tokens =>
          rw [parseAll_cons] at h
          rcases hread : readExpr pending (token :: tokens) with fault | ⟨e, rest⟩
          · simp [hread] at h
          · simp only [hread] at h
            exact ih _ (length_of_map_val hread) rest h rfl

/-- Tokens that read to their end as expressions do so whatever follows. -/
theorem parseAll_append {tokens others : List Token} {pending : Option SyntaxFault}
    (h : (parseAll ⟨tokens, none⟩).2 = none) : parseAll ⟨tokens ++ others, pending⟩ =
      ((parseAll ⟨tokens, none⟩).1 ++ (parseAll ⟨others, pending⟩).1,
        (parseAll ⟨others, pending⟩).2) := by
  induction hn : tokens.length using Nat.strong_induction_on generalizing tokens with
  | _ n ih =>
      subst hn
      cases tokens with
      | nil => simp
      | cons token tokens =>
          rw [parseAll_cons] at h ⊢
          rcases hread : readExpr none (token :: tokens) with fault | ⟨e, rest⟩
          · simp [hread] at h
          simp only [hread] at h
          obtain ⟨consumed, htokens, hreads⟩ := readExpr_eq_ok_iff.mp hread
          have hread' : readExpr pending (token :: tokens ++ others) = .ok (e, rest ++ others) := by
            rw [htokens, List.append_assoc]
            exact hreads.complete pending (rest ++ others)
          have hrest := ih _ (length_of_map_val hread) h rfl
          rw [List.cons_append] at hread' ⊢
          rw [parseAll_cons, hread']
          simp only [hrest, List.cons_append]

theorem parseAll_cut {first second : String} (h : (parseAll (lex first)).2 = none) :
    parseAll (lex (first ++ "\n" ++ second)) =
      ((parseAll (lex first)).1 ++ (parseAll (lex second)).1,
        (parseAll (lex second)).2.map (SyntaxFault.shift (first.length + 1))) := by
  have hfault := fault_of_parseAll h
  have hfirst : lex first = ⟨(lex first).tokens, none⟩ := by
    rw [← hfault]
  have hsecond := parseAll_shift (first.length + 1) (lex second)
  rw [TokenStream.shift] at hsecond
  rw [hfirst] at h
  rw [lex_cut hfault, TokenStream.prepend, TokenStream.shift, parseAll_append h, ← hfirst, hsecond]

end Quasi.Reader

namespace Quasi.Session

open Reader

/-! ## Running up to the cut -/

section Running

variable {env : EnvId} {source first second : String}

/-- Evaluate what was read of a source, and fail where reading it stopped. -/
def evalRead (env : EnvId) (read : List Expr × Option SyntaxFault) (last : Value) : Run Value := do
  let last ← evaluateAll evaluator env read.1 last
  match read.2 with
  | some fault => syntaxFailure fault
  | none => pure last

/-- Read and evaluate a source expression by expression. Each is read when the one before it was
evaluated. -/
def evalStream (env : EnvId) (source : TokenStream) (last : Value) : Run Value :=
  match _h : next? source with
  | .error fault => syntaxFailure fault
  | .ok none => pure last
  | .ok (some (e, rest)) => do
      let v ← Machine.evaluate (← machine) evaluator e env
      evalStream env rest v
termination_by source.tokens.length
decreasing_by exact length_of_next? _h

theorem evalSource_eq : evalSource source env = evalRead env (parseAll (lex source)) .null := rfl

theorem evalRead_nil (fault : Option SyntaxFault) (last : Value) : evalRead env ([], fault) last =
    match fault with
    | some fault => syntaxFailure fault
    | none => pure last := rfl

theorem evalRead_cons (e : Expr) (es : List Expr) (fault : Option SyntaxFault) (last : Value) :
    evalRead env (e :: es, fault) last = (do
      let v ← Machine.evaluate (← machine) evaluator e env
      evalRead env (es, fault) v) := by
  simp only [evalRead, evaluateAll, bind_assoc]

/-- Evaluating while reading is evaluating what is read. -/
theorem evalStream_eq (source : TokenStream) (last : Value) :
    evalStream env source last = evalRead env (parseAll source) last := by
  fun_induction evalStream env source last with
  | case1 source last fault h => rw [parseAll.eq_def, h]; rfl
  | case2 source last h => rw [parseAll.eq_def, h]; rfl
  | case3 source last e rest h ih => 
      rw [parseAll.eq_def, h]
      simp only [evalRead_cons, ih]

theorem evalRead_append (es others : List Expr) (fault : Option SyntaxFault) (last : Value) :
    evalRead env (es ++ others, fault) last = (do
      let v ← evalRead env (es, none) last
      evalRead env (others, fault) v) := by
  induction es generalizing last with
  | nil => rw [List.nil_append, evalRead_nil]; rfl
  | cons e es ih => simp only [List.cons_append, evalRead_cons, ih, bind_assoc]

theorem evalSource_cut (h : (parseAll (lex first)).2 = none) :
    evalSource (first ++ "\n" ++ second) env = (do
      let v ← evalSource first env
      evalStream env ((lex second).shift (first.length + 1)) v) := by
  have hfirst : parseAll (lex first) = ((parseAll (lex first)).1, none) := by
    rw [← h]
  rw [evalSource_eq, parseAll_cut h, evalRead_append, evalSource_eq, hfirst]
  simp only [evalStream_eq, parseAll_shift]

/-- A value that was there before counts only if nothing is evaluated. -/
theorem evalRead_last {es : List Expr} (hne : es ≠ []) (fault : Option SyntaxFault)
    (last last' : Value) : evalRead env (es, fault) last = evalRead env (es, fault) last' := by
  obtain ⟨e, es, rfl⟩ := List.exists_cons_of_ne_nil hne
  rw [evalRead_cons, evalRead_cons]

theorem evalRead_fault (es : List Expr) (fault : SyntaxFault) (last : Value) :
    evalRead env (es, some fault) last = (do
      let _ ← evaluateAll evaluator env es .null
      syntaxFailure fault) := by
  cases es with
  | nil => rfl
  | cons e es =>
      rw [evalRead_last (List.cons_ne_nil e es) (some fault) last .null]
      rfl

/-- Reading and running can be cut between expressions. A source whose first part reads to its end
without a fault, and goes on with a second part on a line of its own, reads as the expressions of
the first part and then as the second part, with the offsets of its fault shifted to where it
stands; the end of the input is shown as the offset -1 and is not shifted. Evaluating it is
evaluating the first part and then the stream of the second part, expression by expression. From
every store, if the first part fails, the whole ends as the first part does, and nothing else is
evaluated. If it does not, the second part is evaluated in the store that the first part left: the
value is that of the first part if there is nothing to evaluate, and the outcome is that of the
second part otherwise, with the shifted fault where reading it stopped. -/
theorem evaluation_cut (first second : String) (env : EnvId)
    (h : (parseAll (lex first)).2 = none) :
    parseAll (lex (first ++ "\n" ++ second)) =
      ((parseAll (lex first)).1 ++ (parseAll (lex second)).1,
        (parseAll (lex second)).2.map (SyntaxFault.shift (first.length + 1))) ∧
    (∀ source : String, evalSource source env = evalStream env (lex source) .null) ∧
    evalSource (first ++ "\n" ++ second) env = (do
      let v ← evalSource first env
      evalStream env ((lex second).shift (first.length + 1)) v) ∧
    ∀ s : Store,
      (∀ i t, evalSource first env s = .error i t →
        evalSource (first ++ "\n" ++ second) env s = .error i t) ∧
      ∀ v t, evalSource first env s = .ok v t →
        (parseAll (lex second) = ([], none) →
          evalSource (first ++ "\n" ++ second) env s = .ok v t) ∧
        (∀ es, es ≠ [] → parseAll (lex second) = (es, none) →
          evalSource (first ++ "\n" ++ second) env s = evalSource second env t) ∧
        ∀ es fault, parseAll (lex second) = (es, some fault) →
          evalSource second env t = (do
            let _ ← evaluateAll evaluator env es .null
            syntaxFailure fault) t ∧
          evalSource (first ++ "\n" ++ second) env s = (do
            let _ ← evaluateAll evaluator env es .null
            syntaxFailure (fault.shift (first.length + 1))) t := by
  have hcut : evalSource (first ++ "\n" ++ second) env = _ := evalSource_cut h
  refine ⟨parseAll_cut h, fun source => by rw [evalStream_eq, evalSource_eq], hcut, fun s => ?_⟩
  refine ⟨fun i t hfails => ?_, fun v t hok => ?_⟩
  · rw [hcut]
    exact Run.bind_of_error hfails
  · have hrest : evalSource (first ++ "\n" ++ second) env s =
        evalRead env ((parseAll (lex second)).1,
          (parseAll (lex second)).2.map (SyntaxFault.shift (first.length + 1))) v t := by
      rw [hcut, Run.bind_of_ok hok, evalStream_eq, parseAll_shift]
    refine ⟨fun hnone => ?_, fun es hne hread => ?_, fun es fault hread => ⟨?_, ?_⟩⟩
    · rw [hrest, hnone]
      rfl
    · rw [hrest, evalSource_eq, hread, evalRead_last hne]
      rfl
    · rw [evalSource_eq, hread, evalRead_fault]
    · rw [hrest, hread]
      exact congrFun (evalRead_fault es _ v) t

/-! ## A cut at a comment and before the end of the input -/

theorem parseAll_remark : parseAll (lex "1 ; one") = ([.const (.int 1)], none) := by
  have htext : "1 ; one".toList = ['1', ' ', ';', ' ', 'o', 'n', 'e'] := rfl
  have hstart : StartsToken ['1', ' ', ';', ' ', 'o', 'n', 'e'] :=
    startsToken_cons (by decide) (by decide) (by decide)
  have hscan : scan? ['1', ' ', ';', ' ', 'o', 'n', 'e'] = some (.word, 1) := by decide
  have hline : afterLine [' ', 'o', 'n', 'e'] = [] := rfl
  have hgap : skipGap [' ', ';', ' ', 'o', 'n', 'e'] = .ok [] := by
    rw [skipGap_blank (by decide), skipGap, hline, skipGap]
  have hlex : lex "1 ; one" = ⟨[⟨.word, "1", 0⟩], none⟩ := by
    rw [lex, htext, lexFrom_scan hstart hscan, List.drop_one, List.tail_cons, lexFrom_eq, hgap]
    rfl
  have hatom : atom "1" = .const (.int 1) := rfl
  rw [hlex, parseAll_cons, readExpr_word rfl, hatom]
  simp only [parseAll_nil]

theorem parseAll_unfinished : parseAll (lex "(function") = ([], some (.noFormals none)) := by
  have htext : "(function".toList = ['(', 'f', 'u', 'n', 'c', 't', 'i', 'o', 'n'] := rfl
  have hopen : StartsToken ['(', 'f', 'u', 'n', 'c', 't', 'i', 'o', 'n'] :=
    startsToken_cons (by decide) (by decide) (by decide)
  have hword : StartsToken ['f', 'u', 'n', 'c', 't', 'i', 'o', 'n'] :=
    startsToken_cons (by decide) (by decide) (by decide)
  have hscan : scan? ['(', 'f', 'u', 'n', 'c', 't', 'i', 'o', 'n'] = some (.openParen, 1) := rfl
  have hscan' : scan? ['f', 'u', 'n', 'c', 't', 'i', 'o', 'n'] = some (.word, 8) := by decide
  have hlex : lex "(function" = ⟨[⟨.openParen, "(", 0⟩, ⟨.word, "function", 1⟩], none⟩ := by
    rw [lex, htext, lexFrom_scan hopen hscan, List.drop_one, List.tail_cons,
      lexFrom_scan hword hscan']
    simp only [List.drop_succ_cons, List.drop_zero, lexFrom_nil]
    rfl
  have hatom : atom "function" = .symbol "function" := rfl
  rw [hlex, parseAll_cons, readExpr_call rfl (by decide) (by decide), readExpr_word rfl, hatom]
  simp only [Expr.isSymbol, readFunction_nil]
  rfl

/-- A comment may end the first part. What it evaluates to is given up for the fault behind it. -/
theorem evaluation_cut_remark :
    parseAll (lex ("1 ; one" ++ "\n" ++ "(function")) =
      ([.const (.int 1)], some (.noFormals none)) ∧
    evalSource "1 ; one" globalEnv {} = .ok (.int 1) {} ∧
    evalSource ("1 ; one" ++ "\n" ++ "(function") globalEnv {} =
      (syntaxFailure (.noFormals none) : Run Value) {} := by
  have hfirst : (parseAll (lex "1 ; one")).2 = none := by
    rw [parseAll_remark]
  have hvalue : evalSource "1 ; one" globalEnv {} = .ok (.int 1) {} := by
    rw [evalSource_eq, parseAll_remark]
    rfl
  obtain ⟨hread, -, -, hrun⟩ := evaluation_cut "1 ; one" "(function" globalEnv hfirst
  obtain ⟨-, hfault⟩ := ((hrun {}).2 _ _ hvalue).2.2 [] (.noFormals none) parseAll_unfinished
  refine ⟨?_, hvalue, hfault⟩
  rw [hread, parseAll_remark, parseAll_unfinished]
  rfl

/-- The end of the input is not shifted. Its offset -1, eight characters further on, would be 7. -/
theorem end_of_input_stays : (parseAll (lex "1 ; one")).2 = none ∧
    (parseAll (lex "(function")).2.map SyntaxFault.message =
      some "function needs a parameter list, at offset -1" ∧
    (parseAll (lex ("1 ; one" ++ "\n" ++ "(function"))).2.map SyntaxFault.message ≠
      some ("function needs a parameter list, at offset " ++
        toString ((-1 : Int) + ("1 ; one".length + 1))) := by
  have hfirst : (parseAll (lex "1 ; one")).2 = none := by
    rw [parseAll_remark]
  refine ⟨hfirst, ?_, ?_⟩
  · rw [parseAll_unfinished]
    rfl
  · rw [parseAll_cut hfirst, parseAll_unfinished]
    decide

end Running

end Quasi.Session
