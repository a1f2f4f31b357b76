import Quasi.Library.Apply
import Quasi.Library.Code
import Quasi.Library.Data
import Quasi.Library.Host
import Quasi.Library.Scope
import Quasi.Library.Signal
import Quasi.Machine.Eval
import Quasi.Proofs.Hidden.Form

/-!
# Hidden promises do not matter to evaluation

Every primitive and every host function is discreet, over a discreet machine and at arguments that
mention nothing hidden. Each step of a machine is discreet if the machine below it is, so that by
induction on the levels of nesting every evaluation is: in stores that differ in hidden promises
only, code that mentions none of them comes to the same.
-/

namespace Quasi

open Run (Discreet)
open Run.Discreet (andThen read of_modify mapM forM optionMapM)

variable {hidden : PromiseId → Prop}

namespace Library

variable {m : Machine} [m.IsDiscreet hidden] (ctx : EvaluatorId)
  (args : List Value) [hargs : Conceals hidden args]
  (named : Bindings Value) [hnamed : Conceals hidden named] (env : EnvId)

/-! ## Arguments -/

instance (name : String) : Discreet hidden (oneArg name args) := by
  unfold oneArg
  split
  next x =>
    have hx := (conceals_cons.mp hargs).1
    infer_instance
  · infer_instance

instance (name : String) : Discreet hidden (twoArgs name args) := by
  unfold twoArgs
  split
  next x y =>
    obtain ⟨hx, hrest⟩ := conceals_cons.mp hargs
    have hy := (conceals_cons.mp hrest).1
    infer_instance
  · infer_instance

omit hargs in
instance (name : String) (least most : Nat) : Discreet hidden (checkCount name least most args) := by
  unfold checkCount
  infer_instance

instance (name : String) : Discreet hidden (namedFlag named name) := by
  unfold namedFlag
  split <;> infer_instance

instance (v : Value) [Conceals hidden v] : Discreet hidden (textArg v) := by
  unfold textArg
  split <;> infer_instance

instance (name : String) (v : Value) [Conceals hidden v] : Discreet hidden (envArg name v) := by
  unfold envArg
  split <;> infer_instance

instance (name : String) (v : Value) [hv : Conceals hidden v] :
    Discreet hidden (quosureArg name v) := by
  unfold quosureArg
  split
  next e env =>
    have he := conceals_quosure.mp hv
    infer_instance
  · infer_instance

instance (v : Value) [hv : Conceals hidden v] : Discreet hidden (iterate v) := by
  unfold iterate
  split
  · infer_instance
  next items =>
    have hitems := conceals_items.mp hv
    infer_instance
  next items =>
    have hitems := conceals_sequence.mp hv
    infer_instance
  next items =>
    have hitems := conceals_tuple.mp hv
    infer_instance
  next entries =>
    have hnames : Conceals hidden (entries.map fun entry => Value.str entry.1) :=
      conceals_list.mpr fun x hx => by
        obtain ⟨entry, -, rfl⟩ := List.mem_map.mp hx
        infer_instance
    infer_instance
  next v =>
    have hitems := conceals_vector.mp (conceals_vec.mp hv)
    exact mapM fun x _ => inferInstance
  next text =>
    have hcharacters : Conceals hidden
        (text.toList.map fun c => Value.str (String.singleton c)) :=
      conceals_map fun c _ => inferInstance
    infer_instance
  next entries =>
    have hentries := conceals_dots.mp hv
    have hpairs : Conceals hidden (entries.map entryPair) := conceals_map fun t _ => inferInstance
    infer_instance
  next head slots =>
    obtain ⟨hhead, hslots⟩ := conceals_call.mp (conceals_code.mp hv)
    have hparts : Conceals hidden (slots.map fun slot => Value.code slot.item) :=
      conceals_map fun slot _ => inferInstance
    infer_instance
  next items =>
    have hitems := conceals_formals.mp (conceals_code.mp hv)
    have hpairs : Conceals hidden (items.map fun (name, default) =>
        Value.tuple [.str name, .code default]) := conceals_map fun item hitem => by
      have hdefault := (conceals_pair.mp hitem).2
      infer_instance
    infer_instance
  · infer_instance

/-! ## Functions -/

instance : Discreet hidden (lapply m ctx args named env) := by
  unfold lapply
  split
  next xs fn extra =>
    obtain ⟨hxs, hrest⟩ := conceals_cons.mp hargs
    obtain ⟨hfn, hextra⟩ := conceals_cons.mp hrest
    extract_lets last
    have hlast (items : List (Tagged Value)) (hitems : Conceals hidden items) :
        Discreet hidden (last items) := by
      have hcalls : Discreet hidden (items.mapM fun t => do
          pure ⟨t.tag, ← m.call ctx fn (t.item :: extra) named env⟩ : Run (List (Tagged Value))) :=
        mapM fun t _ => andThen fun v _ => inferInstance
      exact andThen fun results _ => inferInstance
    clear_value last
    split
    next items =>
      have hitems := conceals_items.mp hxs
      exact andThen hlast
    next entries =>
      have hentries := conceals_mapping.mp hxs
      exact andThen hlast
    · exact andThen fun items _ => andThen hlast
  · infer_instance

instance : Discreet hidden (doCall m ctx args env) := by
  unfold doCall
  refine andThen fun _ _ => ?_
  extract_lets last
  have hlast (fn : Value) (hfn : Conceals hidden fn) : Discreet hidden (last fn) := by
    unfold last
    extract_lets last
    have hlast (items : List (Tagged Value)) (hitems : Conceals hidden items) :
        Discreet hidden (last items) := by
      have hsplit : Conceals hidden (splitArgs items) := inferInstance
      unfold last
      generalize splitArgs items = parts at hsplit
      obtain ⟨positional, byName⟩ := parts
      obtain ⟨hpositional, hbyName⟩ := conceals_pair.mp hsplit
      infer_instance
    clear_value last
    have hsecond : Conceals hidden (args[1]? : Option Value) := inferInstance
    split
    · exact andThen hlast
    next items hfound =>
      have hlist : Conceals hidden (Value.list items) := .of_some hfound
      have hitems := conceals_items.mp hlist
      exact andThen hlast
    next v _ hfound =>
      have hv : Conceals hidden v := .of_some hfound
      exact andThen fun items _ => andThen hlast
  clear_value last
  have hfirst : Conceals hidden (args.getD 0 .null) := inferInstance
  split
  · exact andThen hlast
  · exact andThen hlast
  · exact andThen hlast

/-! ## Code -/

instance : Discreet hidden (evalTidy m ctx args named env) := by
  unfold evalTidy
  refine andThen fun _ _ => ?_
  have hfirst : Conceals hidden (args.getD 0 .null) := inferInstance
  have hdata : Conceals hidden (match argument named "data" args 1 .absent with
      | .null => .absent
      | data => data : Value) := by
    have hgiven : Conceals hidden (argument named "data" args 1 .absent) := inferInstance
    split
    · infer_instance
    · exact hgiven
  exact andThen fun home _ => inferInstance

instance : Discreet hidden (newDataMask args) := by
  unfold newDataMask
  infer_instance

instance : Discreet hidden (asDataMask args) := by
  unfold asDataMask
  exact andThen fun data _ => inferInstance

instance : Discreet hidden (quoGetExpr args) := by
  unfold quoGetExpr
  refine andThen fun x _ => andThen fun parts hparts => ?_
  have he := (conceals_pair.mp hparts).1
  infer_instance

instance : Discreet hidden (quoGetEnv args) := by
  unfold quoGetEnv
  exact andThen fun x _ => andThen fun parts _ => inferInstance

instance : Discreet hidden (newQuosure args named env) := by
  unfold newQuosure
  exact andThen fun _ _ => andThen fun home _ => inferInstance

instance : Discreet hidden (quoSquash args) := by
  unfold quoSquash
  exact andThen fun x _ => inferInstance

instance : Discreet hidden (asLabel args) := by
  unfold asLabel
  exact andThen fun x _ => inferInstance

instance (name : String) (test : Value → Bool) : Discreet hidden (predicate name test args) := by
  unfold predicate
  exact andThen fun x _ => inferInstance

instance (name : String) (test : Expr → Bool) :
    Discreet hidden (quosurePredicate name test args) := by
  unfold quosurePredicate
  exact andThen fun x _ => andThen fun parts _ => inferInstance

instance : Discreet hidden (sym args) := by
  unfold sym
  exact andThen fun x _ => inferInstance

instance : Discreet hidden (syms args) := by
  have hsource (x : Value) : Conceals hidden x → Conceals hidden (match x with
      | .list items => items
      | v => v.operandElements.items.map .bare : List (Tagged Value)) := fun hx => by
    split
    next items => exact conceals_items.mp hx
    · infer_instance
  unfold syms
  refine andThen fun x hx => ?_
  have hitems := hsource x hx
  exact .bind (mapM fun t _ => inferInstance) fun items _ => inferInstance

instance : Discreet hidden (call2 args named) := by
  unfold call2
  split
  · infer_instance
  next head rest =>
    obtain ⟨hhead, hrest⟩ := conceals_cons.mp hargs
    infer_instance

/-! ## Data -/

instance (op : Operator) : Discreet hidden (operator op args) := by
  unfold operator
  refine andThen fun operands hoperands => ?_
  obtain ⟨a, b⟩ := operands
  obtain ⟨ha, hb⟩ := conceals_pair.mp hoperands
  have hresult : Conceals hidden (Value.operate op a b) := inferInstance
  dsimp only
  generalize Value.operate op a b = result at hresult
  split
  next v =>
    have hv := conceals_ok.mp hresult
    infer_instance
  · infer_instance
  · infer_instance

instance (op : Operator) : Discreet hidden (operatorOrSign op args) := by
  unfold operatorOrSign
  split
  next x =>
    have hx := (conceals_cons.mp hargs).1
    infer_instance
  next x =>
    have hx := (conceals_cons.mp hargs).1
    have hresult : Conceals hidden x.negate := inferInstance
    generalize x.negate = result at hresult
    split
    next v =>
      have hv := conceals_ok.mp hresult
      infer_instance
    · infer_instance
    · infer_instance
  · infer_instance

instance : Discreet hidden (Library.not args) := by
  unfold Library.not
  refine andThen fun x hx => ?_
  split
  · exact andThen fun elements _ => inferInstance
  · infer_instance

instance : Discreet hidden (identical args) := by
  unfold identical
  exact andThen fun operands _ => inferInstance

instance : Discreet hidden (combine args named) := by
  have htagged : Conceals hidden (tagged args named) := inferInstance
  have hitems : Conceals hidden ((tagged args named).map (·.item)) := inferInstance
  unfold combine
  dsimp only
  split
  · have hparts : Conceals hidden ((tagged args named).flatMap listParts) :=
      conceals_flatMap fun t _ => inferInstance
    infer_instance
  · split
    · infer_instance
    · have hvalues : Conceals hidden
          (((tagged args named).map (·.item)).filter fun v => !isNullValue v) := inferInstance
      have hsingles : Conceals hidden
          ((((tagged args named).map (·.item)).filter fun v => !isNullValue v).map
            Elements.single) := conceals_singles
      infer_instance

instance : Discreet hidden (length args) := by
  unfold length
  refine andThen fun x _ => ?_
  dsimp only
  split
  · exact read (fun h => by rw [h.names]) fun s _ => inferInstance
  · infer_instance

instance : Discreet hidden (names args) := by
  unfold names
  refine andThen fun x _ => ?_
  split
  · infer_instance
  · exact read (fun h => by rw [h.names]) fun s _ => inferInstance
  · exact read (fun h => by rw [h.dataNames]) fun s _ => inferInstance
  · infer_instance
  · infer_instance
  · infer_instance

instance (x : Value) (n : Nat) [hx : Conceals hidden x] : Discreet hidden (elementAt m x n) := by
  unfold elementAt
  split
  next items =>
    have hitems := conceals_items.mp hx
    have helement : Conceals hidden (items[n]?.map (·.item)) := conceals_option fun v hv => by
      obtain ⟨t, ht, rfl⟩ := Option.map_eq_some_iff.mp hv
      have ht : Conceals hidden t := .of_some ht
      infer_instance
    infer_instance
  next items =>
    have hitems := conceals_sequence.mp hx
    infer_instance
  next items =>
    have hitems := conceals_tuple.mp hx
    infer_instance
  next text =>
    have helement : Conceals hidden
        (text.toList[n]?.map fun c => Value.str (String.singleton c)) :=
      conceals_option fun v hv => by
        obtain ⟨c, -, rfl⟩ := Option.map_eq_some_iff.mp hv
        infer_instance
    infer_instance
  next v =>
    have helements := conceals_vector.mp (conceals_vec.mp hx)
    exact optionMapM fun v _ => inferInstance
  next entries =>
    have hentries := conceals_dots.mp hx
    exact optionMapM fun t _ => inferInstance
  next head slots =>
    obtain ⟨hhead, hslots⟩ := conceals_call.mp (conceals_code.mp hx)
    have hpart : Conceals hidden (Expr.part? head slots n) := inferInstance
    have helement : Conceals hidden ((Expr.part? head slots n).map Value.code) :=
      conceals_option fun v hv => by
        obtain ⟨e, he, rfl⟩ := Option.map_eq_some_iff.mp hv
        have he : Conceals hidden e := .of_some he
        infer_instance
    infer_instance
  next items =>
    have hitems := conceals_formals.mp (conceals_code.mp hx)
    have helement : Conceals hidden (items[n]?.map fun item => Value.code item.2) :=
      conceals_option fun v hv => by
        obtain ⟨item, hitem, rfl⟩ := Option.map_eq_some_iff.mp hv
        have hitem : Conceals hidden item := .of_some hitem
        have hdefault := (conceals_pair.mp hitem).2
        infer_instance
    infer_instance
  · infer_instance
  · infer_instance

instance (i : Value) [Conceals hidden i] : Discreet hidden (subscript i) := by
  unfold subscript
  split
  case h_2 => split <;> infer_instance
  all_goals infer_instance

instance : Discreet hidden (element m args) := by
  unfold element
  refine andThen fun operands hoperands => ?_
  split
  next x name =>
    have hx := (conceals_pair.mp hoperands).1
    infer_instance
  next x i _ =>
    obtain ⟨hx, hi⟩ := conceals_pair.mp hoperands
    refine andThen fun i _ => ?_
    split
    · infer_instance
    · refine andThen fun found hfound => ?_
      split
      next v =>
        have hv := conceals_some.mp hfound
        infer_instance
      · infer_instance

instance : Discreet hidden (sum args) := by
  unfold sum
  split
  · infer_instance
  · have hsums : Discreet hidden
        (args.mapM fun a => Run.orFailHost (Elements.sum a.operandElements)) :=
      mapM fun a _ => inferInstance
    exact andThen fun sums _ => andThen fun v _ => inferInstance

instance : Discreet hidden (mean args) := by
  unfold mean
  exact andThen fun x _ => andThen fun v _ => inferInstance

instance : Discreet hidden (sqrt args) := by
  unfold sqrt
  refine andThen fun x _ => andThen fun roots hroots => ?_
  dsimp only
  split
  next root hroot =>
    have hitems : Conceals hidden roots.items := inferInstance
    have hroot := (conceals_cons.mp (hroot ▸ hitems)).1
    infer_instance
  · infer_instance

/-! ## Texts -/

omit hargs hnamed in
instance (text : String) : Discreet hidden (write text) :=
  of_modify fun h => h.of_apart (Nat.le_refl _)
    { h.toHiddenApart with out := congrArg (· ++ text) h.out } (fun _ _ => rfl) ⟨{ h.conceals.out with }⟩

instance (v : Value) [Conceals hidden v] : Discreet hidden (itemText v) := by
  unfold itemText
  split <;> infer_instance

instance (v : Value) [hv : Conceals hidden v] : Discreet hidden (partText v) := by
  unfold partText
  split
  next v =>
    have helements := conceals_vector.mp (conceals_vec.mp hv)
    exact .bind (mapM fun x _ => inferInstance) fun texts _ => inferInstance
  · infer_instance

omit hnamed in
instance : Discreet hidden (separator named) := by
  unfold separator
  split <;> infer_instance

instance (sep : String) : Discreet hidden (joinParts sep args) := by
  unfold joinParts
  exact .bind (mapM fun v _ => inferInstance) fun texts _ => inferInstance

omit hnamed in
instance : Discreet hidden (paste args named) := by
  unfold paste
  infer_instance

instance : Discreet hidden (paste0 args) := by
  unfold paste0
  infer_instance

instance : Discreet hidden (print args) := by
  unfold print
  exact andThen fun x _ => inferInstance

omit hnamed in
instance : Discreet hidden (cat args named) := by
  unfold cat
  infer_instance

instance : Discreet hidden (deparse args) := by
  unfold deparse
  exact andThen fun x _ => inferInstance

/-! ## Signals -/

instance (v : Value) [Conceals hidden v] : Discreet hidden (classNames v) := by
  unfold classNames
  split
  · infer_instance
  · exact andThen fun items _ => inferInstance

instance : Discreet hidden (stop ctx args named env) := by
  unfold stop
  split
  · infer_instance
  · refine andThen fun message _ => andThen fun frame hframe => ?_
    extract_lets last
    have hlast (call : Option Expr) (hcall : Conceals hidden call) :
        Discreet hidden (last call) := by
      unfold last
      have hclass : Conceals hidden (named.get? "class") := inferInstance
      split
      next v hfound =>
        have hv : Conceals hidden v := .of_some hfound
        exact andThen fun classes _ => inferInstance
      · exact andThen fun classes _ => inferInstance
    clear_value last
    split
    · exact andThen hlast
    next frame =>
      have hframe := conceals_some.mp hframe
      exact andThen fun shown _ => andThen hlast

instance : Discreet hidden (warning ctx args env) := by
  unfold warning
  refine andThen fun message _ => andThen fun frame _ => ?_
  split <;> infer_instance

instance : Discreet hidden (message args) := by
  unfold message
  have hwrite (text : String) : Discreet hidden
      (modify fun s => { s with err := s.err ++ text ++ "\n" } : Run PUnit) :=
    of_modify fun h => h.of_apart (Nat.le_refl _)
      { h.toHiddenApart with err := congrArg (· ++ text ++ "\n") h.err } (fun _ _ => rfl)
      ⟨{ h.conceals.out with }⟩
  infer_instance

instance : Discreet hidden (conditionMessage args) := by
  unfold conditionMessage
  refine andThen fun x _ => ?_
  split <;> infer_instance

instance : Discreet hidden (conditionCall args) := by
  unfold conditionCall
  refine andThen fun x _ => ?_
  split
  next f =>
    refine read (fun h => by rw [h.incident]) fun s hs => ?_
    split
    next call _ hfound =>
      have hcall : Conceals hidden call := .of_some hfound
      infer_instance
    · infer_instance
  · infer_instance

/-! ## Environments -/

instance : Discreet hidden (newEnv args named env) := by
  unfold newEnv
  infer_instance

omit hargs hnamed in
instance : Discreet hidden (environment args named env) := by
  unfold environment
  split
  · infer_instance
  · exact read (fun h => by rw [h.closure]) fun s _ => inferInstance
  · infer_instance

omit hargs hnamed in
instance : Discreet hidden (parentFrame ctx args named env) := by
  unfold parentFrame
  infer_instance

instance : Discreet hidden (parentEnv args) := by
  unfold parentEnv
  refine andThen fun x _ => andThen fun e _ => read (fun h => by rw [h.parent?]) fun s _ => ?_
  split <;> infer_instance

omit hargs hnamed in
instance : Discreet hidden (sysCall ctx env) := by
  unfold sysCall
  refine andThen fun frame hframe => ?_
  split
  next frame =>
    have hframe := conceals_some.mp hframe
    infer_instance
  · infer_instance

omit hargs hnamed in
instance : Discreet hidden (sysFunction ctx env) := by
  unfold sysFunction
  refine andThen fun frame _ => ?_
  split <;> infer_instance

instance (position : Nat) : Discreet hidden (place args named position env) := by
  unfold place
  infer_instance

instance : Discreet hidden (assign args named env) := by
  unfold assign
  infer_instance

instance : Discreet hidden (Library.get m args named env) := by
  unfold Library.get
  refine andThen fun _ _ => andThen fun name _ => andThen fun target _ =>
    andThen fun inherits _ => ?_
  split
  · infer_instance
  · refine read (fun h => by rw [h.slot?]) fun s hs => ?_
    split
    next v hslot =>
      have hv : Conceals hidden v := .of_some hslot
      exact andThen fun v _ => inferInstance
    · infer_instance

instance : Discreet hidden (exists? args named env) := by
  have hread (target : EnvId) (name : String) : Discreet hidden
      (do pure (.bool ((← MonadState.get).slot? target name).isSome) : Run Value) :=
    read (fun h => by rw [h.slot?]) fun s _ => inferInstance
  unfold exists?
  infer_instance

instance : Discreet hidden (rm args named env) := by
  unfold rm
  refine andThen fun target _ => ?_
  exact .bind (forM fun arg _ => andThen fun name _ => inferInstance) fun _ _ => inferInstance

instance : Discreet hidden (evalCode m ctx args named env) := by
  have hfirst : Conceals hidden (args.getD 0 .null) := inferInstance
  have henvir : Conceals hidden (argument named "envir" args 1 (.env env)) := inferInstance
  unfold evalCode
  refine andThen fun _ _ => andThen fun enclos _ => ?_
  generalize argument named "envir" args 1 (.env env) = envir at henvir
  split
  · infer_instance
  next items =>
    have hitems := conceals_items.mp henvir
    infer_instance
  next entries =>
    have hentries := conceals_mapping.mp henvir
    infer_instance
  · infer_instance

/-! ## Host functions -/

instance (formals : List String) : Discreet hidden (HostFunction.bindArgs formals args named) := by
  unfold HostFunction.bindArgs
  dsimp only
  split
  · infer_instance
  · refine .bind (mapM fun name _ => ?_) fun rest _ => inferInstance
    have hgiven : Conceals hidden (named.get? name) := inferInstance
    split
    next v hfound =>
      have hv : Conceals hidden v := .of_some hfound
      infer_instance
    · infer_instance

omit hargs hnamed in
instance : Discreet hidden HostFunction.count := by
  have htick : Discreet hidden (modify fun s => { s with ticks := s.ticks + 1 } : Run PUnit) :=
    of_modify fun h => h.of_apart (Nat.le_refl _)
      { h.toHiddenApart with ticks := congrArg (· + 1) h.ticks } (fun _ _ => rfl) ⟨{ h.conceals.out with }⟩
  have hread : Discreet hidden (do pure (← MonadState.get).ticks : Run Nat) :=
    read (fun h => by rw [h.ticks]) fun s _ => inferInstance
  unfold HostFunction.count
  infer_instance

omit hargs hnamed in
instance : Discreet hidden (HostFunction.environmentBelow ctx) := by
  unfold HostFunction.environmentBelow
  refine read (fun h => by rw [h.evaluator]) fun s _ => ?_
  dsimp only
  split <;> infer_instance

instance (fn : HostFunction) : Discreet hidden (fn.apply m args named) := by
  have hrecord (v : Value) (hv : Conceals hidden v) :
      Discreet hidden (modify fun s => { s with recorded := s.recorded.push v } : Run PUnit) :=
    of_modify fun h => h.of_apart (Nat.le_refl _)
      { h.toHiddenApart with recorded := congrArg (·.push v) h.recorded } (fun _ _ => rfl)
      ⟨{ h.conceals.out with }⟩
  unfold HostFunction.apply
  cases fn with
  | record =>
      refine andThen fun bound hbound => ?_
      split
      next v =>
        have hv := (conceals_cons.mp hbound).1
        have hpush := hrecord v hv
        infer_instance
      · infer_instance
  | nested =>
      refine andThen fun bound hbound => ?_
      split
      next v env =>
        have hv := (conceals_cons.mp hbound).1
        infer_instance
      next v _ _ =>
        have hv := (conceals_cons.mp hbound).1
        infer_instance
      · infer_instance
  | collect => infer_instance
  | _ => exact andThen fun _ _ => inferInstance

end Library

/-! ## Evaluation -/

namespace Machine

variable {m : Machine} [m.IsDiscreet hidden] (ctx : EvaluatorId) (env : EnvId)

instance (form : SpecialForm) (slots : List Slot) [Conceals hidden slots] :
    Discreet hidden (m.applyForm ctx form slots env) := by
  unfold applyForm
  cases form <;> infer_instance

instance (fn : Primitive) (args : List Value) (named : Bindings Value) [Conceals hidden args]
    [Conceals hidden named] : Discreet hidden (m.applyPrimitive ctx fn args named env) := by
  unfold applyPrimitive
  cases fn <;> infer_instance

instance (fn : Value) (call : Expr) (slots : List Slot) [Conceals hidden fn]
    [Conceals hidden call] [Conceals hidden slots] :
    Discreet hidden (m.apply ctx fn call slots env) := by
  unfold apply
  split
  · infer_instance
  · refine andThen fun given hgiven => ?_
    obtain ⟨hargs, hnamed⟩ := conceals_pair.mp hgiven
    infer_instance
  · exact andThen fun supplied _ => inferInstance
  · refine andThen fun given hgiven => ?_
    obtain ⟨hargs, hnamed⟩ := conceals_pair.mp hgiven
    infer_instance
  · infer_instance

instance (head : Expr) (slots : List Slot) [Conceals hidden head] [Conceals hidden slots] :
    Discreet hidden (m.evalCall ctx head slots env) := by
  unfold evalCall
  dsimp only
  split
  · exact andThen fun fn _ => inferInstance
  · exact andThen fun fn _ => inferInstance

instance (e : Expr) [he : Conceals hidden e] : Discreet hidden (m.evalStep ctx e env) := by
  unfold evalStep
  split
  next e home =>
    have he := conceals_quosure.mp (conceals_const.mp he)
    infer_instance
  next v _ =>
    have hv := conceals_const.mp he
    infer_instance
  · infer_instance
  next head slots =>
    obtain ⟨hhead, hslots⟩ := conceals_call.mp he
    infer_instance
  · infer_instance
  · infer_instance

instance (fn : Value) (args : List Value) (named : Bindings Value) [Conceals hidden fn]
    [Conceals hidden args] [Conceals hidden named] :
    Discreet hidden (m.callStep ctx fn args named env) := by
  unfold callStep
  refine read (fun h => by rw [h.callOf]) fun s _ => ?_
  have hcall : Conceals hidden (callOf s fn args named) := inferInstance
  generalize callOf s fn args named = call at hcall
  dsimp only
  split
  · refine .bind (mapM fun v _ => andThen fun p _ => inferInstance) fun supplied _ =>
      .bind (mapM fun pair hpair => ?_) fun byName _ => inferInstance
    have hv := (conceals_pair.mp hpair).2
    exact andThen fun p _ => inferInstance
  · split
    next slots =>
      have hslots := (conceals_call.mp hcall).2
      infer_instance
    · infer_instance
  · infer_instance
  · infer_instance
  · infer_instance

/-- A machine is discreet if the one that it uses is. -/
instance isDiscreet_above : (above m).IsDiscreet hidden where
  eval ctx e env _ := inferInstanceAs (Discreet hidden (m.evalStep ctx e env))
  call ctx fn args named env _ _ _ :=
    inferInstanceAs (Discreet hidden (m.callStep ctx fn args named env))
  expand ctx e env _ := inferInstanceAs (Discreet hidden (m.expandTemplate ctx env e))

omit [m.IsDiscreet hidden] in
theorem isDiscreet_exhausted : exhausted.IsDiscreet hidden where
  eval _ _ _ _ := inferInstanceAs (Discreet hidden (Run.raise .overflow))
  call _ _ _ _ _ _ _ _ := inferInstanceAs (Discreet hidden (Run.raise .overflow))
  expand _ _ _ _ := inferInstanceAs (Discreet hidden (Run.raise .overflow))

/-- Evaluation is discreet, with room for any number of levels of nesting. -/
instance isDiscreet_ofLevel (n : Nat) : (ofLevel n).IsDiscreet hidden := by
  induction n with
  | zero => exact isDiscreet_exhausted
  | succ n ih => exact isDiscreet_above

end Machine

end Quasi
