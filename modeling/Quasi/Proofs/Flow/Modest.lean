import Quasi.Library.Code
import Quasi.Library.Data
import Quasi.Library.Signal
import Quasi.Proofs.Flow.Steps

/-!
# Modest runs

A run is modest if it does no more than compute, fail, write texts, and make identities and masks.
What it reads of the store is the same in all stores that are related, so that being modest says
less the finer the relation is. What holds of these steps holds of the primitives that need no
machine.
-/

namespace Quasi

namespace Run

variable {Q : Store → Store → Prop} {α β : Type}

/-- A relation of stores that a mask which is made in both keeps. -/
class MakesMasks (Q : Store → Store → Prop) : Prop where
  size {s s' : Store} : Q s s' → s.masks.size = s'.masks.size
  addMask {s s' : Store} (mask : Mask) : Q s s' → Q (s.addMask mask) (s'.addMask mask)

instance : MakesMasks Eq where
  size h := h ▸ rfl
  addMask _ h := h ▸ rfl

/-- A run that computes, fails, writes, and makes identities and masks, in a way that stores that
are related by `Q` do not tell apart. -/
class inductive Modest (Q : Store → Store → Prop) : {α : Type} → Run α → Prop where
  | value {α : Type} (v : α) : Modest Q (pure v)
  | failure {α : Type} (cause : Cause) (call : Option Expr) : Modest Q (failWith cause call : Run α)
  | signal {α : Type} (x : Signal) : Modest Q (raise x : Run α)
  | identity : Modest Q freshId
  | mask [MakesMasks Q] (scopes : List DataScope) (home : EnvId) : Modest Q (newMask scopes home)
  | output (out err : String → String) :
      Modest Q (modify fun s => { s with out := out s.out, err := err s.err } : Run PUnit)
  | read {α : Type} {f : Store → Run α} (hf : ∀ s s', Q s s' → f s = f s')
      (h : ∀ s, Modest Q (f s)) : Modest Q (get >>= f)
  | andThen {α β : Type} {a : Run α} {f : α → Run β} (ha : Modest Q a)
      (hf : ∀ v, Modest Q (f v)) : Modest Q (a >>= f)

namespace Modest

instance (v : α) : Modest Q (pure v : Run α) := .value v

instance (cause : Cause) (call : Option Expr) : Modest Q (failWith cause call : Run α) :=
  .failure cause call

instance (x : Signal) : Modest Q (raise x : Run α) := .signal x

instance : Modest Q freshId := .identity

instance [MakesMasks Q] (scopes : List DataScope) (home : EnvId) :
    Modest Q (newMask scopes home) := .mask scopes home

instance (a : Run α) (f : α → Run β) [ha : Modest Q a] [hf : ∀ v, Modest Q (f v)] :
    Modest Q (a >>= f) := .andThen ha hf

theorem bind {a : Run α} {f : α → Run β} [ha : Modest Q a] (hf : ∀ v, Modest Q (f v)) :
    Modest Q (a >>= f) := .andThen ha hf

instance (f : α → β) (a : Run α) [Modest Q a] : Modest Q (f <$> a) := by
  rw [map_eq_pure_bind]
  infer_instance

instance (c : Prop) [Decidable c] (a b : Run α) [Modest Q a] [Modest Q b] :
    Modest Q (if c then a else b) := by
  split <;> infer_instance

theorem mapM {f : α → Run β} {xs : List α} (h : ∀ x ∈ xs, Modest Q (f x)) :
    Modest Q (xs.mapM f) := by
  induction xs with
  | nil => rw [List.mapM_nil]; infer_instance
  | cons x rest ih =>
      have hx := h x (List.mem_cons_self ..)
      have hrest := ih fun y hy => h y (List.mem_cons_of_mem x hy)
      rw [List.mapM_cons]
      infer_instance

instance (f : α → Run β) (xs : List α) [h : ∀ x, Modest Q (f x)] : Modest Q (xs.mapM f) :=
  .mapM fun x _ => h x

instance (f : α → Run β) (x : Option α) [∀ x, Modest Q (f x)] : Modest Q (x.mapM f) := by
  cases x with
  | none => exact inferInstanceAs (Modest Q (pure none))
  | some x => exact inferInstanceAs (Modest Q (some <$> f x))

instance (cause : Cause) : Modest Q (fail cause : Run α) := by unfold fail; infer_instance

instance (fault : HostFault) : Modest Q (failHost fault : Run α) := by
  unfold failHost; infer_instance

instance (fault : TypeFault) : Modest Q (failType fault : Run α) := by
  unfold failType; infer_instance

instance (fault : ArityFault) : Modest Q (failArity fault : Run α) := by
  unfold failArity; infer_instance

instance {ε : Type} (toCause : ε → Cause) (r : Except ε α) : Modest Q (orFail toCause r) := by
  unfold orFail
  split <;> infer_instance

instance (r : Except HostFault α) : Modest Q (orFailHost r) := by
  unfold orFailHost; infer_instance

instance (x : Option α) : Modest Q (orOverflow x) := by
  unfold orOverflow
  split <;> infer_instance

instance (v : Value) : Modest Q (own v) := by
  unfold own
  split <;> infer_instance

end Modest

/-- Related stores agree on all that is not bound, and on the texts of values that satisfy `P`. -/
structure Shows (Q : Store → Store → Prop) (P : Value → Prop) : Prop where
  closure {s s' : Store} (c : ClosureId) : Q s s' → s.closure c = s'.closure c
  incident {s s' : Store} (f : FailureRef) : Q s s' → s.incident f = s'.incident f
  globalEnv {s s' : Store} (ctx : EvaluatorId) :
    Q s s' → (s.evaluator ctx).globalEnv = (s'.evaluator ctx).globalEnv
  dataNames {s s' : Store} (m : MaskId) : Q s s' → s.dataNames m = s'.dataNames m
  format {v : Value} : P v → Modest Q (Run.format v)
  plainText {v : Value} : P v → Modest Q (Run.plainText v)
  tagged {items : List (Tagged Value)} {t : Tagged Value} : P (.list items) → t ∈ items → P t.item
  operand {v x : Value} : P v → x ∈ v.operandElements.items → P x

theorem shows_eq : Shows Eq fun _ => True where
  closure _ h := h ▸ rfl
  incident _ h := h ▸ rfl
  globalEnv _ h := h ▸ rfl
  dataNames _ h := h ▸ rfl
  format _ := .read (fun _ _ h => h ▸ rfl) fun _ => inferInstance
  plainText _ := .read (fun _ _ h => h ▸ rfl) fun _ => inferInstance
  tagged _ _ := trivial
  operand _ _ := trivial

end Run

open Run (Modest Shows)

namespace Library

variable {Q : Store → Store → Prop} (args : List Value) (named : Bindings Value)

/-! ## Arguments and data -/

instance (name : String) : Modest Q (oneArg name args) := by
  unfold oneArg
  split <;> infer_instance

theorem modest_oneArg {α : Type} {args : List Value} {f : Value → Run α} (name : String)
    (h : ∀ x ∈ args, Modest Q (f x)) : Modest Q (oneArg name args >>= f) := by
  match args with
  | [x] => exact h x (List.mem_singleton.mpr rfl)
  | [] | _ :: _ :: _ => exact inferInstanceAs (Modest Q (Run.failArity _))

instance (name : String) : Modest Q (twoArgs name args) := by
  unfold twoArgs
  split <;> infer_instance

instance (op : Operator) : Modest Q (operator op args) := by
  unfold operator
  apply Modest.bind
  intro operands
  dsimp only
  split <;> infer_instance

instance (op : Operator) : Modest Q (operatorOrSign op args) := by
  unfold operatorOrSign
  split
  · infer_instance
  · split <;> infer_instance
  · infer_instance

instance : Modest Q (Library.not args) := by
  unfold Library.not
  apply Modest.bind
  intro x
  split <;> infer_instance

instance : Modest Q (identical args) := by unfold identical; infer_instance

instance : Modest Q (combine args named) := by
  unfold combine
  dsimp only
  split
  · infer_instance
  · split <;> infer_instance

instance (name : String) (test : Value → Bool) : Modest Q (predicate name test args) := by
  unfold predicate; infer_instance

instance : Modest Q (sum args) := by
  unfold sum
  split <;> infer_instance

instance : Modest Q (mean args) := by unfold mean; infer_instance

instance : Modest Q (sqrt args) := by
  unfold sqrt
  apply Modest.bind
  intro x
  apply Modest.bind
  intro roots
  extract_lets
  split <;> infer_instance

instance : Modest Q (deparse args) := by unfold deparse; infer_instance

instance : Modest Q (quoSquash args) := by unfold quoSquash; infer_instance

instance : Modest Q (call2 args named) := by
  unfold call2
  split <;> infer_instance

section Masks

variable [Run.MakesMasks Q]

instance (sources : List Value) (home : EnvId) : Modest Q (Machine.maskOver sources home) := by
  unfold Machine.maskOver; infer_instance

instance : Modest Q (newDataMask args) := by unfold newDataMask; infer_instance

instance (data : Value) : Modest Q (Machine.asMask data none) := by
  unfold Machine.asMask
  split <;> first | infer_instance | contradiction

instance : Modest Q (asDataMask args) := by unfold asDataMask; infer_instance

end Masks

instance (text : String) : Modest Q (write text) := .output (· ++ text) id

instance : Modest Q (separator named) := by
  unfold separator
  split <;> infer_instance

/-! ## What reads the store -/

section Shown

variable {P : Value → Prop} {args : List Value} (hP : Shows Q P)

theorem modest_length
    (h : ∀ e, .env e ∈ args → ∀ s s', Q s s' → s.names e = s'.names e) :
    Modest Q (Library.length args) := by
  unfold Library.length
  refine modest_oneArg "length" fun x hx => ?_
  extract_lets n
  clear_value n
  split
  next e => exact .read (fun s s' hs => by rw [h e hx s s' hs]) fun _ => inferInstance
  next => infer_instance

include hP

theorem modest_names (h : ∀ e, .env e ∈ args → ∀ s s', Q s s' → s.names e = s'.names e) :
    Modest Q (Library.names args) := by
  unfold Library.names
  refine modest_oneArg "names" fun x hx => ?_
  split
  next => split <;> infer_instance
  next e => exact .read (fun s s' hs => by rw [h e hx s s' hs]) fun _ => inferInstance
  next m => exact .read (fun s s' hs => by rw [hP.dataNames m hs]) fun _ => inferInstance
  all_goals infer_instance

theorem modest_conditionCall : Modest Q (conditionCall args) := by
  unfold conditionCall
  apply Modest.bind
  intro v
  split
  · refine .read (fun s s' hs => by rw [hP.incident _ hs]) fun s => ?_
    split <;> infer_instance
  · infer_instance

/-! ## What shows its arguments -/

theorem modest_textArg {v : Value} (hv : P v) : Modest Q (textArg v) := by
  have hformat := hP.format hv
  unfold textArg
  split <;> infer_instance

theorem modest_quosureArg (name : String) {v : Value} (hv : P v) :
    Modest Q (quosureArg name v) := by
  have hformat := hP.format hv
  unfold quosureArg
  split <;> infer_instance

theorem modest_itemText {v : Value} (hv : P v) : Modest Q (itemText v) := by
  have hformat := hP.format hv
  unfold itemText
  split <;> infer_instance

theorem modest_subscript {v : Value} (hv : P v) : Modest Q (subscript v) := by
  have hformat := hP.format hv
  unfold subscript
  split
  case h_2 => split <;> infer_instance
  all_goals infer_instance

variable (hargs : ∀ x ∈ args, P x)
include hargs

theorem modest_joinParts (sep : String) : Modest Q (joinParts sep args) := by
  have hpart : Modest Q (args.mapM partText) := by
    refine .mapM fun x hx => ?_
    have hshown := hargs x hx
    unfold partText
    split
    next v =>
      have hitems : Modest Q (v.elements.items.mapM itemText) :=
        .mapM fun y hy => modest_itemText hP (hP.operand hshown hy)
      infer_instance
    next => exact modest_itemText hP hshown
  unfold joinParts
  infer_instance

theorem modest_paste : Modest Q (paste args named) := by
  have hjoin (sep : String) := modest_joinParts hP hargs sep
  unfold paste
  infer_instance

theorem modest_paste0 : Modest Q (paste0 args) := by
  have hjoin := modest_joinParts hP hargs ""
  unfold paste0
  infer_instance

theorem modest_cat : Modest Q (cat args named) := by
  have hjoin (sep : String) := modest_joinParts hP hargs sep
  unfold cat
  infer_instance

theorem modest_message : Modest Q (message args) := by
  have hjoin := modest_joinParts hP hargs ""
  have herr (text : String) :
      Modest Q (modify fun s => { s with err := s.err ++ text ++ "\n" } : Run PUnit) :=
    .output id (· ++ text ++ "\n")
  unfold message
  infer_instance

theorem modest_print : Modest Q (print args) := by
  unfold print
  refine modest_oneArg "print" fun x hx => ?_
  have hformat := hP.format (hargs x hx)
  infer_instance

theorem modest_conditionMessage : Modest Q (conditionMessage args) := by
  unfold conditionMessage
  refine modest_oneArg "conditionMessage" fun x hx => ?_
  have hplain := hP.plainText (hargs x hx)
  split <;> infer_instance

theorem modest_asLabel : Modest Q (asLabel args) := by
  unfold asLabel
  refine modest_oneArg "as_label" fun x hx => ?_
  have hformat := hP.format (hargs x hx)
  have hlabel : Modest Q (Run.label x) := by
    unfold Run.label
    split <;> infer_instance
  infer_instance

theorem modest_quoGetExpr : Modest Q (quoGetExpr args) := by
  unfold quoGetExpr
  refine modest_oneArg "quo_get_expr" fun x hx => ?_
  have hquosure := modest_quosureArg hP "quo_get_expr" (hargs x hx)
  infer_instance

theorem modest_quoGetEnv : Modest Q (quoGetEnv args) := by
  unfold quoGetEnv
  refine modest_oneArg "quo_get_env" fun x hx => ?_
  have hquosure := modest_quosureArg hP "quo_get_env" (hargs x hx)
  infer_instance

theorem modest_quosurePredicate (name : String) (test : Expr → Bool) :
    Modest Q (quosurePredicate name test args) := by
  unfold quosurePredicate
  refine modest_oneArg name fun x hx => ?_
  have hquosure := modest_quosureArg hP name (hargs x hx)
  infer_instance

theorem modest_sym : Modest Q (sym args) := by
  unfold sym
  refine modest_oneArg "sym" fun x hx => ?_
  have htext := modest_textArg hP (hargs x hx)
  infer_instance

theorem modest_syms : Modest Q (syms args) := by
  unfold syms
  refine modest_oneArg "syms" fun x hx => ?_
  have hx := hargs x hx
  extract_lets items
  have hitems : ∀ t ∈ items, P t.item := by
    unfold items
    split
    · exact fun t ht => hP.tagged hx ht
    · intro t ht
      obtain ⟨v, hv, rfl⟩ := List.mem_map.mp ht
      exact hP.operand hx hv
  clear_value items
  have hmap : Modest Q (items.mapM fun t => do
      pure (⟨t.tag, .code (.symbol (← textArg t.item))⟩ : Tagged Value)) := .mapM fun t ht => by
    have htext := modest_textArg hP (hitems t ht)
    infer_instance
  infer_instance

end Shown

/-! ## All values are shown in one store -/

instance (v : Value) : Modest Eq (textArg v) := modest_textArg Run.shows_eq trivial

instance (v : Value) : Modest Eq (subscript v) := modest_subscript Run.shows_eq trivial

instance (sep : String) : Modest Eq (joinParts sep args) :=
  modest_joinParts Run.shows_eq (fun _ _ => trivial) sep

instance : Modest Eq (paste args named) :=
  modest_paste named Run.shows_eq fun _ _ => trivial

instance : Modest Eq (paste0 args) := modest_paste0 Run.shows_eq fun _ _ => trivial

instance : Modest Eq (cat args named) := modest_cat named Run.shows_eq fun _ _ => trivial

instance : Modest Eq (message args) := modest_message Run.shows_eq fun _ _ => trivial

instance : Modest Eq (print args) := modest_print Run.shows_eq fun _ _ => trivial

instance : Modest Eq (conditionMessage args) :=
  modest_conditionMessage Run.shows_eq fun _ _ => trivial

instance : Modest Eq (conditionCall args) := modest_conditionCall Run.shows_eq

instance : Modest Eq (asLabel args) := modest_asLabel Run.shows_eq fun _ _ => trivial

instance : Modest Eq (quoGetExpr args) := modest_quoGetExpr Run.shows_eq fun _ _ => trivial

instance : Modest Eq (quoGetEnv args) := modest_quoGetEnv Run.shows_eq fun _ _ => trivial

instance (name : String) (test : Expr → Bool) : Modest Eq (quosurePredicate name test args) :=
  modest_quosurePredicate Run.shows_eq (fun _ _ => trivial) name test

instance : Modest Eq (sym args) := modest_sym Run.shows_eq fun _ _ => trivial

instance : Modest Eq (syms args) := modest_syms Run.shows_eq fun _ _ => trivial

instance : Modest Eq (Library.length args) := modest_length fun _ _ _ _ h => h ▸ rfl

instance : Modest Eq (Library.names args) := modest_names Run.shows_eq fun _ _ _ _ h => h ▸ rfl

end Library

/-! ## Flows -/

namespace Flow

variable {F : Flow} {α : Type}

theorem holds_of_modest {Q : Store → Store → Prop} {a : Run α} (h : Modest Q a) : F.Holds a := by
  induction h with
  | value | failure | signal | identity | mask => infer_instance
  | output out err => exact .of_aside fun _ => ⟨Nat.le_refl _, rfl, rfl, rfl, rfl, rfl, rfl, rfl⟩
  | read _ _ ih => exact .andThen ih
  | andThen _ _ ha hf => exact .bind ha hf

/-- A modest run follows any flow. -/
instance (priority := low) (a : Run α) [h : Modest Eq a] : F.Holds a := holds_of_modest h

end Flow

end Quasi
